import TamagoUefi.Lib.Buffer
import TamagoUefi.Net.Ipv4

/-!
# TamagoUefi.Net.DnsNames — names on the wire (`dns.go`)

The loop of `parseDNSName` in equations, one for each thing it finds at an offset, and the names it
reads as a relation.

* `NameAt`: the labels at an offset, the offset after them and the pointers followed on the way.
* `parseDNSName_of_nameAt`: such a name is read, with no more than 16 pointers.
* `parseDNSName_encode_iff`: what `encodeDNSName` writes is read back exactly when no label of the
  name is empty.  The encoder lets an empty label through, and its zero length ends the name.
-/

namespace TamagoUefi.Net

open Go Lib

/-! ## The loop -/

section
variable {pkt : Bytes} {n off : ℕ} {b : UInt8}

-- `readName` recurses under a match on two values, for which Lean has no equations

theorem readName_zero_hops : readName pkt 0 off =
    readLabels pkt (pkt.length + 1) off >>= fun r =>
      match r.2 with
      | .zero after => .ok (r.1, after)
      | .pointer _ _ => .error .compressLoop := by
  delta readName
  change readName._f pkt Nat.zero PUnit.unit off = _
  dsimp only [readName._f]
  congr 1
  funext r
  obtain ⟨labels, e⟩ := r
  cases e with
  | zero after => rfl
  | pointer p target => rfl

theorem readName_succ_hops : readName pkt (n + 1) off =
    readLabels pkt (pkt.length + 1) off >>= fun r =>
      match r.2 with
      | .zero after => .ok (r.1, after)
      | .pointer p target => (readName pkt n target).map fun m => (r.1 ++ m.1, p + 2) := by
  delta readName
  dsimp only [Nat.brecOn, Nat.brecOn.go, readName._f]
  congr 1
  funext r
  obtain ⟨labels, e⟩ := r
  cases e with
  | zero after => rfl
  | pointer p target => rfl

theorem readName_of_error {e : DnsErr} (h : readLabels pkt (pkt.length + 1) off = .error e) :
    readName pkt n off = .error e := by
  cases n with
  | zero => rw [readName_zero_hops, h]; rfl
  | succ n => rw [readName_succ_hops, h]; rfl

theorem readName_out (h : pkt[off]? = none) : readName pkt n off = .error .badFormat := by
  apply readName_of_error
  rw [readLabels, h]

theorem readName_zero (h : pkt[off]? = some 0) : readName pkt n off = .ok ([], off + 1) := by
  have hread : readLabels pkt (pkt.length + 1) off = .ok ([], .zero (off + 1)) := by
    rw [readLabels, h]
    rfl
  cases n with
  | zero => rw [readName_zero_hops, hread]; rfl
  | succ n => rw [readName_succ_hops, hread]; rfl

section
variable (h : pkt[off]? = some b) (h0 : b ≠ 0)
include h h0

theorem readLabels_pointer (hp : b &&& 0xC0 = 0xC0) (fuel : ℕ) :
    readLabels pkt (fuel + 1) off = if pkt.length ≤ off + 1 then .error .badFormat
      else .ok ([], .pointer off (u16 pkt off &&& 0x3FFF).toNat) := by
  rw [readLabels, h]
  simp only [if_neg h0, if_pos hp]

theorem readName_pointer_short (hp : b &&& 0xC0 = 0xC0) (hlen : pkt.length ≤ off + 1) :
    readName pkt n off = .error .badFormat := by
  apply readName_of_error
  rw [readLabels_pointer h h0 hp, if_pos hlen]

theorem readName_pointer_loop (hp : b &&& 0xC0 = 0xC0) (hlen : off + 1 < pkt.length) :
    readName pkt 0 off = .error .compressLoop := by
  rw [readName_zero_hops, readLabels_pointer h h0 hp, if_neg (by omega)]
  rfl

theorem readName_pointer (hp : b &&& 0xC0 = 0xC0) (hlen : off + 1 < pkt.length) :
    readName pkt (n + 1) off =
      (readName pkt n (u16 pkt off &&& 0x3FFF).toNat).map fun r => (r.1, off + 2) := by
  rw [readName_succ_hops, readLabels_pointer h h0 hp, if_neg (by omega)]
  rfl

theorem readName_label_short (hp : ¬ b &&& 0xC0 = 0xC0) (hlen : pkt.length < b.toNat + off + 1) :
    readName pkt n off = .error .badFormat := by
  apply readName_of_error
  rw [readLabels, h]
  simp only [if_neg h0, if_neg hp, if_pos hlen]

theorem readName_label (hp : ¬ b &&& 0xC0 = 0xC0) (hlen : b.toNat + off + 1 ≤ pkt.length) :
    readName pkt n off = (readName pkt n (off + 1 + b.toNat)).map fun r =>
      ((pkt.drop (off + 1)).take b.toNat :: r.1, r.2) := by
  have hfuel := readLabels_fuel pkt 1 pkt.length (off + 1 + b.toNat) (by omega)
  have hread : readLabels pkt (pkt.length + 1) off =
      (readLabels pkt (pkt.length + 1) (off + 1 + b.toNat)).map fun r =>
        ((pkt.drop (off + 1)).take b.toNat :: r.1, r.2) := by
    rw [hfuel, readLabels, h]
    simp only [if_neg h0, if_neg hp, if_neg (by omega : ¬ pkt.length < b.toNat + off + 1)]
    cases readLabels pkt pkt.length (off + 1 + b.toNat) with
    | error e => rfl
    | ok r => rfl
  cases hrest : readLabels pkt (pkt.length + 1) (off + 1 + b.toNat) with
  | error e =>
    rw [hrest] at hread
    rw [readName_of_error hread, readName_of_error hrest]
    rfl
  | ok r =>
    obtain ⟨labels, e⟩ := r
    rw [hrest] at hread
    cases n with
    | zero =>
      rw [readName_zero_hops, readName_zero_hops, hread, hrest]
      cases e with
      | zero after => rfl
      | pointer p target => rfl
    | succ n =>
      rw [readName_succ_hops, readName_succ_hops, hread, hrest]
      cases e with
      | zero after => rfl
      | pointer p target =>
        change (readName pkt n target).map _ = ((readName pkt n target).map _).map _
        cases readName pkt n target with
        | error e => rfl
        | ok r => rfl

end

end

/-- A name ends behind its start and inside the packet, wherever its pointers lead. -/
theorem readName_after {pkt : Bytes} {n off after : ℕ} {labels : List Bytes}
    (h : readName pkt n off = .ok (labels, after)) : off < after ∧ after ≤ pkt.length := by
  cases hb : pkt[off]? with
  | none => rw [readName_out hb] at h; cases h
  | some b =>
    have hoff := (List.getElem?_eq_some_iff.mp hb).1
    by_cases h0 : b = 0
    · subst h0
      rw [readName_zero hb] at h
      cases h
      omega
    by_cases hp : b &&& 0xC0 = 0xC0
    · by_cases hlen : pkt.length ≤ off + 1
      · rw [readName_pointer_short hb h0 hp hlen] at h
        cases h
      cases n with
      | zero =>
        rw [readName_pointer_loop hb h0 hp (by omega)] at h
        cases h
      | succ n =>
        rw [readName_pointer hb h0 hp (by omega)] at h
        cases hr : readName pkt n (u16 pkt off &&& 0x3FFF).toNat with
        | error e => rw [hr] at h; cases h
        | ok r =>
          rw [hr] at h
          cases h
          omega
    · by_cases hlen : pkt.length < b.toNat + off + 1
      · rw [readName_label_short hb h0 hp hlen] at h
        cases h
      rw [readName_label hb h0 hp (by omega)] at h
      cases hr : readName pkt n (off + 1 + b.toNat) with
      | error e => rw [hr] at h; cases h
      | ok r =>
        obtain ⟨rest, last⟩ := r
        rw [hr] at h
        cases h
        have ih := readName_after hr
        omega
termination_by pkt.length - off

variable {after off : ℕ} {labels : List Bytes} {pkt : Bytes}

theorem parseDNSName_after {name : Bytes} {start : ℕ} (h : parseDNSName pkt start = .ok (name, after)) :
    start < after ∧ after ≤ pkt.length := by
  unfold parseDNSName at h
  split_ifs at h with hstart
  cases hr : readName pkt dnsMaxPointers start with
  | error e => rw [hr] at h; cases h
  | ok r =>
    obtain ⟨labels, last⟩ := r
    rw [hr] at h
    cases h
    exact readName_after hr

/-! ## Names -/

theorem u16_of_holdsAt {n : UInt16} (h : HoldsAt pkt off (putU16 n)) : u16 pkt off = n := by
  obtain ⟨pre, post, rfl, rfl⟩ := h
  rw [List.append_assoc]
  exact (u16_append pre _ 0).trans (u16_putU16 n post)

/-- A label with its length in front. -/
def encodeLabel (l : Bytes) : Bytes := UInt8.ofNat l.length :: l

/-- A pointer to an offset below `2 ^ 14`. -/
def encodePointer (target : ℕ) : Bytes := putU16 (UInt16.ofNat (0xC000 + target))

/-- A name at an offset: its labels, the offset after it, and the pointers it goes through. -/
inductive NameAt (pkt : Bytes) : ℕ → List Bytes → ℕ → ℕ → Prop
  | zero {off : ℕ} : HoldsAt pkt off [0] → NameAt pkt off [] (off + 1) 0
  | label {off after hops : ℕ} {l : Bytes} {labels : List Bytes} : l ≠ [] →
      l.length ≤ dnsMaxLabelLen → HoldsAt pkt off (encodeLabel l) →
      NameAt pkt (off + 1 + l.length) labels after hops → NameAt pkt off (l :: labels) after hops
  | pointer {off target after hops : ℕ} {labels : List Bytes} : target < 0x4000 →
      HoldsAt pkt off (encodePointer target) → NameAt pkt target labels after hops →
      NameAt pkt off labels (off + 2) (hops + 1)

theorem toNat_labelLen {l : Bytes} (h : l.length ≤ dnsMaxLabelLen) :
    (UInt8.ofNat l.length).toNat = l.length := by
  unfold dnsMaxLabelLen at h
  rw [UInt8.toNat_ofNat']
  omega

/-- The length of a label is no marker of a pointer. -/
theorem labelLen_not_marker : ∀ n, n ≤ dnsMaxLabelLen → ¬ UInt8.ofNat n &&& 0xC0 = 0xC0 := by
  decide

theorem marker_of_le : ∀ n, n < 0x40 →
    UInt8.ofNat (0xC0 + n) ≠ 0 ∧ UInt8.ofNat (0xC0 + n) &&& 0xC0 = 0xC0 := by
  decide

section
variable {target : ℕ} (h : target < 0x4000)
include h

theorem toNat_pointer : (UInt16.ofNat (0xC000 + target)).toNat = 0xC000 + target := by
  rw [UInt16.toNat_ofNat']
  omega

theorem pointer_marker : (UInt16.ofNat (0xC000 + target) >>> 8).toUInt8 =
    UInt8.ofNat (0xC0 + target / 256) := by
  apply UInt8.toNat.inj
  rw [toNat_hi, toNat_pointer h, UInt8.toNat_ofNat']
  omega

theorem pointer_target : (UInt16.ofNat (0xC000 + target) &&& 0x3FFF).toNat = target := by
  have hmod := Nat.and_two_pow_sub_one_eq_mod (0xC000 + target) 14
  rw [UInt16.toNat_and, toNat_pointer h]
  refine hmod.trans ?_
  omega

end

variable {hops : ℕ}

theorem readName_of_nameAt (h : NameAt pkt off labels after hops) :
    ∀ {n : ℕ}, hops ≤ n → readName pkt n off = .ok (labels, after) := by
  induction h with
  | zero hz =>
    intro n _
    exact readName_zero hz.head
  | @label off after hops l labels hne hlen hl _ ih =>
    intro n hn
    have htoNat := toNat_labelLen hlen
    have h0 : UInt8.ofNat l.length ≠ 0 := by
      intro h
      rw [h] at htoNat
      exact hne (List.length_eq_zero_iff.mp htoNat.symm)
    have hroom : (UInt8.ofNat l.length).toNat + off + 1 ≤ pkt.length := by
      have := hl.length_le
      simp only [encodeLabel, List.length_cons] at this
      omega
    have htext : (pkt.drop (off + 1)).take l.length = l := by
      have hparts : HoldsAt pkt off ([UInt8.ofNat l.length] ++ l) := hl
      exact hparts.append.2.slice
    rw [readName_label hl.head h0 (labelLen_not_marker _ hlen) hroom, htoNat, ih hn, htext]
    rfl
  | @pointer off target after hops labels htarget hp _ ih =>
    intro n hn
    obtain ⟨n, rfl⟩ : ∃ m, n = m + 1 := ⟨n - 1, by omega⟩
    have hfst := hp.head
    rw [pointer_marker htarget] at hfst
    obtain ⟨h0, hmark⟩ := marker_of_le (target / 256) (by omega)
    have hroom : off + 1 < pkt.length := hp.length_le
    rw [readName_pointer hfst h0 hmark hroom, u16_of_holdsAt hp, pointer_target htarget, ih (by omega)]
    rfl

theorem NameAt.off_lt (h : NameAt pkt off labels after hops) : off < pkt.length := by
  cases h with
  | zero hz => exact hz.length_le
  | label _ _ hl _ =>
    have := hl.length_le
    simp only [encodeLabel, List.length_cons] at this
    omega
  | pointer _ hp _ =>
    have : off + 2 ≤ pkt.length := hp.length_le
    omega

/-- **Names are read**: up to 16 pointers are followed. -/
theorem parseDNSName_of_nameAt (h : NameAt pkt off labels after hops) (hhops : hops ≤ dnsMaxPointers) :
    parseDNSName pkt off = .ok ((str ".").intercalate labels, after) := by
  rw [parseDNSName, if_neg (by have := h.off_lt; omega), readName_of_nameAt h hhops]
  rfl

/-! ## Encoding and reading back -/

theorem encodeDNSName_ok {name enc : Bytes} (h : encodeDNSName name = .ok enc) :
    trimDot name = [] ∧ enc = [0] ∨
      trimDot name ≠ [] ∧ (∀ l ∈ (trimDot name).splitOn '.'.toUInt8, l.length ≤ dnsMaxLabelLen) ∧
        enc = ((trimDot name).splitOn '.'.toUInt8).flatMap encodeLabel ++ [0] := by
  unfold encodeDNSName at h
  dsimp only at h
  split_ifs at h with hempty hlabel
  · exact .inl ⟨List.isEmpty_iff.mp hempty, (Except.ok.inj h).symm⟩
  · refine .inr ⟨fun hnil => hempty (List.isEmpty_iff.mpr hnil), fun l hl => ?_, (Except.ok.inj h).symm⟩
    by_contra hlong
    exact hlabel (List.any_eq_true.mpr ⟨l, hl, by simpa using hlong⟩)

/-- Labels that are not empty make a name of the packet. -/
theorem nameAt_encode : ∀ {labels : List Bytes} {off : ℕ},
    (∀ l ∈ labels, l.length ≤ dnsMaxLabelLen) → [] ∉ labels →
    HoldsAt pkt off (labels.flatMap encodeLabel ++ [0]) →
    NameAt pkt off labels (off + (labels.flatMap encodeLabel ++ [0]).length) 0
  | [], _, _, _, h => .zero h
  | l :: labels, off, hlen, hne, h => by
    rw [List.mem_cons, not_or] at hne
    rw [List.flatMap_cons, List.append_assoc] at h ⊢
    have ih := nameAt_encode (fun l hl => hlen l (List.mem_cons_of_mem _ hl)) hne.2 h.append.2
    have hstep : off + (encodeLabel l).length = off + 1 + l.length := by
      simp only [encodeLabel, List.length_cons]
      omega
    rw [List.length_append, ← Nat.add_assoc]
    refine .label (Ne.symm hne.1) (hlen l List.mem_cons_self) h.append.1 ?_
    rw [← hstep]
    exact ih

/-- An empty label is the end of the name: the packet has a shorter name there. -/
theorem nameAt_cut : ∀ {labels : List Bytes} {off : ℕ},
    (∀ l ∈ labels, l.length ≤ dnsMaxLabelLen) → [] ∈ labels →
    HoldsAt pkt off (labels.flatMap encodeLabel ++ [0]) →
    ∃ before after, NameAt pkt off before after 0 ∧
      after < off + (labels.flatMap encodeLabel ++ [0]).length
  | l :: labels, off, hlen, hmem, h => by
    rw [List.flatMap_cons, List.append_assoc] at h ⊢
    by_cases hl : l = []
    · subst hl
      refine ⟨[], off + 1, .zero h.append.1, ?_⟩
      simp [encodeLabel]
    · have hin : [] ∈ labels := (List.mem_cons.mp hmem).resolve_left (Ne.symm hl)
      obtain ⟨before, after, hat, hlt⟩ :=
        nameAt_cut (fun l hl => hlen l (List.mem_cons_of_mem _ hl)) hin h.append.2
      have hstep : off + (encodeLabel l).length = off + 1 + l.length := by
        simp only [encodeLabel, List.length_cons]
        omega
      rw [hstep] at hat
      refine ⟨l :: before, after, .label hl (hlen l List.mem_cons_self) h.append.1 hat, ?_⟩
      rw [List.length_append]
      omega

/-- **Round trip**: the encoding of a name is read back, wherever it stands, exactly when the name
is the root or has no empty label. -/
theorem parseDNSName_encode_iff (name enc pkt : Bytes) (off : ℕ)
    (henc : encodeDNSName name = .ok enc) (hat : HoldsAt pkt off enc) :
    parseDNSName pkt off = .ok (trimDot name, off + enc.length) ↔
      trimDot name = [] ∨ [] ∉ (trimDot name).splitOn '.'.toUInt8 := by
  rcases encodeDNSName_ok henc with ⟨hroot, rfl⟩ | ⟨hname, hlen, rfl⟩
  · rw [hroot]
    exact ⟨fun _ => .inl rfl, fun _ => parseDNSName_of_nameAt (.zero hat) (Nat.zero_le _)⟩
  · constructor
    · intro hparse
      refine .inr fun hmem => ?_
      obtain ⟨before, after, hcut, hlt⟩ := nameAt_cut hlen hmem hat
      rw [parseDNSName_of_nameAt hcut (Nat.zero_le _)] at hparse
      have hafter := congrArg Prod.snd (Except.ok.inj hparse)
      exact absurd hafter hlt.ne
    · intro h
      have hnot := h.resolve_left hname
      have hjoin : (str ".").intercalate ((trimDot name).splitOn '.'.toUInt8) = trimDot name :=
        List.intercalate_splitOn _
      rw [parseDNSName_of_nameAt (nameAt_encode hlen hnot hat) (Nat.zero_le _), hjoin]

/-- The name of a query, in the query. -/
theorem parseDNSName_encode_query :
    encodeDNSName (str "r.io.") = .ok [1, 114, 2, 105, 111, 0] ∧
      parseDNSName (List.replicate 12 0 ++ [1, 114, 2, 105, 111, 0] ++ [0, 1, 0, 1]) 12 =
        .ok (str "r.io", 18) := by
  have henc : encodeDNSName (str "r.io.") = .ok [1, 114, 2, 105, 111, 0] := by decide +kernel
  refine ⟨henc, ?_⟩
  have h := parseDNSName_encode_iff (str "r.io.") _
    (List.replicate 12 0 ++ [1, 114, 2, 105, 111, 0] ++ [0, 1, 0, 1]) 12 henc
    ⟨List.replicate 12 0, [0, 1, 0, 1], rfl, rfl⟩
  exact h.mpr (.inr (by decide +kernel))

/-- Two dots in a row: the query goes out for the labels in front of them. -/
theorem parseDNSName_encode_broken :
    ¬ ∀ (name enc pkt : Bytes) (off : ℕ), encodeDNSName name = .ok enc → HoldsAt pkt off enc →
      parseDNSName pkt off = .ok (trimDot name, off + enc.length) := by
  intro h
  have hab := h (str "a..b") [1, 97, 0, 1, 98, 0] [1, 97, 0, 1, 98, 0] 0 (by decide +kernel)
    ⟨[], [], rfl, rfl⟩
  exact absurd hab (by decide +kernel)

end TamagoUefi.Net
