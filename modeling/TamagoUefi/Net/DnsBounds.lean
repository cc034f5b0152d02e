import TamagoUefi.Lib.Metered
import TamagoUefi.Net.DnsNames

/-!
# TamagoUefi.Net.DnsBounds — what parsing a reply costs (`dns.go`)

The two parsers once more, as loops over the variables of the source: every index and slice can
fault, and the turns of the loops and the bytes copied are counted.  A turn over a label moves the
offset forward, a turn over a pointer uses up one of 16; that is why the loop ends.

* `refines_nameLoop`: the loop computes `readName`, at a cost of the bytes ahead for each pointer left.
* `Counted.dns_bounded`: no fault, and a number of steps bounded by the packet's length times the
  counts in its header; a name that is read ends behind its start and inside the packet.
-/

namespace TamagoUefi.Net

open Go Lib
open Lib.Metered (raise tick index slice Refines refines_pure refines_raise refines_tick refines_index refines_slice
  refines_bind refines_bind_ok)

namespace Counted

/-- `strings.Join(labels, ".")`, with the bytes it writes. -/
def joinLabels (labels : List Bytes) : Metered DnsErr Bytes := do
  let name := (str ".").intercalate labels
  tick name.length
  pure name

/-- The loop of `parseDNSName`. -/
def nameLoop (pkt : Bytes) (off : ℕ) (labels : List Bytes) (postPointer : Option ℕ) (chain : ℕ) :
    Metered DnsErr (Bytes × ℕ) := do
  tick 1
  if _hoff : pkt.length ≤ off then raise .badFormat
  else do
    let b ← index pkt off
    if b = 0 then do
      let name ← joinLabels labels
      pure (name, postPointer.getD (off + 1))
    else if b &&& 0xC0 = 0xC0 then
      if pkt.length ≤ off + 1 then raise .badFormat
      else do
        let word ← slice pkt off (off + 2)
        let ptr := (u16 word 0 &&& 0x3FFF).toNat
        if _hchain : dnsMaxPointers < chain + 1 then raise .compressLoop
        else nameLoop pkt ptr labels (some (postPointer.getD (off + 2))) (chain + 1)
    else if pkt.length < b.toNat + off + 1 then raise .badFormat
    else do
      let label ← slice pkt (off + 1) (off + 1 + b.toNat)
      tick label.length
      nameLoop pkt (off + 1 + b.toNat) (labels ++ [label]) postPointer chain
termination_by (dnsMaxPointers - chain, pkt.length - off)

def parseDNSName (pkt : Bytes) (start : ℕ) : Metered DnsErr (Bytes × ℕ) :=
  if pkt.length ≤ start then raise .badFormat else nameLoop pkt start [] none 0

def skipQuestions (pkt : Bytes) : ℕ → ℕ → Metered DnsErr ℕ
  | 0, off => pure off
  | n + 1, off => do
    tick 1
    let (_, next) ← parseDNSName pkt off
    if pkt.length < next + 4 then raise .badFormat else skipQuestions pkt n (next + 4)

def walkAnswers (pkt : Bytes) : ℕ → ℕ → Metered DnsErr Bytes
  | 0, _ => raise .emptyAnswer
  | n + 1, off => do
    tick 1
    let (_, next) ← parseDNSName pkt off
    if pkt.length < next + 10 then raise .badFormat
    else do
      let rtype ← slice pkt next (next + 2)
      let rclass ← slice pkt (next + 2) (next + 4)
      let size ← slice pkt (next + 8) (next + 10)
      let rdlen := (u16 size 0).toNat
      if pkt.length < next + 10 + rdlen then raise .badFormat
      else if u16 rtype 0 = dnsTypeA ∧ u16 rclass 0 = dnsClassIN ∧ rdlen = 4 then do
        let ip ← slice pkt (next + 10) (next + 14)
        tick ip.length
        pure ip
      else walkAnswers pkt n (next + 10 + rdlen)

def parseDNSAnswerForA (pkt : Bytes) (wantID : UInt16) : Metered DnsErr Bytes :=
  if pkt.length < dnsHeaderLen then raise .badFormat
  else do
    let gotID ← slice pkt 0 2
    if u16 gotID 0 ≠ wantID then raise .badFormat
    else do
      let flags ← slice pkt 2 4
      if u16 flags 0 &&& dnsFlagResponse = 0 then raise .badFormat
      else if u16 flags 0 &&& dnsRcodeMask ≠ 0 then raise .rcode
      else do
        let qdcount ← slice pkt 4 6
        let ancount ← slice pkt 6 8
        let off ← skipQuestions pkt (u16 qdcount 0).toNat dnsHeaderLen
        walkAnswers pkt (u16 ancount 0).toNat off

/-! ## The loop over a name -/

/-- The bytes that joining labels writes, and one more for each. -/
def spelled (labels : List Bytes) : ℕ := (labels.map (·.length + 1)).sum

theorem spelled_concat (labels : List Bytes) (l : Bytes) :
    spelled (labels ++ [l]) = spelled labels + (l.length + 1) := by
  simp [spelled]

theorem length_join_le : ∀ labels : List Bytes, ((str ".").intercalate labels).length ≤ spelled labels
  | [] => Nat.zero_le _
  | [l] => by simp [List.intercalate, spelled]
  | l :: m :: labels => by
    have ih := length_join_le (m :: labels)
    have hcons : (str ".").intercalate (l :: m :: labels) =
        l ++ (str "." ++ (str ".").intercalate (m :: labels)) := by
      simp [List.intercalate, List.intersperse]
    have hdot : (str ".").length = 1 := rfl
    have hspell : spelled (l :: m :: labels) = l.length + 1 + spelled (m :: labels) := by
      simp [spelled]
    rw [hcons, List.length_append, List.length_append, hdot, hspell]
    omega

/-- What the loop may still cost: the bytes ahead are read and written once, and the packet once more
for each pointer left. -/
def nameCost (pkt : Bytes) (off : ℕ) (labels : List Bytes) (chain : ℕ) : ℕ :=
  spelled labels + 2 * (pkt.length - off + 1) + 2 * ((dnsMaxPointers - chain) * (pkt.length + 1))

theorem nameCost_pointer {pkt : Bytes} {off chain : ℕ} (labels : List Bytes) (target : ℕ)
    (hoff : off < pkt.length) (hchain : chain < dnsMaxPointers) :
    1 + nameCost pkt target labels (chain + 1) ≤ nameCost pkt off labels chain := by
  have hleft : dnsMaxPointers - chain = dnsMaxPointers - (chain + 1) + 1 := by omega
  have hmul : (dnsMaxPointers - chain) * (pkt.length + 1) =
      (dnsMaxPointers - (chain + 1)) * (pkt.length + 1) + (pkt.length + 1) := by
    rw [hleft, Nat.add_mul, Nat.one_mul]
  unfold nameCost
  omega

theorem nameCost_label {pkt : Bytes} {off : ℕ} {l : Bytes} (labels : List Bytes) (chain : ℕ)
    (hroom : off + 1 + l.length ≤ pkt.length) :
    1 + (l.length + nameCost pkt (off + 1 + l.length) (labels ++ [l]) chain) ≤
      nameCost pkt off labels chain := by
  unfold nameCost
  rw [spelled_concat]
  omega

theorem u16_slice (pkt : Bytes) {i j : ℕ} (h : j = i + 2) :
    u16 ((pkt.drop i).take (j - i)) 0 = u16 pkt i := by
  rw [h, Nat.add_sub_cancel_left]
  simp [u16, List.getD_eq_getElem?_getD]

theorem refines_joinLabels (labels : List Bytes) :
    Refines (joinLabels labels) (.ok ((str ".").intercalate labels)) (spelled labels) :=
  refines_bind_ok (refines_tick _) (length_join_le labels) (refines_pure _)

theorem map_map {f : List Bytes × ℕ → List Bytes × ℕ} {g : List Bytes × ℕ → Bytes × ℕ}
    (x : Except DnsErr (List Bytes × ℕ)) : (x.map f).map g = x.map fun r => g (f r) := by
  cases x with
  | error e => rfl
  | ok r => rfl

/-- **The loop** reads the name that `readName` reads, with the labels and the offset it has kept. -/
theorem refines_nameLoop (pkt : Bytes) (off : ℕ) (labels : List Bytes) (postPointer : Option ℕ)
    (chain : ℕ) (hchain : chain ≤ dnsMaxPointers) :
    Refines (nameLoop pkt off labels postPointer chain)
      ((readName pkt (dnsMaxPointers - chain) off).map fun r =>
        ((str ".").intercalate (labels ++ r.1), postPointer.getD r.2))
      (nameCost pkt off labels chain) := by
  have hcost : 1 + spelled labels ≤ nameCost pkt off labels chain := by
    unfold nameCost
    omega
  rw [nameLoop]
  by_cases hoff : pkt.length ≤ off
  · rw [readName_out (List.getElem?_eq_none hoff)]
    refine refines_bind_ok (refines_tick 1) (show 1 + 0 ≤ _ by omega) ?_
    rw [dif_pos hoff]
    exact refines_raise _
  obtain ⟨b, hb⟩ : ∃ b, pkt[off]? = some b := ⟨_, List.getElem?_eq_getElem (by omega)⟩
  refine refines_bind_ok (k := nameCost pkt off labels chain - 1) (refines_tick 1)
    (by omega) ?_
  rw [dif_neg hoff]
  refine refines_index hb ?_
  split_ifs with h0 hmark hshort hloop hlong
  · -- the zero byte: what was kept is joined
    subst h0
    rw [readName_zero hb]
    refine refines_bind_ok (refines_joinLabels labels) (show _ + 0 ≤ _ by omega) ?_
    rw [Except.map, List.append_nil]
    exact refines_pure _
  · rw [readName_pointer_short hb h0 hmark hshort]
    exact refines_raise _
  · -- a pointer, and none left
    have hlast : dnsMaxPointers - chain = 0 := by omega
    rw [hlast, readName_pointer_loop hb h0 hmark (by omega)]
    exact refines_slice (by omega) (refines_raise _)
  · have hnext : dnsMaxPointers - chain = dnsMaxPointers - (chain + 1) + 1 := by omega
    have ih := refines_nameLoop pkt (u16 pkt off &&& 0x3FFF).toNat labels
      (some (postPointer.getD (off + 2))) (chain + 1) (by omega)
    have hless := nameCost_pointer labels (u16 pkt off &&& 0x3FFF).toNat
      (show off < pkt.length by omega) (show chain < dnsMaxPointers by omega)
    rw [hnext, readName_pointer hb h0 hmark (by omega), map_map]
    refine refines_slice (by omega) ?_
    rw [u16_slice pkt rfl]
    exact ih.mono (by omega)
  · rw [readName_label_short hb h0 hmark hlong]
    exact refines_raise _
  · have ih := refines_nameLoop pkt (off + 1 + b.toNat)
      (labels ++ [(pkt.drop (off + 1)).take b.toNat]) postPointer chain hchain
    have hlen : ((pkt.drop (off + 1)).take b.toNat).length = b.toNat := by
      rw [List.length_take, List.length_drop]
      omega
    have hroom : off + 1 + ((pkt.drop (off + 1)).take b.toNat).length ≤ pkt.length := by omega
    have hless := nameCost_label labels chain hroom
    rw [hlen] at hless
    rw [readName_label hb h0 hmark (by omega), map_map]
    refine refines_slice (by omega) ?_
    rw [Nat.add_sub_cancel_left, hlen]
    refine refines_bind_ok (refines_tick _) (Nat.le_sub_of_add_le' hless) ?_
    simp only [List.append_assoc, List.singleton_append] at ih
    exact ih
termination_by (dnsMaxPointers - chain, pkt.length - off)

/-! ## The two parsers -/

theorem refines_parseDNSName (pkt : Bytes) (start : ℕ) :
    Refines (parseDNSName pkt start) (Net.parseDNSName pkt start) (68 * pkt.length) := by
  unfold parseDNSName Net.parseDNSName
  split_ifs with hstart
  · exact refines_raise _
  · have h := refines_nameLoop pkt start [] none 0 (Nat.zero_le _)
    have hcost : nameCost pkt start [] 0 ≤ 68 * pkt.length := by
      simp only [nameCost, spelled, List.map_nil, List.sum_nil, dnsMaxPointers]
      omega
    have hread : (readName pkt dnsMaxPointers start >>= fun r =>
        pure ((str ".").intercalate r.1, r.2) : Except DnsErr (Bytes × ℕ)) =
        (readName pkt dnsMaxPointers start).map fun r => ((str ".").intercalate r.1, r.2) := by
      cases readName pkt dnsMaxPointers start with
      | error e => rfl
      | ok r => rfl
    refine Refines.mono ?_ hcost
    exact hread ▸ h

theorem refines_skipQuestions (pkt : Bytes) : ∀ n off : ℕ,
    Refines (skipQuestions pkt n off) (Net.skipQuestions pkt n off) (n * (68 * pkt.length + 5))
  | 0, off => (refines_pure off).mono (Nat.zero_le _)
  | n + 1, off => by
    rw [skipQuestions, Net.skipQuestions, Nat.succ_mul]
    refine refines_bind_ok (k := 68 * pkt.length + n * (68 * pkt.length + 5))
      (refines_tick 1) (by omega) ?_
    refine refines_bind (refines_parseDNSName pkt off) fun r _ => ?_
    dsimp only
    split_ifs with hshort
    · exact refines_raise _
    · exact refines_skipQuestions pkt n (r.2 + 4)

theorem refines_walkAnswers (pkt : Bytes) : ∀ n off : ℕ,
    Refines (walkAnswers pkt n off) (Net.walkAnswers pkt n off) (n * (68 * pkt.length + 5))
  | 0, _ => refines_raise _
  | n + 1, off => by
    rw [walkAnswers, Net.walkAnswers, Nat.succ_mul]
    refine refines_bind_ok (k := 68 * pkt.length + (n * (68 * pkt.length + 5) + 4))
      (refines_tick 1) (by omega) ?_
    refine refines_bind (refines_parseDNSName pkt off) fun r _ => ?_
    obtain ⟨name, next⟩ := r
    dsimp only
    by_cases hshort : pkt.length < next + 10
    · rw [if_pos hshort, if_pos hshort]
      exact refines_raise _
    rw [if_neg hshort, if_neg hshort]
    -- the three fields, each inside the packet
    refine refines_slice (by omega) ?_
    refine refines_slice (by omega) ?_
    refine refines_slice (by omega) ?_
    rw [u16_slice pkt rfl, u16_slice pkt rfl, u16_slice pkt rfl]
    split_ifs with hlong hA
    · exact refines_raise _
    · have hlen : ((pkt.drop (next + 10)).take (next + 14 - (next + 10))).length ≤ 4 := by
        rw [List.length_take]
        omega
      have hdata : next + 14 - (next + 10) = 4 := by omega
      refine refines_slice (by omega) ?_
      refine refines_bind_ok (refines_tick _) (show _ + 0 ≤ _ by omega) ?_
      rw [hdata]
      exact refines_pure _
    · exact (refines_walkAnswers pkt n _).mono (Nat.le_add_right _ _)

theorem refines_parseDNSAnswerForA (pkt : Bytes) (id : UInt16) :
    Refines (parseDNSAnswerForA pkt id) (Net.parseDNSAnswerForA pkt id)
      (69 * pkt.length * ((u16 pkt 4).toNat + (u16 pkt 6).toNat)) := by
  unfold parseDNSAnswerForA Net.parseDNSAnswerForA
  by_cases hshort : pkt.length < dnsHeaderLen
  · rw [if_pos hshort, if_pos hshort]
    exact refines_raise _
  have hlen : 12 ≤ pkt.length := Nat.le_of_not_lt hshort
  rw [if_neg hshort, if_neg hshort]
  refine refines_slice (by omega) ?_
  rw [u16_slice pkt rfl]
  by_cases hid : u16 pkt 0 ≠ id
  · rw [if_pos hid, if_pos hid]
    exact refines_raise _
  rw [if_neg hid, if_neg hid]
  refine refines_slice (by omega) ?_
  rw [u16_slice pkt rfl]
  split_ifs with hquery hrcode
  · exact refines_raise _
  · exact refines_raise _
  refine refines_slice (by omega) ?_
  refine refines_slice (by omega) ?_
  rw [u16_slice pkt rfl, u16_slice pkt rfl]
  have hrecord : 68 * pkt.length + 5 ≤ 69 * pkt.length := by omega
  refine Refines.mono (refines_bind (refines_skipQuestions pkt _ _)
    fun off _ => refines_walkAnswers pkt _ off) ?_
  rw [← Nat.add_mul, Nat.mul_comm]
  exact Nat.mul_le_mul_right _ hrecord

/-- **Bounds**: whatever the packet, the start and the ID, both parsers end without an index or a
slice outside the packet, after steps bounded by its length and the counts in its header; and a name
that is read ends behind its start, inside the packet. -/
theorem dns_bounded (pkt : Bytes) (start : ℕ) (id : UInt16) :
    (parseDNSName pkt start).ending ≠ .fault ∧
    (parseDNSName pkt start).steps ≤ 68 * pkt.length ∧
    (∀ name after, (parseDNSName pkt start).ending = .ok (name, after) →
      start < after ∧ after ≤ pkt.length) ∧
    (parseDNSAnswerForA pkt id).ending ≠ .fault ∧
    (parseDNSAnswerForA pkt id).steps ≤
      69 * pkt.length * ((u16 pkt 4).toNat + (u16 pkt 6).toNat) := by
  have hname := refines_parseDNSName pkt start
  have hanswer := refines_parseDNSAnswerForA pkt id
  refine ⟨hname.no_fault, hname.steps, ?_, hanswer.no_fault, hanswer.steps⟩
  intro name after h
  exact parseDNSName_after (hname.ending_ok h)

-- a pointer at itself is followed 16 times
example : (parseDNSName [0xC0, 0] 0).ending = .error .compressLoop := by
  have h : Net.parseDNSName [0xC0, 0] 0 = .error .compressLoop := by decide +kernel
  rw [(refines_parseDNSName _ _).ending, h]

end Counted

end TamagoUefi.Net
