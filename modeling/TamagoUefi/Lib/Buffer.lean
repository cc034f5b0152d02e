import Mathlib.Data.List.Basic
import Mathlib.Tactic.Ring

/-!
# TamagoUefi.Lib.Buffer — ranges of a buffer, and numbers in them

`readAt` reads a range of a list and `writeAt` overwrites one.  A range reads as what was written to
it last: `readAt_writeAt_inside`, `readAt_writeAt_disjoint`, and for many writes `readAt_writeAll`.

`HoldsAt` says that a list has given elements at an offset; it splits along `++`.

`leNat` is the number that bytes hold in little-endian order and `leBytes` its inverse.
-/

namespace TamagoUefi.Lib

section
variable {α : Type}

def readAt (b : List α) (off n : ℕ) : List α := (b.drop off).take n

def writeAt (b : List α) (off : ℕ) (src : List α) : List α :=
  b.take off ++ (src ++ b.drop (off + src.length))

variable {b src : List α} {off o n m : ℕ}

theorem length_readAt (h : off + n ≤ b.length) : (readAt b off n).length = n := by
  rw [readAt, List.length_take, List.length_drop]
  omega

theorem length_writeAt (h : off + src.length ≤ b.length) : (writeAt b off src).length = b.length := by
  simp only [writeAt, List.length_append, List.length_take, List.length_drop]
  omega

theorem getElem?_readAt (b : List α) (off n i : ℕ) :
    (readAt b off n)[i]? = if i < n then b[off + i]? else none := by
  rw [readAt, List.getElem?_take, List.getElem?_drop]

theorem getElem?_writeAt (h : off + src.length ≤ b.length) (i : ℕ) :
    (writeAt b off src)[i]? = if off ≤ i ∧ i < off + src.length then src[i - off]? else b[i]? := by
  have htake : (b.take off).length = off := by
    rw [List.length_take]
    omega
  rw [writeAt, List.getElem?_append, htake]
  by_cases h₁ : i < off
  · rw [if_pos h₁, List.getElem?_take, if_pos h₁, if_neg (by omega)]
  · rw [if_neg h₁, List.getElem?_append]
    by_cases h₂ : i - off < src.length
    · rw [if_pos h₂, if_pos (by omega)]
    · rw [if_neg h₂, if_neg (by omega), List.getElem?_drop]
      congr 1
      omega

theorem readAt_readAt (b : List α) (h : o + n ≤ m) : readAt (readAt b off m) o n = readAt b (off + o) n := by
  refine List.ext_getElem? fun i => ?_
  rw [getElem?_readAt, getElem?_readAt, getElem?_readAt]
  by_cases hi : i < n
  · rw [if_pos hi, if_pos hi, if_pos (by omega), Nat.add_assoc]
  · rw [if_neg hi, if_neg hi]

theorem readAt_writeAt_inside (h : off + src.length ≤ b.length) (hn : o + n ≤ src.length) :
    readAt (writeAt b off src) (off + o) n = readAt src o n := by
  refine List.ext_getElem? fun i => ?_
  rw [getElem?_readAt, getElem?_readAt, getElem?_writeAt h]
  by_cases hi : i < n
  · rw [if_pos hi, if_pos hi, if_pos (by omega)]
    congr 1
    omega
  · rw [if_neg hi, if_neg hi]

theorem readAt_middle (a b c : List α) : readAt (a ++ (b ++ c)) a.length b.length = b := by
  rw [readAt, List.drop_left, List.take_left]

theorem readAt_of_eq {a b c x : List α} (h : b = a ++ (x ++ c)) (hoff : a.length = off) (hn : x.length = n) :
    readAt b off n = x := by
  rw [h, ← hoff, ← hn]
  exact readAt_middle a x c

theorem length_flatten {cs : List (List α)} (h : ∀ c ∈ cs, c.length = n) : cs.flatten.length = cs.length * n := by
  induction cs with
  | nil => exact (Nat.zero_mul n).symm
  | cons c cs ih =>
    rw [List.forall_mem_cons] at h
    rw [List.flatten_cons, List.length_append, h.1, ih h.2, List.length_cons, Nat.succ_mul, Nat.add_comm]

theorem readAt_flatten {cs : List (List α)} (h : ∀ c ∈ cs, c.length = n) {i : ℕ} (hi : i < cs.length) :
    readAt cs.flatten (i * n) n = cs[i] := by
  have hfront : ((cs.take i).flatten).length = i * n := by
    rw [length_flatten fun c hc => h c (List.mem_of_mem_take hc), List.length_take_of_le hi.le]
  refine readAt_of_eq (a := (cs.take i).flatten) (c := (cs.drop (i + 1)).flatten) ?_ hfront (h _ (List.getElem_mem hi))
  rw [← List.flatten_cons, ← List.drop_eq_getElem_cons hi, ← List.flatten_append, List.take_append_drop]

theorem readAt_writeAt (h : off + src.length ≤ b.length) : readAt (writeAt b off src) off src.length = src :=
  (readAt_writeAt_inside (o := 0) h (Nat.zero_add _).le).trans List.take_length

theorem readAt_writeAt_disjoint (h : off + src.length ≤ b.length)
    (hn : o + n ≤ off ∨ off + src.length ≤ o) : readAt (writeAt b off src) o n = readAt b o n := by
  refine List.ext_getElem? fun i => ?_
  rw [getElem?_readAt, getElem?_readAt, getElem?_writeAt h]
  by_cases hi : i < n
  · rw [if_pos hi, if_pos hi, if_neg (by omega)]
  · rw [if_neg hi, if_neg hi]

theorem writeAt_append (a b v : List α) : writeAt (a ++ b) a.length v = a ++ (v ++ b.drop v.length) := by
  rw [writeAt, List.take_left, List.drop_length_add_append]

theorem readAt_writeAt_around (h : off + src.length ≤ b.length) (h₁ : o ≤ off)
    (h₂ : off + src.length ≤ o + n) (h₃ : o + n ≤ b.length) :
    readAt (writeAt b off src) o n = writeAt (readAt b o n) (off - o) src := by
  have hread : off - o + src.length ≤ (readAt b o n).length := by
    rw [length_readAt h₃]
    omega
  refine List.ext_getElem? fun i => ?_
  rw [getElem?_readAt, getElem?_writeAt h, getElem?_writeAt hread, getElem?_readAt]
  by_cases hi : i < n
  · rw [if_pos hi]
    by_cases hin : off ≤ o + i ∧ o + i < off + src.length
    · rw [if_pos hin, if_pos (by omega)]
      congr 1
      omega
    · rw [if_neg hin, if_neg (by omega), if_pos hi]
  · rw [if_neg hi, if_neg (by omega), if_neg hi]

theorem writeAt_writeAt {src' : List α} (h : off + src.length ≤ b.length) (hlen : src'.length = src.length) :
    writeAt (writeAt b off src) off src' = writeAt b off src' := by
  refine List.ext_getElem? fun i => ?_
  rw [getElem?_writeAt (by rw [length_writeAt h, hlen]; exact h), getElem?_writeAt h,
    getElem?_writeAt (by rw [hlen]; exact h)]
  by_cases hi : off ≤ i ∧ i < off + src'.length
  · rw [if_pos hi, if_pos hi]
  · rw [if_neg hi, if_neg hi, if_neg (by omega)]

theorem writeAt_comm {src' : List α} (h : off + src.length ≤ b.length) (h' : o + src'.length ≤ b.length)
    (hapart : off + src.length ≤ o ∨ o + src'.length ≤ off) :
    writeAt (writeAt b off src) o src' = writeAt (writeAt b o src') off src := by
  refine List.ext_getElem? fun i => ?_
  rw [getElem?_writeAt (by rwa [length_writeAt h]), getElem?_writeAt h,
    getElem?_writeAt (by rwa [length_writeAt h']), getElem?_writeAt h']
  by_cases hi : off ≤ i ∧ i < off + src.length
  · rw [if_pos hi, if_pos hi, if_neg (by omega)]
  · rw [if_neg hi, if_neg hi]

theorem writeAt_readAt (h : off + n ≤ b.length) : writeAt b off (readAt b off n) = b := by
  refine List.ext_getElem? fun i => ?_
  rw [getElem?_writeAt (by rw [length_readAt h]; exact h), length_readAt h]
  by_cases hi : off ≤ i ∧ i < off + n
  · rw [if_pos hi, getElem?_readAt, if_pos (by omega)]
    congr 1
    omega
  · rw [if_neg hi]

theorem readAt_replicate (a : α) (h : off + n ≤ m) :
    readAt (List.replicate m a) off n = List.replicate n a := by
  rw [readAt, List.drop_replicate, List.take_replicate]
  congr 1
  omega

theorem writeAt_replicate (a : α) (h : off + n ≤ m) :
    writeAt (List.replicate m a) off (List.replicate n a) = List.replicate m a := by
  have hfits : off + n ≤ (List.replicate m a).length := by rwa [List.length_replicate]
  have hwrite := writeAt_readAt hfits
  rwa [readAt_replicate a h] at hwrite

/-! ## Writes one after the other -/

/-- A write is a place and what is put there. -/
def writeAll (b : List α) (ws : List (ℕ × List α)) : List α := ws.foldl (fun b w => writeAt b w.1 w.2) b

theorem writeAll_nil (b : List α) : writeAll b [] = b := rfl

theorem writeAll_cons (b : List α) (off : ℕ) (v : List α) (ws : List (ℕ × List α)) :
    writeAll b ((off, v) :: ws) = writeAll (writeAt b off v) ws := rfl

theorem writeAll_append (b : List α) (ws ws' : List (ℕ × List α)) :
    writeAll b (ws ++ ws') = writeAll (writeAll b ws) ws' := List.foldl_append

def extent (w : ℕ × List α) : ℕ × ℕ := (w.1, w.2.length)

/-- Two ranges, given by their beginnings and lengths. -/
def Apart (r r' : ℕ × ℕ) : Prop := r.1 + r.2 ≤ r'.1 ∨ r'.1 + r'.2 ≤ r.1

instance (r r' : ℕ × ℕ) : Decidable (Apart r r') := inferInstanceAs (Decidable (_ ∨ _))

/-- The ranges are in a buffer of length `n` and do not overlap. -/
def Placed (n : ℕ) (rs : List (ℕ × ℕ)) : Prop := (∀ r ∈ rs, r.1 + r.2 ≤ n) ∧ rs.Pairwise Apart

instance (n : ℕ) (rs : List (ℕ × ℕ)) : Decidable (Placed n rs) := inferInstanceAs (Decidable (_ ∧ _))

variable {ws : List (ℕ × List α)}

theorem Placed.left {n : ℕ} {rs rs' : List (ℕ × ℕ)} (h : Placed n (rs ++ rs')) : Placed n rs :=
  ⟨fun r hr => h.1 r (List.mem_append_left _ hr), (List.pairwise_append.mp h.2).1⟩

/-- Ranges between two offsets that do not overlap. -/
def Between (lo hi : ℕ) (rs : List (ℕ × ℕ)) : Prop := (∀ r ∈ rs, lo ≤ r.1 ∧ r.1 + r.2 ≤ hi) ∧ rs.Pairwise Apart

namespace Between
variable {lo m hi : ℕ} {rs rs' : List (ℕ × ℕ)}

theorem placed (h : Between lo hi rs) : Placed hi rs := ⟨fun r hr => (h.1 r hr).2, h.2⟩

/-- Ranges on either side of an offset. -/
theorem append (h : Between lo m rs) (h' : Between m hi rs') (hlo : lo ≤ m) (hhi : m ≤ hi) :
    Between lo hi (rs ++ rs') := by
  refine ⟨?_, List.pairwise_append.mpr ⟨h.2, h'.2, ?_⟩⟩
  · intro r hr
    rcases List.mem_append.mp hr with hr | hr
    · exact ⟨(h.1 r hr).1, (h.1 r hr).2.trans hhi⟩
    · exact ⟨hlo.trans (h'.1 r hr).1, (h'.1 r hr).2⟩
  · intro r hr r' hr'
    exact .inl ((h.1 r hr).2.trans (h'.1 r' hr').1)

theorem option {v : Option (List α)} (h : ∀ b, v = some b → lo ≤ off ∧ off + b.length ≤ hi) :
    Between lo hi ((v.toList.map fun b => (off, b)).map extent) := by
  cases v with
  | none => exact ⟨fun r hr => absurd hr List.not_mem_nil, .nil⟩
  | some b =>
    refine ⟨fun r hr => ?_, List.pairwise_singleton _ _⟩
    rw [List.mem_singleton.mp hr]
    exact h b rfl

end Between

theorem length_writeAll (h : ∀ r ∈ ws.map extent, r.1 + r.2 ≤ b.length) :
    (writeAll b ws).length = b.length := by
  induction ws generalizing b with
  | nil => rfl
  | cons w ws ih =>
    rw [List.map_cons, List.forall_mem_cons] at h
    have hlen := length_writeAt (b := b) h.1
    exact (ih fun r hr => hlen ▸ h.2 r hr).trans hlen

theorem readAt_writeAll_apart (hfit : ∀ r ∈ ws.map extent, r.1 + r.2 ≤ b.length)
    (hapart : ∀ r ∈ ws.map extent, Apart r (o, n)) : readAt (writeAll b ws) o n = readAt b o n := by
  induction ws generalizing b with
  | nil => rfl
  | cons w ws ih =>
    rw [List.map_cons, List.forall_mem_cons] at hfit hapart
    have hlen := length_writeAt (b := b) hfit.1
    exact (ih (fun r hr => hlen ▸ hfit.2 r hr) hapart.2).trans
      (readAt_writeAt_disjoint hfit.1 hapart.1.symm)

/-- A write commutes with those that it does not touch. -/
theorem writeAt_writeAll {v : List α} (hfit : ∀ r ∈ ws.map extent, r.1 + r.2 ≤ b.length)
    (hv : o + v.length ≤ b.length) (hapart : ∀ r ∈ ws.map extent, Apart r (o, v.length)) :
    writeAt (writeAll b ws) o v = writeAll (writeAt b o v) ws := by
  induction ws generalizing b with
  | nil => rfl
  | cons w ws ih =>
    rw [List.map_cons, List.forall_mem_cons] at hfit hapart
    have hlen := length_writeAt (b := b) hfit.1
    have hrest := ih (b := writeAt b w.1 w.2) (fun r hr => hlen ▸ hfit.2 r hr) (hv.trans hlen.ge) hapart.2
    exact hrest.trans (congrArg (fun b => writeAll b ws) (writeAt_comm hfit.1 hv hapart.1))

/-- A write over one of many replaces it. -/
theorem writeAt_writeAll_replace (ws ws' : List (ℕ × List α)) {v v' : List α}
    (h : Placed b.length ((ws ++ (o, v) :: ws').map extent)) (hlen : v'.length = v.length) :
    writeAt (writeAll b (ws ++ (o, v) :: ws')) o v' = writeAll b (ws ++ (o, v') :: ws') := by
  rw [List.map_append, List.map_cons] at h
  have hfit := (List.forall_mem_cons.mp fun r hr => h.1 r (List.mem_append_right _ hr))
  have hapart := (List.pairwise_cons.mp (List.pairwise_append.mp h.2).2.1).1
  have hlen₁ : (writeAll b ws).length = b.length :=
    length_writeAll fun r hr => h.1 r (List.mem_append_left _ hr)
  have hv : o + v.length ≤ (writeAll b ws).length := by
    rw [hlen₁]
    exact hfit.1
  have hv' : o + v'.length ≤ (writeAt (writeAll b ws) o v).length := by
    rw [length_writeAt hv, hlen]
    exact hv
  rw [writeAll_append, writeAll_append, writeAll_cons, writeAll_cons, writeAt_writeAll _ hv',
    writeAt_writeAt hv hlen]
  · intro r hr
    rw [hlen]
    exact (hapart r hr).symm
  · intro r hr
    rw [length_writeAt hv, hlen₁]
    exact hfit.2 r hr

/-- **What was written is read**, if the writes do not overlap. -/
theorem readAt_writeAll (h : Placed b.length (ws.map extent)) {w : ℕ × List α} (hw : w ∈ ws) :
    readAt (writeAll b ws) w.1 w.2.length = w.2 := by
  induction ws generalizing b with
  | nil => cases hw
  | cons v ws ih =>
    obtain ⟨hfit, hapart⟩ := h
    rw [List.map_cons, List.forall_mem_cons] at hfit
    rw [List.map_cons, List.pairwise_cons] at hapart
    have hlen := length_writeAt (b := b) hfit.1
    have hfit' : ∀ r ∈ ws.map extent, r.1 + r.2 ≤ (writeAt b v.1 v.2).length := fun r hr => hlen ▸ hfit.2 r hr
    rcases List.mem_cons.mp hw with rfl | hw
    · exact (readAt_writeAll_apart hfit' fun r hr => (hapart.1 r hr).symm).trans (readAt_writeAt hfit.1)
    · exact ih ⟨hfit', hapart.2⟩ hw

end

/-! ## Elements at an offset -/

section
variable {α : Type} {b src : List α} {off : ℕ}

def HoldsAt (b : List α) (off : ℕ) (src : List α) : Prop :=
  ∃ pre post, b = pre ++ src ++ post ∧ pre.length = off

theorem holdsAt_iff : HoldsAt b off src ↔ off ≤ b.length ∧ src <+: b.drop off := by
  constructor
  · rintro ⟨pre, post, rfl, rfl⟩
    exact ⟨by simp, post, by simp⟩
  · rintro ⟨hle, post, hpost⟩
    refine ⟨b.take off, post, ?_, List.length_take_of_le hle⟩
    rw [List.append_assoc, hpost, List.take_append_drop]

instance [DecidableEq α] (b : List α) (off : ℕ) (src : List α) : Decidable (HoldsAt b off src) :=
  decidable_of_iff _ holdsAt_iff.symm

namespace HoldsAt

theorem drop (h : HoldsAt b off src) : ∃ post, b.drop off = src ++ post := by
  obtain ⟨pre, post, rfl, rfl⟩ := h
  exact ⟨post, by simp⟩

theorem length_le (h : HoldsAt b off src) : off + src.length ≤ b.length := by
  obtain ⟨pre, post, rfl, rfl⟩ := h
  simp

theorem head {a : α} {rest : List α} (h : HoldsAt b off (a :: rest)) : b[off]? = some a := by
  obtain ⟨post, hpost⟩ := h.drop
  have hget : b[off]? = (b.drop off)[0]? := by simp
  rw [hget, hpost]
  rfl

theorem slice (h : HoldsAt b off src) : (b.drop off).take src.length = src := by
  obtain ⟨post, hpost⟩ := h.drop
  simp [hpost]

/-- What is held at an offset is held piece by piece. -/
theorem append {more : List α} (h : HoldsAt b off (src ++ more)) :
    HoldsAt b off src ∧ HoldsAt b (off + src.length) more := by
  obtain ⟨pre, post, rfl, rfl⟩ := h
  exact ⟨⟨pre, more ++ post, by simp, rfl⟩, ⟨pre ++ src, post, by simp, by simp⟩⟩

end HoldsAt

end

/-! ## Numbers -/

def leNat : List UInt8 → ℕ
  | [] => 0
  | b :: t => b.toNat + 256 * leNat t

theorem leNat_lt (b : List UInt8) : leNat b < 256 ^ b.length := by
  induction b with
  | nil => exact Nat.one_pos
  | cons c t ih =>
    have hc := c.toNat_lt
    rw [leNat, List.length_cons, Nat.pow_succ]
    omega

/-- The lowest `n` bytes of a number. -/
def leBytes : ℕ → ℕ → List UInt8
  | 0, _ => []
  | n + 1, v => UInt8.ofNat v :: leBytes n (v / 256)

theorem length_leBytes (n v : ℕ) : (leBytes n v).length = n := by
  induction n generalizing v with
  | zero => rfl
  | succ n ih => rw [leBytes, List.length_cons, ih]

theorem leNat_leBytes {n v : ℕ} (h : v < 256 ^ n) : leNat (leBytes n v) = v := by
  induction n generalizing v with
  | zero =>
    rw [Nat.pow_zero] at h
    rw [leBytes, leNat]
    omega
  | succ n ih =>
    have hdiv : v / 256 < 256 ^ n := Nat.div_lt_of_lt_mul (by rw [Nat.pow_succ] at h; omega)
    rw [leBytes, leNat, ih hdiv, UInt8.toNat_ofNat']
    omega

end TamagoUefi.Lib
