import Mathlib.Algebra.Group.Nat.Defs
import Mathlib.Data.List.Basic
import Mathlib.Data.Nat.Basic
import Mathlib.Logic.Function.Basic

/-!
# TamagoUefi.Lib.Memory — ranges of a memory with wrapping addresses

A memory gives a value for every address of `w` bits.  `load` reads the cells behind an address and
`fill` writes them; a range may go round the end of the memory.

`copyForward` is the loop that copies one cell after the other, from the first to the last.  When the
destination lies a little behind the source, the loop reads cells that it has already written:
`copyForward_exact_iff` says when that does not matter.
-/

namespace TamagoUefi.Lib

variable {w : ℕ} {α : Type}

theorem offset_inj {a : BitVec w} {i j : ℕ} (hi : i < 2 ^ w) (hj : j < 2 ^ w)
    (h : a + BitVec.ofNat w i = a + BitVec.ofNat w j) : i = j := by
  have h' : BitVec.ofNat w i = BitVec.ofNat w j := (BitVec.add_right_inj a).mp h
  have hnat := congrArg BitVec.toNat h'
  rwa [BitVec.toNat_ofNat, BitVec.toNat_ofNat, Nat.mod_eq_of_lt hi, Nat.mod_eq_of_lt hj] at hnat

/-! ## Ranges -/

/-- The `n` cells at an address. -/
def load (m : BitVec w → α) (a : BitVec w) (n : ℕ) : List α :=
  (List.range n).map fun i => m (a + BitVec.ofNat w i)

/-- The memory with `f 0`, …, `f (n - 1)` in the cells at an address. -/
def fill (m : BitVec w → α) (a : BitVec w) (n : ℕ) (f : ℕ → α) : BitVec w → α := fun b =>
  if (b - a).toNat < n then f (b - a).toNat else m b

section
variable {m : BitVec w → α} {a b : BitVec w} {f g : ℕ → α} {n k l : ℕ}

theorem length_load : (load m a n).length = n := by
  rw [load, List.length_map, List.length_range]

theorem load_add : load m a (k + l) = load m a k ++ load m (a + BitVec.ofNat w k) l := by
  have hshift : ∀ i, a + BitVec.ofNat w (k + i) = a + BitVec.ofNat w k + BitVec.ofNat w i := fun i => by
    rw [BitVec.ofNat_add, BitVec.add_assoc]
  rw [load, List.range_add, List.map_append, List.map_map]
  simp only [Function.comp_def, hshift]
  rfl

/-- A list that is found in the memory is found piece by piece. -/
theorem load_eq_append {s t : List α} (h : load m a (s ++ t).length = s ++ t) :
    load m a s.length = s ∧ load m (a + BitVec.ofNat w s.length) t.length = t := by
  rw [List.length_append, load_add] at h
  exact List.append_inj h length_load

theorem fill_zero : fill m a 0 f = m := by
  funext b
  exact if_neg (Nat.not_lt_zero _)

theorem distance (a : BitVec w) (h : k < 2 ^ w) : (a + BitVec.ofNat w k - a).toNat = k := by
  rw [BitVec.add_comm, BitVec.add_sub_cancel, BitVec.toNat_ofNat, Nat.mod_eq_of_lt h]

theorem eq_add_distance (a b : BitVec w) : b = a + BitVec.ofNat w (b - a).toNat := by
  rw [BitVec.ofNat_toNat, BitVec.setWidth_eq, BitVec.add_comm, BitVec.sub_add_cancel]

theorem update_fill (h : n < 2 ^ w) :
    Function.update (fill m a n f) (a + BitVec.ofNat w n) (f n) = fill m a (n + 1) f := by
  funext b
  by_cases hb : b = a + BitVec.ofNat w n
  · rw [hb, Function.update_self, fill, distance a h, if_pos (Nat.lt_succ_self n)]
  · have hne : (b - a).toNat ≠ n := fun heq => hb (heq ▸ eq_add_distance a b)
    rw [Function.update_of_ne hb, fill, fill]
    by_cases hlt : (b - a).toNat < n
    · rw [if_pos hlt, if_pos (Nat.lt_succ_of_lt hlt)]
    · rw [if_neg hlt, if_neg (by omega)]

theorem fill_congr (h : ∀ i < n, f i = g i) : fill m a n f = fill m a n g := by
  funext b
  rw [fill, fill]
  by_cases hb : (b - a).toNat < n
  · rw [if_pos hb, if_pos hb, h _ hb]
  · rw [if_neg hb, if_neg hb]

theorem fill_get (h : n ≤ 2 ^ w) (hk : k < n) : fill m a n f (a + BitVec.ofNat w k) = f k := by
  rw [fill, distance a (by omega), if_pos hk]

theorem fill_of_ne (h : ∀ k < n, b ≠ a + BitVec.ofNat w k) : fill m a n f b = m b :=
  if_neg fun hlt => h _ hlt (eq_add_distance a b)

theorem fill_fill (h : k + l ≤ 2 ^ w) :
    fill (fill m a k f) (a + BitVec.ofNat w k) l (fun i => f (k + i)) = fill m a (k + l) f := by
  induction l with
  | zero => rw [fill_zero, Nat.add_zero]
  | succ l ih =>
    have hcell : a + BitVec.ofNat w k + BitVec.ofNat w l = a + BitVec.ofNat w (k + l) := by
      rw [BitVec.ofNat_add, BitVec.add_assoc]
    rw [← update_fill (by omega), ih (by omega), hcell, update_fill (by omega), Nat.add_assoc]

theorem load_fill (h : n ≤ 2 ^ w) : load (fill m a n f) a n = (List.range n).map f :=
  List.map_congr_left fun _ hi => fill_get h (List.mem_range.mp hi)

end

/-! ## Copying -/

/-- The loop after `n` rounds. -/
def copyForward (m : BitVec w → α) (dst src : BitVec w) : ℕ → BitVec w → α
  | 0 => m
  | n + 1 =>
    let m' := copyForward m dst src n
    Function.update m' (dst + BitVec.ofNat w n) (m' (src + BitVec.ofNat w n))

section
variable {m : BitVec w → α} {dst src : BitVec w}

/-- Nothing is written outside the destination. -/
theorem copyForward_of_ne {a : BitVec w} {n : ℕ} (h : ∀ i < n, a ≠ dst + BitVec.ofNat w i) :
    copyForward m dst src n a = m a := by
  induction n with
  | zero => rfl
  | succ n ih =>
    rw [copyForward, Function.update_of_ne (h n (Nat.lt_succ_self n))]
    exact ih fun i hi => h i (Nat.lt_succ_of_lt hi)

/-- A cell is written in its own round and not again. -/
theorem copyForward_get {n k : ℕ} (hn : n ≤ 2 ^ w) (hk : k < n) :
    copyForward m dst src n (dst + BitVec.ofNat w k) = copyForward m dst src k (src + BitVec.ofNat w k) := by
  induction n with
  | zero => omega
  | succ n ih =>
    rw [copyForward]
    rcases Nat.lt_succ_iff_lt_or_eq.mp hk with hlt | rfl
    · rw [Function.update_of_ne fun h => absurd (offset_inj (by omega) (by omega) h) (by omega)]
      exact ih (by omega) hlt
    · rw [Function.update_self]

theorem offset_eq (src a : BitVec w) (k : ℕ) :
    a + BitVec.ofNat w k = src + BitVec.ofNat w ((a - src).toNat + k) := by
  rw [BitVec.ofNat_add, BitVec.ofNat_toNat, BitVec.setWidth_eq, ← BitVec.add_assoc,
    BitVec.add_comm src, BitVec.sub_add_cancel]

/-- **When the copy is exact**: the cells of the source that are overwritten before they are read
hold what they are overwritten with. -/
theorem copyForward_exact_iff (m : BitVec w → α) (dst src : BitVec w) {n : ℕ} (hn : n ≤ 2 ^ w) :
    (∀ k < n, copyForward m dst src n (dst + BitVec.ofNat w k) = m (src + BitVec.ofNat w k)) ↔
      ∀ k, k + (dst - src).toNat < n → m (dst + BitVec.ofNat w k) = m (src + BitVec.ofNat w k) := by
  have hd : (dst - src).toNat < 2 ^ w := (dst - src).isLt
  constructor
  · intro hexact k hk
    rcases Nat.eq_zero_or_pos (dst - src).toNat with h0 | hpos
    · have hsame := offset_eq src dst k
      rw [h0, Nat.zero_add] at hsame
      rw [hsame]
    · -- the round of `k + d` reads the cell that the round of `k` has written
      have hcell := offset_eq src dst k
      calc m (dst + BitVec.ofNat w k)
          = m (src + BitVec.ofNat w ((dst - src).toNat + k)) := by rw [hcell]
        _ = copyForward m dst src n (dst + BitVec.ofNat w ((dst - src).toNat + k)) :=
          (hexact _ (by omega)).symm
        _ = copyForward m dst src ((dst - src).toNat + k) (dst + BitVec.ofNat w k) := by
          rw [copyForward_get hn (by omega), hcell]
        _ = copyForward m dst src k (src + BitVec.ofNat w k) := copyForward_get (by omega) (by omega)
        _ = copyForward m dst src n (dst + BitVec.ofNat w k) := (copyForward_get hn (by omega)).symm
        _ = m (src + BitVec.ofNat w k) := hexact k (by omega)
  · intro hsame k
    induction k using Nat.strong_induction_on with
    | _ k ih =>
      intro hk
      rw [copyForward_get hn hk]
      by_cases hread : ∃ j < k, src + BitVec.ofNat w k = dst + BitVec.ofNat w j
      · obtain ⟨j, hj, hcell⟩ := hread
        have hsum : k = j + (dst - src).toNat := by
          have hmod := (hcell.trans (offset_eq src dst j))
          have hnat := congrArg BitVec.toNat ((BitVec.add_right_inj src).mp hmod)
          rw [BitVec.toNat_ofNat, BitVec.toNat_ofNat, Nat.mod_eq_of_lt (by omega)] at hnat
          rcases Nat.lt_or_ge ((dst - src).toNat + j) (2 ^ w) with hlt | hge
          · rw [Nat.mod_eq_of_lt hlt] at hnat
            omega
          · rw [Nat.mod_eq_sub_mod hge, Nat.mod_eq_of_lt (by omega)] at hnat
            omega
        rw [hcell, copyForward_get (by omega) hj, ← copyForward_get hn (by omega), ih j hj (by omega),
          hsame j (by omega)]
      · exact copyForward_of_ne fun j hj hcell => hread ⟨j, hj, hcell⟩

end

end TamagoUefi.Lib
