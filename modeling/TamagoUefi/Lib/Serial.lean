import Mathlib.Data.BitVec
import Mathlib.Tactic.Ring

/-!
# TamagoUefi.Lib.Serial — serial numbers

Sequence numbers that wrap around are `BitVec w`.  A stream that starts at `base` puts its `n`-th
element at `pos base n`; the position determines `n` below `2 ^ w`, and the signed comparison of two
positions is the comparison of their offsets when these are less than half the space apart.

* `pos_inj`: positions of small offsets are distinct.
* `serialLT_pos`: the comparison, for offsets at most `2 ^ (w - 1)` apart.
-/

namespace TamagoUefi.Lib

variable {w : ℕ}

/-- The serial number `n` places after `base`. -/
def pos (base : BitVec w) (n : ℕ) : BitVec w := base + BitVec.ofNat w n

/-- `a` comes after `b`: their difference is positive as a signed number. -/
def serialGT (a b : BitVec w) : Bool := 0 < (a - b).toInt

/-- `a` comes before `b`: their difference is negative as a signed number. -/
def serialLT (a b : BitVec w) : Bool := (a - b).toInt < 0

@[simp] theorem pos_zero (base : BitVec w) : pos base 0 = base := by simp [pos]

theorem pos_add (base : BitVec w) (n k : ℕ) : pos base n + BitVec.ofNat w k = pos base (n + k) := by
  rw [pos, pos, BitVec.add_assoc, BitVec.ofNat_add]

variable {base : BitVec w} {n m : ℕ}

theorem pos_inj (hn : n < 2 ^ w) (hm : m < 2 ^ w) (h : pos base n = pos base m) : n = m := by
  have h' : BitVec.ofNat w n = BitVec.ofNat w m := BitVec.add_right_inj base |>.mp h
  have := congrArg BitVec.toNat h'
  rwa [BitVec.toNat_ofNat, BitVec.toNat_ofNat, Nat.mod_eq_of_lt hn, Nat.mod_eq_of_lt hm] at this

theorem pos_sub_of_le (h : m ≤ n) : pos base n - pos base m = BitVec.ofNat w (n - m) := by
  obtain ⟨k, rfl⟩ := Nat.exists_eq_add_of_le h
  rw [← pos_add, BitVec.add_comm, BitVec.add_sub_cancel, Nat.add_sub_cancel_left]

variable {a s : BitVec w}

/-- Distinct numbers have a positive distance. -/
theorem toNat_sub_pos (h : s ≠ a) : 0 < (s - a).toNat := by
  rw [Nat.pos_iff_ne_zero]
  intro h0
  have hz : s - a = 0 := BitVec.eq_of_toNat_eq (by simpa using h0)
  exact h (by rw [← BitVec.sub_add_cancel s a, hz, zero_add])

/-- Moving the origin up by no more than the distance. -/
theorem toNat_sub_add_ofNat (h : n ≤ (s - a).toNat) :
    (s - (a + BitVec.ofNat w n)).toNat = (s - a).toNat - n := by
  have hlt : n < 2 ^ w := lt_of_le_of_lt h (s - a).isLt
  have hn : (BitVec.ofNat w n).toNat = n := by rw [BitVec.toNat_ofNat, Nat.mod_eq_of_lt hlt]
  rw [← BitVec.sub_sub, BitVec.toNat_sub_of_le (by rw [BitVec.le_def, hn]; exact h), hn]

/-! ## Comparison -/

theorem serialLT_iff {b : BitVec w} : serialLT a b = true ↔ 2 ^ w ≤ 2 * (a - b).toNat := by
  have hlt := (a - b).isLt
  rw [serialLT, decide_eq_true_eq, BitVec.toInt_eq_toNat_cond]
  split_ifs with h
  · omega
  · have hcast : ((2 ^ w : ℕ) : ℤ) = 2 ^ w := by push_cast; rfl
    omega

/-- The distance between two positions, seen from the lower one. -/
theorem toNat_pos_sub (h : m ≤ n) (hlt : n - m < 2 ^ w) : (pos base n - pos base m).toNat = n - m := by
  rw [pos_sub_of_le h, BitVec.toNat_ofNat, Nat.mod_eq_of_lt hlt]

/-- The distance between two positions, seen from the upper one. -/
theorem toNat_pos_sub_of_lt (h : n < m) (hlt : m - n < 2 ^ w) :
    (pos base n - pos base m).toNat = 2 ^ w - (m - n) := by
  have hneg : pos base n - pos base m = -(pos base m - pos base n) := by
    rw [BitVec.neg_sub, BitVec.sub_eq_add_neg, BitVec.add_comm]
  rw [hneg, BitVec.toNat_neg, toNat_pos_sub h.le hlt, Nat.mod_eq_of_lt (by omega)]

/-- **Comparison is comparison of offsets**, for offsets at most half the space apart. -/
theorem serialLT_pos (hnm : 2 * n < 2 * m + 2 ^ w) (hmn : 2 * m ≤ 2 * n + 2 ^ w) (hw : 0 < w) :
    serialLT (pos base n) (pos base m) = true ↔ n < m := by
  have h2 : 2 ≤ 2 ^ w := Nat.le_self_pow hw.ne' 2
  rw [serialLT_iff]
  rcases Nat.lt_or_ge n m with h | h
  · rw [toNat_pos_sub_of_lt h (by omega)]
    omega
  · rw [toNat_pos_sub h (by omega)]
    omega

/-- **A run of numbers below a bound**: the bound is no nearer than its length, and no farther than half
the space. -/
theorem forall_serialLT_pos_iff {b : BitVec w} (hpos : 0 < n) (hn : 2 * n ≤ 2 ^ w) (hw : 0 < w) :
    (∀ i < n, serialLT (pos a i) b = true) ↔ n ≤ (b - a).toNat ∧ 2 * (b - a).toNat ≤ 2 ^ w := by
  have hd := (b - a).isLt
  have hb : b = pos a (b - a).toNat := by
    rw [pos, BitVec.ofNat_toNat, BitVec.setWidth_eq, BitVec.add_comm, BitVec.sub_add_cancel]
  constructor
  · intro h
    have hhalf : 2 * (b - a).toNat ≤ 2 ^ w := by
      have h0 := serialLT_iff.mp (h 0 hpos)
      rw [pos_zero] at h0
      rcases Nat.eq_zero_or_pos (b - a).toNat with hz | hz
      · omega
      · have hback : (pos a 0 - pos a (b - a).toNat).toNat = 2 ^ w - ((b - a).toNat - 0) :=
          toNat_pos_sub_of_lt hz (by omega)
        rw [← hb, pos_zero] at hback
        omega
    have hlast := h (n - 1) (by omega)
    rw [hb, serialLT_pos (by omega) (by omega) hw] at hlast
    omega
  · rintro ⟨hle, hhalf⟩ i hi
    rw [hb]
    exact (serialLT_pos (by omega) (by omega) hw).mpr (by omega)

end TamagoUefi.Lib
