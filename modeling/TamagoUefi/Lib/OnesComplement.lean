import Mathlib.Data.Nat.ModEq

/-!
# TamagoUefi.Lib.OnesComplement — end-around carry

A one's complement sum in base `b` adds numbers and puts the carry back in at the low end until
none is left.  The result is the residue modulo `b - 1`, with one of the two representations of
zero kept for the sum of nothing: `foldCarry_eq`.

`wordSum` adds the 16-bit words of a list of bytes, an odd last byte being the high half of a word.
-/

namespace TamagoUefi.Lib

theorem carry_lt {b n : ℕ} (hb : 2 ≤ b) (hn : b ≤ n) : n % b + n / b < n := by
  have hdiv := Nat.div_add_mod n b
  have hpos : 1 ≤ n / b := (Nat.one_le_div_iff (by omega)).mpr hn
  have hmul : 2 * (n / b) ≤ b * (n / b) := Nat.mul_le_mul_right _ hb
  omega

/-- Carries are put back in until there is none. -/
def foldCarry (b n : ℕ) : ℕ :=
  if h : 2 ≤ b ∧ b ≤ n then
    have := carry_lt h.1 h.2
    foldCarry b (n % b + n / b)
  else n
termination_by n

/-- **The value of the sum.** -/
theorem foldCarry_eq {b : ℕ} (hb : 2 ≤ b) (n : ℕ) :
    foldCarry b n = if n = 0 then 0 else (n - 1) % (b - 1) + 1 := by
  fun_induction foldCarry b n with
  | case1 n h _ ih =>
    have hpos : 1 ≤ n / b := (Nat.one_le_div_iff (by omega)).mpr h.2
    -- a carry of `c` changes the value by `c * (b - 1)`
    have hstep : n - 1 = (n % b + n / b - 1) + (b - 1) * (n / b) := by
      have hdiv := Nat.div_add_mod n b
      have hmul := Nat.sub_one_mul b (n / b)
      have hle : n / b ≤ b * (n / b) := Nat.le_mul_of_pos_left _ (by omega)
      omega
    rw [ih, if_neg (by omega), if_neg (by omega), hstep, Nat.add_mul_mod_self_left]
  | case2 n h =>
    split_ifs with h0
    · exact h0
    · rw [Nat.mod_eq_of_lt (by omega)]
      omega

theorem foldCarry_lt {b : ℕ} (hb : 2 ≤ b) (n : ℕ) : foldCarry b n < b := by
  rw [foldCarry_eq hb]
  split_ifs
  · omega
  · have := Nat.mod_lt (n - 1) (show 0 < b - 1 by omega)
    omega

/-- All ones: a multiple of `b - 1` that is not the sum of nothing. -/
theorem foldCarry_eq_max_iff {b n : ℕ} (hb : 2 ≤ b) (hn : 0 < n) : foldCarry b n = b - 1 ↔ (b - 1) ∣ n := by
  rw [foldCarry_eq hb, if_neg (by omega)]
  constructor
  · intro h
    have hdiv := Nat.div_add_mod (n - 1) (b - 1)
    refine ⟨(n - 1) / (b - 1) + 1, ?_⟩
    rw [Nat.mul_add, Nat.mul_one]
    omega
  · rintro ⟨k, rfl⟩
    obtain ⟨j, rfl⟩ : ∃ j, k = j + 1 := Nat.exists_eq_succ_of_ne_zero fun h => by simp [h] at hn
    have hstep : (b - 1) * (j + 1) - 1 = (b - 2) + (b - 1) * j := by
      rw [Nat.mul_add, Nat.mul_one]
      omega
    rw [hstep, Nat.add_mul_mod_self_left, Nat.mod_eq_of_lt (by omega)]
    omega

/-- **Adding in 32 bits** loses a carry of `2 ^ 32`, which is 1 modulo 65535.  Two sums that differ in
one word are told apart all the same: a lost carry leaves one of them next to 0, the other next to
`2 ^ 32`, and the two zeros lie between. -/
theorem modEq_of_foldCarry_eq {n m x w : ℕ} (hx : x < 65536) (hw : w < 65536) (hsum : m + x = n + w)
    (h : foldCarry 65536 (m % 2 ^ 32) = foldCarry 65536 (n % 2 ^ 32)) : w ≡ x [MOD 65535] := by
  rw [foldCarry_eq (by decide), foldCarry_eq (by decide)] at h
  unfold Nat.ModEq
  obtain hq | hq | hq : m / 2 ^ 32 = n / 2 ^ 32 ∨ m / 2 ^ 32 = n / 2 ^ 32 + 1 ∨ n / 2 ^ 32 = m / 2 ^ 32 + 1 := by
    omega
  · have hmod : m % 2 ^ 32 + x = n % 2 ^ 32 + w := by omega
    split_ifs at h
    all_goals omega
  · have hlo : m % 2 ^ 32 + x + 2 ^ 32 = n % 2 ^ 32 + w := by omega
    have hhi := Nat.mod_lt n (show 0 < 2 ^ 32 by decide)
    split_ifs at h
    all_goals omega
  · have hlo : m % 2 ^ 32 + x = n % 2 ^ 32 + w + 2 ^ 32 := by omega
    have hhi := Nat.mod_lt m (show 0 < 2 ^ 32 by decide)
    split_ifs at h
    all_goals omega

def wordSum : List UInt8 → ℕ
  | a :: b :: t => a.toNat * 256 + b.toNat + wordSum t
  | [a] => a.toNat * 256
  | [] => 0

theorem wordSum_append {a : List UInt8} (b : List UInt8) (h : a.length % 2 = 0) :
    wordSum (a ++ b) = wordSum a + wordSum b := by
  fun_induction wordSum a with
  | case1 x y t ih =>
    have ht : t.length % 2 = 0 := by
      simp only [List.length_cons] at h
      omega
    rw [List.cons_append, List.cons_append, wordSum, ih ht]
    omega
  | case2 x => simp at h
  | case3 => simp

theorem wordSum_le (a : List UInt8) : wordSum a ≤ 32768 * (a.length + 1) := by
  fun_induction wordSum a with
  | case1 x y t ih =>
    have hx := x.toNat_lt
    have hy := y.toNat_lt
    simp only [List.length_cons]
    omega
  | case2 x =>
    have hx := x.toNat_lt
    simp only [List.length_cons, List.length_nil]
    omega
  | case3 => simp

/-- The bound by the number of words, the odd byte included. -/
theorem wordSum_le_words (a : List UInt8) : wordSum a ≤ 65535 * ((a.length + 1) / 2) := by
  fun_induction wordSum a with
  | case1 x y t ih =>
    have hx := x.toNat_lt
    have hy := y.toNat_lt
    have hlen : ((x :: y :: t).length + 1) / 2 = (t.length + 1) / 2 + 1 := by
      simp only [List.length_cons]
      omega
    rw [hlen]
    omega
  | case2 x =>
    have hx := x.toNat_lt
    simp only [List.length_cons, List.length_nil]
    omega
  | case3 => simp

theorem wordSum_replicate_zero (n : ℕ) : wordSum (List.replicate n 0) = 0 := by
  match n with
  | 0 => rfl
  | 1 => rfl
  | n + 2 => simp [List.replicate_succ, wordSum, wordSum_replicate_zero n]

/-- Zero bytes at the end add nothing, also to an odd last byte. -/
theorem wordSum_append_zeros (a : List UInt8) (n : ℕ) : wordSum (a ++ List.replicate n 0) = wordSum a := by
  fun_induction wordSum a with
  | case1 x y t ih => rw [List.cons_append, List.cons_append, wordSum, ih]
  | case2 x =>
    cases n with
    | zero => rfl
    | succ n => simp [List.replicate_succ, wordSum, wordSum_replicate_zero]
  | case3 => exact wordSum_replicate_zero n

end TamagoUefi.Lib
