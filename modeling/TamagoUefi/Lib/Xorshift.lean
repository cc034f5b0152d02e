import Mathlib.Algebra.Group.Nat.Defs
import Mathlib.Data.BitVec
import Mathlib.Data.Set.Finite.Basic

/-!
# TamagoUefi.Lib.Xorshift — words that are mixed with a shifted copy of themselves

`x ^^^ (x >>> k)` and `x ^^^ (x <<< k)` lose nothing for `0 < k`: at the end where zeros are shifted in
the bits are those of `x`, and each other bit is found from one that is nearer to that end.
-/

namespace TamagoUefi.Lib

variable {w : ℕ}

def xorShiftRight (k : ℕ) (x : BitVec w) : BitVec w := x ^^^ (x >>> k)

def xorShiftLeft (k : ℕ) (x : BitVec w) : BitVec w := x ^^^ (x <<< k)

theorem xorShiftRight_injective {k : ℕ} (hk : 0 < k) :
    Function.Injective (xorShiftRight k : BitVec w → BitVec w) := by
  intro x y h
  have hbits : ∀ n i, w - i = n → x.getLsbD i = y.getLsbD i := by
    intro n
    induction n using Nat.strong_induction_on with
    | _ n ih =>
      intro i hi
      by_cases hw : i < w
      · have hnext := ih (w - (k + i)) (by omega) (k + i) rfl
        have hbit := congrArg (fun z : BitVec w => z.getLsbD i) h
        simp only [xorShiftRight, BitVec.getLsbD_xor, BitVec.getLsbD_ushiftRight, hnext] at hbit
        exact Bool.xor_left_inj.mp hbit
      · rw [BitVec.getLsbD_of_ge x i (by omega), BitVec.getLsbD_of_ge y i (by omega)]
  exact BitVec.eq_of_getLsbD_eq fun i _ => hbits (w - i) i rfl

theorem xorShiftLeft_injective {k : ℕ} (hk : 0 < k) :
    Function.Injective (xorShiftLeft k : BitVec w → BitVec w) := by
  intro x y h
  have hbits : ∀ i, x.getLsbD i = y.getLsbD i := by
    intro i
    induction i using Nat.strong_induction_on with
    | _ i ih =>
      have hbit := congrArg (fun z : BitVec w => z.getLsbD i) h
      simp only [xorShiftLeft, BitVec.getLsbD_xor, BitVec.getLsbD_shiftLeft] at hbit
      by_cases hlow : i < k
      · simpa [hlow] using hbit
      · simpa [ih (i - k) (by omega)] using hbit
  exact BitVec.eq_of_getLsbD_eq fun i _ => hbits i

/-- A map of words that loses nothing and keeps zero permutes the others. -/
theorem bijOn_ne_zero {f : BitVec w → BitVec w} (hf : Function.Injective f) (h0 : f 0 = 0) :
    Set.BijOn f {x | x ≠ 0} {x | x ≠ 0} := by
  have hne : ∀ x, x ≠ 0 → f x ≠ 0 := fun x hx h => hx (hf (h.trans h0.symm))
  have hfinite : Finite (BitVec w) := Finite.of_injective _ BitVec.toFin_injective
  refine ⟨hne, hf.injOn, fun y hy => ?_⟩
  obtain ⟨x, rfl⟩ := Finite.surjective_of_injective hf y
  exact ⟨x, fun hx => hy (by rw [hx, h0]), rfl⟩

end TamagoUefi.Lib
