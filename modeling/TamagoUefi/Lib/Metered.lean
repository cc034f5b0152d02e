import Mathlib.Data.List.Basic

/-!
# TamagoUefi.Lib.Metered — computations that count their steps

A `Metered` computation ends with a value, with an error of its own, or with a fault: an index or a
slice outside its list.  It counts the steps it was told to count.

* `Refines m x n`: `m` ends as the pure computation `x` does, hence without a fault, in at most `n`
  steps.
* `refines_pure`, `refines_raise`, `refines_tick`, `refines_index`, `refines_slice`, `refines_bind`:
  one rule for each operation.
-/

namespace TamagoUefi.Lib

inductive Ending (ε α : Type)
  | ok (a : α)
  | error (e : ε)
  | fault
  deriving DecidableEq

structure Metered (ε α : Type) where
  ending : Ending ε α
  steps : ℕ

namespace Metered

variable {ε α β : Type}

protected def pure (a : α) : Metered ε α := ⟨.ok a, 0⟩

protected def bind (m : Metered ε α) (f : α → Metered ε β) : Metered ε β :=
  match m.ending with
  | .ok a => ⟨(f a).ending, m.steps + (f a).steps⟩
  | .error e => ⟨.error e, m.steps⟩
  | .fault => ⟨.fault, m.steps⟩

instance : Monad (Metered ε) where
  pure := Metered.pure
  bind := Metered.bind

def raise (e : ε) : Metered ε α := ⟨.error e, 0⟩

/-- Count `n` steps. -/
def tick (n : ℕ) : Metered ε Unit := ⟨.ok (), n⟩

/-- `xs[i]` -/
def index (xs : List α) (i : ℕ) : Metered ε α :=
  match xs[i]? with
  | some a => .pure a
  | none => ⟨.fault, 0⟩

/-- `xs[i:j]` -/
def slice (xs : List α) (i j : ℕ) : Metered ε (List α) :=
  if i ≤ j ∧ j ≤ xs.length then .pure ((xs.drop i).take (j - i)) else ⟨.fault, 0⟩

/-- The computation ends as `x` does, in at most `n` steps. -/
structure Refines (m : Metered ε α) (x : Except ε α) (n : ℕ) : Prop where
  ending : m.ending = match x with
    | .ok a => .ok a
    | .error e => .error e
  steps : m.steps ≤ n

variable {a : α}

namespace Refines

variable {m : Metered ε α} {x : Except ε α} {n k : ℕ}

theorem no_fault (h : Refines m x n) : m.ending ≠ .fault := by
  intro hf
  have he := h.ending
  rw [hf] at he
  cases x with
  | ok a => cases he
  | error e => cases he

theorem ending_ok (h : Refines m x n) (ha : m.ending = .ok a) : x = .ok a := by
  have he := h.ending
  rw [ha] at he
  cases x with
  | ok b => cases he; rfl
  | error e => cases he

theorem mono (h : Refines m x n) (hle : n ≤ k) : Refines m x k := ⟨h.ending, Nat.le_trans h.steps hle⟩

end Refines

theorem refines_pure (a : α) : Refines (pure a : Metered ε α) (.ok a) 0 := ⟨rfl, Nat.zero_le _⟩

variable {n : ℕ}

theorem refines_raise (e : ε) : Refines (raise e : Metered ε α) (.error e) n := ⟨rfl, Nat.zero_le _⟩

theorem refines_tick (n : ℕ) : Refines (tick n : Metered ε Unit) (.ok ()) n := ⟨rfl, Nat.le_refl _⟩

variable {f : α → Metered ε β} {k : ℕ} {m : Metered ε α}

theorem refines_bind {x : Except ε α} {g : α → Except ε β} (hm : Refines m x n)
    (hf : ∀ a, x = .ok a → Refines (f a) (g a) k) : Refines (m >>= f) (x >>= g) (n + k) := by
  have hend := hm.ending
  change Refines (m.bind f) _ _
  cases x with
  | error e =>
    rw [Metered.bind, hend]
    exact ⟨rfl, Nat.le_trans hm.steps (Nat.le_add_right _ _)⟩
  | ok a =>
    rw [Metered.bind, hend]
    exact ⟨(hf a rfl).ending, Nat.add_le_add hm.steps (hf a rfl).steps⟩

/-- A first part that does not fail, and leaves `k` of a budget of `l` steps. -/
theorem refines_bind_ok {y : Except ε β} {l : ℕ} (hm : Refines m (.ok a) n) (hle : n + k ≤ l)
    (hf : Refines (f a) y k) : Refines (m >>= f) y l := by
  have h : Refines (m >>= f) y (n + k) := by
    refine refines_bind hm (g := fun _ => y) fun b hb => ?_
    cases hb
    exact hf
  exact h.mono hle

section
variable {xs : List α} {i : ℕ} {y : Except ε β} {n : ℕ}

theorem refines_index (h : xs[i]? = some a) (hf : Refines (f a) y n) : Refines (index xs i >>= f) y n := by
  rw [index, h]
  exact refines_bind_ok (refines_pure a) (Nat.le_of_eq (Nat.zero_add n)) hf

theorem refines_slice {j : ℕ} {f : List α → Metered ε β} (h : i ≤ j ∧ j ≤ xs.length)
    (hf : Refines (f ((xs.drop i).take (j - i))) y n) : Refines (slice xs i j >>= f) y n := by
  rw [slice, if_pos h]
  exact refines_bind_ok (refines_pure _) (Nat.le_of_eq (Nat.zero_add n)) hf

end

end Metered

end TamagoUefi.Lib
