import Mathlib.Order.Defs.Unbundled

/-!
# TamagoUefi.Lib.Within — programs that stay within a relation

A program with a state and errors, `ExceptT ε (StateM σ)`, stays within `R` if the states before and
after it are related, whether it fails or not.  Where `R` is reflexive and transitive this composes:
there is one rule for each way to put a program together, and the same rules for one state, where more
is known than that the program stays within `R`.  `EndsIn` is about the result, whatever the state.
-/

namespace TamagoUefi.Lib

variable {σ ε α β : Type} {R : σ → σ → Prop}

/-- The state before and the state after are related. -/
def Within (R : σ → σ → Prop) (m : ExceptT ε (StateM σ) α) : Prop := ∀ s, R s (m.run s).2

theorem within_modify {f : σ → σ} (h : ∀ s, R s (f s)) : Within R (modify f : ExceptT ε (StateM σ) Unit) := h

theorem within_get {f : σ → ExceptT ε (StateM σ) α} (h : ∀ s, R s ((f s).run s).2) :
    Within R (get >>= f : ExceptT ε (StateM σ) α) := h

section
variable [Std.Refl R]

theorem within_pure (a : α) : Within R (pure a : ExceptT ε (StateM σ) α) := fun s => Std.Refl.refl s

theorem within_throw (e : ε) : Within R (throw e : ExceptT ε (StateM σ) α) :=
  fun s => Std.Refl.refl s

end

theorem run_bind_eq (m : ExceptT ε (StateM σ) α) (f : α → ExceptT ε (StateM σ) β) (s : σ) :
    (m >>= f).run s =
      match m.run s with
      | (.ok a, s') => (f a).run s'
      | (.error e, s') => (.error e, s') := by
  simp only [ExceptT.run, bind, ExceptT.bind, ExceptT.mk, StateT.bind, ExceptT.bindCont]
  rcases m s with ⟨_ | a, s'⟩ <;> rfl

theorem run_tryCatch_eq (m : ExceptT ε (StateM σ) α) (f : ε → ExceptT ε (StateM σ) α) (s : σ) :
    (tryCatch m f).run s =
      match m.run s with
      | (.ok a, s') => (.ok a, s')
      | (.error e, s') => (f e).run s' := by
  simp only [ExceptT.run, tryCatch, tryCatchThe, MonadExceptOf.tryCatch, ExceptT.tryCatch,
    ExceptT.mk, bind, StateT.bind]
  rcases m s with ⟨_ | a, s'⟩ <;> rfl

theorem run_tryCatch_pure (m : ExceptT ε (StateM σ) α) (a : α) (s : σ) :
    ((tryCatch m fun _ => pure a).run s).2 = (m.run s).2 := by
  rw [run_tryCatch_eq]
  rcases m.run s with ⟨_ | b, s'⟩ <;> rfl

variable {f : α → ExceptT ε (StateM σ) β}

section
variable [IsTrans σ R] {s : σ} {m : ExceptT ε (StateM σ) α}

/-- The rule for one state: the second program has the state and the result of the first. -/
theorem rel_bind (hm : R s (m.run s).2) (hf : ∀ a s', m.run s = (.ok a, s') → R s' ((f a).run s').2) :
    R s ((m >>= f).run s).2 := by
  rw [run_bind_eq]
  rcases hrun : m.run s with ⟨e | a, s'⟩
  · rw [hrun] at hm
    exact hm
  · rw [hrun] at hm
    exact IsTrans.trans s s' _ hm (hf a s' hrun)

theorem rel_modify_bind {g : σ → σ} {f : Unit → ExceptT ε (StateM σ) β} (hg : R s (g s))
    (hf : R (g s) ((f ()).run (g s)).2) : R s (((modify g : ExceptT ε (StateM σ) Unit) >>= f).run s).2 :=
  IsTrans.trans s (g s) _ hg hf

theorem rel_tryCatch {f : ε → ExceptT ε (StateM σ) α} (hm : R s (m.run s).2)
    (hf : ∀ e, Within R (f e)) : R s ((tryCatch m f).run s).2 := by
  rw [run_tryCatch_eq]
  rcases hrun : m.run s with ⟨e | a, s'⟩
  · rw [hrun] at hm
    exact IsTrans.trans s s' _ hm (hf e s')
  · rw [hrun] at hm
    exact hm

theorem Within.bind (hm : Within R m) (hf : ∀ a, Within R (f a)) : Within R (m >>= f) :=
  fun s => rel_bind (hm s) fun a s' _ => hf a s'

theorem Within.tryCatch {f : ε → ExceptT ε (StateM σ) α} (hm : Within R m)
    (hf : ∀ e, Within R (f e)) : Within R (tryCatch m f) :=
  fun s => rel_tryCatch (hm s) hf

end

/-! ## Results -/

/-- The errors satisfy `E` and the results `Q`. -/
def EndsIn (E : ε → Prop) (Q : α → Prop) (m : ExceptT ε (StateM σ) α) : Prop :=
  ∀ s, match (m.run s).1 with
    | .ok a => Q a
    | .error e => E e

section
variable {E : ε → Prop} {P : α → Prop} {Q : β → Prop}

theorem ends_pure {a : α} (h : P a) : EndsIn E P (pure a : ExceptT ε (StateM σ) α) := fun _ => h

theorem ends_throw {e : ε} (h : E e) : EndsIn E P (throw e : ExceptT ε (StateM σ) α) := fun _ => h

theorem ends_get {f : σ → ExceptT ε (StateM σ) α} (h : ∀ s, EndsIn E P (f s)) :
    EndsIn E P (get >>= f : ExceptT ε (StateM σ) α) := fun s => h s s

theorem EndsIn.bind {m : ExceptT ε (StateM σ) α} (hm : EndsIn E P m) (hf : ∀ a, P a → EndsIn E Q (f a)) :
    EndsIn E Q (m >>= f) := by
  intro s
  have hs := hm s
  rw [run_bind_eq]
  rcases hrun : m.run s with ⟨e | a, s'⟩
  · rw [hrun] at hs
    exact hs
  · rw [hrun] at hs
    exact hf a hs s'

end

end TamagoUefi.Lib
