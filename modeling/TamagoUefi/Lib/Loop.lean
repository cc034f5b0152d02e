import Mathlib.Data.Nat.Notation

/-!
# TamagoUefi.Lib.Loop — loops that may not end

The body of a loop takes a state to a result, which ends the loop, or to the next state.
`Returns body s r` says that the loop ends with `r`.

* `Returns.passes`: induction over the passes of a loop that ends.
* `exists_returns`: a loop ends if a measure decreases.
* `not_returns`: a loop that stays in a set of states without a result does not end.
-/

namespace TamagoUefi.Lib.Loop

variable {S R : Type}

/-- The result, if there is one after at most `fuel` passes. -/
def run (body : S → R ⊕ S) : ℕ → S → Option R
  | 0, _ => none
  | fuel + 1, s => (body s).elim some (run body fuel)

def Returns (body : S → R ⊕ S) (s : S) (r : R) : Prop := ∃ fuel, run body fuel s = some r

variable {body : S → R ⊕ S} {s s' : S} {r r' : R}

theorem returns_inl (h : body s = .inl r) : Returns body s r' ↔ r' = r := by
  constructor
  · rintro ⟨fuel, hrun⟩
    cases fuel with
    | zero => cases hrun
    | succ fuel =>
      rw [run, h] at hrun
      exact (Option.some.inj hrun).symm
  · rintro rfl
    refine ⟨1, ?_⟩
    rw [run, h]
    rfl

theorem returns_inr (h : body s = .inr s') : Returns body s r ↔ Returns body s' r := by
  constructor
  · rintro ⟨fuel, hrun⟩
    cases fuel with
    | zero => cases hrun
    | succ fuel =>
      rw [run, h] at hrun
      exact ⟨fuel, hrun⟩
  · rintro ⟨fuel, hrun⟩
    refine ⟨fuel + 1, ?_⟩
    rw [run, h]
    exact hrun

/-- **Induction over the passes** of a loop that ends. -/
theorem Returns.passes {M : S → Prop} (last : ∀ s, body s = .inl r → M s)
    (next : ∀ s s', body s = .inr s' → Returns body s' r → M s' → M s) (h : Returns body s r) : M s := by
  obtain ⟨fuel, hrun⟩ := h
  induction fuel generalizing s with
  | zero => cases hrun
  | succ fuel ih =>
    cases hbody : body s with
    | inl q =>
      rw [run, hbody] at hrun
      cases Option.some.inj hrun
      exact last s hbody
    | inr s' =>
      rw [run, hbody] at hrun
      exact next s s' hbody ⟨fuel, hrun⟩ (ih hrun)

theorem Returns.unique (h : Returns body s r) (h' : Returns body s r') : r = r' := by
  revert h'
  refine h.passes (M := fun s => Returns body s r' → r = r') ?_ ?_
  · intro s hbody h'
    exact ((returns_inl hbody).mp h').symm
  · intro s s' hbody _ ih h'
    exact ih ((returns_inr hbody).mp h')

/-- **Termination rule**: in the states of `I` every pass ends the loop with a result of `Q`, or
stays in `I` and decreases the measure. -/
theorem exists_returns {I : S → Prop} {Q : R → Prop} (m : S → ℕ)
    (pass : ∀ s, I s → (∃ r, body s = .inl r ∧ Q r) ∨ ∃ s', body s = .inr s' ∧ I s' ∧ m s' < m s)
    (h : I s) : ∃ r, Returns body s r ∧ Q r := by
  induction hm : m s using Nat.strongRecOn generalizing s with
  | ind k ih =>
    obtain ⟨r, hbody, hr⟩ | ⟨s', hbody, hI, hlt⟩ := pass s h
    · exact ⟨r, (returns_inl hbody).mpr rfl, hr⟩
    · obtain ⟨r, hret, hr⟩ := ih (m s') (hm ▸ hlt) hI rfl
      exact ⟨r, (returns_inr hbody).mpr hret, hr⟩

/-- **A loop that does not end**: in the states of `I` every pass leads to a state of `I`. -/
theorem not_returns {I : S → Prop} (pass : ∀ s, I s → ∃ s', body s = .inr s' ∧ I s') (h : I s) :
    ¬ Returns body s r := by
  intro hret
  refine hret.passes (M := fun s => ¬ I s) ?_ ?_ h
  · intro s hbody hI
    obtain ⟨s', hbody', -⟩ := pass s hI
    cases hbody.symm.trans hbody'
  · intro s s' hbody _ ih hI
    obtain ⟨t, hbody', ht⟩ := pass s hI
    cases hbody.symm.trans hbody'
    exact ih ht

end TamagoUefi.Lib.Loop
