import TamagoUefi.Lib.Run

/-!
# TamagoUefi.Lib.Objects — an object behind a shared state

The state of a system holds an object while the object exists: `view`.  An event is an operation on
the object, which `own` gives, or it is none; `act` is what an operation does to the object alone.
If each step of the system does to the object what its own operation does, and nothing else, then the
object after a run is the fold of its own operations: `view_run`.
-/

namespace TamagoUefi.Lib.Objects

variable {S E σ A : Type} {step : S → E → S} {view : S → Option σ} {own : E → Option A}
  {act : σ → A → Option σ}

variable (step view own act) in
/-- Every step that meets `P`, from a state with `I`, changes an object with `J` by its own operation
only; `I` and `J` are kept. -/
structure Isolated (P : S → E → Prop) (I : S → Prop) (J : σ → Prop) : Prop where
  view_step : ∀ s e x, I s → P s e → J x → view s = some x →
    view (step s e) = (own e).elim (some x) (act x)
  inv_step : ∀ s e, I s → P s e → I (step s e)
  inv_act : ∀ x a y, J x → act x a = some y → J y

variable {P : S → E → Prop} {I : S → Prop} {J : σ → Prop}

theorem Isolated.next (h : Isolated step view own act P I J) {s : S} {e : E} {x y : σ} (hI : I s)
    (hP : P s e) (hJ : J x) (hx : view s = some x) (hy : view (step s e) = some y) : J y := by
  rw [h.view_step s e x hI hP hJ hx] at hy
  cases hown : own e with
  | none =>
    rw [hown] at hy
    cases hy
    exact hJ
  | some a =>
    rw [hown] at hy
    exact h.inv_act x a y hJ hy

/-- The object after a run is what its own operations make of it. -/
theorem Isolated.view_run (h : Isolated step view own act P I J) :
    ∀ {es : List E} {s : S} {x y : σ}, I s → J x → view s = some x → RunMeets step P s es →
      (es.filterMap own).foldlM act x = some y → J y ∧ view (runFrom step s es) = some y
  | [], s, x, y, _, hJ, hx, _, hy => by
    cases hy
    exact ⟨hJ, hx⟩
  | e :: es, s, x, y, hI, hJ, hx, hP, hy => by
    have hstep := h.view_step s e x hI hP.1 hJ hx
    rw [runFrom_cons]
    cases hown : own e with
    | none =>
      rw [List.filterMap_cons_none hown] at hy
      rw [hown] at hstep
      exact h.view_run (h.inv_step s e hI hP.1) hJ hstep hP.2 hy
    | some a =>
      rw [List.filterMap_cons_some hown, List.foldlM_cons] at hy
      obtain ⟨z, hz, hy⟩ := Option.bind_eq_some_iff.mp hy
      rw [hown] at hstep
      exact h.view_run (h.inv_step s e hI hP.1) (h.inv_act x a z hJ hz) (hstep.trans hz) hP.2 hy

/-- While the object exists, its own operations leave something of it. -/
theorem Isolated.foldlM_run (h : Isolated step view own act P I J) :
    ∀ {es : List E} {s : S} {x : σ}, I s → J x → view s = some x → RunMeets step P s es →
      (∀ es', es' <+: es → (view (runFrom step s es')).isSome) →
      ∃ y, (es.filterMap own).foldlM act x = some y
  | [], _, x, _, _, _, _, _ => ⟨x, rfl⟩
  | e :: es, s, x, hI, hJ, hx, hP, halive => by
    obtain ⟨z, hz⟩ := Option.isSome_iff_exists.mp (halive [e] (List.prefix_append [e] es))
    have hz : view (step s e) = some z := hz
    have hstep := h.view_step s e x hI hP.1 hJ hx
    obtain ⟨y, hy⟩ := h.foldlM_run (h.inv_step s e hI hP.1) (h.next hI hP.1 hJ hx hz) hz hP.2
      fun es' hp => halive (e :: es') (List.cons_prefix_cons.mpr ⟨rfl, hp⟩)
    refine ⟨y, ?_⟩
    rw [hz] at hstep
    cases hown : own e with
    | none =>
      rw [hown] at hstep
      cases hstep
      rw [List.filterMap_cons_none hown, hy]
    | some a =>
      rw [hown] at hstep
      rw [List.filterMap_cons_some hown, List.foldlM_cons, ← show some z = act x a from hstep]
      exact hy

end TamagoUefi.Lib.Objects
