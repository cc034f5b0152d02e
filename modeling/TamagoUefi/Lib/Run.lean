import Mathlib.Data.List.Infix

/-!
# TamagoUefi.Lib.Run — runs of a deterministic system

A system is a step function `step : S → E → S`; a run is the fold of a list of events.  `RunMeets P`
asks a condition of every step of a run, in the state before it; `RunMeets.invariant` is the
induction over such runs.  `run_simulation` relates the runs of two systems, where a step of the one
is a run of the other.
-/

namespace TamagoUefi.Lib

variable {S E F : Type} (step : S → E → S)

/-- The state after a run. -/
def runFrom (s : S) (es : List E) : S := es.foldl step s

/-- In every step of the run the condition `P` holds of the state before it. -/
def RunMeets (P : S → E → Prop) : S → List E → Prop
  | _, [] => True
  | s, e :: es => P s e ∧ RunMeets P (step s e) es

/-- The events of a second system that the steps of a run stand for. -/
def trace (f : S → E → List F) : S → List E → List F
  | _, [] => []
  | s, e :: es => f s e ++ trace f (step s e) es

section
variable {step}

@[simp] theorem runFrom_nil (s : S) : runFrom step s [] = s := rfl

@[simp] theorem runFrom_cons (s : S) (e : E) (es : List E) :
    runFrom step s (e :: es) = runFrom step (step s e) es := rfl

theorem runFrom_append (s : S) (es es' : List E) :
    runFrom step s (es ++ es') = runFrom step (runFrom step s es) es' := List.foldl_append

variable {P : S → E → Prop}

theorem runMeets_append : ∀ {s : S} {es es' : List E},
    RunMeets step P s (es ++ es') ↔
      RunMeets step P s es ∧ RunMeets step P (runFrom step s es) es'
  | s, [], es' => by simp [RunMeets]
  | s, e :: es, es' => by
    rw [List.cons_append, RunMeets, RunMeets, runMeets_append, runFrom_cons, and_assoc]

instance decidableRunMeets {P : S → E → Prop} [∀ s e, Decidable (P s e)] : ∀ (s : S) (es : List E),
    Decidable (RunMeets step P s es)
  | _, [] => isTrue trivial
  | s, e :: es =>
    have : Decidable (RunMeets step P (step s e) es) := decidableRunMeets (step s e) es
    inferInstanceAs (Decidable (P s e ∧ RunMeets step P (step s e) es))

variable {I : S → Prop}

/-- **Invariant rule**: what holds at the start and is kept by every step that meets `P` holds in
every state of a run that meets `P`. -/
theorem RunMeets.invariant (hstep : ∀ s e, I s → P s e → I (step s e)) : ∀ {es : List E} {s : S}, I s →
    RunMeets step P s es → ∀ es', es' <+: es → I (runFrom step s es')
  | _, _, hI, _, [], _ => hI
  | [], _, _, _, e' :: es', hp => by simp at hp
  | e :: es, s, hI, hP, e' :: es', hp => by
    obtain ⟨rfl, hp'⟩ := List.cons_prefix_cons.mp hp
    exact RunMeets.invariant hstep (hstep s e' hI hP.1) hP.2 es' hp'

theorem run_invariant (hstep : ∀ s e, I s → I (step s e)) {s : S} (hI : I s) :
    ∀ es : List E, I (runFrom step s es)
  | [] => hI
  | e :: es => run_invariant hstep (hstep s e hI) es

/-- **Simulation rule**: a relation kept by every step and the events it stands for is kept by
runs. -/
theorem run_simulation {T : Type} {step' : T → F → T} {f : S → E → List F} {R : S → T → Prop}
    (hstep : ∀ s t e, R s t → R (step s e) (runFrom step' t (f s e))) : ∀ {s : S} {t : T} (es : List E),
    R s t → R (runFrom step s es) (runFrom step' t (trace step f s es))
  | _, _, [], h => h
  | s, t, e :: es, h => by
    rw [trace, runFrom_append, runFrom_cons]
    exact run_simulation hstep es (hstep s t e h)

/-- Two conditions that agree where an invariant holds, which the steps that meet them keep. -/
theorem runMeets_congr {Q : S → E → Prop} (hPQ : ∀ s e, I s → (P s e ↔ Q s e))
    (hstep : ∀ s e, I s → P s e → I (step s e)) : ∀ {es : List E} {s : S}, I s →
    (RunMeets step P s es ↔ RunMeets step Q s es)
  | [], _, _ => Iff.rfl
  | e :: es, s, hI => by
    rw [RunMeets, RunMeets, ← hPQ s e hI]
    exact and_congr_right fun hP => runMeets_congr hPQ hstep (hstep s e hI hP)

theorem runMeets_iff {s : S} {es : List E} :
    RunMeets step P s es ↔ ∀ es' e, es' ++ [e] <+: es → P (runFrom step s es') e := by
  constructor
  · rintro h es' e ⟨rest, rfl⟩
    rw [List.append_assoc, runMeets_append] at h
    exact h.2.1
  · intro h
    induction es using List.reverseRecOn with
    | nil => trivial
    | append_singleton es e ih =>
      rw [runMeets_append]
      refine ⟨ih (fun es' e' hp => h es' e' (hp.trans (List.prefix_append es [e]))), ?_, trivial⟩
      exact h es e List.prefix_rfl

theorem RunMeets.and {Q : S → E → Prop} {s : S} {es : List E} (hP : RunMeets step P s es)
    (hQ : RunMeets step Q s es) : RunMeets step (fun s e => P s e ∧ Q s e) s es :=
  runMeets_iff.mpr fun es' e hp => ⟨runMeets_iff.mp hP es' e hp, runMeets_iff.mp hQ es' e hp⟩

end

end TamagoUefi.Lib
