import Mathlib.Data.List.Iterate

/-!
# TamagoUefi.Lib.Retry — trying again with pauses

`retry once n d s` runs `once` up to `n + 1` times, as long as it fails with an error that is worth
another attempt, and pauses in between, `d` at first and `next d` after a pause of `d`.  It says why it
gave up.

What an attempt does to the state is not modelled; `retry_rule` is the induction over the attempts.  A state
has a list of results and a list of pauses, to which attempts and pauses add; `retry_tries` says that the two
lists grow as in `Tries`, and `retry_invariant` is the rule for everything else.
-/

namespace TamagoUefi.Lib

/-- Why the last attempt was the last. -/
inductive GaveUp (ε : Type)
  | fatal (e : ε)
  | exhausted (last : ε)
  deriving DecidableEq

/-- The error of the last attempt. -/
def GaveUp.error {ε : Type} : GaveUp ε → ε
  | fatal e => e
  | exhausted e => e

/-- The error of an attempt, none if it succeeded. -/
def errorOf {ε α : Type} : Except ε α → Option ε
  | .ok _ => none
  | .error e => some e

section
variable {σ ε α δ : Type} (retryable : ε → Bool) (pause : δ → σ → σ) (next : δ → δ)
  (once : σ → σ × Except ε α)

def retry : ℕ → δ → σ → σ × Except (GaveUp ε) α
  | 0, _, s =>
    match once s with
    | (s, .ok a) => (s, .ok a)
    | (s, .error e) => (s, .error (if retryable e then .exhausted e else .fatal e))
  | n + 1, d, s =>
    match once s with
    | (s, .ok a) => (s, .ok a)
    | (s, .error e) => if retryable e then retry n (next d) (pause d s) else (s, .error (.fatal e))

/-- The results of up to `n + 1` attempts and the pauses between them. -/
inductive Tries : ℕ → δ → List (Option ε) → List δ → Prop
  | success {n : ℕ} {d : δ} : Tries n d [none] []
  | fatal {n : ℕ} {d : δ} {e : ε} (h : retryable e = false) : Tries n d [some e] []
  | exhausted {d : δ} {e : ε} (h : retryable e = true) : Tries 0 d [some e] []
  | again {n : ℕ} {d : δ} {e : ε} {rs : List (Option ε)} {ds : List δ} (h : retryable e = true)
      (t : Tries n (next d) rs ds) : Tries (n + 1) d (some e :: rs) (d :: ds)

variable {retryable next}

namespace Tries

variable {n : ℕ} {d : δ} {rs : List (Option ε)} {ds : List δ} (h : Tries retryable next n d rs ds)
include h

theorem length_pos : 0 < rs.length := by
  cases h <;> simp

theorem length_le : rs.length ≤ n + 1 := by
  induction h with
  | success | fatal | exhausted => simp
  | again _ _ ih => simpa using ih

theorem length_eq : rs.length = ds.length + 1 := by
  induction h with
  | success | fatal | exhausted => rfl
  | again _ _ ih => simp [ih]

theorem pauses_eq : ds = List.iterate next d ds.length := by
  induction h with
  | success | fatal | exhausted => rfl
  | again _ _ ih => rw [List.length_cons, List.iterate, ← ih]

/-- **Only retryable errors are tried again.** -/
theorem retryable_of_mem_dropLast {r : Option ε}
    (hr : r ∈ rs.dropLast) : ∃ e, r = some e ∧ retryable e = true := by
  induction h with
  | success | fatal | exhausted => simp at hr
  | @again _ _ e rs _ he t ih =>
    rw [List.dropLast_cons_of_ne_nil (List.ne_nil_of_length_pos t.length_pos)] at hr
    rcases List.mem_cons.mp hr with rfl | hr
    · exact ⟨e, rfl, he⟩
    · exact ih hr

/-- If all fail with such errors, all attempts are made. -/
theorem length_eq_of_retryable
    (hall : ∀ r ∈ rs, ∃ e, r = some e ∧ retryable e = true) : rs.length = n + 1 := by
  induction h with
  | success =>
    obtain ⟨e, he, -⟩ := hall none (by simp)
    cases he
  | @fatal _ _ e hfatal =>
    obtain ⟨e', he, hretry⟩ := hall (some e) (by simp)
    cases he
    simp [hfatal] at hretry
  | exhausted => rfl
  | again _ _ ih =>
    rw [List.length_cons, ih fun r hr => hall r (List.mem_cons_of_mem _ hr)]

end Tries

variable {pause once}

/-! ## The loop, by its first attempt -/

variable {s s' : σ}

theorem retry_of_ok {a : α} (h : once s = (s', .ok a)) (n : ℕ) (d : δ) :
    retry retryable pause next once n d s = (s', .ok a) := by
  cases n with
  | zero => rw [retry, h]
  | succ n => rw [retry, h]

variable {e : ε}

theorem retry_of_fatal (h : once s = (s', .error e)) (he : retryable e = false) (n : ℕ)
    (d : δ) : retry retryable pause next once n d s = (s', .error (.fatal e)) := by
  cases n with
  | zero =>
    rw [retry, h]
    simp [he]
  | succ n =>
    rw [retry, h]
    simp [he]

theorem retry_zero (h : once s = (s', .error e)) (he : retryable e = true) (d : δ) :
    retry retryable pause next once 0 d s = (s', .error (.exhausted e)) := by
  rw [retry, h]
  simp [he]

theorem retry_succ (h : once s = (s', .error e)) (he : retryable e = true) (n : ℕ) (d : δ) :
    retry retryable pause next once (n + 1) d s =
      retry retryable pause next once n (next d) (pause d s') := by
  rw [retry, h]
  simp [he]

/-- **Induction** over the attempts. -/
theorem retry_rule {P : ℕ → δ → σ → σ × Except (GaveUp ε) α → Prop}
    (ok : ∀ n d s s' a, once s = (s', .ok a) → P n d s (s', .ok a))
    (fatal : ∀ n d s s' e, once s = (s', .error e) → retryable e = false → P n d s (s', .error (.fatal e)))
    (exhausted : ∀ d s s' e, once s = (s', .error e) → retryable e = true →
      P 0 d s (s', .error (.exhausted e)))
    (again : ∀ n d s s' e r, once s = (s', .error e) → retryable e = true → P n (next d) (pause d s') r →
      P (n + 1) d s r) (n : ℕ) (d : δ) (s : σ) : P n d s (retry retryable pause next once n d s) := by
  induction n generalizing d s with
  | zero =>
    rcases h : once s with ⟨s', e | a⟩
    · cases he : retryable e with
      | false =>
        rw [retry_of_fatal h he]
        exact fatal 0 d s s' e h he
      | true =>
        rw [retry_zero h he]
        exact exhausted d s s' e h he
    · rw [retry_of_ok h]
      exact ok 0 d s s' a h
  | succ n ih =>
    rcases h : once s with ⟨s', e | a⟩
    · cases he : retryable e with
      | false =>
        rw [retry_of_fatal h he]
        exact fatal (n + 1) d s s' e h he
      | true =>
        rw [retry_succ h he]
        exact again n d s s' e _ h he (ih (next d) (pause d s'))
    · rw [retry_of_ok h]
      exact ok (n + 1) d s s' a h

/-- What attempts and pauses keep, the loop keeps. -/
theorem retry_invariant {I : σ → Prop} (honce : ∀ s, I s → I (once s).1) (hpause : ∀ d s, I s → I (pause d s))
    (n : ℕ) (d : δ) (s : σ) : I s → I (retry retryable pause next once n d s).1 := by
  refine retry_rule (P := fun _ _ s r => I s → I r.1) ?_ ?_ ?_ ?_ n d s
  · intro n d s s' a h hs
    exact (congrArg (fun o => I o.1) h).mp (honce s hs)
  · intro n d s s' e h he hs
    exact (congrArg (fun o => I o.1) h).mp (honce s hs)
  · intro d s s' e h he hs
    exact (congrArg (fun o => I o.1) h).mp (honce s hs)
  · intro n d s s' e r h he ih hs
    exact ih (hpause d s' ((congrArg (fun o => I o.1) h).mp (honce s hs)))

theorem retry_of_error (h : ∀ s, (once s).2 = .error e) (he : retryable e = true) (n : ℕ) (d : δ)
    (s : σ) : (retry retryable pause next once n d s).2 = .error (.exhausted e) := by
  have ho : ∀ s, once s = ((once s).1, .error e) := fun s => Prod.ext rfl (h s)
  induction n generalizing d s with
  | zero => rw [retry_zero (ho s) he]
  | succ n ih => rw [retry_succ (ho s) he, ih]

/-- A state keeps the results of attempts and the pauses. -/
structure Records (results : σ → List (Option ε)) (pauses : σ → List δ) (pause : δ → σ → σ)
    (shown : δ → List δ) (once : σ → σ × Except ε α) : Prop where
  result : ∀ s, results (once s).1 = results s ++ [errorOf (once s).2]
  unpaused : ∀ s, pauses (once s).1 = pauses s
  kept : ∀ d s, results (pause d s) = results s
  paused : ∀ d s, pauses (pause d s) = pauses s ++ shown d

variable {pauses : σ → List δ} {results : σ → List (Option ε)} {shown : δ → List δ}

theorem Records.attempt (h : Records results pauses pause shown once) {r : Except ε α}
    (ho : once s = (s', r)) : results s' = results s ++ [errorOf r] ∧ pauses s' = pauses s := by
  have hres := h.result s
  have hun := h.unpaused s
  rw [ho] at hres hun
  exact ⟨hres, hun⟩

/-- **The loop**: its results and pauses, and its own result, which is that of the last attempt. -/
theorem retry_tries (retryable : ε → Bool) (next : δ → δ) (h : Records results pauses pause shown once)
    (n : ℕ) (d : δ) (s : σ) : ∃ rs ds, Tries retryable next n d rs ds ∧
      results (retry retryable pause next once n d s).1 = results s ++ rs ∧
      pauses (retry retryable pause next once n d s).1 = pauses s ++ ds.flatMap shown ∧
      rs.getLast? = some ((errorOf (retry retryable pause next once n d s).2).map GaveUp.error) := by
  refine retry_rule (P := fun n d s r => ∃ rs ds, Tries retryable next n d rs ds ∧ results r.1 = results s ++ rs ∧
    pauses r.1 = pauses s ++ ds.flatMap shown ∧ rs.getLast? = some ((errorOf r.2).map GaveUp.error))
    ?_ ?_ ?_ ?_ n d s
  · intro n d s s' a ho
    obtain ⟨hres, hun⟩ := h.attempt ho
    exact ⟨[none], [], .success, hres, by simpa using hun, rfl⟩
  · intro n d s s' e ho he
    obtain ⟨hres, hun⟩ := h.attempt ho
    exact ⟨[some e], [], .fatal he, hres, by simpa using hun, rfl⟩
  · intro d s s' e ho he
    obtain ⟨hres, hun⟩ := h.attempt ho
    exact ⟨[some e], [], .exhausted he, hres, by simpa using hun, rfl⟩
  · rintro n d s s' e r ho he ⟨rs, ds, ht, hrs, hds, hlast⟩
    obtain ⟨hres, hun⟩ := h.attempt ho
    refine ⟨some e :: rs, d :: ds, .again he ht, ?_, ?_, ?_⟩
    · rw [hrs, h.kept, hres, List.append_assoc]
      rfl
    · rw [hds, h.paused, hun, List.flatMap_cons, List.append_assoc]
    · rw [List.getLast?_cons_of_ne_nil (List.ne_nil_of_length_pos ht.length_pos), hlast]

end

end TamagoUefi.Lib
