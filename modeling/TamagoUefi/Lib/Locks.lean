import Mathlib.Data.Set.Function
import Mathlib.Logic.Relation
import Mathlib.Order.WellFounded

/-!
# TamagoUefi.Lib.Locks — threads that share mutexes

A program takes and releases mutexes and does operations in between; what an operation does to the data
that the threads share, and which of its results it has, is a parameter (`Meaning`).  Any number of threads
run such programs, one step at a time.

* `Obeys rank post p H`: a thread that holds the mutexes of `H` and runs `p` takes mutexes in the order of
  their ranks only, releases what it holds, and returns with `post`.  `Keeps` is the case that it returns
  with what it held; the rules for it follow the program.
* `Orderly`: the invariant of threads that obey (`Orderly.of_reachable`).
* `Orderly.progress`: then a thread that waits for a mutex or holds one can go on, or another one that does
  either can.
-/

namespace TamagoUefi.Lib

open Function (update update_apply update_of_ne update_self)

/-- Programs over the mutexes `M` and the operations `Op` with the results `Res`. -/
inductive Locking (M : Type) {Op : Type} (Res : Op → Type) (α : Type) : Type
  | ret (a : α)
  | lock (m : M) (k : Locking M Res α)
  | unlock (m : M) (k : Locking M Res α)
  | act (o : Op) (k : Res o → Locking M Res α)

namespace Locking

variable {M Op : Type} {Res : Op → Type} {α β : Type}

def bind : Locking M Res α → (α → Locking M Res β) → Locking M Res β
  | ret a, f => f a
  | lock m k, f => lock m (bind k f)
  | unlock m k, f => unlock m (bind k f)
  | act o k, f => act o fun r => bind (k r) f

instance : Monad (Locking M Res) where
  pure := ret
  bind := bind

def take (m : M) : Locking M Res Unit := lock m (ret ())

def release (m : M) : Locking M Res Unit := unlock m (ret ())

def run (o : Op) : Locking M Res (Res o) := act o ret

/-- `p` with the mutex held, which every way out of `p` releases. -/
def locked (m : M) (p : Locking M Res α) : Locking M Res α := do
  take m
  let r ← p
  release m
  return r

/-- At most `n` rounds, up to the first that has a result. -/
def rounds (body : Locking M Res (Option α)) : ℕ → Locking M Res (Option α)
  | 0 => return none
  | n + 1 => do
    match ← body with
    | some a => return some a
    | none => rounds body n

/-! ## The order of the mutexes -/

section
variable {R : Type} [Preorder R] (rank : M → R)

/-- A mutex may be taken by a thread that holds those of `H`. -/
def Above (H : Set M) (m : M) : Prop := ∀ m' ∈ H, rank m' < rank m

def Obeys (post : α → Set M → Prop) : Locking M Res α → Set M → Prop
  | ret a, H => post a H
  | lock m k, H => Above rank H m ∧ Obeys post k (insert m H)
  | unlock m k, H => m ∈ H ∧ Obeys post k (H \ {m})
  | act _ k, H => ∀ r, Obeys post (k r) H

/-- A program that returns with the mutexes it started with. -/
def Keeps (H : Set M) (p : Locking M Res α) : Prop := Obeys rank (fun _ H' => H' = H) p H

variable {rank}
variable {m : M}

theorem Above.notMem {H : Set M} (h : Above rank H m) : m ∉ H := fun hm => lt_irrefl _ (h m hm)

theorem above_empty (m : M) : Above rank ∅ m := fun _ h => h.elim

theorem Obeys.mono {post post' : α → Set M → Prop} (hpost : ∀ a H, post a H → post' a H) :
    ∀ {p : Locking M Res α} {H : Set M}, Obeys rank post p H → Obeys rank post' p H
  | ret a, H, h => hpost a H h
  | lock _ _, _, h => ⟨h.1, h.2.mono hpost⟩
  | unlock _ _, _, h => ⟨h.1, h.2.mono hpost⟩
  | act _ _, _, h => fun r => (h r).mono hpost

variable {post : β → Set M → Prop}

theorem obeys_bind {f : α → Locking M Res β} : ∀ {p : Locking M Res α} {H : Set M},
    Obeys rank post (p >>= f) H ↔ Obeys rank (fun a H' => Obeys rank post (f a) H') p H
  | ret _, _ => Iff.rfl
  | lock _ _, _ => and_congr_right fun _ => obeys_bind
  | unlock _ _, _ => and_congr_right fun _ => obeys_bind
  | act _ _, _ => forall_congr' fun _ => obeys_bind

variable {f : Unit → Locking M Res β} {o : Op} {p : Locking M Res α} {q q' : Locking M Res β}

section
variable {post : β → Set M → Prop} {H : Set M}

theorem obeys_take (hm : Above rank H m) (h : Obeys rank post (f ()) (insert m H)) :
    Obeys rank post (take m >>= f) H := ⟨hm, h⟩

/-- The mutex that was taken last is released. -/
theorem obeys_release (hm : m ∉ H) (h : Obeys rank post (f ()) H) :
    Obeys rank post (release m >>= f) (insert m H) := by
  refine ⟨Set.mem_insert m H, ?_⟩
  rwa [Set.insert_sdiff_self_of_notMem hm]

theorem obeys_call {f : α → Locking M Res β} (hp : Keeps rank H p) (h : ∀ a, Obeys rank post (f a) H) :
    Obeys rank post (p >>= f) H := by
  rw [obeys_bind]
  refine hp.mono ?_
  rintro a _ rfl
  exact h a

theorem obeys_run {f : Res o → Locking M Res β} (h : ∀ r, Obeys rank post (f r) H) :
    Obeys rank post (run o >>= f) H := h

/-- A branch on the result of a call; nothing is known about the result. -/
theorem obeys_branch {c : α → Prop} [∀ a, Decidable (c a)] (hp : Keeps rank H p) (h : Obeys rank post q H)
    (h' : Obeys rank post q' H) : Obeys rank post (p >>= fun a => if c a then q else q') H := by
  refine obeys_call hp fun a => ?_
  split_ifs
  · exact h
  · exact h'

end

section
variable {H : Set M}

theorem keeps_pure (a : α) : Keeps rank H (pure a : Locking M Res α) := rfl

theorem keeps_run (o : Op) : Keeps rank H (run o : Locking M Res (Res o)) := fun _ => rfl

theorem obeys_test {c : Res o → Prop} {_ : ∀ r, Decidable (c r)} (h : Obeys rank post q H)
    (h' : Obeys rank post q' H) :
    Obeys rank post (run o >>= fun r => if c r then q else q') H := obeys_branch (keeps_run o) h h'

variable {a : α}

/-- A test on which the function returns. -/
theorem keeps_guard {c : Res o → Prop} {_ : ∀ r, Decidable (c r)} {q : Locking M Res α} (h : Keeps rank H q) :
    Keeps rank H (run o >>= fun r => if c r then pure a else q) :=
  obeys_test (keeps_pure a) h

/-- A test on which the function gives a mutex back and returns. -/
theorem obeys_guard {c : Res o → Prop} {_ : ∀ r, Decidable (c r)} {q : Locking M Res α} (hm : m ∉ H)
    (h : Obeys rank (fun _ H' => H' = H) q (insert m H)) :
    Obeys rank (fun _ H' => H' = H) (run o >>= fun r => if c r then release m >>= fun _ => pure a else q)
      (insert m H) :=
  obeys_test (obeys_release hm (keeps_pure a)) h

/-- A call whose result does not matter. -/
theorem keeps_before {p : Locking M Res β} {f : β → α} (hp : Keeps rank H p) :
    Keeps rank H (p >>= fun b => pure (f b)) := obeys_call hp fun _ => keeps_pure _

theorem keeps_locked (hm : Above rank H m) (hp : Keeps rank (insert m H) p) : Keeps rank H (locked m p) := by
  refine obeys_take hm (obeys_call hp fun a => ?_)
  exact obeys_release hm.notMem (keeps_pure a)

theorem keeps_rounds {body : Locking M Res (Option α)} (h : Keeps rank H body) :
    ∀ n, Keeps rank H (rounds body n)
  | 0 => keeps_pure none
  | n + 1 => by
    refine obeys_call h fun r => ?_
    cases r with
    | none => exact keeps_rounds h n
    | some a => exact keeps_pure _

end

/-! One mutex at a time. -/

theorem keeps_op (o : Op) : Keeps rank ∅ (locked m (run o : Locking M Res (Res o))) :=
  keeps_locked (above_empty m) (keeps_run o)

section
variable {post : β → Set M → Prop} {o : Op} {c : Res o → Prop} {_ : ∀ r, Decidable (c r)} {b : β}
  {q : Locking M Res β}

theorem leave (h : Obeys rank post (f ()) ∅) :
    Obeys rank post (release m >>= f) (insert m ∅) := obeys_release (Set.notMem_empty m) h

theorem leave_guard (h : Obeys rank (fun _ H' => H' = ∅) q (insert m ∅)) :
    Obeys rank (fun _ H' => H' = ∅) (run o >>= fun r => if c r then release m >>= fun _ => pure b else q)
      (insert m ∅) := obeys_guard (Set.notMem_empty m) h

theorem enter_guard (h : Obeys rank (fun _ H' => H' = ∅) q (insert m ∅)) :
    Keeps rank ∅ (take m >>= fun _ => run o >>= fun r => if c r then release m >>= fun _ => pure b else q) :=
  obeys_take (above_empty m) (leave_guard h)

end

end

end Locking

/-! ## Threads -/

open Locking

/-- What the operations of the threads `ι` can do to the data `σ`, and with which results. -/
abbrev Meaning (ι σ : Type) {Op : Type} (Res : Op → Type) : Type :=
  ι → (o : Op) → σ → Res o → σ → Prop

/-- Every operation returns. -/
def Meaning.Total {ι σ Op : Type} {Res : Op → Type} (D : Meaning ι σ Res) : Prop :=
  ∀ i o d, ∃ r d', D i o d r d'

structure Threads (ι M σ : Type) {Op : Type} (Res : Op → Type) where
  prog : ι → Locking M Res Unit
  owner : M → Option ι
  data : σ

namespace Threads

variable {ι M σ Op : Type} {Res : Op → Type}

def held (s : Threads ι M σ Res) (i : ι) : Set M := {m | s.owner m = some i}

def Holds (s : Threads ι M σ Res) (i : ι) (m : M) : Prop := s.owner m = some i

/-- The thread is at a call that takes the mutex. -/
def Waits (s : Threads ι M σ Res) (i : ι) (m : M) : Prop := ∃ k, s.prog i = .lock m k

/-- The thread waits for a mutex or holds one. -/
def Engaged (s : Threads ι M σ Res) (i : ι) : Prop := ∃ m, s.Waits i m ∨ s.Holds i m

variable [DecidableEq ι] [DecidableEq M] (D : Meaning ι σ Res)

/-- A step of the thread `i`.  A mutex does not know who took it: any thread can release it. -/
inductive Step (i : ι) : Threads ι M σ Res → Threads ι M σ Res → Prop
  | lock {s : Threads ι M σ Res} {m : M} {k : Locking M Res Unit} (hp : s.prog i = .lock m k)
      (hfree : s.owner m = none) :
      Step i s { s with prog := update s.prog i k, owner := update s.owner m (some i) }
  | unlock {s : Threads ι M σ Res} {m : M} {k : Locking M Res Unit} (hp : s.prog i = .unlock m k)
      (htaken : s.owner m ≠ none) :
      Step i s { s with prog := update s.prog i k, owner := update s.owner m none }
  | act {s : Threads ι M σ Res} {o : Op} {k : Res o → Locking M Res Unit} {r : Res o} {d : σ}
      (hp : s.prog i = .act o k) (hD : D i o s.data r d) :
      Step i s { s with prog := update s.prog i (k r), data := d }

section
variable {s : Threads ι M σ Res} {p : ι → Locking M Res Unit} {m : M} {i : ι} {d : σ}

omit [DecidableEq ι] in
theorem held_update_of_ne {o : Option ι} (hs : s.owner m ≠ some i) (ho : o ≠ some i) :
    held (⟨p, update s.owner m o, d⟩ : Threads ι M σ Res) i = s.held i := by
  ext m'
  by_cases hm : m' = m <;> simp [held, update_apply, hm, hs, ho]

omit [DecidableEq ι] in
theorem held_update_some :
    held (⟨p, update s.owner m (some i), d⟩ : Threads ι M σ Res) i = insert m (s.held i) := by
  ext m'
  by_cases hm : m' = m <;> simp [held, update_apply, hm]

omit [DecidableEq ι] in
theorem held_update_none : held (⟨p, update s.owner m none, d⟩ : Threads ι M σ Res) i = s.held i \ {m} := by
  ext m'
  by_cases hm : m' = m <;> simp [held, update_apply, hm]

end

def Reachable : Threads ι M σ Res → Threads ι M σ Res → Prop :=
  Relation.ReflTransGen fun s s' => ∃ i, Step D i s s'

variable {D} in
theorem Reachable.step {s s' s'' : Threads ι M σ Res} {i : ι} (h : Reachable D s s') (hs : Step D i s' s'') :
    Reachable D s s'' := h.tail ⟨i, hs⟩

variable {R : Type} [Preorder R] (rank : M → R)

/-- What the threads are to return with: nothing held. -/
abbrev Ends : Unit → Set M → Prop := fun _ H => H = ∅

/-- Threads that obey the order. -/
structure Orderly (s : Threads ι M σ Res) : Prop where
  obeys : ∀ i, Obeys rank Ends (s.prog i) (s.held i)
  distinct : ∀ i, Set.InjOn rank (s.held i)

omit [DecidableEq ι] [DecidableEq M] in
theorem orderly_start {prog : ι → Locking M Res Unit} (h : ∀ i, Keeps rank ∅ (prog i)) (d : σ) :
    Orderly rank (⟨prog, fun _ => none, d⟩ : Threads ι M σ Res) := by
  have hempty : ∀ i, (⟨prog, fun _ => none, d⟩ : Threads ι M σ Res).held i = ∅ := by
    intro i
    ext m
    simp [held]
  refine ⟨fun i => ?_, fun i => ?_⟩
  · rw [hempty]
    exact h i
  · rw [hempty]
    exact Set.injOn_empty rank

namespace Orderly

variable {D rank} {s s' : Threads ι M σ Res} {i : ι} (h : Orderly rank s)
include h

omit [DecidableEq ι] [DecidableEq M] in
theorem above {m : M} (hw : s.Waits i m) : Above rank (s.held i) m := by
  obtain ⟨k, hk⟩ := hw
  have hobeys := h.obeys i
  rw [hk] at hobeys
  exact hobeys.1

omit [DecidableEq ι] [DecidableEq M] in
/-- One thread moves; the others hold what they held. -/
theorem of_others (hprog : ∀ j, j ≠ i → s'.prog j = s.prog j)
    (hheld : ∀ j, j ≠ i → s'.held j = s.held j) (hi : Obeys rank Ends (s'.prog i) (s'.held i))
    (hd : Set.InjOn rank (s'.held i)) : Orderly rank s' := by
  refine ⟨fun j => ?_, fun j => ?_⟩
  · rcases eq_or_ne j i with rfl | hj
    · exact hi
    · rw [hprog j hj, hheld j hj]
      exact h.obeys j
  · rcases eq_or_ne j i with rfl | hj
    · exact hd
    · rw [hheld j hj]
      exact h.distinct j

theorem step (hs : Step D i s s') : Orderly rank s' := by
  have hi := h.obeys i
  cases hs with
  | @lock m k hp hfree =>
    rw [hp] at hi
    refine h.of_others (i := i) (fun j hj => update_of_ne hj ..) ?_ ?_ ?_
    · intro j hj
      exact held_update_of_ne (by simp [hfree]) (by simp [hj.symm])
    · rw [held_update_some]
      dsimp only
      rw [update_self]
      exact hi.2
    · rw [held_update_some, Set.injOn_insert hi.1.notMem]
      refine ⟨h.distinct i, ?_⟩
      rintro ⟨m', hm', hrank⟩
      exact (hi.1 m' hm').ne hrank
  | @unlock m k hp htaken =>
    rw [hp] at hi
    have hm : s.owner m = some i := hi.1
    refine h.of_others (i := i) (fun j hj => update_of_ne hj ..) ?_ ?_ ?_
    · intro j hj
      exact held_update_of_ne (by simp [hm, hj.symm]) (by simp)
    · rw [held_update_none]
      dsimp only
      rw [update_self]
      exact hi.2
    · rw [held_update_none]
      exact (h.distinct i).mono Set.sdiff_subset
  | @act o k r d hp hD =>
    rw [hp] at hi
    refine h.of_others (i := i) (fun j hj => update_of_ne hj ..) (fun _ _ => rfl) ?_ (h.distinct i)
    dsimp only
    rw [update_self]
    exact hi r

/-- **The invariant** of a run. -/
theorem of_reachable (hr : Reachable D s s') : Orderly rank s' := by
  induction hr with
  | refl => exact h
  | tail _ hs ih =>
    obtain ⟨i, hi⟩ := hs
    exact ih.step hi

/-- A thread that waits or holds can go on, unless the mutex it waits for is taken. -/
theorem step_or_waits (hD : D.Total) (hi : s.Engaged i) :
    (∃ s', Step D i s s') ∨ ∃ m j, s.Waits i m ∧ s.Holds j m := by
  have hobeys := h.obeys i
  cases hp : s.prog i with
  | ret a =>
    rw [hp] at hobeys
    obtain ⟨m, ⟨k, hk⟩ | hm⟩ := hi
    · rw [hp] at hk
      cases hk
    · have hmem : m ∈ s.held i := hm
      rw [show s.held i = ∅ from hobeys] at hmem
      exact hmem.elim
  | lock m k =>
    cases hfree : s.owner m with
    | none => exact .inl ⟨_, .lock hp hfree⟩
    | some j => exact .inr ⟨m, j, ⟨k, hp⟩, hfree⟩
  | unlock m k =>
    rw [hp] at hobeys
    have hm : s.owner m = some i := hobeys.1
    exact .inl ⟨_, .unlock hp (by rw [hm]; exact Option.some_ne_none i)⟩
  | act o k =>
    obtain ⟨r, d, hr⟩ := hD i o s.data
    exact .inl ⟨_, .act hp hr⟩

/-- Behind a taken mutex there is a thread that can go on: the ranks rise along a chain of threads that wait
for each other. -/
theorem progress_behind [WellFoundedGT R] (hD : D.Total) (m : M) :
    ∀ j, s.Holds j m → ∃ i, s.Engaged i ∧ ∃ s', Step D i s s' := by
  refine (InvImage.wf rank (wellFounded_gt (α := R))).induction
    (C := fun m => ∀ j, s.Holds j m → ∃ i, s.Engaged i ∧ ∃ s', Step D i s s') m ?_
  intro m ih j hj
  have hengaged : s.Engaged j := ⟨m, .inr hj⟩
  rcases h.step_or_waits hD hengaged with hstep | ⟨m', j', hw, hj'⟩
  · exact ⟨j, hengaged, hstep⟩
  · exact ih m' (h.above hw m hj) j' hj'

/-- **Progress**: as long as a thread waits for a mutex or holds one, some such thread can go on. -/
theorem progress [WellFoundedGT R] (hD : D.Total) (hi : s.Engaged i) :
    ∃ j, s.Engaged j ∧ ∃ s', Step D j s s' := by
  rcases h.step_or_waits hD hi with hstep | ⟨m, j, -, hj⟩
  · exact ⟨i, hi, hstep⟩
  · exact h.progress_behind hD m j hj

end Orderly

end Threads

end TamagoUefi.Lib
