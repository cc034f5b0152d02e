import Mathlib.Data.List.Basic

/-!
# TamagoUefi.Lib.Ask — programs that talk to an environment

A client of a server is a tree: it returns, or it asks a question and continues with the reply.
The environment is not modelled: `Runs p tr a` says that `p` returns `a` in the run whose questions
and replies are `tr`, so a theorem over every `tr` is a theorem over every sequence of replies, an
adversary's included.

* `Ask Q R α`, its monad, and the inversion rule `runs_bind`.
* `exec p rs`: the run of `p` against the finite list of replies `rs` (`runs_iff_exec`).
* `serve s hist p`: the run of `p` against a server that may remember (`serve_eq_iff`); `eval s p`
  is its result against one that does not.
* `AskE`: programs that may fail, `ExceptT` over `Ask`, with `Yields` (returned normally) and the
  same rules for sequencing; `attempt` keeps the failure of a sub-program as a value.
* `Meets P hist p Post`: rules about what `p` asks and returns, given the replies so far.
-/

namespace TamagoUefi.Lib

/-- A program that asks questions of type `Q`, gets replies of type `R` and returns an `α`. -/
inductive Ask (Q R : Type) (α : Type) : Type
  | ret (a : α)
  | ask (q : Q) (k : R → Ask Q R α)

namespace Ask

variable {Q R α β : Type}

def bind : Ask Q R α → (α → Ask Q R β) → Ask Q R β
  | ret a, f => f a
  | ask q k, f => ask q fun r => bind (k r) f

instance : Monad (Ask Q R) where
  pure := ret
  bind := bind

/-- One question, returning its reply. -/
def query (q : Q) : Ask Q R R := ask q ret

/-- `p` returns `a`, having asked the questions of `tr` and got the replies of `tr`, in order. -/
def Runs : Ask Q R α → List (Q × R) → α → Prop
  | ret b, tr, a => tr = [] ∧ b = a
  | ask q k, tr, a => ∃ r tr', tr = (q, r) :: tr' ∧ Runs (k r) tr' a

@[simp] theorem runs_pure {b a : α} {tr : List (Q × R)} : Runs (pure b) tr a ↔ tr = [] ∧ b = a := Iff.rfl

@[simp] theorem runs_query {q : Q} {r : R} {tr : List (Q × R)} : Runs (query q) tr r ↔ tr = [(q, r)] := by
  constructor
  · rintro ⟨r', tr', rfl, rfl, rfl⟩
    rfl
  · rintro rfl
    exact ⟨r, [], rfl, rfl, rfl⟩

variable {p : Ask Q R α}

/-- **Sequencing**: a run of `p >>= f` is a run of `p` followed by one of `f`. -/
theorem runs_bind {f : α → Ask Q R β} {tr : List (Q × R)} {b : β} :
    Runs (p >>= f) tr b ↔ ∃ t₁ t₂ a, tr = t₁ ++ t₂ ∧ Runs p t₁ a ∧ Runs (f a) t₂ b := by
  induction p generalizing tr with
  | ret a =>
    constructor
    · intro h
      exact ⟨[], tr, a, rfl, ⟨rfl, rfl⟩, h⟩
    · rintro ⟨t₁, t₂, a', rfl, ⟨rfl, rfl⟩, h⟩
      exact h
  | ask q k ih =>
    constructor
    · rintro ⟨r, tr', rfl, h⟩
      obtain ⟨t₁, t₂, a, rfl, h₁, h₂⟩ := (ih r).mp h
      exact ⟨(q, r) :: t₁, t₂, a, rfl, ⟨r, t₁, rfl, h₁⟩, h₂⟩
    · rintro ⟨t₁, t₂, a, rfl, ⟨r, t₁', rfl, h₁⟩, h₂⟩
      exact ⟨r, t₁' ++ t₂, rfl, (ih r).mpr ⟨t₁', t₂, a, rfl, h₁, h₂⟩⟩

/-- The run against the replies `rs`: its trace and result, `none` if the replies do not fit. -/
def exec : Ask Q R α → List R → Option (List (Q × R) × α)
  | ret a, [] => some ([], a)
  | ret _, _ :: _ => none
  | ask _ _, [] => none
  | ask q k, r :: rs => (exec (k r) rs).map fun x => ((q, r) :: x.1, x.2)

theorem runs_iff_exec {tr : List (Q × R)} {a : α} :
    Runs p tr a ↔ exec p (tr.map Prod.snd) = some (tr, a) := by
  induction p generalizing tr with
  | ret b => cases tr <;> simp [Runs, exec]
  | ask q k ih =>
    cases tr with
    | nil => simp [Runs, exec]
    | cons qr tr =>
      obtain ⟨q', r⟩ := qr
      simp only [Runs, exec, List.map_cons, Option.map_eq_some_iff, List.cons.injEq,
        Prod.mk.injEq]
      constructor
      · rintro ⟨r', tr', ⟨⟨rfl, rfl⟩, rfl⟩, h⟩
        exact ⟨_, (ih r).mp h, ⟨⟨rfl, trivial⟩, rfl⟩, rfl⟩
      · rintro ⟨⟨t, b⟩, h, ⟨⟨rfl, -⟩, rfl⟩, rfl⟩
        exact ⟨r, t, ⟨⟨rfl, rfl⟩, rfl⟩, (ih r).mpr h⟩

/-- A run is determined by its questions and replies. -/
theorem runs_det {tr : List (Q × R)} {a b : α} (h₁ : Runs p tr a) (h₂ : Runs p tr b) : a = b := by
  rw [runs_iff_exec] at h₁ h₂
  exact congrArg Prod.snd (Option.some.inj (h₁.symm.trans h₂))

/-! ### Servers -/

/-- The run of `p` against a server whose reply depends on the question and on those before it:
its trace and result, from the past `hist` of questions. -/
def serve (s : List Q → Q → R) : List Q → Ask Q R α → List (Q × R) × α
  | _, ret a => ([], a)
  | hist, ask q k =>
    let rest := serve s (hist ++ [q]) (k (s hist q))
    ((q, s hist q) :: rest.1, rest.2)

/-- The replies of `tr` are those of the server. -/
def Answered (s : List Q → Q → R) : List Q → List (Q × R) → Prop
  | _, [] => True
  | hist, (q, r) :: tr => r = s hist q ∧ Answered s (hist ++ [q]) tr

section
variable {s : List Q → Q → R}

/-- Every program has exactly one run against a server. -/
theorem serve_eq_iff {hist : List Q} {tr : List (Q × R)} {a : α} :
    serve s hist p = (tr, a) ↔ Runs p tr a ∧ Answered s hist tr := by
  induction p generalizing hist tr with
  | ret b =>
    simp only [serve, Prod.mk.injEq, Runs]
    constructor
    · rintro ⟨rfl, rfl⟩
      exact ⟨⟨rfl, rfl⟩, trivial⟩
    · rintro ⟨⟨rfl, rfl⟩, -⟩
      exact ⟨rfl, rfl⟩
  | ask q k ih =>
    simp only [serve, Prod.mk.injEq, Runs]
    constructor
    · rintro ⟨rfl, rfl⟩
      obtain ⟨hr, ha⟩ := (ih (s hist q)).mp rfl
      exact ⟨⟨_, _, rfl, hr⟩, rfl, ha⟩
    · rintro ⟨⟨r, tr', rfl, hr⟩, rfl, ha⟩
      rw [(ih (s hist q)).mpr ⟨hr, ha⟩]
      exact ⟨rfl, rfl⟩

end

/-- The result of `p` against a server that always replies the same to a question. -/
def eval (s : Q → R) : Ask Q R α → α
  | ret a => a
  | ask q k => eval s (k (s q))

theorem serve_memoryless {s : Q → R} {hist : List Q} : (serve (fun _ => s) hist p).2 = eval s p := by
  induction p generalizing hist with
  | ret a => rfl
  | ask q k ih => exact ih (s q)

@[simp] theorem eval_pure {s : Q → R} {a : α} : eval s (pure a) = a := rfl

/-- Such a server has no state, so results compose. -/
@[simp] theorem eval_bind {s : Q → R} {f : α → Ask Q R β} : eval s (p >>= f) = eval s (f (eval s p)) := by
  induction p with
  | ret a => rfl
  | ask q k ih => exact ih (s q)

end Ask

theorem except_bind_eq_ok {ε α β : Type} {x : Except ε α} {f : α → Except ε β} {b : β} :
    x >>= f = .ok b ↔ ∃ a, x = .ok a ∧ f a = .ok b := by
  cases x with
  | error e => simp [bind, Except.bind]
  | ok a => simp [bind, Except.bind]

theorem except_mapError_eq_ok {ε ε' α : Type} {x : Except ε α} {f : ε → ε'} {a : α} :
    x.mapError f = .ok a ↔ x = .ok a := by
  cases x <;> simp [Except.mapError]

theorem except_ok_bind {ε α β : Type} (a : α) (f : α → Except ε β) : (Except.ok a >>= f) = f a := rfl

/-- Programs that may fail with an `ε`. -/
abbrev AskE (Q R ε α : Type) : Type := ExceptT ε (Ask Q R) α

namespace AskE

open Ask

variable {Q R ε ε' α β : Type}

/-- One question, returning its reply. -/
def query (q : Q) : AskE Q R ε R := ExceptT.lift (Ask.query q)

/-- Run `p` and keep its failure as a value. -/
def attempt (p : AskE Q R ε α) : AskE Q R ε' (Except ε α) := ExceptT.lift p.run

/-- Rewrite the failure of `p`. -/
def mapErr (f : ε → ε') (p : AskE Q R ε α) : AskE Q R ε' α :=
  ExceptT.mk (p.run >>= fun y => pure (y.mapError f))

/-- A computation that asks nothing. -/
def ofExcept : Except ε α → AskE Q R ε α
  | .ok a => pure a
  | .error e => throw e

/-- `p` returns `a` normally, with the questions and replies `tr`. -/
def Yields (p : AskE Q R ε α) (tr : List (Q × R)) (a : α) : Prop := Runs p.run tr (.ok a)

variable {p : AskE Q R ε α} {f : α → AskE Q R ε β} {tr : List (Q × R)}

theorem runs_bind {x : Except ε β} :
    Runs (p >>= f).run tr x ↔
      (∃ e, x = .error e ∧ Runs p.run tr (.error e)) ∨
      ∃ t₁ t₂ a, tr = t₁ ++ t₂ ∧ Yields p t₁ a ∧ Runs (f a).run t₂ x := by
  have key : (p >>= f).run = p.run >>= fun y =>
      match y with
      | .ok a => (f a).run
      | .error e => pure (.error e) := rfl
  rw [key, Ask.runs_bind]
  constructor
  · rintro ⟨t₁, t₂, y, rfl, h₁, h₂⟩
    cases y with
    | ok a => exact Or.inr ⟨t₁, t₂, a, rfl, h₁, h₂⟩
    | error e =>
      obtain ⟨rfl, rfl⟩ := runs_pure.mp h₂
      exact Or.inl ⟨e, rfl, by simpa using h₁⟩
  · rintro (⟨e, rfl, h⟩ | ⟨t₁, t₂, a, rfl, h₁, h₂⟩)
    · exact ⟨tr, [], .error e, by simp, h, by simp⟩
    · exact ⟨t₁, t₂, .ok a, rfl, h₁, h₂⟩

variable {s : Q → R}

theorem eval_bind_eq_ok {b : β} :
    (p >>= f).run.eval s = .ok b ↔
      ∃ a, p.run.eval s = .ok a ∧ (f a).run.eval s = .ok b := by
  have key : (p >>= f).run.eval s = (ExceptT.bindCont f (p.run.eval s)).eval s := Ask.eval_bind
  rw [key]
  cases p.run.eval s with
  | error e => simp [ExceptT.bindCont]
  | ok a => simp [ExceptT.bindCont, ExceptT.run]

variable {a : α}

theorem eval_mapErr_eq_ok {f : ε → ε'} : (mapErr f p).run.eval s = .ok a ↔ p.run.eval s = .ok a := by
  have key : (mapErr f p).run.eval s = (p.run.eval s).mapError f := Ask.eval_bind
  rw [key]
  cases p.run.eval s with
  | error e => simp [Except.mapError]
  | ok b => simp [Except.mapError]

variable {y : Except ε α}

@[simp] theorem eval_ofExcept : (ofExcept y : AskE Q R ε α).run.eval s = y := by
  cases y <;> rfl

@[simp] theorem eval_lift {p : Ask Q R α} :
    (ExceptT.lift p : AskE Q R ε α).run.eval s = .ok (p.eval s) := Ask.eval_bind

/-- **Sequencing** of normal returns. -/
theorem yields_bind {b : β} :
    Yields (p >>= f) tr b ↔ ∃ t₁ t₂ a, tr = t₁ ++ t₂ ∧ Yields p t₁ a ∧ Yields (f a) t₂ b := by
  unfold Yields
  rw [runs_bind]
  simp [Yields]

variable {x : Except ε α}

@[simp] theorem runs_run_pure {b : α} : Runs (pure b : AskE Q R ε α).run tr x ↔ tr = [] ∧ x = .ok b := by
  constructor
  · rintro ⟨rfl, rfl⟩; exact ⟨rfl, rfl⟩
  · rintro ⟨rfl, rfl⟩; exact ⟨rfl, rfl⟩

@[simp] theorem runs_run_throw {e : ε} : Runs (throw e : AskE Q R ε α).run tr x ↔ tr = [] ∧ x = .error e := by
  constructor
  · rintro ⟨rfl, rfl⟩; exact ⟨rfl, rfl⟩
  · rintro ⟨rfl, rfl⟩; exact ⟨rfl, rfl⟩

@[simp] theorem yields_pure {b : α} : Yields (pure b : AskE Q R ε α) tr a ↔ tr = [] ∧ b = a := by
  simp [Yields]

@[simp] theorem yields_throw {e : ε} : ¬ Yields (throw e : AskE Q R ε α) tr a := by
  simp [Yields]

theorem runs_lift {p : Ask Q R α} :
    Runs (ExceptT.lift p : AskE Q R ε α).run tr x ↔ ∃ a, x = .ok a ∧ Runs p tr a := by
  have key : (ExceptT.lift p : AskE Q R ε α).run = p >>= fun a => pure (.ok a) := rfl
  rw [key, Ask.runs_bind]
  constructor
  · rintro ⟨t₁, t₂, a, rfl, h, h'⟩
    obtain ⟨rfl, rfl⟩ := runs_pure.mp h'
    exact ⟨a, rfl, by simpa using h⟩
  · rintro ⟨a, rfl, h⟩
    exact ⟨tr, [], a, by simp, h, by simp⟩

@[simp] theorem runs_run_query {q : Q} {x : Except ε R} :
    Runs (query q : AskE Q R ε R).run tr x ↔ ∃ r, x = .ok r ∧ tr = [(q, r)] := by
  rw [query, runs_lift]
  simp

@[simp] theorem yields_query {q : Q} {r : R} : Yields (query q : AskE Q R ε R) tr r ↔ tr = [(q, r)] := by
  simp [Yields]

theorem runs_run_mapErr {f : ε → ε'} {x : Except ε' α} :
    Runs (mapErr f p).run tr x ↔ ∃ y, x = y.mapError f ∧ Runs p.run tr y := by
  have key : (mapErr f p).run = p.run >>= fun y => pure (y.mapError f) := rfl
  rw [key, Ask.runs_bind]
  constructor
  · rintro ⟨t₁, t₂, y, rfl, h, h'⟩
    obtain ⟨rfl, rfl⟩ := runs_pure.mp h'
    exact ⟨y, rfl, by simpa using h⟩
  · rintro ⟨y, rfl, h⟩
    exact ⟨tr, [], y, by simp, h, by simp⟩

@[simp] theorem yields_mapErr {f : ε → ε'} : Yields (mapErr f p) tr a ↔ Yields p tr a := by
  unfold Yields
  rw [runs_run_mapErr]
  constructor
  · rintro ⟨y, hy, h⟩
    cases y with
    | ok b => cases hy; exact h
    | error e => cases hy
  · intro h
    exact ⟨.ok a, rfl, h⟩

@[simp] theorem runs_run_ofExcept : Runs (ofExcept y : AskE Q R ε α).run tr x ↔ tr = [] ∧ x = y := by
  cases y <;> simp [ofExcept, eq_comm]

@[simp] theorem yields_ofExcept : Yields (ofExcept y : AskE Q R ε α) tr a ↔ tr = [] ∧ y = .ok a := by
  simp [Yields, eq_comm]

theorem runs_run_check {y : Except ε β} :
    Runs (ofExcept y >>= fun _ => pure a : AskE Q R ε α).run tr x ↔ tr = [] ∧ x = y.map fun _ => a := by
  rw [runs_bind]
  cases y with
  | error e => simp [Except.map, ofExcept, and_comm]
  | ok b => simp [Except.map, eq_comm]

/-! ### Rules about questions and replies -/

/-- From the past `hist` of replies, every run of `p` asks only questions that stand in `P` to the
replies before them, and returns only values that stand in `Post` to the replies then known. -/
def Meets (P : List R → Q → Prop) (hist : List R) (p : AskE Q R ε α)
    (Post : List R → α → Prop) : Prop :=
  ∀ tr y, Runs p.run tr y →
    (∀ t₁ q r t₂, tr = t₁ ++ (q, r) :: t₂ → P (hist ++ t₁.map Prod.snd) q) ∧
      ∀ a, y = .ok a → Post (hist ++ tr.map Prod.snd) a

section
variable {P : List R → Q → Prop} {hist : List R} {Post : List R → α → Prop}

theorem meets_of_silent (h : ∀ tr y, Runs p.run tr y → tr = [] ∧ ∀ a, y = .ok a → Post hist a) :
    Meets P hist p Post := by
  intro tr y hr
  obtain ⟨rfl, hy⟩ := h tr y hr
  refine ⟨fun t₁ q r t₂ htr => ?_, by simpa using hy⟩
  simp at htr

theorem meets_pure (h : Post hist a) : Meets P hist (pure a : AskE Q R ε α) Post := by
  refine meets_of_silent fun tr y hr => ?_
  obtain ⟨rfl, rfl⟩ := runs_run_pure.mp hr
  exact ⟨rfl, fun b hb => Except.ok.inj hb ▸ h⟩

theorem meets_throw (e : ε) : Meets P hist (throw e : AskE Q R ε α) Post := by
  refine meets_of_silent fun tr y hr => ?_
  obtain ⟨rfl, rfl⟩ := runs_run_throw.mp hr
  exact ⟨rfl, fun b hb => nomatch hb⟩

theorem meets_mapErr {f : ε → ε'} (h : Meets P hist p Post) : Meets P hist (mapErr f p) Post := by
  intro tr y hr
  obtain ⟨y', rfl, hr'⟩ := runs_run_mapErr.mp hr
  refine ⟨(h tr y' hr').1, fun a ha => ?_⟩
  cases y' with
  | ok b => exact (h tr _ hr').2 a (congrArg Except.ok (Except.ok.inj ha))
  | error e => cases ha

/-- **Sequencing**: what comes after `p` is asked with the replies `p` got added to the past. -/
theorem meets_bind {Post' : List R → β → Prop} (hp : Meets P hist p Post)
    (hf : ∀ t a, Post (hist ++ t) a → Meets P (hist ++ t) (f a) Post') : Meets P hist (p >>= f) Post' := by
  intro tr y h
  rcases runs_bind.mp h with ⟨e, rfl, he⟩ | ⟨s₁, s₂, a, rfl, h₁, h₂⟩
  · exact ⟨(hp _ _ he).1, fun b hb => nomatch hb⟩
  · obtain ⟨hq₁, hpost⟩ := hp _ _ h₁
    obtain ⟨hq₂, hpost'⟩ := hf _ a (hpost a rfl) _ _ h₂
    refine ⟨fun t₁ q r t₂ htr => ?_, by simpa [List.append_assoc] using hpost'⟩
    -- the question was asked by `p`, or by what follows it
    rcases List.append_eq_append_iff.mp htr with ⟨u, rfl, hu⟩ | ⟨u, rfl, hu⟩
    · simpa [List.append_assoc] using hq₂ u q r t₂ hu
    · cases u with
      | nil => simpa using hq₂ [] q r t₂ hu.symm
      | cons qr u =>
        obtain ⟨rfl, -⟩ := List.cons_eq_cons.mp hu
        exact hq₁ _ _ _ _ rfl

/-- A check that asks nothing: what comes after it may use that it passed. -/
theorem meets_ofExcept_bind {y : Except ε' α} {e : ε' → ε} {Post' : List R → β → Prop}
    (h : ∀ a, y = .ok a → Meets P hist (f a) Post') : Meets P hist (mapErr e (ofExcept y) >>= f) Post' := by
  have hcheck : Meets P hist (mapErr e (ofExcept y) : AskE Q R ε α)
      fun hist' a => hist' = hist ∧ y = .ok a := by
    refine meets_mapErr (meets_of_silent fun tr y' hr => ?_)
    obtain ⟨rfl, rfl⟩ := runs_run_ofExcept.mp hr
    exact ⟨rfl, fun a ha => ⟨rfl, ha⟩⟩
  refine meets_bind hcheck fun t a ht => ?_
  rw [ht.1]
  exact h a ht.2

theorem mapErr_id_ofExcept (y : Except ε α) : (mapErr id (ofExcept y) : AskE Q R ε α) = ofExcept y := by
  cases y <;> rfl

end

end AskE

end TamagoUefi.Lib
