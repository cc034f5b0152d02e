import TamagoUefi.Lib.Ask

/-!
# TamagoUefi.Lib.TwoRuns — two runs of programs that talk to servers

`Alike S Post p p'` compares two programs that may fail: while neither has failed they ask the same
questions, and if both return their results stand in `Post`, whatever the replies, as long as the
replies to a question stand in `S`.  A program that has failed is alike to every other, so nothing is
said of a run whose partner fails.

* `Alike.serve`: two servers whose replies stand in `S` bring both programs to results in `Post`.
* `Alike.bind`, `Alike.bind_eq`, `Alike.mapErr` and the rules for single steps.
-/

namespace TamagoUefi.Lib.AskE

open Ask

variable {Q R ε ε' α β γ δ : Type}

inductive Alike (S : R → R → Prop) (Post : α → β → Prop) :
    Ask Q R (Except ε α) → Ask Q R (Except ε' β) → Prop
  | ret {a : α} {b : β} (h : Post a b) : Alike S Post (.ret (.ok a)) (.ret (.ok b))
  | left {e : ε} {p' : Ask Q R (Except ε' β)} : Alike S Post (.ret (.error e)) p'
  | right {p : Ask Q R (Except ε α)} {e : ε'} : Alike S Post p (.ret (.error e))
  | ask {q : Q} {k : R → Ask Q R (Except ε α)} {k' : R → Ask Q R (Except ε' β)}
    (h : ∀ r r', S r r' → Alike S Post (k r) (k' r')) : Alike S Post (.ask q k) (.ask q k')

section
variable {S : R → R → Prop} {Post : α → β → Prop}

/-- **Two runs**: against servers whose replies stand in `S`, two results stand in `Post`. -/
theorem Alike.serve {s s' : List Q → Q → R} (hs : ∀ hist q, S (s hist q) (s' hist q))
    {p : Ask Q R (Except ε α)} {p' : Ask Q R (Except ε' β)} (h : Alike S Post p p') :
    ∀ (hist : List Q) (a : α) (b : β), (Ask.serve s hist p).2 = .ok a →
      (Ask.serve s' hist p').2 = .ok b → Post a b := by
  induction h with
  | ret hpost =>
    intro hist a b ha hb
    cases ha
    cases hb
    exact hpost
  | left =>
    intro hist a b ha
    cases ha
  | right =>
    intro hist a b _ hb
    cases hb
  | @ask q k k' _ ih =>
    intro hist a b ha hb
    exact ih _ _ (hs hist q) (hist ++ [q]) a b ha hb

theorem alike_query {q : Q} : Alike S S (query q : AskE Q R ε R).run (query q : AskE Q R ε' R).run :=
  .ask fun _ _ hr => .ret hr

theorem alike_ofExcept {y : Except ε α} :
    Alike S Eq (ofExcept y : AskE Q R ε α).run (ofExcept y : AskE Q R ε α).run := by
  cases y with
  | error e => exact .left
  | ok a => exact .ret rfl

theorem Alike.mapErr {ε₁ ε₁' : Type} {f : ε → ε₁} {f' : ε' → ε₁'} {p : AskE Q R ε α}
    {p' : AskE Q R ε' β} (h : Alike S Post p.run p'.run) :
    Alike S Post (AskE.mapErr f p).run (AskE.mapErr f' p').run := by
  change Alike S Post (p.run.bind fun y => .ret (y.mapError f))
    (p'.run.bind fun y => .ret (y.mapError f'))
  generalize p.run = t, p'.run = t' at h
  induction h with
  | ret h => exact .ret h
  | left => exact .left
  | right => exact .right
  | ask _ ih => exact .ask fun r r' hr => ih r r' hr

/-- **Sequencing**. -/
theorem Alike.bind {Post' : γ → δ → Prop} {p : AskE Q R ε α} {p' : AskE Q R ε' β}
    {f : α → AskE Q R ε γ} {f' : β → AskE Q R ε' δ} (h : Alike S Post p.run p'.run)
    (hf : ∀ a b, Post a b → Alike S Post' (f a).run (f' b).run) :
    Alike S Post' (p >>= f).run (p' >>= f').run := by
  change Alike S Post' (p.run.bind (ExceptT.bindCont f)) (p'.run.bind (ExceptT.bindCont f'))
  generalize p.run = t, p'.run = t' at h
  induction h with
  | ret h => exact hf _ _ h
  | left => exact .left
  | right => exact .right
  | ask _ ih => exact .ask fun r r' hr => ih r r' hr

theorem Alike.bind_eq {p : AskE Q R ε γ} {p' : AskE Q R ε' γ} {f : γ → AskE Q R ε α}
    {f' : γ → AskE Q R ε' β} (h : Alike S Eq p.run p'.run)
    (hf : ∀ c, Alike S Post (f c).run (f' c).run) : Alike S Post (p >>= f).run (p' >>= f').run := by
  refine h.bind fun c c' hc => ?_
  subst hc
  exact hf c

end

end TamagoUefi.Lib.AskE
