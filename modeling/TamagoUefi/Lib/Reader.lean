import Mathlib.Data.List.Basic

/-!
# TamagoUefi.Lib.Reader — a stream that arrives in pieces

A `Source` is a finite stream and its end, read through calls that each ask for at most `n` elements.
How much a call gets is not in the hands of the caller: `cuts` says it for the calls to come, one
`Cut` for each, and every answer that the contract of such a reader allows is one of them (nothing
at all, part of what was asked for, the end reported with the last element or by a call of its own).
When the cuts are used up a call gets all it has room for.

`ends` keeps, for every call, how much of the stream was left after it.

* `read_spec`: a call takes a beginning of what is ahead, and reports the end only at the end.
* `read_progress`: calls that report nothing make progress, so a loop over them ends.
* `Later`: what any number of calls leave; where they ended behind us does not change any more.
-/

namespace TamagoUefi.Lib

/-- One call: at most `size` elements; is the end reported by a later call, although it is reached? -/
structure Cut where
  size : ℕ
  late : Bool
  deriving DecidableEq

structure Source (α ε : Type) where
  ahead : List α
  cuts : List Cut
  /-- What a call at the end reports. -/
  err : ε
  ends : List ℕ
  deriving DecidableEq

namespace Source

variable {α ε : Type}

/-- What a call gives. -/
structure Got (α ε : Type) where
  got : List α
  err : Option ε
  src : Source α ε

def read (s : Source α ε) (n : ℕ) : Got α ε :=
  match s.cuts with
  | [] =>
    let rest := s.ahead.drop n
    ⟨s.ahead.take n, if s.ahead.isEmpty then some s.err else none,
      { s with ahead := rest, ends := rest.length :: s.ends }⟩
  | c :: cs =>
    let rest := s.ahead.drop (min c.size n)
    ⟨s.ahead.take (min c.size n), if rest.isEmpty && !c.late then some s.err else none,
      { s with ahead := rest, cuts := cs, ends := rest.length :: s.ends }⟩

/-- A stream of which nothing has been read. -/
def start (stream : List α) (err : ε) (cuts : List Cut) : Source α ε := ⟨stream, cuts, err, []⟩

/-- The calls that are still to come, counted generously. -/
def fuel (s : Source α ε) : ℕ := s.cuts.length + s.ahead.length

/-- What is true of every call. -/
structure ReadSpec (s : Source α ε) (n : ℕ) (r : Got α ε) : Prop where
  ahead : s.ahead = r.got ++ r.src.ahead
  room : r.got.length ≤ n
  err : r.src.err = s.err
  /-- The end is reported at the end. -/
  done : ∀ e, r.err = some e → e = s.err ∧ r.src.ahead = []
  ends : r.src.ends = r.src.ahead.length :: s.ends

theorem read_spec (s : Source α ε) (n : ℕ) : ReadSpec s n (s.read n) := by
  unfold read
  split
  · refine ⟨(List.take_append_drop n _).symm, List.length_take_le n _, rfl, ?_, rfl⟩
    intro e he
    dsimp only at he ⊢
    split_ifs at he with h
    rw [List.isEmpty_iff.mp h]
    exact ⟨(Option.some.inj he).symm, List.drop_nil⟩
  · rename_i c cs _
    refine ⟨(List.take_append_drop _ _).symm, ?_, rfl, ?_, rfl⟩
    · exact Nat.le_trans (List.length_take_le _ _) (Nat.min_le_right _ _)
    · intro e he
      dsimp only at he
      split_ifs at he with h
      obtain ⟨hnil, -⟩ := Bool.and_eq_true_iff.mp h
      exact ⟨(Option.some.inj he).symm, List.isEmpty_iff.mp hnil⟩

variable {s : Source α ε} {n : ℕ}

/-- The call that reports the end gives what is left. -/
theorem read_last {e : ε} (h : (s.read n).err = some e) : s.ahead = (s.read n).got ∧ s.err = e := by
  have hs := s.read_spec n
  obtain ⟨he, hnil⟩ := hs.done e h
  have hahead := hs.ahead
  rw [hnil, List.append_nil] at hahead
  exact ⟨hahead, he.symm⟩

/-- **Progress**: only a call that reports the end and gives nothing can be made for ever. -/
theorem read_progress (s : Source α ε) (hn : 0 < n)
    (h : (s.read n).err = none ∨ (s.read n).got ≠ []) : (s.read n).src.fuel < s.fuel := by
  unfold read at h ⊢
  split at h
  · rename_i hcuts
    have hne : s.ahead ≠ [] := by
      rintro hnil
      simp [hnil] at h
    have hpos : 0 < s.ahead.length := List.length_pos_iff.mpr hne
    simp only [fuel, hcuts, List.length_nil, List.length_drop]
    omega
  · rename_i c cs hcuts
    simp only [fuel, hcuts, List.length_cons, List.length_drop]
    omega

/-- What a call gives has been paid for. -/
theorem read_fuel (s : Source α ε) (n : ℕ) : (s.read n).got.length + (s.read n).src.fuel ≤ s.fuel := by
  have hlen := congrArg List.length (s.read_spec n).ahead
  rw [List.length_append] at hlen
  have hcuts : (s.read n).src.cuts.length ≤ s.cuts.length := by
    unfold read
    split
    · exact Nat.le_refl _
    · rename_i c cs hcuts
      rw [hcuts]
      exact Nat.le_succ _
  unfold fuel
  omega

/-! ## One call after the other -/

/-- `s'` is `s` after some calls. -/
structure Later (s s' : Source α ε) : Prop where
  err : s'.err = s.err
  ahead : s'.ahead.length ≤ s.ahead.length
  cuts : s'.cuts <:+ s.cuts
  ends : s.ends <:+ s'.ends
  /-- Calls end in what was ahead. -/
  new : ∀ k ∈ s'.ends, k ∈ s.ends ∨ k ≤ s.ahead.length

theorem Later.refl (s : Source α ε) : Later s s :=
  ⟨rfl, Nat.le_refl _, List.suffix_rfl, List.suffix_rfl, fun _ hk => .inl hk⟩

variable {s' : Source α ε}

theorem Later.trans {s'' : Source α ε} (h : Later s s') (h' : Later s' s'') : Later s s'' := by
  refine ⟨h'.err.trans h.err, Nat.le_trans h'.ahead h.ahead, h'.cuts.trans h.cuts,
    h.ends.trans h'.ends, fun k hk => ?_⟩
  rcases h'.new k hk with hold | hle
  · exact h.new k hold
  · exact .inr (Nat.le_trans hle h.ahead)

theorem later_read (s : Source α ε) (n : ℕ) : Later s (s.read n).src := by
  have hs := s.read_spec n
  have hahead : (s.read n).src.ahead.length ≤ s.ahead.length := by
    have := congrArg List.length hs.ahead
    rw [List.length_append] at this
    omega
  have hcuts : (s.read n).src.cuts <:+ s.cuts := by
    unfold read
    split
    · exact List.suffix_rfl
    · rename_i c cs hcuts
      rw [hcuts]
      exact List.suffix_cons c cs
  refine ⟨hs.err, hahead, hcuts, ?_, fun k hk => ?_⟩
  · rw [hs.ends]
    exact List.suffix_cons _ _
  · rw [hs.ends] at hk
    rcases List.mem_cons.mp hk with rfl | hold
    · exact .inr hahead
    · exact .inl hold

/-- Whether a call ended at a place that is behind us is settled. -/
theorem Later.mem_ends_iff (h : Later s s') {k : ℕ} (hk : s.ahead.length < k) : k ∈ s'.ends ↔ k ∈ s.ends := by
  constructor
  · intro hmem
    rcases h.new k hmem with hold | hle
    · exact hold
    · omega
  · exact fun hmem => h.ends.subset hmem

/-- No call gives elements and reports the end. -/
def Late (s : Source α ε) : Prop := ∀ c ∈ s.cuts, c.late = true

theorem Late.later (h : Late s) (hl : Later s s') : Late s' :=
  fun c hc => h c (hl.cuts.subset hc)

theorem Late.read (h : Late s) {e : ε} (he : (s.read n).err = some e) : s.ahead = [] := by
  unfold Source.read at he
  split at he
  · dsimp only at he
    split_ifs at he with hnil
    exact List.isEmpty_iff.mp hnil
  · rename_i c cs hcuts
    have hlate : c.late = true := h c (by simp [hcuts])
    simp [hlate] at he

end Source

end TamagoUefi.Lib
