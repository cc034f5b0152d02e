import Mathlib.Algebra.Order.BigOperators.Group.List
import Mathlib.Algebra.Order.Group.Nat
import TamagoUefi.Board.BlockIo
import TamagoUefi.Lib.Xorshift

/-!
# TamagoUefi.Board.Rng — the generator behind `EFI_RNG_PROTOCOL` (`rng_protocol_tamago.go`)

`readXorshiftTamago` fills a buffer of the firmware from an xorshift64* generator, a word of eight bytes
in each round.  A request that ends in the middle of a word drops the rest of it.

* `stream`: the bytes that a state stands for.
* `readXorshiftTamago_eq`: a call writes the beginning of the stream, and moves on by whole words.
* `rng_sound`: the state is never zero, and requests of whole words can be put together.
-/

namespace TamagoUefi.Board.Rng

open Lib

def rngXorshiftSeed : BitVec 64 := 0xa3b195354a39b70d

/-- The xorshift64* core. -/
def advance (state : BitVec 64) : BitVec 64 :=
  let state := state ^^^ (state >>> 12)
  let state := state ^^^ (state <<< 25)
  state ^^^ (state >>> 27)

def output (state : BitVec 64) : BitVec 64 := state * 0x2545F4914F6CDD1D

def byteAt (v : BitVec 64) (j : ℕ) : UInt8 := UInt8.ofBitVec ((v >>> (8 * j)).setWidth 8)

/-- The inner loop: the first bytes of a word go to the memory. -/
def spill (m : Memory) (dst : Uintptr) (v : BitVec 64) : ℕ → Memory
  | 0 => m
  | j + 1 => Function.update (spill m dst v j) (dst + BitVec.ofNat 64 j) (byteAt v j)

/-- The memory and `rngXorshiftState`. -/
structure State where
  memory : Memory
  word : BitVec 64

/-- The outer loop from index `i` on, for at most `fuel` rounds. -/
def loop (buf n : Uintptr) : ℕ → Uintptr → State → Option State
  | 0, _, _ => none
  | fuel + 1, i, s =>
    if i < n then
      let word := advance s.word
      let limit := if n - i < 8 then n - i else 8
      loop buf n fuel (i + 8) ⟨spill s.memory (buf + i) (output word) limit.toNat, word⟩
    else some s

/-- A call.  It gives nothing when it does not return, see `loop_forever`. -/
def readXorshiftTamago (s : State) (buf n : Uintptr) : Option (State × Uintptr) :=
  (loop buf n (n.toNat / 8 + 2) 0 s).map fun s => (s, n)

structure Request where
  buf : Uintptr
  n : Uintptr

/-- Calls one after the other, with the bytes that each of them leaves in its buffer. -/
def calls : State → List Request → Option (State × List UInt8)
  | s, [] => some (s, [])
  | s, q :: qs =>
    (readXorshiftTamago s q.buf q.n).bind fun r =>
      (calls r.1 qs).map fun c => (c.1, load r.1.memory q.buf q.n.toNat ++ c.2)

/-! ## States -/

theorem advance_injective : Function.Injective advance :=
  (xorShiftRight_injective (by decide : 0 < 27)).comp
    ((xorShiftLeft_injective (by decide : 0 < 25)).comp (xorShiftRight_injective (by decide : 0 < 12)))

theorem advance_bijOn : Set.BijOn advance {s | s ≠ 0} {s | s ≠ 0} := bijOn_ne_zero advance_injective (by decide)

theorem advance_iterate_ne_zero {s : BitVec 64} (h : s ≠ 0) (k : ℕ) : advance^[k] s ≠ 0 := by
  induction k with
  | zero => exact h
  | succ k ih =>
    rw [Function.iterate_succ_apply']
    exact advance_bijOn.mapsTo ih

/-! ## A call -/

/-- The bytes that a state stands for. -/
def stream (word : BitVec 64) (k : ℕ) : UInt8 := byteAt (output (advance^[k / 8 + 1] word)) (k % 8)

/-- Whole words are taken. -/
def words (n : ℕ) : ℕ := (n + 7) / 8

theorem stream_iterate (word : BitVec 64) (r : ℕ) :
    stream (advance^[r] word) = fun k => stream word (8 * r + k) := by
  funext k
  have hdiv : (8 * r + k) / 8 + 1 = k / 8 + 1 + r := by omega
  have hmod : (8 * r + k) % 8 = k % 8 := by omega
  rw [stream, stream, hdiv, hmod, Function.iterate_add_apply advance (k / 8 + 1) r]

theorem spill_eq (m : Memory) (a : Uintptr) (v : BitVec 64) {j : ℕ} (h : j ≤ 2 ^ 64) :
    spill m a v j = fill m a j (byteAt v) := by
  induction j with
  | zero => rw [spill, fill_zero]
  | succ j ih => rw [spill, ih (by omega), update_fill (by omega)]

section
variable {s : State} {buf n : Uintptr}

/-- A round: the next word of the stream, or what is left of the request. -/
theorem spill_stream {r : ℕ} (h : 8 * r < n.toNat) (m : Memory) :
    spill (fill m buf (8 * r) (stream s.word)) (buf + BitVec.ofNat 64 (8 * r))
        (output (advance (advance^[r] s.word))) (min 8 (n.toNat - 8 * r)) =
      fill m buf (min (8 * (r + 1)) n.toNat) (stream s.word) := by
  have hn := n.isLt
  have hnext : 8 * r + min 8 (n.toNat - 8 * r) = min (8 * (r + 1)) n.toNat := by omega
  rw [spill_eq _ _ _ (by omega), ← hnext, ← fill_fill (by omega)]
  refine fill_congr fun j hj => ?_
  have hdiv : (8 * r + j) / 8 + 1 = r + 1 := by omega
  have hmod : (8 * r + j) % 8 = j := by omega
  rw [stream, hdiv, hmod, Function.iterate_succ_apply']

theorem loop_spec (s : State) (buf : Uintptr) (hn : n.toNat ≤ 2 ^ 64 - 8) : ∀ fuel r, r ≤ words n.toNat → words n.toNat - r < fuel →
    loop buf n fuel (BitVec.ofNat 64 (8 * r))
        ⟨fill s.memory buf (min (8 * r) n.toNat) (stream s.word), advance^[r] s.word⟩ =
      some ⟨fill s.memory buf n.toNat (stream s.word), advance^[words n.toNat] s.word⟩ := by
  intro fuel
  induction fuel with
  | zero => exact fun r _ h => absurd h (Nat.not_lt_zero _)
  | succ fuel ih =>
    intro r hr hfuel
    have hwords : words n.toNat = (n.toNat + 7) / 8 := rfl
    have hi : (BitVec.ofNat 64 (8 * r)).toNat = 8 * r := by
      rw [BitVec.toNat_ofNat, Nat.mod_eq_of_lt (by omega)]
    rw [loop]
    by_cases hlt : 8 * r < n.toNat
    · have hmin : min (8 * r) n.toNat = 8 * r := by omega
      have hsub : (n - BitVec.ofNat 64 (8 * r)).toNat = n.toNat - 8 * r := by
        rw [BitVec.toNat_sub_of_le (by rw [BitVec.le_def]; omega), hi]
      have hlimit : (if n - BitVec.ofNat 64 (8 * r) < 8 then n - BitVec.ofNat 64 (8 * r) else 8).toNat =
          min 8 (n.toNat - 8 * r) := by
        have h8 : (8 : Uintptr).toNat = 8 := rfl
        split_ifs with hsmall
        · rw [BitVec.lt_def, hsub, h8] at hsmall
          omega
        · rw [BitVec.lt_def, hsub, h8] at hsmall
          omega
      have hstep : BitVec.ofNat 64 (8 * r) + 8 = BitVec.ofNat 64 (8 * (r + 1)) := by
        rw [Nat.mul_succ, BitVec.ofNat_add]
        rfl
      rw [if_pos (by rw [BitVec.lt_def]; omega), hmin]
      dsimp only
      rw [hlimit, spill_stream hlt, hstep, ← Function.iterate_succ_apply' advance]
      exact ih (r + 1) (by omega) (by omega)
    · have hdone : r = words n.toNat := by omega
      rw [if_neg (by rw [BitVec.lt_def]; omega), Nat.min_eq_right (by omega), hdone]

/-- **A call** writes the beginning of the stream. -/
theorem readXorshiftTamago_eq (s : State) (buf : Uintptr) (hn : n.toNat ≤ 2 ^ 64 - 8) :
    readXorshiftTamago s buf n =
      some (⟨fill s.memory buf n.toNat (stream s.word), advance^[words n.toNat] s.word⟩, n) := by
  have hloop := loop_spec s buf hn (n.toNat / 8 + 2) 0 (Nat.zero_le _)
    (by simp only [words]; omega)
  rw [Nat.mul_zero, Nat.zero_min, fill_zero] at hloop
  rw [readXorshiftTamago]
  exact congrArg (Option.map _) hloop

/-- The index goes round before it is as large as such a request. -/
theorem loop_forever (hn : 2 ^ 64 - 8 < n.toNat) : ∀ fuel i (s : State), i.toNat % 8 = 0 →
    loop buf n fuel i s = none := by
  intro fuel
  induction fuel with
  | zero => exact fun _ _ _ => rfl
  | succ fuel ih =>
    intro i s hi
    have hlt := i.isLt
    rw [loop, if_pos (by rw [BitVec.lt_def]; omega)]
    refine ih _ _ ?_
    rw [BitVec.toNat_add]
    have h8 : (8 : Uintptr).toNat = 8 := rfl
    omega

/-- A call that returns has moved on by whole words. -/
theorem word_readXorshiftTamago {s' : State} {n' : Uintptr} (h : readXorshiftTamago s buf n = some (s', n')) :
    s'.word = advance^[words n.toNat] s.word := by
  by_cases hn : n.toNat ≤ 2 ^ 64 - 8
  · rw [readXorshiftTamago_eq s buf hn] at h
    rw [← (Prod.mk.inj (Option.some.inj h)).1]
  · rw [readXorshiftTamago, loop_forever (by omega) _ 0 s rfl] at h
    cases h

end

/-! ## Calls -/

theorem calls_ne_zero : ∀ {qs : List Request} {s s' : State} {bytes : List UInt8}, s.word ≠ 0 →
    calls s qs = some (s', bytes) → s'.word ≠ 0
  | [], s, s', bytes, hs, h => by
    rw [← (Prod.mk.inj (Option.some.inj h)).1]
    exact hs
  | q :: qs, s, s', bytes, hs, h => by
    rw [calls, Option.bind_eq_some_iff] at h
    obtain ⟨⟨s₁, n⟩, hcall, h⟩ := h
    obtain ⟨⟨s₂, rest⟩, hrest, h⟩ := Option.map_eq_some_iff.mp h
    rw [← (Prod.mk.inj h).1]
    refine calls_ne_zero ?_ hrest
    rw [word_readXorshiftTamago hcall]
    exact advance_iterate_ne_zero hs _

def total (qs : List Request) : ℕ := (qs.map fun q => q.n.toNat).sum

/-- Requests of whole words, but for the last, give the stream. -/
theorem calls_stream : ∀ (qs : List Request) (s : State), (∀ q ∈ qs.dropLast, q.n.toNat % 8 = 0) →
    (∀ q ∈ qs, q.n.toNat ≤ 2 ^ 64 - 8) → ∃ m, calls s qs =
      some (⟨m, advance^[words (total qs)] s.word⟩, (List.range (total qs)).map (stream s.word))
  | [], s, _, _ => ⟨s.memory, rfl⟩
  | q :: qs, s, hmod, hle => by
    have hcall := readXorshiftTamago_eq s q.buf (hle q List.mem_cons_self)
    have hload := load_fill (m := s.memory) (a := q.buf) (f := stream s.word) q.n.isLt.le
    cases qs with
    | nil =>
      refine ⟨fill s.memory q.buf q.n.toNat (stream s.word), ?_⟩
      rw [calls, hcall, Option.bind_some]
      simp only [calls, Option.map_some, hload, List.append_nil, total, List.map_cons, List.map_nil,
        List.sum_cons, List.sum_nil, Nat.add_zero]
    | cons q' qs =>
      have hwhole : q.n.toNat % 8 = 0 := hmod q List.mem_cons_self
      obtain ⟨m, hrest⟩ := calls_stream (q' :: qs) ⟨fill s.memory q.buf q.n.toNat (stream s.word),
        advance^[words q.n.toNat] s.word⟩ (fun p hp => hmod p (List.mem_cons_of_mem q hp))
        (fun p hp => hle p (List.mem_cons_of_mem q hp))
      have htotal : total (q :: q' :: qs) = q.n.toNat + total (q' :: qs) := List.sum_cons
      have hwords : words (total (q :: q' :: qs)) = words (total (q' :: qs)) + words q.n.toNat := by
        simp only [htotal, words]
        omega
      have hbytes : 8 * words q.n.toNat = q.n.toNat := by
        simp only [words]
        omega
      refine ⟨m, ?_⟩
      rw [calls, hcall, Option.bind_some]
      dsimp only
      rw [hrest, Option.map_some, hload, hwords, Function.iterate_add_apply, htotal, List.range_add,
        List.map_append, List.map_map, stream_iterate, hbytes]
      rfl

/-- **The generator**: its state is never zero, a step permutes the words but zero, a call writes what
it is asked for and nothing else, and requests of whole words, but for the last, give the bytes of one
request. -/
theorem rng_sound :
    (∀ m qs s' bytes, calls ⟨m, rngXorshiftSeed⟩ qs = some (s', bytes) → s'.word ≠ 0) ∧
    Set.BijOn advance {s | s ≠ 0} {s | s ≠ 0} ∧
    (∀ s buf (n : Uintptr), n.toNat < 2 ^ 64 - 8 → ∃ s', readXorshiftTamago s buf n = some (s', n) ∧
      (∀ k < n.toNat, s'.memory (buf + BitVec.ofNat 64 k) = stream s.word k) ∧
      ∀ a, (∀ k < n.toNat, a ≠ buf + BitVec.ofNat 64 k) → s'.memory a = s.memory a) ∧
    ∀ s q qs, q.n.toNat < 2 ^ 64 - 8 → total qs = q.n.toNat → (∀ p ∈ qs.dropLast, p.n.toNat % 8 = 0) →
      ∃ s₁ s₂ bytes, calls s [q] = some (s₁, bytes) ∧ calls s qs = some (s₂, bytes) ∧ s₁.word = s₂.word := by
  refine ⟨fun m qs s' bytes h => calls_ne_zero (by decide : rngXorshiftSeed ≠ 0) h, advance_bijOn, fun s buf n hn => ?_, ?_⟩
  · refine ⟨_, readXorshiftTamago_eq s buf hn.le, fun k hk => ?_, fun a ha => ?_⟩
    · exact fill_get n.isLt.le hk
    · exact fill_of_ne ha
  · intro s q qs hn htotal hmod
    have hle : ∀ p ∈ qs, p.n.toNat ≤ 2 ^ 64 - 8 := fun p hp => by
      have hsum : p.n.toNat ≤ total qs := List.le_sum_of_mem (List.mem_map_of_mem hp)
      exact (hsum.trans_eq htotal).trans hn.le
    have hone : total [q] = total qs := by
      rw [htotal]
      exact Nat.add_zero _
    obtain ⟨m₁, h₁⟩ := calls_stream [q] s (fun p hp => absurd hp List.not_mem_nil)
      (fun p hp => by rw [List.mem_singleton.mp hp]; exact hn.le)
    obtain ⟨m₂, h₂⟩ := calls_stream qs s hmod hle
    rw [hone] at h₁
    exact ⟨_, _, _, h₁, h₂, rfl⟩

end TamagoUefi.Board.Rng
