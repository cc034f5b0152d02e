import Mathlib.Data.List.Basic

/-!
# TamagoUefi.Lib.Ring — a ring of cells with a write position

`Ring α n` has `n` cells and the position that is written next.  `inOrder` reads the cells from the
oldest to the newest: a push drops the first of them and adds one at the end (`inOrder_push`), so after
any pushes it is the end of what was there followed by what was pushed (`inOrder_pushAll`).
-/

namespace TamagoUefi.Lib

structure Ring (α : Type) (n : ℕ) where
  cells : List α
  head : ℕ
  length_cells : cells.length = n
  head_lt : head < n

namespace Ring

variable {α : Type} {n : ℕ}

def filled (a : α) (h : 0 < n) : Ring α n := ⟨List.replicate n a, 0, List.length_replicate, h⟩

def push (r : Ring α n) (a : α) : Ring α n where
  cells := r.cells.set r.head a
  head := if r.head + 1 = n then 0 else r.head + 1
  length_cells := by rw [List.length_set, r.length_cells]
  head_lt := by
    have hlt := r.head_lt
    split_ifs <;> omega

def pushAll (r : Ring α n) (as : List α) : Ring α n := as.foldl push r

/-- The cells from the oldest to the newest. -/
def inOrder (r : Ring α n) : List α := r.cells.drop r.head ++ r.cells.take r.head

variable (r : Ring α n)

theorem length_inOrder : r.inOrder.length = n := by
  have hlen := r.length_cells
  have hlt := r.head_lt
  rw [inOrder, List.length_append, List.length_drop, List.length_take]
  omega

/-- The cells before the write position are the newest ones. -/
theorem take_head : r.cells.take r.head = r.inOrder.drop (n - r.head) := by
  have hdrop : (r.cells.drop r.head).length = n - r.head := by rw [List.length_drop, r.length_cells]
  rw [inOrder, ← hdrop, List.drop_left]

theorem inOrder_push (a : α) : (r.push a).inOrder = r.inOrder.tail ++ [a] := by
  have hlt : r.head < r.cells.length := r.length_cells.symm ▸ r.head_lt
  have hold : r.inOrder.tail = r.cells.drop (r.head + 1) ++ r.cells.take r.head := by
    rw [inOrder, List.drop_eq_getElem_cons hlt]
    rfl
  have htake : (r.cells.set r.head a).take (r.head + 1) = r.cells.take r.head ++ [a] := by
    rw [List.take_add_one, List.take_set_of_le (Nat.le_refl r.head), List.getElem?_set_self hlt]
    rfl
  have hdrop : (r.cells.set r.head a).drop (r.head + 1) = r.cells.drop (r.head + 1) :=
    List.drop_set_of_lt (Nat.lt_succ_self r.head)
  rw [hold, inOrder]
  by_cases hwrap : r.head + 1 = n
  · have hhead : (r.push a).head = 0 := if_pos hwrap
    have hall : (r.cells.set r.head a).take (r.head + 1) = r.cells.set r.head a := by
      refine List.take_of_length_le (Nat.le_of_eq ?_)
      rw [List.length_set, r.length_cells, hwrap]
    have hrest : r.cells.drop (r.head + 1) = [] := by
      refine List.drop_eq_nil_of_le (Nat.le_of_eq ?_)
      rw [r.length_cells, hwrap]
    rw [hhead, hrest, List.nil_append, List.drop_zero, List.take_zero, List.append_nil, ← htake]
    exact hall.symm
  · have hhead : (r.push a).head = r.head + 1 := if_neg hwrap
    rw [hhead, List.append_assoc, ← htake, ← hdrop]
    rfl

theorem inOrder_pushAll : ∀ (as : List α) (r : Ring α n),
    (r.pushAll as).inOrder = (r.inOrder ++ as).drop as.length
  | [], r => by
    rw [List.append_nil]
    rfl
  | a :: as, r => by
    have hpos : r.inOrder ≠ [] := by
      intro hnil
      have hlen := r.length_inOrder
      rw [hnil, List.length_nil] at hlen
      have hlt := r.head_lt
      omega
    obtain ⟨x, xs, hx⟩ := List.exists_cons_of_ne_nil hpos
    have ih := inOrder_pushAll as (r.push a)
    rw [inOrder_push, hx, List.tail_cons, List.append_assoc, List.singleton_append] at ih
    rw [hx]
    exact ih

theorem head_pushAll : ∀ (as : List α) (r : Ring α n), (r.pushAll as).head = (r.head + as.length) % n
  | [], r => (Nat.mod_eq_of_lt r.head_lt).symm
  | a :: as, r => by
    have ih := head_pushAll as (r.push a)
    have hhead : (r.push a).head = (r.head + 1) % n := by
      show (if r.head + 1 = n then 0 else r.head + 1) = _
      have hlt := r.head_lt
      split_ifs with hwrap
      · rw [hwrap, Nat.mod_self]
      · rw [Nat.mod_eq_of_lt (by omega)]
    rw [hhead, Nat.mod_add_mod, Nat.add_assoc, Nat.add_comm 1] at ih
    exact ih

theorem inOrder_filled (a : α) (h : 0 < n) : (filled a h).inOrder = List.replicate n a := by
  rw [inOrder, filled]
  simp only [List.drop_zero, List.take_zero, List.append_nil]

end Ring

/-- A list that is filled up from behind with `a` and does not change has only `a` in it. -/
theorem eq_of_shift {α : Type} {w : List α} {s : ℕ} {a : α} (hs : 0 < s)
    (h : w = w.drop s ++ List.replicate s a) : ∀ x ∈ w, x = a := by
  -- from the end to the start
  have hall : ∀ k i, w.length ≤ i + k → ∀ x, w[i]? = some x → x = a := by
    intro k
    induction k with
    | zero =>
      intro i hi x hx
      rw [List.getElem?_eq_none (by omega)] at hx
      cases hx
    | succ k ih =>
      intro i hi x hx
      rw [h, List.getElem?_append] at hx
      split_ifs at hx with hin
      · rw [List.getElem?_drop] at hx
        exact ih (s + i) (by omega) x hx
      · rw [List.getElem?_replicate] at hx
        split_ifs at hx
        exact (Option.some.inj hx).symm
  intro x hx
  obtain ⟨i, hi⟩ := List.mem_iff_getElem?.mp hx
  exact hall w.length i (Nat.le_add_left ..) x hi

end TamagoUefi.Lib
