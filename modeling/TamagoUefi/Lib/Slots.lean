import Mathlib.Logic.Function.Basic
import Mathlib.Data.List.Basic

/-!
# TamagoUefi.Lib.Slots — a table of slots that is searched by key

A table has a fixed number of slots, each free or taken.  `find` scans it for a key, `freeSlot` for a
free slot.  While the keys are distinct, setting a slot is an update of the map that `find` is:
`find_set`.
-/

namespace TamagoUefi.Lib.Slots

variable {α K : Type} [DecidableEq K] (key : α → K)

/-- The first slot that is taken with the key. -/
def slotOf (t : List (Option α)) (k : K) : Option ℕ := t.findIdx? fun s => s.any (key · = k)

def find (t : List (Option α)) (k : K) : Option α := (slotOf key t k).bind fun i => t[i]?.join

def freeSlot (t : List (Option α)) : Option ℕ := t.findIdx? Option.isNone

/-- No two slots are taken with one key. -/
def Distinct (t : List (Option α)) : Prop :=
  ∀ (i j : ℕ) (a b : α), t[i]? = some (some a) → t[j]? = some (some b) → key a = key b → i = j

section
variable {key} {t : List (Option α)} {i : ℕ} {k : K} {a : α}

theorem slotOf_eq_some (h : slotOf key t k = some i) : ∃ a, t[i]? = some (some a) ∧ key a = k := by
  obtain ⟨hi, hany, -⟩ := List.findIdx?_eq_some_iff_getElem.mp h
  obtain ⟨a, ha, hk⟩ := (Option.any_eq_true _ _).mp hany
  exact ⟨a, by rw [List.getElem?_eq_getElem hi, ha], of_decide_eq_true hk⟩

theorem freeSlot_eq_some (h : freeSlot t = some i) : t[i]? = some none := by
  obtain ⟨hi, hnone, -⟩ := List.findIdx?_eq_some_iff_getElem.mp h
  rw [List.getElem?_eq_getElem hi, Option.isNone_iff_eq_none.mp hnone]

/-- A free slot that is taken and given back. -/
theorem set_freeSlot (h : freeSlot t = some i) (x : Option α) : (t.set i x).set i none = t := by
  obtain ⟨hi, hnone⟩ := List.getElem?_eq_some_iff.mp (freeSlot_eq_some h)
  rw [List.set_set, ← hnone, List.set_getElem_self]

theorem Distinct.slotOf_iff (hd : Distinct key t) :
    slotOf key t k = some i ↔ ∃ a, t[i]? = some (some a) ∧ key a = k := by
  refine ⟨slotOf_eq_some, ?_⟩
  rintro ⟨a, hi, hk⟩
  cases h : slotOf key t k with
  | none =>
    have hnone := List.findIdx?_eq_none_iff.mp h (some a) (List.mem_of_getElem? hi)
    simp [hk] at hnone
  | some j =>
    obtain ⟨b, hj, hb⟩ := slotOf_eq_some h
    rw [hd j i b a hj hi (hb.trans hk.symm)]

theorem Distinct.find_iff (hd : Distinct key t) :
    find key t k = some a ↔ key a = k ∧ ∃ i : ℕ, t[i]? = some (some a) := by
  unfold find
  constructor
  · intro h
    obtain ⟨i, hslot, hi⟩ := Option.bind_eq_some_iff.mp h
    obtain ⟨b, hb, hk⟩ := slotOf_eq_some hslot
    rw [hb] at hi
    cases hi
    exact ⟨hk, i, hb⟩
  · rintro ⟨hk, i, hi⟩
    rw [hd.slotOf_iff.mpr ⟨a, hi, hk⟩, Option.bind_some, hi]
    rfl

omit [DecidableEq K] in
theorem distinct_replicate (n : ℕ) : Distinct key (List.replicate n none) := by
  intro i j a b hi
  simp [List.getElem?_replicate] at hi

/-- **Setting a slot**: if no other slot has the key, and the slot is left with that key or free, the
map changes at that key only. -/
theorem Distinct.find_set (hd : Distinct key t) {x old : Option α} (hi : t[i]? = some old)
    (hx : ∀ a, x = some a → key a = k) (hold : ∀ a, old = some a → key a = k)
    (hother : ∀ (j : ℕ) (a : α), j ≠ i → t[j]? = some (some a) → key a ≠ k) :
    Distinct key (t.set i x) ∧ find key (t.set i x) = Function.update (find key t) k x := by
  have hlen : i < t.length := (List.getElem?_eq_some_iff.mp hi).1
  have hself : (t.set i x)[i]? = some x := List.getElem?_set_self hlen
  have hne : ∀ j, j ≠ i → (t.set i x)[j]? = t[j]? := fun j hj => List.getElem?_set_ne hj.symm
  have hdist : Distinct key (t.set i x) := by
    intro j₁ j₂ a b h₁ h₂ hab
    by_cases hj₁ : j₁ = i
    · by_cases hj₂ : j₂ = i
      · exact hj₁.trans hj₂.symm
      · rw [hj₁, hself] at h₁
        rw [hne j₂ hj₂] at h₂
        exact absurd (hab.symm.trans (hx a (Option.some.inj h₁))) (hother j₂ b hj₂ h₂)
    · rw [hne j₁ hj₁] at h₁
      by_cases hj₂ : j₂ = i
      · rw [hj₂, hself] at h₂
        exact absurd (hab.trans (hx b (Option.some.inj h₂))) (hother j₁ a hj₁ h₁)
      · rw [hne j₂ hj₂] at h₂
        exact hd j₁ j₂ a b h₁ h₂ hab
  refine ⟨hdist, funext fun k' => Option.ext fun a => ?_⟩
  rw [hdist.find_iff]
  by_cases hk : k' = k
  · rw [hk, Function.update_self]
    constructor
    · rintro ⟨hka, j, hj⟩
      by_cases hji : j = i
      · rw [hji, hself] at hj
        exact Option.some.inj hj
      · rw [hne j hji] at hj
        exact absurd hka (hother j a hji hj)
    · intro hxa
      exact ⟨hx a hxa, i, by rw [hself, hxa]⟩
  · rw [Function.update_of_ne hk, hd.find_iff]
    constructor
    · rintro ⟨hka, j, hj⟩
      by_cases hji : j = i
      · rw [hji, hself] at hj
        exact absurd (hka.symm.trans (hx a (Option.some.inj hj))) hk
      · rw [hne j hji] at hj
        exact ⟨hka, j, hj⟩
    · rintro ⟨hka, j, hj⟩
      have hji : j ≠ i := by
        rintro rfl
        rw [hi] at hj
        exact hk (hka.symm.trans (hold a (Option.some.inj hj)))
      exact ⟨hka, j, by rw [hne j hji, hj]⟩

theorem Distinct.find_take (hd : Distinct key t) (hi : freeSlot t = some i)
    (hfresh : find key t (key a) = none) : Distinct key (t.set i (some a)) ∧
      find key (t.set i (some a)) = Function.update (find key t) (key a) (some a) := by
  refine hd.find_set (freeSlot_eq_some hi) (fun b hb => by rw [Option.some.inj hb]) (fun b hb => nomatch hb)
    fun j b _ hj hkey => ?_
  have hfind := hd.find_iff.mpr ⟨hkey, j, hj⟩
  rw [hfresh] at hfind
  cases hfind

theorem Distinct.find_change (hd : Distinct key t) (hi : t[i]? = some (some a)) {x : Option α}
    (hx : ∀ b, x = some b → key b = key a) : Distinct key (t.set i x) ∧
      find key (t.set i x) = Function.update (find key t) (key a) x :=
  hd.find_set hi hx (fun b hb => by rw [Option.some.inj hb])
    fun j b hji hj hkey => hji (hd j i b a hj hi hkey)

end

end TamagoUefi.Lib.Slots
