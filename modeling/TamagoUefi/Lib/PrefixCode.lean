import Mathlib.Data.List.Basic

/-!
# TamagoUefi.Lib.PrefixCode — encodings that can be split off what follows them

A text that is put together from encoded parts determines the parts when each of them can be told
from the bytes behind it, whatever these are.

* `PrefixFree f`, and `prefixFree_of_isPrefix` to show it of a table of codes.
* A list of codes up to a stop mark (`PrefixFree.flatMap`), a text without the mark up to the mark
  (`prefixFree_terminated`), a text behind its length (`PrefixFree.lengthPrefixed`).
-/

namespace TamagoUefi.Lib

variable {α β : Type}

def PrefixFree (f : α → List β) : Prop := ∀ a b s t, f a ++ s = f b ++ t → a = b ∧ s = t

theorem prefixFree_of_isPrefix {f : α → List β} (h : ∀ a b, f a <+: f b → a = b) : PrefixFree f := by
  intro a b s t heq
  have ha : f a <+: f b ++ t := ⟨s, heq⟩
  have hb : f b <+: f b ++ t := ⟨t, rfl⟩
  have hab : a = b := by
    rcases List.prefix_or_prefix_of_prefix ha hb with hpre | hpre
    · exact h a b hpre
    · exact (h b a hpre).symm
  subst hab
  exact ⟨rfl, List.append_cancel_left heq⟩

/-- Codes in a row, up to a mark that starts none of them. -/
theorem PrefixFree.flatMap {f : α → List β} (hf : PrefixFree f) {stop : β}
    (hstop : ∀ a, ∃ x xs, f a = x :: xs ∧ x ≠ stop) :
    PrefixFree fun as : List α => as.flatMap f ++ [stop] := by
  intro as
  induction as with
  | nil =>
    intro bs s t h
    cases bs with
    | nil => exact ⟨rfl, List.append_cancel_left h⟩
    | cons b bs =>
      obtain ⟨x, xs, hb, hx⟩ := hstop b
      simp only [List.flatMap_cons, hb] at h
      exact absurd (List.cons.inj h).1.symm hx
  | cons a as ih =>
    intro bs s t h
    cases bs with
    | nil =>
      obtain ⟨x, xs, ha, hx⟩ := hstop a
      simp only [List.flatMap_cons, ha] at h
      exact absurd (List.cons.inj h).1 hx
    | cons b bs =>
      simp only [List.flatMap_cons, List.append_assoc] at h
      obtain ⟨rfl, h⟩ := hf _ _ _ _ h
      obtain ⟨rfl, rfl⟩ := ih bs s t (by simpa using h)
      exact ⟨rfl, rfl⟩

theorem split_at_stop {stop : β} : ∀ {l l' s t : List β}, stop ∉ l → stop ∉ l' →
    l ++ stop :: s = l' ++ stop :: t → l = l' ∧ s = t
  | [], [], _, _, _, _, h => ⟨rfl, (List.cons.inj h).2⟩
  | [], x :: _, _, _, _, h', h => absurd (List.mem_cons.mpr (.inl (List.cons.inj h).1)) h'
  | x :: _, [], _, _, h', _, h => absurd (List.mem_cons.mpr (.inl (List.cons.inj h).1.symm)) h'
  | x :: l, y :: l', s, t, hx, hy, h => by
    obtain ⟨hxy, htail⟩ := List.cons.inj h
    obtain ⟨hl, hst⟩ := split_at_stop (List.not_mem_of_not_mem_cons hx)
      (List.not_mem_of_not_mem_cons hy) htail
    exact ⟨congrArg₂ List.cons hxy hl, hst⟩

theorem prefixFree_terminated {f : α → List β} (hf : Function.Injective f) {stop : β}
    (hstop : ∀ a, stop ∉ f a) : PrefixFree fun a => f a ++ [stop] := by
  intro a b s t h
  simp only [List.append_assoc, List.singleton_append] at h
  obtain ⟨hab, rfl⟩ := split_at_stop (hstop a) (hstop b) h
  exact ⟨hf hab, rfl⟩

theorem PrefixFree.lengthPrefixed {len : ℕ → List β} (h : PrefixFree len) :
    PrefixFree fun l : List β => len l.length ++ l := by
  intro l l' s t heq
  simp only [List.append_assoc] at heq
  obtain ⟨hlen, heq⟩ := h _ _ _ _ heq
  exact List.append_inj heq hlen

end TamagoUefi.Lib
