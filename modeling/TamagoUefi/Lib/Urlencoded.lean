import Mathlib.Data.List.Basic

/-!
# TamagoUefi.Lib.Urlencoded — `application/x-www-form-urlencoded`

The parameters of a query, as its reader sees them: pieces between `&`, of which empty ones do not
count; in each the name up to the first `=` and the value behind it; `+` for a space and `%` with two
hexadecimal digits for a byte.

* `params_append`: what is appended behind an `&` leaves the parameters before it as they are.
* `params_single`: one parameter.
-/

namespace TamagoUefi.Lib.Urlencoded

def percent : UInt8 := 0x25
def ampersand : UInt8 := 0x26
def plus : UInt8 := 0x2B
def equals : UInt8 := 0x3D

/-- The value of a hexadecimal digit. -/
def nibble (c : UInt8) : Option UInt8 :=
  if 0x30 ≤ c ∧ c ≤ 0x39 then some (c - 0x30)
  else if 0x41 ≤ c ∧ c ≤ 0x46 then some (c - 0x37)
  else if 0x61 ≤ c ∧ c ≤ 0x66 then some (c - 0x57)
  else none

/-- The byte for which two digits stand. -/
def hexPair (a b : UInt8) : Option UInt8 :=
  match nibble a, nibble b with
  | some x, some y => some (x * 16 + y)
  | _, _ => none

/-- A `%` without two digits behind it stands for itself. -/
def decode : List UInt8 → List UInt8
  | [] => []
  | [c] => [if c = plus then 0x20 else c]
  | [c, d] => (if c = plus then 0x20 else c) :: decode [d]
  | c :: a :: b :: rest =>
    if c = percent then
      match hexPair a b with
      | some v => v :: decode rest
      | none => c :: decode (a :: b :: rest)
    else (if c = plus then 0x20 else c) :: decode (a :: b :: rest)

/-- Name and value of a piece. -/
def pair (piece : List UInt8) : List UInt8 × List UInt8 :=
  (decode (piece.takeWhile (· ≠ equals)), decode ((piece.dropWhile (· ≠ equals)).drop 1))

def params (query : List UInt8) : List (List UInt8 × List UInt8) :=
  ((query.splitOn ampersand).filter (· ≠ [])).map pair

theorem decode_cons {c : UInt8} (hpercent : c ≠ percent) (hplus : c ≠ plus) (rest : List UInt8) :
    decode (c :: rest) = c :: decode rest := by
  rcases rest with _ | ⟨a, _ | ⟨b, rest⟩⟩
  · simp only [decode, if_neg hplus]
  · simp only [decode, if_neg hplus]
  · rw [decode, if_neg hpercent, if_neg hplus]

theorem decode_hex {a b v : UInt8} (h : hexPair a b = some v) (rest : List UInt8) :
    decode (percent :: a :: b :: rest) = v :: decode rest := by
  rw [decode, if_pos rfl, h]

theorem params_append (q r : List UInt8) : params (q ++ ampersand :: r) = params q ++ params r := by
  rw [params, List.splitOn_append_cons_self, List.filter_append, List.map_append]
  rfl

theorem params_nil : params [] = [] := rfl

theorem params_single {name value : List UInt8} (hname : equals ∉ name)
    (hfree : ampersand ∉ name ++ equals :: value) :
    params (name ++ equals :: value) = [(decode name, decode value)] := by
  have hstop : ∀ c ∈ name, decide (c ≠ equals) = true := by
    intro c hc
    exact decide_eq_true fun he => hname (he ▸ hc)
  rw [params, List.splitOn_eq_singleton hfree, List.filter_cons_of_pos (by simp),
    List.filter_nil, List.map_singleton, pair, List.takeWhile_append_of_pos hstop,
    List.dropWhile_append_of_pos hstop, List.takeWhile_cons_of_neg (by simp),
    List.dropWhile_cons_of_neg (by simp), List.append_nil]
  rfl

end TamagoUefi.Lib.Urlencoded
