import Mathlib.Data.List.Basic

/-!
# TamagoUefi.Lib.FlatJson — flat JSON objects as text

An object whose values are strings, numbers, booleans and null, with the white space it is written
with.  Names and strings need no escapes, so a quote in the text always opens or closes one of them,
and the text is cut at its quotes (`quotedText`).

* `FlatObject.text_eq`: the cut of an object.
* `FlatObject.cut`: no quote is left in the pieces.
* `marked_of_mem_segments`: a piece between two texts in quotes has a colon, a comma or a brace.
-/

namespace TamagoUefi.Lib.FlatJson

def quote : UInt8 := 0x22
def comma : UInt8 := 0x2C
def colon : UInt8 := 0x3A
def openBrace : UInt8 := 0x7B
def closeBrace : UInt8 := 0x7D

def ascii (s : String) : List UInt8 := s.toList.map fun c => UInt8.ofNat c.toNat

/-! ## Texts cut at their quotes -/

/-- A text outside quotes, then texts in quotes, each with the text behind it. -/
def quotedText : List UInt8 → List (List UInt8 × List UInt8) → List UInt8
  | q, [] => q
  | q, (s, q') :: segs => q ++ quote :: (s ++ quote :: quotedText q' segs)

/-- No quote is left in the pieces. -/
def Cut (q : List UInt8) (segs : List (List UInt8 × List UInt8)) : Prop :=
  quote ∉ q ∧ ∀ seg ∈ segs, quote ∉ seg.1 ∧ quote ∉ seg.2

theorem quotedText_append (p q : List UInt8) (segs : List (List UInt8 × List UInt8)) :
    quotedText (p ++ q) segs = p ++ quotedText q segs := by
  cases segs with
  | nil => rfl
  | cons seg segs => rw [quotedText, quotedText, List.append_assoc]

theorem quotedText_cons (c : UInt8) (q : List UInt8) (segs : List (List UInt8 × List UInt8)) :
    quotedText (c :: q) segs = c :: quotedText q segs :=
  quotedText_append [c] q segs

theorem Cut.nil {q : List UInt8} (hq : quote ∉ q) : Cut q [] :=
  ⟨hq, fun _ h => absurd h List.not_mem_nil⟩

theorem cut_cons {q s q' : List UInt8} {segs : List (List UInt8 × List UInt8)} :
    Cut q ((s, q') :: segs) ↔ quote ∉ q ∧ quote ∉ s ∧ Cut q' segs := by
  constructor
  · rintro ⟨hq, hsegs⟩
    obtain ⟨hs, hq'⟩ := hsegs (s, q') List.mem_cons_self
    exact ⟨hq, hs, hq', fun seg hseg => hsegs seg (List.mem_cons_of_mem _ hseg)⟩
  · rintro ⟨hq, hs, hq', hsegs⟩
    refine ⟨hq, fun seg hseg => ?_⟩
    rcases List.mem_cons.mp hseg with rfl | hseg
    · exact ⟨hs, hq'⟩
    · exact hsegs seg hseg

/-! ## Objects -/

/-- A text that stands in quotes as it is. -/
def Plain (s : List UInt8) : Prop := ∀ c ∈ s, c ≠ quote ∧ c ≠ 0x5C ∧ 0x20 ≤ c

/-- White space. -/
def Blank (s : List UInt8) : Prop := ∀ c ∈ s, c ∈ ([0x20, 0x09, 0x0A, 0x0D] : List UInt8)

instance (s : List UInt8) : Decidable (Plain s) :=
  List.decidableBAll _ s

instance (s : List UInt8) : Decidable (Blank s) :=
  List.decidableBAll _ s

abbrev PlainText : Type := { s : List UInt8 // Plain s }
abbrev Space : Type := { s : List UInt8 // Blank s }

def digits (ds : List (Fin 10)) : List UInt8 := ds.map fun d => UInt8.ofNat (48 + d.val)

/-- The sign of an exponent. -/
inductive ExpSign
  | unsigned
  | plus
  | minus
  deriving DecidableEq

def ExpSign.text : ExpSign → List UInt8
  | .unsigned => []
  | .plus => ascii "+"
  | .minus => ascii "-"

structure Exponent where
  upper : Bool
  sign : ExpSign
  digits : List (Fin 10)
  digits_ne : digits ≠ []
  deriving DecidableEq

def Exponent.text (e : Exponent) : List UInt8 :=
  ascii (if e.upper then "E" else "e") ++ e.sign.text ++ FlatJson.digits e.digits

structure Number where
  minus : Bool
  int : List (Fin 10)
  frac : Option (List (Fin 10))
  exp : Option Exponent
  int_ne : int ≠ []
  /-- No leading zero. -/
  int_zero : int.head? = some 0 → int = [0]
  frac_ne : frac ≠ some []
  deriving DecidableEq

def Number.text (n : Number) : List UInt8 :=
  (if n.minus then ascii "-" else []) ++ digits n.int ++
    (n.frac.elim [] fun ds => ascii "." ++ digits ds) ++ n.exp.elim [] Exponent.text

inductive Value
  | string (s : PlainText)
  | number (n : Number)
  | bool (b : Bool)
  | null
  deriving DecidableEq

/-- What is written for a value that is not a string. -/
def Value.bare : Value → List UInt8
  | .string _ => []
  | .number n => n.text
  | .bool b => ascii (if b then "true" else "false")
  | .null => ascii "null"

def Value.text : Value → List UInt8
  | .string s => quote :: (s.val ++ [quote])
  | v => v.bare

def Value.string? : Value → Option (List UInt8)
  | .string s => some s.val
  | _ => none

/-- A member with the white space around its parts. -/
structure Member where
  before : Space
  name : PlainText
  afterName : Space
  afterColon : Space
  value : Value
  afterValue : Space

def Member.text (m : Member) : List UInt8 :=
  m.before.val ++ quote :: (m.name.val ++ quote ::
    (m.afterName.val ++ colon :: (m.afterColon.val ++ (m.value.text ++ m.afterValue.val))))

/-- An object with distinct members and no nesting. -/
structure FlatObject where
  lead : Space
  members : List Member
  inner : Space
  trail : Space
  distinct : (members.map (·.name.val)).Nodup

namespace FlatObject

/-- The end of an object, from behind its last member. -/
def close (o : FlatObject) : List UInt8 := o.inner.val ++ closeBrace :: o.trail.val

def text (o : FlatObject) : List UInt8 :=
  o.lead.val ++ openBrace :: ([comma].intercalate (o.members.map Member.text) ++ o.close)

/-- The value of the member of that name, when it is a string. -/
def string? (o : FlatObject) (name : List UInt8) : Option (List UInt8) :=
  (o.members.find? (·.name.val = name)).bind (·.value.string?)

end FlatObject

/-! ## The cut of an object -/

/-- What stands between a member's value and the next quote. -/
def gap (close : List UInt8) : List Member → List UInt8
  | [] => close
  | m :: _ => comma :: m.before.val

/-- The texts in quotes of the members. -/
def segments (close : List UInt8) : List Member → List (List UInt8 × List UInt8)
  | [] => []
  | m :: ms =>
    match m.value with
    | .string s =>
      (m.name.val, m.afterName.val ++ colon :: m.afterColon.val) ::
        (s.val, m.afterValue.val ++ gap close ms) :: segments close ms
    | v =>
      (m.name.val, m.afterName.val ++ colon ::
        (m.afterColon.val ++ (v.bare ++ (m.afterValue.val ++ gap close ms)))) :: segments close ms

/-- What stands in front of the first quote. -/
def opening (close : List UInt8) : List Member → List UInt8
  | [] => close
  | m :: _ => m.before.val

section Cut

variable {close : List UInt8}

theorem segments_string {m : Member} {s : PlainText} (h : m.value = .string s) (ms : List Member) :
    segments close (m :: ms) =
      (m.name.val, m.afterName.val ++ colon :: m.afterColon.val) ::
        (s.val, m.afterValue.val ++ gap close ms) :: segments close ms := by
  rw [segments, h]

theorem segments_bare {m : Member} (h : m.value.string? = none) (ms : List Member) :
    segments close (m :: ms) =
      (m.name.val, m.afterName.val ++ colon ::
        (m.afterColon.val ++ (m.value.bare ++ (m.afterValue.val ++ gap close ms)))) ::
          segments close ms := by
  rw [segments]
  cases hv : m.value with
  | string s =>
    rw [hv] at h
    cases h
  | number n => rfl
  | bool b => rfl
  | null => rfl

theorem Value.text_bare {v : Value} (h : v.string? = none) : v.text = v.bare := by
  cases v with
  | string s => cases h
  | number n => rfl
  | bool b => rfl
  | null => rfl

theorem Value.eq_string {v : Value} {s : List UInt8} (h : v.string? = some s) :
    ∃ t : PlainText, v = .string t ∧ t.val = s := by
  cases v with
  | string t => exact ⟨t, rfl, Option.some.inj h⟩
  | number n => cases h
  | bool b => cases h
  | null => cases h

/-- A member in front of a text that is cut. -/
theorem text_append_gap (m : Member) (ms : List Member) :
    m.text ++ quotedText (gap close ms) (segments close ms) =
      quotedText m.before.val (segments close (m :: ms)) := by
  cases hv : m.value.string? with
  | none =>
    rw [segments_bare hv, quotedText, Member.text, Value.text_bare hv]
    simp only [List.append_assoc, List.cons_append, quotedText_append, quotedText_cons]
  | some s =>
    obtain ⟨t, ht, -⟩ := Value.eq_string hv
    rw [segments_string ht, quotedText, quotedText, Member.text, ht, Value.text]
    simp only [List.append_assoc, List.cons_append, List.nil_append, quotedText_append]

theorem intercalate_text : ∀ ms : List Member,
    [comma].intercalate (ms.map Member.text) ++ close =
      quotedText (opening close ms) (segments close ms)
  | [] => rfl
  | [m] => by
    rw [List.map_singleton, List.intercalate_singleton]
    exact text_append_gap m []
  | m :: m' :: ms => by
    have ih := intercalate_text (m' :: ms)
    rw [List.map_cons] at ih
    have hgap : quotedText (gap close (m' :: ms)) (segments close (m' :: ms)) =
        [comma] ++ quotedText (opening close (m' :: ms)) (segments close (m' :: ms)) :=
      quotedText_cons comma m'.before.val _
    rw [List.map_cons, List.map_cons, List.intercalate_cons_cons, List.append_assoc,
      List.append_assoc, ih, ← hgap]
    exact text_append_gap m (m' :: ms)

theorem not_mem_space {c : UInt8} (hc : c ∉ ([0x20, 0x09, 0x0A, 0x0D] : List UInt8)) (s : Space) :
    c ∉ s.val :=
  fun h => hc (s.2 c h)

theorem quote_not_mem_plain (s : PlainText) : quote ∉ s.val := fun h => (s.2 quote h).1 rfl

theorem quote_not_mem_digits (ds : List (Fin 10)) : quote ∉ digits ds := by
  intro h
  obtain ⟨d, -, hd⟩ := List.mem_map.mp h
  exact absurd hd ((by decide : ∀ d : Fin 10, UInt8.ofNat (48 + d.val) ≠ quote) d)

theorem quote_not_mem_exponent (e : Exponent) : quote ∉ e.text := by
  have hsign : quote ∉ e.sign.text := by cases e.sign <;> decide
  have hletter : quote ∉ ascii (if e.upper then "E" else "e") := by cases e.upper <;> decide
  rw [Exponent.text, List.mem_append, List.mem_append, not_or, not_or]
  exact ⟨⟨hletter, hsign⟩, quote_not_mem_digits _⟩

theorem quote_not_mem_number (n : Number) : quote ∉ n.text := by
  have hminus : quote ∉ (if n.minus then ascii "-" else []) := by cases n.minus <;> decide
  have hfrac : quote ∉ n.frac.elim [] fun ds => ascii "." ++ digits ds := by
    cases n.frac with
    | none => exact List.not_mem_nil
    | some ds =>
      rw [Option.elim_some, List.mem_append, not_or]
      exact ⟨by decide, quote_not_mem_digits ds⟩
  have hexp : quote ∉ n.exp.elim [] Exponent.text := by
    cases n.exp with
    | none => exact List.not_mem_nil
    | some e => exact quote_not_mem_exponent e
  rw [Number.text, List.mem_append, List.mem_append, List.mem_append, not_or, not_or, not_or]
  exact ⟨⟨⟨hminus, quote_not_mem_digits _⟩, hfrac⟩, hexp⟩

theorem quote_not_mem_bare (v : Value) : quote ∉ v.bare := by
  cases v with
  | string s => exact List.not_mem_nil
  | number n => exact quote_not_mem_number n
  | bool b => cases b <;> decide
  | null => decide

theorem not_mem_gap {c : UInt8} (hc : c ∉ ([0x20, 0x09, 0x0A, 0x0D] : List UInt8))
    (hcomma : c ≠ comma) (hclose : c ∉ close) (ms : List Member) : c ∉ gap close ms := by
  cases ms with
  | nil => exact hclose
  | cons m ms =>
    rw [gap, List.mem_cons, not_or]
    exact ⟨hcomma, not_mem_space hc _⟩

theorem cut_segments (hclose : quote ∉ close) : ∀ {q : List UInt8} (ms : List Member), quote ∉ q →
    Cut q (segments close ms)
  | _, [], hq => Cut.nil hq
  | _, m :: ms, hq => by
    have hspace (s : Space) : quote ∉ s.val := not_mem_space (by decide) s
    have hgap : quote ∉ m.afterValue.val ++ gap close ms := by
      rw [List.mem_append, not_or]
      exact ⟨hspace _, not_mem_gap (by decide) (by decide) hclose ms⟩
    cases hv : m.value.string? with
    | none =>
      rw [segments_bare hv, cut_cons]
      refine ⟨hq, quote_not_mem_plain _, cut_segments hclose ms ?_⟩
      rw [List.mem_append, List.mem_cons, List.mem_append, List.mem_append, not_or, not_or, not_or,
        not_or]
      exact ⟨hspace _, by decide, hspace _, quote_not_mem_bare _, hgap⟩
    | some s =>
      obtain ⟨t, ht, -⟩ := Value.eq_string hv
      rw [segments_string ht, cut_cons, cut_cons]
      refine ⟨hq, quote_not_mem_plain _, ?_, quote_not_mem_plain _, cut_segments hclose ms hgap⟩
      rw [List.mem_append, List.mem_cons, not_or, not_or]
      exact ⟨hspace _, by decide, hspace _⟩

/-- The marks of the grammar, which no name of a member to look for has. -/
def marks : List UInt8 := [colon, comma, closeBrace]

theorem marked_gap (hclose : closeBrace ∈ close) (ms : List Member) : ∃ c ∈ marks, c ∈ gap close ms := by
  cases ms with
  | nil => exact ⟨closeBrace, by decide, hclose⟩
  | cons m ms => exact ⟨comma, by decide, List.mem_cons_self⟩

/-- **Between texts in quotes** there is always a mark. -/
theorem marked_of_mem_segments (hclose : closeBrace ∈ close) : ∀ {ms : List Member}
    {seg : List UInt8 × List UInt8}, seg ∈ segments close ms → ∃ c ∈ marks, c ∈ seg.2
  | [], _, h => absurd h List.not_mem_nil
  | m :: ms, seg, h => by
    have hcolon {b : List UInt8} : ∃ c ∈ marks, c ∈ m.afterName.val ++ colon :: b :=
      ⟨colon, by decide, List.mem_append_right _ List.mem_cons_self⟩
    cases hv : m.value.string? with
    | none =>
      rw [segments_bare hv, List.mem_cons] at h
      rcases h with rfl | h
      · exact hcolon
      · exact marked_of_mem_segments hclose h
    | some s =>
      obtain ⟨t, ht, -⟩ := Value.eq_string hv
      rw [segments_string ht, List.mem_cons, List.mem_cons] at h
      rcases h with rfl | rfl | h
      · exact hcolon
      · obtain ⟨c, hc, hgap⟩ := marked_gap hclose ms
        exact ⟨c, hc, List.mem_append_right _ hgap⟩
      · exact marked_of_mem_segments hclose h

end Cut

namespace FlatObject

/-- What stands in front of an object's first quote. -/
def start (o : FlatObject) : List UInt8 := o.lead.val ++ openBrace :: opening o.close o.members

theorem not_mem_close {c : UInt8} (hc : c ∉ ([0x20, 0x09, 0x0A, 0x0D] : List UInt8))
    (hbrace : c ≠ closeBrace) (o : FlatObject) : c ∉ o.close := by
  rw [close, List.mem_append, List.mem_cons, not_or, not_or]
  exact ⟨not_mem_space hc _, hbrace, not_mem_space hc _⟩

/-- **The cut of an object.** -/
theorem text_eq (o : FlatObject) : o.text = quotedText o.start (segments o.close o.members) := by
  rw [text, intercalate_text, start, quotedText_append, quotedText_cons]

theorem cut (o : FlatObject) : Cut o.start (segments o.close o.members) := by
  have hclose : quote ∉ o.close := not_mem_close (by decide) (by decide) o
  refine cut_segments hclose o.members ?_
  rw [start, List.mem_append, List.mem_cons, not_or, not_or]
  refine ⟨not_mem_space (by decide) _, by decide, ?_⟩
  cases o.members with
  | nil => exact hclose
  | cons m ms => exact not_mem_space (by decide) _

end FlatObject

end TamagoUefi.Lib.FlatJson
