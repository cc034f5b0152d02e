import TamagoUefi.Lib.Urlencoded
import TamagoUefi.Oci.Registry

/-!
# TamagoUefi.Oci.TokenRequest — from a challenge to the token's URL (`registry.go`)

A challenge is written as a list of parameters with quoted values, and the URL of the token request is
read as a server reads it, by `Lib.Urlencoded`.

* `parse_challenge`: the splitter and the trimming give back the parameters, whatever is in the quotes.
* `decode_urlEscape`: an escaped value is decoded to itself, and holds no separator.
* `params_buildTokenURL`: the parameters of the URL are the realm's, then `service`, then `scope`.
* `token_request`: the URL that `Authenticate` asks for, put together.
-/

namespace TamagoUefi.Oci

open Go Lib
open Lib.Ask (Runs)
open Lib.Urlencoded

/-! ## Challenges -/

/-- A visible ASCII character that is none of the separators of a challenge. -/
def NameByte (c : UInt8) : Prop :=
  0x21 ≤ c ∧ c ≤ 0x7E ∧ c ≠ '='.toUInt8 ∧ c ≠ '"'.toUInt8 ∧ c ≠ ','.toUInt8

instance (c : UInt8) : Decidable (NameByte c) := inferInstanceAs (Decidable (_ ∧ _))

/-- White space of a header field. -/
def Blank (c : UInt8) : Prop := c = 0x20 ∨ c = 0x09

instance (c : UInt8) : Decidable (Blank c) := inferInstanceAs (Decidable (_ ∨ _))

/-- One parameter of a challenge, with the white space around it. -/
structure AuthParam where
  before : Bytes
  name : Bytes
  value : Bytes
  after : Bytes

open AuthParam

namespace AuthParam

structure Valid (p : AuthParam) : Prop where
  before : ∀ c ∈ p.before, Blank c
  after : ∀ c ∈ p.after, Blank c
  name : p.name ≠ []
  nameBytes : ∀ c ∈ p.name, NameByte c
  value : '"'.toUInt8 ∉ p.value
  /-- No space at either end. -/
  noLead : p.value.head? ≠ some 0x20
  noTrail : p.value.getLast? ≠ some 0x20

/-- The parameter without the white space. -/
def body (p : AuthParam) : Bytes :=
  p.name ++ ('='.toUInt8 :: '"'.toUInt8 :: (p.value ++ ['"'.toUInt8]))

def text (p : AuthParam) : Bytes := p.before ++ (p.body ++ p.after)

/-- The name as it is compared. -/
def key (p : AuthParam) : Bytes := p.name.map asciiLower

end AuthParam

/-- A challenge: the scheme in any case, a space and the parameters with commas between them. -/
def challengeText (scheme : Bytes) (ps : List AuthParam) : Bytes :=
  scheme ++ (' '.toUInt8 :: [','.toUInt8].intercalate (ps.map text))

/-- The value of a parameter, empty when it is absent. -/
def valueOf (ps : List AuthParam) (k : Bytes) : Bytes :=
  ((ps.find? (·.key = k)).map (·.value)).getD []

/-! ## The splitter -/

theorem splitQuotedAux_plain : ∀ {s : Bytes} (t cur : Bytes),
    (∀ c ∈ s, c ≠ '"'.toUInt8 ∧ c ≠ ','.toUInt8) →
    splitQuotedAux (s ++ t) cur false = splitQuotedAux t (cur ++ s) false
  | [], t, cur, _ => by rw [List.nil_append, List.append_nil]
  | c :: s, t, cur, h => by
    obtain ⟨hquote, hcomma⟩ := h c List.mem_cons_self
    rw [List.cons_append, splitQuotedAux, if_neg hquote, if_neg fun hc => hcomma hc.1,
      splitQuotedAux_plain t _ fun d hd => h d (List.mem_cons_of_mem _ hd), List.append_assoc,
      List.singleton_append]

theorem splitQuotedAux_quoted : ∀ {s : Bytes} (t cur : Bytes), '"'.toUInt8 ∉ s →
    splitQuotedAux (s ++ t) cur true = splitQuotedAux t (cur ++ s) true
  | [], t, cur, _ => by rw [List.nil_append, List.append_nil]
  | c :: s, t, cur, h => by
    rw [List.mem_cons, not_or] at h
    rw [List.cons_append, splitQuotedAux, if_neg (Ne.symm h.1), if_neg fun hc => (nomatch hc.2),
      splitQuotedAux_quoted t _ h.2, List.append_assoc, List.singleton_append]

theorem splitQuotedAux_quote (t cur : Bytes) (inQuote : Bool) :
    splitQuotedAux ('"'.toUInt8 :: t) cur inQuote =
      splitQuotedAux t (cur ++ ['"'.toUInt8]) (!inQuote) := by
  rw [splitQuotedAux, if_pos rfl]

variable {c : UInt8}

theorem blank_plain (h : Blank c) : c ≠ '"'.toUInt8 ∧ c ≠ ','.toUInt8 := by
  rcases h with rfl | rfl
  · decide
  · decide

namespace AuthParam

variable {p : AuthParam} (h : p.Valid)
include h

/-- The text of a parameter goes to the element that is being read. -/
theorem splitQuotedAux_text (t cur : Bytes) :
    splitQuotedAux (p.text ++ t) cur false = splitQuotedAux t (cur ++ p.text) false := by
  have hname : ∀ c ∈ p.name ++ ['='.toUInt8], c ≠ '"'.toUInt8 ∧ c ≠ ','.toUInt8 := by
    intro c hc
    rcases List.mem_append.mp hc with hc | hc
    · exact (h.nameBytes c hc).2.2.2
    · rw [List.mem_singleton.mp hc]
      decide
  have hsplit : p.text ++ t = p.before ++ ((p.name ++ ['='.toUInt8]) ++
      ('"'.toUInt8 :: (p.value ++ ('"'.toUInt8 :: (p.after ++ t))))) := by
    simp [text, body]
  rw [hsplit, splitQuotedAux_plain _ _ fun c hc => blank_plain (h.before c hc),
    splitQuotedAux_plain _ _ hname, splitQuotedAux_quote, Bool.not_false,
    splitQuotedAux_quoted _ _ h.value, splitQuotedAux_quote, Bool.not_true,
    splitQuotedAux_plain _ _ fun c hc => blank_plain (h.after c hc)]
  simp [text, body]

end AuthParam

theorem splitQuotedAux_nil {cur : Bytes} (h : cur ≠ []) (inQuote : Bool) :
    splitQuotedAux [] cur inQuote = [trimSpace cur] := by
  rw [splitQuotedAux, if_neg (by simpa using h)]

theorem splitQuotedAux_comma (t cur : Bytes) :
    splitQuotedAux (','.toUInt8 :: t) cur false = trimSpace cur :: splitQuotedAux t [] false := by
  rw [splitQuotedAux, if_neg (by decide), if_pos ⟨rfl, rfl⟩]

theorem AuthParam.text_ne_nil (p : AuthParam) : p.text ≠ [] := by
  simp [text, body]

theorem splitQuoted_params : ∀ {ps : List AuthParam}, (∀ p ∈ ps, p.Valid) →
    splitQuoted ([','.toUInt8].intercalate (ps.map text)) =
      ps.map fun p => trimSpace p.text
  | [], _ => rfl
  | [p], h => by
    have hone : [','.toUInt8].intercalate ([p].map text) = p.text ++ [] := by
      simp [List.intercalate]
    rw [hone, splitQuoted, splitQuotedAux_text (h p List.mem_cons_self), List.nil_append,
      splitQuotedAux_nil p.text_ne_nil]
    rfl
  | p :: q :: ps, h => by
    have hcons : [','.toUInt8].intercalate ((p :: q :: ps).map text) =
        p.text ++ ','.toUInt8 :: [','.toUInt8].intercalate ((q :: ps).map text) := by
      simp [List.intercalate]
    have ih := splitQuoted_params fun r hr => h r (List.mem_cons_of_mem p hr)
    rw [hcons, splitQuoted, splitQuotedAux_text (h p List.mem_cons_self), List.nil_append,
      splitQuotedAux_comma]
    exact congrArg (trimSpace p.text :: ·) ih

/-! ## The parameters -/

theorem NameByte.visible (h : NameByte c) : Visible c := ⟨h.1, h.2.1⟩

theorem NameByte.ascii (h : NameByte c) : c < 0x80 :=
  UInt8.lt_of_le_of_lt h.2.1 (by decide)

theorem blank_mem_spaces (h : Blank c) : [c] ∈ spaces := by
  rcases h with rfl | rfl
  · decide +kernel
  · decide +kernel

namespace AuthParam

variable {p : AuthParam} (h : p.Valid)
include h

theorem trimSpace_text : trimSpace p.text = p.body := by
  obtain ⟨a, n, hname⟩ := List.exists_cons_of_ne_nil h.name
  have ha : NameByte a := h.nameBytes a (by simp [hname])
  have hbody : p.body = a :: (n ++ ('='.toUInt8 :: '"'.toUInt8 :: (p.value ++ ['"'.toUInt8]))) := by
    rw [body, hname, List.cons_append]
  have hlast : p.body.getLast? = some '"'.toUInt8 := by
    have hsplit : p.body = (p.name ++ ('='.toUInt8 :: '"'.toUInt8 :: p.value)) ++ ['"'.toUInt8] := by
      simp [body]
    rw [hsplit, List.getLast?_concat]
  rw [text, trimSpace_prepend fun c hc => blank_mem_spaces (h.before c hc),
    trimSpace_append fun c hc => blank_mem_spaces (h.after c hc)]
  exact trimSpace_visible ha.visible (by decide) hbody hlast

theorem trim_value : trim ('"'.toUInt8 :: (p.value ++ ['"'.toUInt8])) (str "\" ") = p.value := by
  have hfree : ∀ c ∈ p.value, c ≠ 0x20 → (str "\" ").contains c = false := by
    intro c hc hspace
    have hquote : c ≠ '"'.toUInt8 := fun he => h.value (he ▸ hc)
    rw [Bool.eq_false_iff]
    intro hmem
    have hin : c ∈ str "\" " := List.contains_iff_mem.mp hmem
    have hcut : str "\" " = ['"'.toUInt8, 0x20] := by decide +kernel
    rw [hcut, List.mem_cons, List.mem_singleton] at hin
    rcases hin with hin | hin
    · exact hquote hin
    · exact hspace hin
  have hquotes : ∀ c ∈ ['"'.toUInt8], (str "\" ").contains c = true := by decide +kernel
  refine trim_wrapped (l := ['"'.toUInt8]) (r := ['"'.toUInt8]) hquotes hquotes ?_ ?_
  · intro c hc
    exact hfree c (List.mem_of_mem_head? hc) fun he => h.noLead (he ▸ hc)
  · intro c hc
    exact hfree c (List.mem_of_getLast? hc) fun he => h.noTrail (he ▸ hc)

/-- The element of a parameter gives its name in lower case and its value without the quotes. -/
theorem challengeParam_text : challengeParam (trimSpace p.text) = some (p.key, p.value) := by
  have hequals : '='.toUInt8 ∉ p.name := fun hmem => (h.nameBytes _ hmem).2.2.1 rfl
  have hindex : indexByte p.body '='.toUInt8 = some p.name.length := indexByte_append hequals
  have hname : trimSpace p.name = p.name := by
    refine trimSpace_eq_self fun w hw c hc hmem => ?_
    have hno : (spaces.flatten.all fun c => !decide (Visible c)) = true := by decide +kernel
    have hc' := List.all_eq_true.mp hno c (List.mem_flatten_of_mem hw hc)
    rw [decide_eq_true (h.nameBytes c hmem).visible] at hc'
    cases hc'
  have hrest : p.body.drop (p.name.length + 1) = '"'.toUInt8 :: (p.value ++ ['"'.toUInt8]) := by
    rw [body, List.drop_append, List.drop_of_length_le (by omega)]
    simp
  rw [trimSpace_text h, challengeParam, hindex, Option.map_some, hrest, trim_value h]
  have htake : p.body.take p.name.length = p.name := by
    rw [body, List.take_left]
  rw [htake, hname, toLower_ascii fun c hc => (h.nameBytes c hc).ascii]
  rfl

end AuthParam

variable {ps : List AuthParam}

theorem filterMap_params (h : ∀ p ∈ ps, p.Valid) :
    (ps.map fun p => trimSpace p.text).filterMap challengeParam =
      ps.map fun p => (p.key, p.value) := by
  induction ps with
  | nil => rfl
  | cons p ps ih =>
    rw [List.map_cons, List.filterMap_cons_some
      (challengeParam_text (h p List.mem_cons_self)),
      ih fun q hq => h q (List.mem_cons_of_mem _ hq)]
    rfl

theorem ascii_of_lower (h : asciiLower c < 0x80) : c < 0x80 := by
  unfold asciiLower at h
  split_ifs at h with hupper
  · exact UInt8.lt_of_le_of_lt hupper.2 (by decide)
  · exact h

/-- **Parameters**: whatever is in the quotes, the parser gives name and value of each. -/
theorem parse_challenge {scheme : Bytes} (hscheme : scheme.map asciiLower = str "bearer")
    (h : ∀ p ∈ ps, p.Valid) :
    parseBearerChallenge (challengeText scheme ps) =
      .ok (ps.map fun p => (p.key, p.value)).reverse := by
  have hascii : ∀ c ∈ scheme, c < 0x80 := by
    intro c hc
    have hmem : asciiLower c ∈ str "bearer" := hscheme ▸ List.mem_map_of_mem hc
    have hletters : ∀ d ∈ str "bearer", d < 0x80 := by decide +kernel
    exact ascii_of_lower (hletters _ hmem)
  have hlen : scheme.length = 6 := by
    rw [← List.length_map (f := asciiLower), hscheme]
    rfl
  have hlower : toLower (challengeText scheme ps) = str "bearer " ++
      toLower ([','.toUInt8].intercalate (ps.map text)) := by
    rw [challengeText, toLower_append _ hascii, hscheme, toLower_cons (by decide)]
    rfl
  have hrest : (challengeText scheme ps).drop 7 =
      [','.toUInt8].intercalate (ps.map text) := by
    rw [challengeText, List.drop_append, hlen, List.drop_of_length_le (by omega)]
    rfl
  rw [parseBearerChallenge, hlower, if_pos (hasPrefix_append _ _), hrest, splitQuoted_params h,
    filterMap_params h]

/-- A name that occurs once has the same value from either end. -/
theorem param_reverse (hnodup : (ps.map key).Nodup) (k : Bytes) :
    param (ps.map fun p => (p.key, p.value)).reverse k = valueOf ps k := by
  unfold param valueOf
  congr 1
  induction ps with
  | nil => rfl
  | cons p ps ih =>
    rw [List.map_cons, List.nodup_cons] at hnodup
    rw [List.map_cons, List.reverse_cons, List.lookup_append, ih hnodup.2, List.find?_cons]
    by_cases hk : p.key = k
    · subst hk
      have hnone : ps.find? (·.key = p.key) = none := by
        refine List.find?_eq_none.mpr fun q hq hkey => hnodup.1 ?_
        exact List.mem_map.mpr ⟨q, hq, of_decide_eq_true hkey⟩
      rw [hnone]
      simp
    · have hkey : (k == p.key) = false := beq_eq_false_iff_ne.mpr (Ne.symm hk)
      simp [List.lookup_cons, hk, hkey]

/-! ## The URL -/

/-- The part of a URL in front of its query. -/
def beforeQuery (url : Bytes) : Bytes :=
  (url.takeWhile (· ≠ '#'.toUInt8)).takeWhile (· ≠ '?'.toUInt8)

/-- The query of a URL, empty when it has none. -/
def queryOf (url : Bytes) : Bytes :=
  ((url.takeWhile (· ≠ '#'.toUInt8)).dropWhile (· ≠ '?'.toUInt8)).drop 1

/-- A parameter, left out when it is empty. -/
def given (name value : Bytes) : List (Bytes × Bytes) := if value = [] then [] else [(name, value)]

/-- The byte itself, which then has no meaning in a query, or `%` and its digits. -/
def EscapedAs (c : UInt8) : Bytes → Prop
  | [d] => d = c ∧ c ≠ percent ∧ c ≠ plus
  | [p, a, b] => p = percent ∧ hexPair a b = some c
  | _ => False

instance (c : UInt8) : ∀ s : Bytes, Decidable (EscapedAs c s)
  | [d] => inferInstanceAs (Decidable (d = c ∧ c ≠ percent ∧ c ≠ plus))
  | [p, a, b] =>
    inferInstanceAs (Decidable (p = percent ∧ hexPair a b = some c))
  | [] => isFalse id
  | [_, _] => isFalse id
  | _ :: _ :: _ :: _ :: _ => isFalse id

/-- No byte of an escape separates parameters or parts of a URL. -/
def SeparatorFree (s : Bytes) : Prop :=
  ∀ d ∈ s, d ≠ '&'.toUInt8 ∧ d ≠ '#'.toUInt8

instance (s : Bytes) : Decidable (SeparatorFree s) := List.decidableBAll _ s

theorem urlEscapeByte_spec (c : UInt8) : EscapedAs c (urlEscapeByte c) ∧ SeparatorFree (urlEscapeByte c) := by
  have hall : ∀ n, n < 256 → EscapedAs (UInt8.ofNat n) (urlEscapeByte (UInt8.ofNat n)) ∧
      SeparatorFree (urlEscapeByte (UInt8.ofNat n)) := by
    decide +kernel
  have hc := hall c.toNat c.toNat_lt
  rwa [UInt8.ofNat_toNat] at hc

theorem decode_urlEscapeByte (c : UInt8) (rest : Bytes) :
    decode (urlEscapeByte c ++ rest) = c :: decode rest := by
  have hspec := (urlEscapeByte_spec c).1
  generalize urlEscapeByte c = esc at hspec ⊢
  rcases esc with _ | ⟨d, _ | ⟨a, _ | ⟨b, _ | ⟨e, esc⟩⟩⟩⟩
  · exact hspec.elim
  · obtain ⟨rfl, hpercent, hplus⟩ := hspec
    exact decode_cons hpercent hplus rest
  · exact hspec.elim
  · obtain ⟨rfl, hpair⟩ := hspec
    exact decode_hex hpair rest
  · exact hspec.elim

/-- **Escapes**: a value is decoded to itself. -/
theorem decode_urlEscape : ∀ s : Bytes, decode (urlEscape s) = s
  | [] => rfl
  | c :: s => by
    rw [urlEscape, List.flatMap_cons, decode_urlEscapeByte]
    exact congrArg (c :: ·) (decode_urlEscape s)

theorem separatorFree_append {s t : Bytes} (hs : SeparatorFree s) (ht : SeparatorFree t) :
    SeparatorFree (s ++ t) := by
  intro d hd
  rcases List.mem_append.mp hd with hd | hd
  · exact hs d hd
  · exact ht d hd

theorem separatorFree_urlEscape (s : Bytes) : SeparatorFree (urlEscape s) := by
  intro d hd
  obtain ⟨c, -, hc⟩ := List.mem_flatMap.mp hd
  exact (urlEscapeByte_spec c).2 d hc

/-- A parameter as the client writes it. -/
def assignment (name value : Bytes) : Bytes := name ++ ('='.toUInt8 :: urlEscape value)

theorem separatorFree_assignment {name : Bytes} (h : SeparatorFree name) (value : Bytes) :
    SeparatorFree (assignment name value) := by
  have hequals : SeparatorFree ['='.toUInt8] := by decide +kernel
  exact separatorFree_append h (separatorFree_append hequals (separatorFree_urlEscape value))

theorem params_assignment {name : Bytes} (h : SeparatorFree name) (hequals : '='.toUInt8 ∉ name)
    (hname : decode name = name) (value : Bytes) : params (assignment name value) = [(name, value)] := by
  have hfree : ampersand ∉ assignment name value := fun hmem =>
    (separatorFree_assignment h value _ hmem).1 rfl
  rw [assignment] at hfree ⊢
  rw [show '='.toUInt8 = equals from rfl] at hequals hfree ⊢
  rw [params_single hequals hfree, hname, decode_urlEscape]

/-- What is appended to the realm, behind its separator. -/
def tokenQuery (service scope : Bytes) : Bytes :=
  (if service = [] then [] else assignment (str "service") service) ++
    (if scope = [] then []
      else (if service = [] then [] else str "&") ++ assignment (str "scope") scope)

theorem buildTokenURL_query {realm service scope : Bytes} (h : ¬ (service = [] ∧ scope = [])) :
    buildTokenURL realm service scope =
      realm ++ ((if '?'.toUInt8 ∈ realm then '&'.toUInt8 else '?'.toUInt8) ::
        tokenQuery service scope) := by
  have hcontains : contains realm (str "?") = true ↔ '?'.toUInt8 ∈ realm := by
    have hindex : index realm (str "?") = indexByte realm '?'.toUInt8 := index_byte _ _
    rw [contains, hindex, ← not_iff_not, ← indexByte_eq_none, Bool.not_eq_true,
      Option.isSome_eq_false_iff, Option.isNone_iff_eq_none]
  have hsep : (if contains realm (str "?") = true then str "&" else str "?") =
      [if '?'.toUInt8 ∈ realm then '&'.toUInt8 else '?'.toUInt8] := by
    by_cases hmem : '?'.toUInt8 ∈ realm
    · rw [if_pos (hcontains.mpr hmem), if_pos hmem]
      rfl
    · rw [if_neg fun hc => hmem (hcontains.mp hc), if_neg hmem]
      rfl
  unfold buildTokenURL tokenQuery assignment
  simp only [List.isEmpty_iff]
  rw [if_neg h, hsep]
  simp only [List.append_assoc, List.singleton_append]
  rfl

theorem params_tokenQuery (service scope : Bytes) :
    params (tokenQuery service scope) =
      given (str "service") service ++ given (str "scope") scope := by
  have hservice := @params_assignment (str "service") (by decide +kernel) (by decide +kernel)
    (by decide +kernel) service
  have hscope := @params_assignment (str "scope") (by decide +kernel) (by decide +kernel)
    (by decide +kernel) scope
  unfold tokenQuery given
  by_cases h₁ : service = []
  · by_cases h₂ : scope = []
    · rw [if_pos h₁, if_pos h₂, if_pos h₁, if_pos h₂]
      rfl
    · rw [if_pos h₁, if_neg h₂, if_pos h₁, if_pos h₁, if_neg h₂]
      exact hscope
  · by_cases h₂ : scope = []
    · rw [if_neg h₁, if_pos h₂, if_neg h₁, if_pos h₂, List.append_nil]
      exact hservice
    · rw [if_neg h₁, if_neg h₂, if_neg h₁, if_neg h₁, if_neg h₂]
      exact (params_append _ _).trans (congrArg₂ _ hservice hscope)

theorem hash_notMem_tokenQuery (service scope : Bytes) : '#'.toUInt8 ∉ tokenQuery service scope := by
  have hservice := @separatorFree_assignment (str "service") (by decide +kernel) service
  have hscope := @separatorFree_assignment (str "scope") (by decide +kernel) scope
  unfold tokenQuery
  rw [List.mem_append, not_or]
  constructor
  · split_ifs
    · simp
    · exact fun hmem => (hservice _ hmem).2 rfl
  · split_ifs
    · simp
    · rw [List.nil_append]
      exact fun hmem => (hscope _ hmem).2 rfl
    · rw [List.mem_append, not_or]
      exact ⟨by decide, fun hmem => (hscope _ hmem).2 rfl⟩

theorem takeWhile_of_notMem {s : Bytes} (h : c ∉ s) : s.takeWhile (· ≠ c) = s ∧ s.dropWhile (· ≠ c) = [] := by
  have hall : ∀ d ∈ s, decide (d ≠ c) = true := fun d hd => decide_eq_true fun he => h (he ▸ hd)
  have htake : (s ++ []).takeWhile (· ≠ c) = s ++ [] := List.takeWhile_append_of_pos hall
  have hdrop : (s ++ []).dropWhile (· ≠ c) = [] := List.dropWhile_append_of_pos hall
  rw [List.append_nil] at htake hdrop
  exact ⟨htake, hdrop⟩

/-- A URL without a fragment, cut at its first question mark. -/
theorem cut_at_query {front query : Bytes} (hfront : '?'.toUInt8 ∉ front)
    (hhash : '#'.toUInt8 ∉ front ++ '?'.toUInt8 :: query) :
    beforeQuery (front ++ '?'.toUInt8 :: query) = front ∧
      queryOf (front ++ '?'.toUInt8 :: query) = query := by
  have hstop : ∀ c ∈ front, decide (c ≠ '?'.toUInt8) = true := fun c hc =>
    decide_eq_true fun he => hfront (he ▸ hc)
  unfold beforeQuery queryOf
  rw [(takeWhile_of_notMem hhash).1, List.takeWhile_append_of_pos hstop,
    List.dropWhile_append_of_pos hstop, List.takeWhile_cons_of_neg (by simp),
    List.dropWhile_cons_of_neg (by simp), List.append_nil]
  exact ⟨rfl, rfl⟩

/-- **The URL of the token**: in front of the query nothing changes, and the parameters are the realm's
own and then those of the challenge. -/
theorem params_buildTokenURL {realm : Bytes} (hhash : '#'.toUInt8 ∉ realm) (service scope : Bytes) :
    realm <+: buildTokenURL realm service scope ∧
      beforeQuery (buildTokenURL realm service scope) = beforeQuery realm ∧
      params (queryOf (buildTokenURL realm service scope)) =
        params (queryOf realm) ++ given (str "service") service ++
          given (str "scope") scope := by
  by_cases hnone : service = [] ∧ scope = []
  · obtain ⟨rfl, rfl⟩ := hnone
    have hurl : buildTokenURL realm [] [] = realm := rfl
    rw [hurl]
    exact ⟨List.prefix_refl _, rfl, by simp [given]⟩
  rw [buildTokenURL_query hnone]
  refine ⟨List.prefix_append _ _, ?_⟩
  have hquery := hash_notMem_tokenQuery service scope
  by_cases hmem : '?'.toUInt8 ∈ realm
  · obtain ⟨front, query, rfl, hfront⟩ := List.eq_append_cons_of_mem hmem
    have hlong : '#'.toUInt8 ∉
        front ++ '?'.toUInt8 :: (query ++ '&'.toUInt8 :: tokenQuery service scope) := by
      rw [← List.cons_append, ← List.append_assoc, List.mem_append, not_or]
      exact ⟨hhash, List.not_mem_cons_of_ne_of_not_mem (by decide) hquery⟩
    obtain ⟨hbefore, hafter⟩ := cut_at_query hfront hhash
    obtain ⟨hbefore', hafter'⟩ := cut_at_query hfront hlong
    rw [if_pos hmem, List.append_assoc, List.cons_append, hbefore, hafter, hbefore', hafter',
      List.append_assoc, ← params_tokenQuery]
    exact ⟨rfl, params_append _ _⟩
  · have hlong : '#'.toUInt8 ∉ realm ++ '?'.toUInt8 :: tokenQuery service scope := by
      rw [List.mem_append, not_or]
      exact ⟨hhash, List.not_mem_cons_of_ne_of_not_mem (by decide) hquery⟩
    obtain ⟨hbefore, hafter⟩ := cut_at_query hmem hlong
    have hown : beforeQuery realm = realm ∧ queryOf realm = [] := by
      rw [beforeQuery, queryOf, (takeWhile_of_notMem hhash).1, (takeWhile_of_notMem hmem).1,
        (takeWhile_of_notMem hmem).2]
      exact ⟨rfl, rfl⟩
    rw [if_neg hmem, hbefore, hafter, hown.1, hown.2, params_nil, List.nil_append,
      params_tokenQuery]
    exact ⟨rfl, rfl⟩

/-! ## Authenticate -/

/-- A run whose probe is answered 401 with a challenge that names a URL goes on with a request for it,
and ends there. -/
theorem runs_authenticate_challenged {r : Registry} {q : Request} {resp : Reply} {url : Bytes}
    {rest : List (Request × Reply)} {y : Except OciErr Registry}
    (h : Runs (authenticate r).run ((q, resp) :: rest) y) (herr : resp.err = none)
    (hstatus : resp.status = 401) (hurl : tokenURL (resp.header (str "www-authenticate")) = .ok url) :
    ∃ tok, rest = [(getRequest url [] [], tok)] := by
  unfold authenticate at h
  rcases AskE.runs_bind.mp h with ⟨e, rfl, hprobe⟩ | ⟨t₁, t₂, resp', htr, hprobe, hrest⟩
  · obtain ⟨resp', htr, hok⟩ := runs_mapErr_httpGet hprobe
    cases htr
    cases hok herr
  · obtain ⟨resp'', rfl, hok⟩ := runs_mapErr_httpGet hprobe
    rw [List.singleton_append] at htr
    cases htr
    cases hok herr
    rw [hstatus, if_neg (by decide), if_neg (by decide), hurl] at hrest
    rcases AskE.runs_bind.mp hrest with ⟨e, rfl, hbad⟩ | ⟨t₃, t₄, url', rfl, hgood, hfetch⟩
    · obtain ⟨-, hbad⟩ := AskE.runs_run_ofExcept.mp hbad
      cases hbad
    · obtain ⟨rfl, heq⟩ := AskE.yields_ofExcept.mp hgood
      cases heq
      rcases AskE.runs_bind.mp hfetch with ⟨e, rfl, hfail⟩ | ⟨t₅, t₆, tok, rfl, htok, hset⟩
      · exact runs_fetchToken hfail
      · obtain ⟨tok, rfl⟩ := runs_fetchToken htok
        obtain ⟨rfl, -⟩ := AskE.runs_run_pure.mp hset
        exact ⟨tok, rfl⟩

/-- **The token request** asks for what the challenge says: the URL is the realm with its own
parameters, then `service` and `scope`, each as the challenge has it and left out when empty; and it is
what `Authenticate` requests when its probe is answered with the challenge. -/
theorem token_request (scheme : Bytes) (ps : List AuthParam)
    (hscheme : scheme.map asciiLower = str "bearer") (hvalid : ∀ p ∈ ps, p.Valid)
    (hnodup : (ps.map AuthParam.key).Nodup) (hrealm : valueOf ps (str "realm") ≠ [])
    (hhash : '#'.toUInt8 ∉ valueOf ps (str "realm")) :
    ∃ url, tokenURL (challengeText scheme ps) = .ok url ∧ valueOf ps (str "realm") <+: url ∧
      beforeQuery url = beforeQuery (valueOf ps (str "realm")) ∧
      Urlencoded.params (queryOf url) =
        Urlencoded.params (queryOf (valueOf ps (str "realm"))) ++
          given (str "service") (valueOf ps (str "service")) ++
          given (str "scope") (valueOf ps (str "scope")) ∧
      ∀ (r : Registry) (q : Request) (resp : Reply) (rest : List (Request × Reply))
        (y : Except OciErr Registry), Runs (authenticate r).run ((q, resp) :: rest) y →
        resp.err = none → resp.status = 401 →
        resp.header (str "www-authenticate") = challengeText scheme ps →
        ∃ tok, rest = [(getRequest url [] [], tok)] := by
  have hurl : tokenURL (challengeText scheme ps) =
      .ok (buildTokenURL (valueOf ps (str "realm")) (valueOf ps (str "service"))
        (valueOf ps (str "scope"))) := by
    rw [tokenURL, if_neg (by simp [challengeText]), parse_challenge hscheme hvalid]
    simp only [param_reverse hnodup]
    rw [if_neg (by simpa using hrealm)]
  obtain ⟨hrealmed, hbefore, hparams⟩ := params_buildTokenURL hhash (valueOf ps (str "service"))
    (valueOf ps (str "scope"))
  refine ⟨_, hurl, hrealmed, hbefore, hparams, ?_⟩
  intro r q resp rest y hrun herr hstatus hchal
  exact runs_authenticate_challenged hrun herr hstatus (hchal ▸ hurl)

/-- A realm with a query of its own, and separators inside the quotes. -/
def busyParams : List AuthParam :=
  [⟨[], str "realm", str "https://a/t?x=1", []⟩, ⟨[], str "Service", str "b c", [0x20]⟩,
    ⟨[0x20], str "scope", str "p,q&service=1", []⟩]

theorem busyParams_valid : ∀ p ∈ busyParams, p.Valid := by
  intro p hp
  simp only [busyParams, List.mem_cons, List.not_mem_nil, or_false] at hp
  rcases hp with rfl | rfl | rfl
  · constructor <;> decide +kernel
  · constructor <;> decide +kernel
  · constructor <;> decide +kernel

theorem token_request_busy : ∃ url, tokenURL (challengeText (str "BEARER") busyParams) = .ok url ∧
    Urlencoded.params (queryOf url) = [(str "x", str "1"), (str "service", str "b c"),
      (str "scope", str "p,q&service=1")] := by
  obtain ⟨url, hurl, -, -, hparams, -⟩ := token_request (str "BEARER") busyParams (by decide +kernel)
    busyParams_valid (by decide +kernel) (by decide +kernel) (by decide +kernel)
  refine ⟨url, hurl, hparams.trans ?_⟩
  decide +kernel

end TamagoUefi.Oci
