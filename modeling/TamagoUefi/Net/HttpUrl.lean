import TamagoUefi.Net.Http

/-!
# TamagoUefi.Net.HttpUrl — URLs by their grammar (`http.go`, `https.go`)

`HttpURL` is an absolute URL as RFC 3986 has it: scheme, host, an optional port, a path that is empty
or starts with a slash, an optional query.  The two parsers know no question mark.  They cut at the
first slash, wherever it stands, and take what comes before it for host and port.

* `splitHostPort_authority`: host and port of an authority.
* `splitHostPort_query`: with a query behind it, the host is never the one written.
* `parse_text_iff`: the URLs whose parts the parsers return.
-/

namespace TamagoUefi.Net

open Go

/-! ## The grammar -/

def alphanumeric (c : UInt8) : Bool :=
  (0x30 ≤ c && c ≤ 0x39) || (0x41 ≤ c && c ≤ 0x5A) || (0x61 ≤ c && c ≤ 0x7A)

/-- A byte of a registered name or of an IPv4 address: unreserved, a sub-delimiter, or of a percent
encoding. -/
def hostByte (c : UInt8) : Bool := alphanumeric c || (str "-._~!$&'()*+,;=%").contains c

def pathByte (c : UInt8) : Bool := hostByte c || (str ":@/").contains c

def queryByte (c : UInt8) : Bool := pathByte c || c == '?'.toUInt8

inductive UrlScheme
  | http
  | https
  deriving DecidableEq

namespace UrlScheme

def text : UrlScheme → Bytes
  | http => str "http://"
  | https => str "https://"

def defaultPort : UrlScheme → ℕ
  | http => 80
  | https => 443

def wrongScheme : UrlScheme → HttpErr
  | http => .schemeNotHTTP
  | https => .schemeNotHTTPS

/-- The parser for URLs of the scheme. -/
def parse : UrlScheme → Bytes → Except HttpErr ParsedHTTPURL
  | http => parseHTTPURL
  | https => parseHTTPSURL

theorem parse_eq (s : UrlScheme) : s.parse = parseURL s.text s.defaultPort s.wrongScheme := by
  cases s <;> rfl

end UrlScheme

def decimal (ds : List (Fin 10)) : Bytes := ds.map fun d => UInt8.ofNat (48 + d.val)

def decimalValue (ds : List (Fin 10)) : ℕ := ds.foldl (fun n d => n * 10 + d.val) 0

structure HttpURL where
  scheme : UrlScheme
  host : Bytes
  /-- The digits behind the colon, if there is one. -/
  port : Option (List (Fin 10))
  path : Bytes
  query : Option Bytes
  host_ne : host ≠ []
  host_legal : ∀ c ∈ host, hostByte c = true
  port_lt : ∀ ds ∈ port, decimalValue ds < 65536
  path_slash : path = [] ∨ path.head? = some '/'.toUInt8
  path_legal : ∀ c ∈ path, pathByte c = true
  query_legal : ∀ q ∈ query, ∀ c ∈ q, queryByte c = true

namespace HttpURL

def portText (u : HttpURL) : Bytes := u.port.elim [] fun ds => ':'.toUInt8 :: decimal ds

def queryText (u : HttpURL) : Bytes := u.query.elim [] fun q => '?'.toUInt8 :: q

def authority (u : HttpURL) : Bytes := u.host ++ u.portText

def text (u : HttpURL) : Bytes := u.scheme.text ++ (u.authority ++ (u.path ++ u.queryText))

/-- The port to connect to: the scheme's own if the URL names none. -/
def portNumber (u : HttpURL) : ℕ :=
  match u.port with
  | none | some [] => u.scheme.defaultPort
  | some (d :: ds) => decimalValue (d :: ds)

/-- The request target: path and query, with a slash for an empty path. -/
def target (u : HttpURL) : Bytes := (if u.path = [] then str "/" else u.path) ++ u.queryText

/-- The parts of the URL. -/
def parts (u : HttpURL) : ParsedHTTPURL := ⟨u.host, u.portNumber, u.target⟩

end HttpURL

/-! ## Ports -/

theorem decDigit_digit (d : Fin 10) : decDigit (UInt8.ofNat (48 + d.val)) = some d.val := by
  revert d
  decide

theorem foldlM_decimal (ds : List (Fin 10)) (n : ℕ) :
    (decimal ds).foldlM (fun n c => (decDigit c).map (n * 10 + ·)) n =
      some (ds.foldl (fun n d => n * 10 + d.val) n) := by
  induction ds generalizing n with
  | nil => rfl
  | cons d ds ih =>
    rw [decimal, List.map_cons, List.foldlM_cons, decDigit_digit]
    exact ih _

theorem parseDec_decimal {ds : List (Fin 10)} (h : ds ≠ []) :
    parseDec (decimal ds) = some (decimalValue ds) := by
  have hne : (decimal ds).isEmpty = false := by
    cases ds with
    | nil => exact absurd rfl h
    | cons d ds => rfl
  rw [parseDec, hne]
  exact foldlM_decimal ds 0

theorem parseUint16_decimal {ds : List (Fin 10)} (h : ds ≠ []) (hlt : decimalValue ds < 65536) :
    parseUint16 (decimal ds) = some (decimalValue ds) := by
  rw [parseUint16, parseDec_decimal h]
  exact Option.filter_some_pos (decide_eq_true hlt)

theorem foldlM_digits {s : Bytes} {m n : ℕ}
    (h : s.foldlM (fun n c => (decDigit c).map (n * 10 + ·)) m = some n) : ∀ c ∈ s, decDigit c ≠ none := by
  induction s generalizing m with
  | nil => exact fun c hc => absurd hc List.not_mem_nil
  | cons a s ih =>
    rw [List.foldlM_cons] at h
    obtain ⟨k, hk, hrest⟩ := Option.bind_eq_some_iff.mp h
    intro c hc
    rcases List.mem_cons.mp hc with rfl | hc
    · intro hnone
      rw [hnone] at hk
      cases hk
    · exact ih hrest c hc

theorem parseUint16_digits {s : Bytes} {n : ℕ} (h : parseUint16 s = some n) : ∀ c ∈ s, decDigit c ≠ none := by
  obtain ⟨hdec, -⟩ := Option.filter_eq_some_iff.mp h
  rw [parseDec] at hdec
  split_ifs at hdec
  exact foldlM_digits hdec

theorem not_mem_decimal {c : UInt8} (hc : decDigit c = none) (ds : List (Fin 10)) : c ∉ decimal ds := by
  intro h
  obtain ⟨d, -, rfl⟩ := List.mem_map.mp h
  rw [decDigit_digit] at hc
  cases hc

/-! ## Authorities -/

/-- The answer for host, port and path. -/
def answer (path : Bytes) : Option (Bytes × ℕ) → Except HttpErr ParsedHTTPURL
  | none => .error .badURL
  | some (host, port) => .ok ⟨host, port, path⟩

theorem answer_eq_ok {path : Bytes} {o : Option (Bytes × ℕ)} {x : ParsedHTTPURL}
    (h : answer path o = .ok x) : o = some (x.host, x.port) := by
  cases o with
  | none => cases h
  | some hp =>
    cases h
    rfl

section
variable {pre : Bytes} {defaultPort : ℕ} {wrongScheme : HttpErr}

theorem parseURL_slash {auth rest : Bytes} (h : '/'.toUInt8 ∉ auth) :
    parseURL pre defaultPort wrongScheme (pre ++ (auth ++ '/'.toUInt8 :: rest)) =
      answer ('/'.toUInt8 :: rest) (splitHostPort defaultPort auth) := by
  rw [parseURL_authority h]
  cases splitHostPort defaultPort auth with
  | none => rfl
  | some hp => rfl

/-- Without a slash the whole text is the authority. -/
theorem parseURL_bare {auth : Bytes} (h : '/'.toUInt8 ∉ auth) :
    parseURL pre defaultPort wrongScheme (pre ++ auth) =
      answer (str "/") (splitHostPort defaultPort auth) := by
  unfold parseURL
  rw [if_pos (hasPrefix_append pre _), List.drop_left]
  simp only [indexByte_eq_none.mpr h]
  cases splitHostPort defaultPort auth with
  | none => rfl
  | some hp => rfl

theorem splitHostPort_plain {host : Bytes} (hne : host ≠ []) (hcolon : ':'.toUInt8 ∉ host) :
    splitHostPort defaultPort host = some (host, defaultPort) := by
  unfold splitHostPort
  rw [lastIndexByte_of_notMem hcolon]
  exact if_neg (mt List.isEmpty_iff.mp hne)

theorem splitHostPort_colon {host p : Bytes} (hne : host ≠ []) (hcolon : ':'.toUInt8 ∉ p) :
    splitHostPort defaultPort (host ++ ':'.toUInt8 :: p) = (parseUint16 p).map (host, ·) := by
  have hdrop : (host ++ ':'.toUInt8 :: p).drop (host.length + 1) = p := by
    rw [List.drop_append]
    simp
  unfold splitHostPort
  rw [lastIndexByte_append hcolon]
  dsimp only
  rw [hdrop, List.take_left]
  cases parseUint16 p with
  | none => rfl
  | some n => exact if_neg (mt List.isEmpty_iff.mp hne)

end

namespace HttpURL

variable (u : HttpURL)

theorem not_mem_host {c : UInt8} (hc : hostByte c = false) : c ∉ u.host := by
  intro h
  rw [u.host_legal c h] at hc
  cases hc

theorem not_mem_authority {c : UInt8} (hc : hostByte c = false) (hcolon : c ≠ ':'.toUInt8)
    (hdigit : decDigit c = none) : c ∉ u.authority := by
  rw [authority, List.mem_append, not_or]
  refine ⟨u.not_mem_host hc, ?_⟩
  rw [portText]
  cases u.port with
  | none => exact List.not_mem_nil
  | some ds =>
    rw [Option.elim_some, List.mem_cons, not_or]
    exact ⟨hcolon, not_mem_decimal hdigit ds⟩

/-- **Host and port of an authority** are the ones written, unless a colon has no digits. -/
theorem splitHostPort_authority :
    splitHostPort u.scheme.defaultPort u.authority =
      if u.port = some [] then none else some (u.host, u.portNumber) := by
  have hcolon : ':'.toUInt8 ∉ u.host := u.not_mem_host (by decide)
  rw [authority, portText, portNumber.eq_def]
  cases hp : u.port with
  | none =>
    rw [Option.elim_none, List.append_nil, splitHostPort_plain u.host_ne hcolon]
    rfl
  | some ds =>
    rw [Option.elim_some, splitHostPort_colon u.host_ne (not_mem_decimal (by decide) ds)]
    cases ds with
    | nil => rfl
    | cons d ds =>
      rw [parseUint16_decimal (List.cons_ne_nil d ds) (u.port_lt _ hp), if_neg (by simp)]
      rfl

/-- **A query behind the authority** goes into the host or into the port. -/
theorem splitHostPort_query (q : Bytes) (port : ℕ) :
    splitHostPort u.scheme.defaultPort (u.authority ++ '?'.toUInt8 :: q) ≠ some (u.host, port) := by
  intro h
  have hmark : '?'.toUInt8 ∉ u.host := u.not_mem_host (by decide)
  rcases splitHostPort_spells h with ⟨-, hhost, -⟩ | ⟨p, htext, -, hport⟩
  · -- no colon: the host has the question mark
    refine hmark ?_
    rw [hhost]
    exact List.mem_append_right _ List.mem_cons_self
  · rw [authority, List.append_assoc, List.append_cancel_left_eq, portText] at htext
    cases hp : u.port with
    | none =>
      rw [hp] at htext
      exact absurd (List.cons.inj htext).1 (by decide)
    | some ds =>
      -- the port has it
      rw [hp] at htext
      have hmem : '?'.toUInt8 ∈ p := by
        rw [← (List.cons.inj htext).2]
        exact List.mem_append_right _ List.mem_cons_self
      exact parseUint16_digits hport _ hmem (by decide)

/-! ## Whole URLs -/

theorem slash_not_mem_authority : '/'.toUInt8 ∉ u.authority :=
  u.not_mem_authority (by decide) (by decide) (by decide)

/-- With an empty path, a slash in the query is where the path is taken to start. -/
theorem parse_query (q : Bytes) :
    u.scheme.parse (u.scheme.text ++ (u.authority ++ '?'.toUInt8 :: q)) ≠ .ok u.parts := by
  rw [UrlScheme.parse_eq]
  intro h
  by_cases hq : '/'.toUInt8 ∈ q
  · obtain ⟨q₁, q₂, rfl, hq₁⟩ := List.eq_append_cons_of_mem hq
    have hauth : '/'.toUInt8 ∉ u.authority ++ '?'.toUInt8 :: q₁ := by
      rw [List.mem_append, List.mem_cons, not_or, not_or]
      exact ⟨u.slash_not_mem_authority, by decide, hq₁⟩
    have hcut : u.authority ++ '?'.toUInt8 :: (q₁ ++ '/'.toUInt8 :: q₂) =
        u.authority ++ '?'.toUInt8 :: q₁ ++ '/'.toUInt8 :: q₂ := by
      rw [List.append_assoc, List.cons_append]
    rw [hcut, parseURL_slash hauth] at h
    exact u.splitHostPort_query q₁ _ (answer_eq_ok h)
  · have hauth : '/'.toUInt8 ∉ u.authority ++ '?'.toUInt8 :: q := by
      rw [List.mem_append, List.mem_cons, not_or, not_or]
      exact ⟨u.slash_not_mem_authority, by decide, hq⟩
    rw [parseURL_bare hauth] at h
    exact u.splitHostPort_query q _ (answer_eq_ok h)

theorem parse_path {t : Bytes} (hpath : u.path = '/'.toUInt8 :: t) :
    u.scheme.parse u.text = answer u.target (splitHostPort u.scheme.defaultPort u.authority) := by
  have hne : u.path ≠ [] := by
    rw [hpath]
    exact List.cons_ne_nil _ _
  rw [UrlScheme.parse_eq, text, target, if_neg hne, hpath, List.cons_append,
    parseURL_slash u.slash_not_mem_authority]

theorem parse_noQuery (hpath : u.path = []) (hquery : u.query = none) :
    u.scheme.parse u.text = answer u.target (splitHostPort u.scheme.defaultPort u.authority) := by
  rw [UrlScheme.parse_eq, text, target, if_pos hpath, hpath, queryText, hquery, Option.elim_none,
    List.nil_append, List.append_nil, List.append_nil, parseURL_bare u.slash_not_mem_authority]

theorem answer_authority :
    answer u.target (splitHostPort u.scheme.defaultPort u.authority) = .ok u.parts ↔
      u.port ≠ some [] := by
  rw [splitHostPort_authority]
  by_cases hport : u.port = some []
  · rw [if_pos hport]
    refine ⟨fun h => ?_, fun h => absurd hport h⟩
    cases h
  · rw [if_neg hport]
    exact ⟨fun _ => hport, fun _ => rfl⟩

end HttpURL

/-- **The URLs that are split as written**: a query stands behind a path, and a colon has digits
behind it. -/
theorem parse_text_iff (u : HttpURL) :
    u.scheme.parse u.text = .ok u.parts ↔ (u.path ≠ [] ∨ u.query = none) ∧ u.port ≠ some [] := by
  rcases u.path_slash with hpath | hpath
  · cases hquery : u.query with
    | none =>
      rw [u.parse_noQuery hpath hquery, u.answer_authority]
      exact ⟨fun h => ⟨.inr rfl, h⟩, fun h => h.2⟩
    | some q =>
      have htext : u.text = u.scheme.text ++ (u.authority ++ '?'.toUInt8 :: q) := by
        rw [HttpURL.text, hpath, HttpURL.queryText, hquery]
        rfl
      rw [htext]
      constructor
      · intro h
        exact absurd h (u.parse_query q)
      · rintro ⟨hne | hnone, -⟩
        · exact absurd hpath hne
        · cases hnone
  · obtain ⟨t, ht⟩ : ∃ t, u.path = '/'.toUInt8 :: t := by
      cases hp : u.path with
      | nil =>
        rw [hp] at hpath
        cases hpath
      | cons c t =>
        rw [hp] at hpath
        cases hpath
        exact ⟨t, rfl⟩
    rw [u.parse_path ht, u.answer_authority]
    have hne : u.path ≠ [] := by
      rw [ht]
      exact List.cons_ne_nil _ _
    exact ⟨fun h => ⟨.inl hne, h⟩, fun h => h.2⟩

/-- The URL `https://h:8443/a?x=/:`. -/
def slashedURL : HttpURL :=
  { scheme := .https, host := str "h",
    port := some [⟨8, by decide⟩, ⟨4, by decide⟩, ⟨4, by decide⟩, ⟨3, by decide⟩],
    path := str "/a", query := some (str "x=/:"),
    host_ne := by decide +kernel, host_legal := by decide +kernel, port_lt := by decide +kernel,
    path_slash := by decide +kernel, path_legal := by decide +kernel,
    query_legal := by decide +kernel }

theorem parse_slashedURL :
    slashedURL.text = str "https://h:8443/a?x=/:" ∧
      slashedURL.scheme.parse slashedURL.text = .ok ⟨str "h", 8443, str "/a?x=/:"⟩ :=
  ⟨by decide +kernel, (parse_text_iff slashedURL).mpr ⟨.inl (by decide +kernel), by decide +kernel⟩⟩

/-- The URL `http://h?x=1`. -/
def markedURL : HttpURL :=
  { scheme := .http, host := str "h", port := none, path := [], query := some (str "x=1"),
    host_ne := by decide +kernel, host_legal := by decide +kernel, port_lt := by decide +kernel,
    path_slash := by decide +kernel, path_legal := by decide +kernel,
    query_legal := by decide +kernel }

theorem parse_markedURL :
    markedURL.text = str "http://h?x=1" ∧
      markedURL.scheme.parse markedURL.text = .ok ⟨str "h?x=1", 80, str "/"⟩ ∧
      markedURL.parts = ⟨str "h", 80, str "/?x=1"⟩ := by
  decide +kernel

end TamagoUefi.Net
