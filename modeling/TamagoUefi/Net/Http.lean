import TamagoUefi.Go.Strings
import TamagoUefi.Lib.RequestHead

/-!
# TamagoUefi.Net.Http — URLs and requests of the HTTP client (`http.go`, `https.go`)

* `parseHTTPURL`, `parseHTTPSURL`: one parser at two prefixes and default ports.
* `parseURL_authority`: on `prefix host / rest` the parser reads host and port off `host` alone.
* `buildHTTPRequest`: the bytes of a GET; `intact_iff` says for which URLs and header lines they
  read back as the one request that was meant.
-/

namespace TamagoUefi.Net

open Go Lib

/-! ## URLs -/

inductive HttpErr
  | badURL
  | schemeNotHTTP
  | schemeNotHTTPS
  deriving DecidableEq

structure ParsedHTTPURL where
  host : Bytes
  port : ℕ
  /-- With the leading slash; a query is kept. -/
  path : Bytes
  deriving DecidableEq

/-- Host and port of an authority, the port after the last colon. -/
def splitHostPort (defaultPort : ℕ) (rest : Bytes) : Option (Bytes × ℕ) :=
  match lastIndexByte rest ':'.toUInt8 with
  | none => if rest.isEmpty then none else some (rest, defaultPort)
  | some i =>
    match parseUint16 (rest.drop (i + 1)) with
    | none => none
    | some p => if (rest.take i).isEmpty then none else some (rest.take i, p)

/-- The shape shared by the two URL parsers. -/
def parseURL (pre : Bytes) (defaultPort : ℕ) (wrongScheme : HttpErr) (url : Bytes) :
    Except HttpErr ParsedHTTPURL :=
  if hasPrefix url pre then
    let rest := url.drop pre.length
    let (rest, path) :=
      match indexByte rest '/'.toUInt8 with
      | some i => (rest.take i, rest.drop i)
      | none => (rest, str "/")
    match splitHostPort defaultPort rest with
    | none => .error .badURL
    | some (host, port) => .ok ⟨host, port, path⟩
  else .error wrongScheme

def parseHTTPURL : Bytes → Except HttpErr ParsedHTTPURL := parseURL (str "http://") 80 .schemeNotHTTP

def parseHTTPSURL : Bytes → Except HttpErr ParsedHTTPURL :=
  parseURL (str "https://") 443 .schemeNotHTTPS

/-- What a text says about host and port: nothing after the host, or a port after the last colon. -/
def SpellsHost (defaultPort : ℕ) (text host : Bytes) (port : ℕ) : Prop :=
  (':'.toUInt8 ∉ text ∧ host = text ∧ port = defaultPort) ∨
    ∃ p, text = host ++ ':'.toUInt8 :: p ∧ ':'.toUInt8 ∉ p ∧ parseUint16 p = some port

theorem splitHostPort_spells {defaultPort port : ℕ} {text host : Bytes}
    (h : splitHostPort defaultPort text = some (host, port)) : SpellsHost defaultPort text host port := by
  unfold splitHostPort at h
  cases hi : lastIndexByte text ':'.toUInt8 with
  | none =>
    rw [hi] at h
    simp only at h
    split_ifs at h
    cases h
    have hc : ':'.toUInt8 ∉ text := by
      unfold lastIndexByte at hi
      simpa using indexByte_eq_none.mp (Option.map_eq_none_iff.mp hi)
    exact Or.inl ⟨hc, rfl, rfl⟩
  | some i =>
    rw [hi] at h
    simp only at h
    cases hp : parseUint16 (text.drop (i + 1)) with
    | none => rw [hp] at h; cases h
    | some p =>
      rw [hp] at h
      simp only at h
      split_ifs at h
      cases h
      obtain ⟨hsplit, hlast⟩ := lastIndexByte_eq_some hi
      exact Or.inr ⟨_, hsplit, hlast, hp⟩

section
variable {pre : Bytes} {defaultPort : ℕ} {wrongScheme : HttpErr}

/-- **The authority decides**: the path starts at the first slash, and host and port are read off
what stands before it. -/
theorem parseURL_authority {host rest : Bytes} (h : '/'.toUInt8 ∉ host) :
    parseURL pre defaultPort wrongScheme (pre ++ (host ++ '/'.toUInt8 :: rest)) =
      match splitHostPort defaultPort host with
      | none => .error .badURL
      | some (h, p) => .ok ⟨h, p, '/'.toUInt8 :: rest⟩ := by
  unfold parseURL
  rw [if_pos (hasPrefix_append pre _), List.drop_left]
  simp only [indexByte_append h, List.take_left, List.drop_left]

theorem parseURL_of_not_prefix {url : Bytes} (h : hasPrefix url pre = false) :
    parseURL pre defaultPort wrongScheme url = .error wrongScheme := by
  unfold parseURL
  rw [h]
  rfl

end

/-! ## Requests -/

/-- The text of the Host header. -/
def hostText (u : ParsedHTTPURL) : Bytes :=
  u.host ++ if u.port ≠ 80 then str ":" ++ formatUint u.port else []

def buildHTTPRequest (u : ParsedHTTPURL) (extraHeaders : List Bytes) : Bytes :=
  str "GET " ++ u.path ++ str " HTTP/1.1\r\n" ++ str "Host: " ++ hostText u ++ str "\r\n" ++
    str "User-Agent: ministack/1.0\r\n" ++ str "Accept: */*\r\n" ++ str "Connection: close\r\n" ++
    extraHeaders.flatMap (· ++ str "\r\n") ++ str "\r\n"

/-- The header fields the client means to send, before the extra ones. -/
def standardFields (u : ParsedHTTPURL) : List (Bytes × Bytes) :=
  [(str "Host", trimOWS (hostText u)), (str "User-Agent", str "ministack/1.0"),
    (str "Accept", str "*/*"), (str "Connection", str "close")]

/-- The bytes are exactly one GET request for the path, with the standard header fields and those
of the extra lines. -/
def Intact (u : ParsedHTTPURL) (extraHeaders : List Bytes) : Prop :=
  ∃ extra, extraHeaders.mapM fieldLine = some extra ∧
    RequestHead.parse (buildHTTPRequest u extraHeaders) =
      some ⟨str "GET", u.path, str "HTTP/1.1", standardFields u ++ extra⟩

/-- The header lines of a request. -/
def headerLines (u : ParsedHTTPURL) (extraHeaders : List Bytes) : List Bytes :=
  (str "Host: " ++ hostText u) :: str "User-Agent: ministack/1.0" :: str "Accept: */*" ::
    str "Connection: close" :: extraHeaders

theorem buildHTTPRequest_eq (u : ParsedHTTPURL) (extraHeaders : List Bytes) :
    buildHTTPRequest u extraHeaders =
      RequestHead.write (str "GET") u.path (str "HTTP/1.1") (headerLines u extraHeaders) := by
  have hcrlf : str "\r\n" = [13, 10] := by decide
  have hget : str "GET " = str "GET" ++ [32] := by decide
  have hversion : str " HTTP/1.1\r\n" = 32 :: (str "HTTP/1.1" ++ [13, 10]) := by decide
  have hagent : str "User-Agent: ministack/1.0\r\n" = str "User-Agent: ministack/1.0" ++ [13, 10] := by
    decide
  have haccept : str "Accept: */*\r\n" = str "Accept: */*" ++ [13, 10] := by decide
  have hclose : str "Connection: close\r\n" = str "Connection: close" ++ [13, 10] := by decide
  rw [buildHTTPRequest, hget, hversion, hagent, haccept, hclose, hcrlf]
  simp only [RequestHead.write, writeLines, headerLines, List.flatMap_cons, List.flatMap_append,
    List.flatMap_nil, List.append_assoc, List.cons_append, List.nil_append, List.append_nil]

theorem mapM_headerLines (u : ParsedHTTPURL) (extraHeaders : List Bytes) :
    (headerLines u extraHeaders).mapM fieldLine =
      (extraHeaders.mapM fieldLine).map (standardFields u ++ ·) := by
  have hhost : fieldLine (str "Host: " ++ hostText u) = some (str "Host", trimOWS (hostText u)) := rfl
  have hagent : fieldLine (str "User-Agent: ministack/1.0") =
      some (str "User-Agent", str "ministack/1.0") := by decide
  have haccept : fieldLine (str "Accept: */*") = some (str "Accept", str "*/*") := by decide
  have hclose : fieldLine (str "Connection: close") = some (str "Connection", str "close") := by decide
  simp only [headerLines, List.mapM_cons, hhost, hagent, haccept, hclose]
  cases extraHeaders.mapM fieldLine <;> rfl

theorem clean_formatUint (n : ℕ) : Clean (formatUint n) := by
  have hdigit : ∀ b ∈ formatUint n, 48 ≤ b.toNat := fun b hb => (digit_of_mem_formatUint hb).1
  exact ⟨fun h => absurd (hdigit _ h) (by decide), fun h => absurd (hdigit _ h) (by decide)⟩

theorem clean_hostText {u : ParsedHTTPURL} : Clean (hostText u) ↔ Clean u.host := by
  unfold hostText
  rw [clean_append]
  split_ifs
  · have hport : Clean (str ":" ++ formatUint u.port) :=
      clean_append.mpr ⟨by decide, clean_formatUint _⟩
    exact and_iff_left hport
  · exact and_iff_left (by decide)

/-- **What a request survives**: it reads back as meant exactly when its path has no space, CR or
LF, its host no CR or LF, and each extra line is one header line. -/
theorem intact_iff {u : ParsedHTTPURL} {extraHeaders : List Bytes} :
    Intact u extraHeaders ↔ Plain u.path ∧ Clean u.host ∧
      ∀ l ∈ extraHeaders, Clean l ∧ (fieldLine l).isSome = true := by
  have hread := RequestHead.parse_write_iff u.path (headerLines u extraHeaders)
    (show Plain (str "GET") by decide) (show Plain (str "HTTP/1.1") by decide)
  have hlines : (∀ l ∈ headerLines u extraHeaders, Clean l ∧ (fieldLine l).isSome = true) ↔
      Clean u.host ∧ ∀ l ∈ extraHeaders, Clean l ∧ (fieldLine l).isSome = true := by
    have hhost : Clean (str "Host: " ++ hostText u) ∧
        (fieldLine (str "Host: " ++ hostText u)).isSome = true ↔ Clean u.host := by
      rw [clean_append, clean_hostText]
      exact ⟨fun h => h.1.2, fun h => ⟨⟨by decide, h⟩, rfl⟩⟩
    simp only [headerLines, List.forall_mem_cons]
    rw [hhost]
    refine and_congr_right fun _ => ?_
    exact ⟨fun h => h.2.2.2, fun h => ⟨by decide, by decide, by decide, h⟩⟩
  rw [← hlines, ← hread, Intact, mapM_headerLines, buildHTTPRequest_eq]
  constructor
  · rintro ⟨extra, he, hp⟩
    exact ⟨_, by rw [he]; rfl, hp⟩
  · rintro ⟨fs, hfs, hp⟩
    obtain ⟨extra, he, rfl⟩ := Option.map_eq_some_iff.mp hfs
    exact ⟨extra, he, hp⟩

end TamagoUefi.Net
