import TamagoUefi.Lib.Ask
import TamagoUefi.Oci.Base

/-!
# TamagoUefi.Oci.Registry — the registry client (`registry.go`)

The `Transport` is the environment: a `Request` is a URL with its extra header lines, and a `Reply`
is what the servers and the network make of it.  `Registry` keeps the parsed reference and the
cached bearer token; `authenticate` returns the registry with the new token.

* `authenticate`: the probe, and the token request its challenge asks for.
* `fetchManifestRaw`: the bytes at `/manifests/`, unverified.
* `runs_httpGet`, `yields_fetchManifestRaw`, `yields_authenticate`: what each asks and returns.

DNS server and timeouts of a request carry nothing the replies depend on here and are left out.
-/

namespace TamagoUefi.Oci

open Go Lib
open Lib.Ask (Runs)
open Lib.AskE

/-! ## Requests and replies -/

/-- One call of `Transport.Get` (`stream = false`) or `StreamTransport.GetStream`. -/
structure Request where
  url : Bytes
  extraHeaders : List Bytes
  stream : Bool
  deriving DecidableEq

/-- The outcome of a request: the transport's error, or status, headers (lower-case names) and the
body in the pieces it was read in. -/
structure Reply where
  err : Option Bytes
  status : ℤ
  headers : List (Bytes × Bytes)
  chunks : List Bytes
  deriving DecidableEq

namespace Reply

def body (r : Reply) : Bytes := r.chunks.flatten

/-- `resp.Headers[k]`, empty when absent. -/
def header (r : Reply) (k : Bytes) : Bytes := (r.headers.lookup k).getD []

end Reply

/-- What the package runs in: requests, their replies, and its errors. -/
abbrev Net (α : Type) : Type := AskE Request Reply OciErr α

structure Registry where
  ref : Ref
  bearer : Bytes
  /-- The transport also satisfies `StreamTransport`. -/
  streaming : Bool
  deriving DecidableEq

/-- The header line that carries a token. -/
def authorization (bearer : Bytes) : Bytes := str "Authorization: Bearer " ++ bearer

def acceptLines (accept : Bytes) : List Bytes :=
  if accept.isEmpty then [] else [str "Accept: " ++ accept]

def bearerLines (bearer : Bytes) : List Bytes :=
  if bearer.isEmpty then [] else [authorization bearer]

def httpGet (url accept bearer : Bytes) : Net Reply := do
  let r ← AskE.query ⟨url, acceptLines accept ++ bearerLines bearer, false⟩
  match r.err with
  | some e => throw (.transport e)
  | none => pure r

/-! ## The bearer challenge -/

/-- `splitQuoted` from the middle: `cur` is the element being read, `inQuote` its quote state. -/
def splitQuotedAux : Bytes → Bytes → Bool → List Bytes
  | [], cur, _ => if cur.isEmpty then [] else [trimSpace cur]
  | ch :: t, cur, inQuote =>
    if ch = '"'.toUInt8 then splitQuotedAux t (cur ++ [ch]) (!inQuote)
    else if ch = ','.toUInt8 ∧ inQuote = false then trimSpace cur :: splitQuotedAux t [] inQuote
    else splitQuotedAux t (cur ++ [ch]) inQuote

def splitQuoted (s : Bytes) : List Bytes := splitQuotedAux s [] false

/-- One `key=value` element of a challenge; an element without `=` is skipped. -/
def challengeParam (p : Bytes) : Option (Bytes × Bytes) :=
  (indexByte p '='.toUInt8).map fun i =>
    (toLower (trimSpace (p.take i)), trim (p.drop (i + 1)) (str "\" "))

/-- The parameters, latest first: a repeated key takes its last value, as in the Go map. -/
def parseBearerChallenge (chal : Bytes) : Except OciErr (List (Bytes × Bytes)) :=
  if hasPrefix (toLower chal) (str "bearer ") then
    .ok ((splitQuoted (chal.drop 7)).filterMap challengeParam).reverse
  else .error .challengeUnsupported

def param (params : List (Bytes × Bytes)) (k : Bytes) : Bytes := (params.lookup k).getD []

def urlEscapeByte (c : UInt8) : Bytes :=
  if (0x41 ≤ c ∧ c ≤ 0x5A) ∨ (0x61 ≤ c ∧ c ≤ 0x7A) ∨ (0x30 ≤ c ∧ c ≤ 0x39) ∨ c = '-'.toUInt8 ∨
      c = '_'.toUInt8 ∨ c = '.'.toUInt8 ∨ c = '~'.toUInt8 then [c]
  else
    let hex := str "0123456789ABCDEF"
    ['%'.toUInt8, hex.getD (c >>> 4).toNat 0, hex.getD (c &&& 0x0F).toNat 0]

def urlEscape (s : Bytes) : Bytes := s.flatMap urlEscapeByte

def buildTokenURL (realm service scope : Bytes) : Bytes :=
  if service.isEmpty ∧ scope.isEmpty then realm
  else
    realm ++ (if contains realm (str "?") then str "&" else str "?") ++
      (if service.isEmpty then [] else str "service=" ++ urlEscape service) ++
      (if scope.isEmpty then []
        else (if service.isEmpty then [] else str "&") ++ str "scope=" ++ urlEscape scope)

def extractStringField (body key : Bytes) : Bytes :=
  let needle := str "\"" ++ key ++ str "\""
  match index body needle with
  | none => []
  | some i =>
    let rest := body.drop (i + needle.length)
    match indexByte rest ':'.toUInt8 with
    | none => []
    | some colon =>
      let rest := rest.drop (colon + 1)
      match indexByte rest '"'.toUInt8 with
      | none => []
      | some openQuote =>
        let rest := rest.drop (openQuote + 1)
        match indexByte rest '"'.toUInt8 with
        | none => []
        | some closeQuote => rest.take closeQuote

def parseTokenBody (body : Bytes) : Bytes :=
  let tok := extractStringField body (str "token")
  if tok.isEmpty then extractStringField body (str "access_token") else tok

/-! ## Authenticate, FetchManifestRaw -/

/-- The URL a challenge sends the client to. -/
def tokenURL (chal : Bytes) : Except OciErr Bytes :=
  if chal.isEmpty then .error .challengeMissing else
  match parseBearerChallenge chal with
  | .error e => .error e
  | .ok params =>
    let realm := param params (str "realm")
    if realm.isEmpty then .error .challengeMissingRealm
    else .ok (buildTokenURL realm (param params (str "service")) (param params (str "scope")))

def fetchToken (url : Bytes) : Net Bytes := do
  let tokResp ← AskE.mapErr (.wrap (str "token fetch: ")) (httpGet url [] [])
  if tokResp.status ≠ 200 then throw (.registryStatus url tokResp.status)
  else
    let tok := parseTokenBody tokResp.body
    if tok.isEmpty then throw .tokenEmpty else pure tok

def authenticate (r : Registry) : Net Registry := do
  let probeURL := r.ref.manifestURL r.ref.reference
  let resp ← AskE.mapErr (.wrap (str "auth probe: ")) (httpGet probeURL manifestAcceptHeader [])
  if resp.status = 200 then pure { r with bearer := [] }
  else if resp.status ≠ 401 then throw (.registryStatus probeURL resp.status)
  else do
    let url ← AskE.ofExcept (tokenURL (resp.header (str "www-authenticate")))
    let tok ← fetchToken url
    pure { r with bearer := tok }

/-- The body and the content type at `/manifests/reference`. -/
def fetchManifestRaw (r : Registry) (reference : Bytes) : Net (Bytes × Bytes) := do
  let url := r.ref.manifestURL reference
  let resp ← httpGet url manifestAcceptHeader r.bearer
  if resp.status ≠ 200 then throw (.registryStatus url resp.status)
  else pure (resp.body, resp.header (str "content-type"))

/-! ### What these three ask and return -/

/-- The request of `httpGet`. -/
def getRequest (url accept bearer : Bytes) : Request :=
  ⟨url, acceptLines accept ++ bearerLines bearer, false⟩

variable {url accept bearer : Bytes} {tr : List (Request × Reply)}

theorem runs_httpGet {y : Except OciErr Reply} :
    Runs (httpGet url accept bearer).run tr y ↔ ∃ r, tr = [(getRequest url accept bearer, r)] ∧
      y = match r.err with
        | some e => .error (.transport e)
        | none => .ok r := by
  unfold httpGet
  rw [runs_bind]
  constructor
  · rintro (⟨e, rfl, h⟩ | ⟨t₁, t₂, r, rfl, h₁, h₂⟩)
    · simp at h
    · rw [yields_query] at h₁
      refine ⟨r, ?_⟩
      cases hr : r.err with
      | some e =>
        rw [hr] at h₂
        obtain ⟨rfl, rfl⟩ := runs_run_throw.mp h₂
        exact ⟨by simp [h₁, getRequest], rfl⟩
      | none =>
        rw [hr] at h₂
        obtain ⟨rfl, rfl⟩ := runs_run_pure.mp h₂
        exact ⟨by simp [h₁, getRequest], rfl⟩
  · rintro ⟨r, rfl, rfl⟩
    refine Or.inr ⟨[(getRequest url accept bearer, r)], [], r, rfl, yields_query.mpr rfl, ?_⟩
    cases hr : r.err with
    | some e => exact runs_run_throw.mpr ⟨rfl, rfl⟩
    | none => exact runs_run_pure.mpr ⟨rfl, rfl⟩

theorem yields_httpGet {r : Reply} :
    Yields (httpGet url accept bearer) tr r ↔
      tr = [(getRequest url accept bearer, r)] ∧ r.err = none := by
  unfold Yields
  rw [runs_httpGet]
  constructor
  · rintro ⟨r', rfl, h⟩
    cases hr : r'.err with
    | some e => rw [hr] at h; cases h
    | none => rw [hr] at h; cases h; exact ⟨rfl, hr⟩
  · rintro ⟨rfl, hr⟩
    exact ⟨r, rfl, by rw [hr]⟩

theorem runs_httpGet_error {e : OciErr} (h : Runs (httpGet url accept bearer).run tr (.error e)) :
    ∃ r, tr = [(getRequest url accept bearer, r)] ∧ r.err ≠ none := by
  obtain ⟨r, rfl, hy⟩ := runs_httpGet.mp h
  refine ⟨r, rfl, fun hr => ?_⟩
  rw [hr] at hy
  cases hy

theorem runs_httpGet_bind {α : Type} {f : Reply → Net α} {y : Except OciErr α}
    (h : Runs (httpGet url accept bearer >>= f).run tr y) :
    ∃ r t, tr = (getRequest url accept bearer, r) :: t ∧
      ((r.err ≠ none ∧ t = [] ∧ ∃ e, y = .error e) ∨ r.err = none ∧ Runs (f r).run t y) := by
  rcases runs_bind.mp h with ⟨e, rfl, he⟩ | ⟨t₁, t₂, r, rfl, h₁, h₂⟩
  · obtain ⟨r, rfl, herr⟩ := runs_httpGet_error he
    exact ⟨r, [], rfl, .inl ⟨herr, rfl, e, rfl⟩⟩
  · obtain ⟨rfl, herr⟩ := yields_httpGet.mp h₁
    exact ⟨r, t₂, rfl, .inr ⟨herr, h₂⟩⟩

theorem yields_fetchManifestRaw {r : Registry} {reference : Bytes} {res : Bytes × Bytes}
    (h : Yields (fetchManifestRaw r reference) tr res) :
    ∃ resp, tr = [(getRequest (r.ref.manifestURL reference) manifestAcceptHeader r.bearer, resp)] ∧
      resp.err = none ∧ resp.status = 200 ∧
      res = (resp.body, resp.header (str "content-type")) := by
  unfold fetchManifestRaw at h
  obtain ⟨t₁, t₂, resp, rfl, h₁, h₂⟩ := yields_bind.mp h
  obtain ⟨rfl, herr⟩ := yields_httpGet.mp h₁
  split_ifs at h₂ with hs
  · exact absurd h₂ yields_throw
  · obtain ⟨rfl, rfl⟩ := yields_pure.mp h₂
    exact ⟨resp, rfl, herr, by simpa using hs, rfl⟩

theorem runs_mapErr_httpGet {f : OciErr → OciErr} {x : Except OciErr Reply}
    (h : Runs (AskE.mapErr f (httpGet url accept bearer)).run tr x) :
    ∃ resp, tr = [(getRequest url accept bearer, resp)] ∧ (resp.err = none → x = .ok resp) := by
  obtain ⟨y, rfl, hget⟩ := runs_run_mapErr.mp h
  obtain ⟨resp, rfl, rfl⟩ := runs_httpGet.mp hget
  refine ⟨resp, rfl, fun herr => ?_⟩
  rw [herr]
  rfl

theorem runs_fetchToken {x : Except OciErr Bytes}
    (h : Runs (fetchToken url).run tr x) : ∃ tok, tr = [(getRequest url [] [], tok)] := by
  unfold fetchToken at h
  rcases runs_bind.mp h with ⟨e, rfl, hget⟩ | ⟨t₁, t₂, resp, rfl, hget, hrest⟩
  · obtain ⟨tok, rfl, -⟩ := runs_mapErr_httpGet hget
    exact ⟨tok, rfl⟩
  · obtain ⟨tok, rfl, -⟩ := runs_mapErr_httpGet hget
    -- nothing is asked behind the answer
    have hsilent : t₂ = [] := by
      split_ifs at hrest
      · exact (runs_run_throw.mp hrest).1
      · dsimp only at hrest
        split_ifs at hrest
        · exact (runs_run_throw.mp hrest).1
        · exact (runs_run_pure.mp hrest).1
    exact ⟨tok, by rw [hsilent, List.append_nil]⟩

/-- A successful `Authenticate` is the probe alone, answered 200, or the probe answered 401 and
the token request. -/
theorem yields_authenticate {r r' : Registry} (h : Yields (authenticate r) tr r') :
    ∃ resp, resp.err = none ∧ r'.ref = r.ref ∧ r'.streaming = r.streaming ∧
      ((resp.status = 200 ∧ r'.bearer = [] ∧
        tr = [(getRequest (r.ref.manifestURL r.ref.reference) manifestAcceptHeader [], resp)]) ∨
      (resp.status = 401 ∧ ∃ url tok, tokenURL (resp.header (str "www-authenticate")) = .ok url ∧
        tok.status = 200 ∧ r'.bearer = parseTokenBody tok.body ∧
        tr = [(getRequest (r.ref.manifestURL r.ref.reference) manifestAcceptHeader [], resp),
          (getRequest url [] [], tok)])) := by
  unfold authenticate at h
  obtain ⟨t₁, t₂, resp, rfl, h₁, h₂⟩ := yields_bind.mp h
  obtain ⟨rfl, herr⟩ := yields_httpGet.mp (yields_mapErr.mp h₁)
  split_ifs at h₂ with h200 h401
  · obtain ⟨rfl, rfl⟩ := yields_pure.mp h₂
    exact ⟨resp, herr, rfl, rfl, Or.inl ⟨h200, rfl, rfl⟩⟩
  · exact absurd h₂ yields_throw
  · obtain ⟨t₃, t₄, url, rfl, h₃, h₄⟩ := yields_bind.mp h₂
    obtain ⟨rfl, hurl⟩ := yields_ofExcept.mp h₃
    obtain ⟨t₅, t₆, tok, rfl, h₅, h₆⟩ := yields_bind.mp h₄
    obtain ⟨rfl, rfl⟩ := yields_pure.mp h₆
    unfold fetchToken at h₅
    obtain ⟨t₇, t₈, tokResp, rfl, h₇, h₈⟩ := yields_bind.mp h₅
    obtain ⟨rfl, -⟩ := yields_httpGet.mp (yields_mapErr.mp h₇)
    split_ifs at h₈ with hs
    · exact absurd h₈ yields_throw
    · dsimp only at h₈
      split_ifs at h₈ with he
      · exact absurd h₈ yields_throw
      · obtain ⟨rfl, rfl⟩ := yields_pure.mp h₈
        exact ⟨resp, herr, rfl, rfl, Or.inr ⟨by simpa using h401, url, tokResp, hurl,
          by simpa using hs, rfl, rfl⟩⟩

end TamagoUefi.Oci
