import TamagoUefi.Go.Strings

/-!
# TamagoUefi.Oci.Base — references, digests and manifests (`ref.go`, `digest.go`, `manifest.go`)

SHA-256 and `encoding/json` are the parameter `Ext`: nothing is assumed about either, so every
theorem holds for any hash and any decoder.

`HashesTo x b d` says that the bytes `b` have the digest `d`, a text `sha256:HEX`;
`verifyDigest_eq_ok` says that `verifyDigest` accepts exactly then.
-/

namespace TamagoUefi.Oci

open Go

/-! ## Errors -/

/-- The errors of the package, `wrap` being `fmt.Errorf` with a text in front of `%w`. -/
inductive OciErr
  | refNoRepo
  | digestUnsupported
  | digestBadShape
  | digestMismatch
  | indexNoMatch
  | manifestEmpty
  | challengeMissing
  | challengeUnsupported
  | challengeMissingRealm
  | tokenEmpty
  | registryStatus (url : Bytes) (status : ℤ)
  | blobSizeMismatch (got want : ℤ)
  | tooManyRedirects (digest : Bytes)
  | blobBufferTooSmall
  | blobBufferOverflow
  | archMissing
  | transportNotStreaming
  | shortWrite
  | json (text : Bytes)
  | transport (text : Bytes)
  | wrap (text : Bytes) (e : OciErr)
  deriving DecidableEq

/-! ## References -/

structure Ref where
  scheme : Bytes
  host : Bytes
  repo : Bytes
  reference : Bytes
  deriving DecidableEq

/-- The scheme prefix of a reference and the rest; `https` when there is none. -/
def splitScheme (s : Bytes) : Bytes × Bytes :=
  match index s (str "://") with
  | some i => (s.take i, s.drop (i + 3))
  | none => (str "https", s)

theorem ends_http : Ends (str "http") (str "://") := by decide

theorem ends_https : Ends (str "https") (str "://") := by decide

/-- The repository and the tag or digest after it, `latest` when there is neither. -/
def splitReference (rest : Bytes) : Bytes × Bytes :=
  match lastIndexByte rest '@'.toUInt8 with
  | some i => (rest.take i, rest.drop (i + 1))
  | none =>
    match lastIndexByte rest ':'.toUInt8 with
    | some i => (rest.take i, rest.drop (i + 1))
    | none => (rest, str "latest")

def parseRef (s : Bytes) : Except OciErr Ref :=
  let (scheme, s) := splitScheme s
  match indexByte s '/'.toUInt8 with
  | none => .error .refNoRepo
  | some slash =>
    let host := s.take slash
    -- the override flips an explicit `https` too: the scheme text is all that is left of it
    let scheme :=
      if hasPrefix host (str "localhost") || hasPrefix host (str "127.0.0.1") then
        if scheme = str "https" then str "http" else scheme
      else scheme
    let (repo, ref) := splitReference (s.drop (slash + 1))
    if repo.isEmpty then .error .refNoRepo
    else .ok ⟨scheme, host, repo, ref⟩

namespace Ref

def baseURL (r : Ref) : Bytes := r.scheme ++ str "://" ++ r.host ++ str "/v2/" ++ r.repo

def manifestURL (r : Ref) (reference : Bytes) : Bytes :=
  r.baseURL ++ str "/manifests/" ++ reference

def blobURL (r : Ref) (d : Bytes) : Bytes := r.baseURL ++ str "/blobs/" ++ d

end Ref

/-! ## Manifests -/

structure Platform where
  architecture : Bytes
  os : Bytes
  variant : Bytes
  deriving DecidableEq

structure Descriptor where
  mediaType : Bytes
  digest : Bytes
  size : ℤ
  platform : Option Platform
  deriving DecidableEq

structure Index where
  schemaVersion : ℤ
  mediaType : Bytes
  manifests : List Descriptor
  deriving DecidableEq

structure Manifest where
  schemaVersion : ℤ
  mediaType : Bytes
  config : Descriptor
  layers : List Descriptor
  deriving DecidableEq

/-- The struct `IsIndex` decodes a body into to sniff its kind. -/
structure Probe where
  mediaType : Bytes
  manifests : List Descriptor
  deriving DecidableEq

/-- The functions taken from the standard library: SHA-256 and `json.Unmarshal` into each struct,
with the text of its error. -/
structure Ext where
  sha256 : Bytes → Bytes
  unmarshalIndex : Bytes → Except Bytes Index
  unmarshalManifest : Bytes → Except Bytes Manifest
  unmarshalProbe : Bytes → Except Bytes Probe

def mediaTypeOCIIndex : Bytes := str "application/vnd.oci.image.index.v1+json"
def mediaTypeOCIManifest : Bytes := str "application/vnd.oci.image.manifest.v1+json"
def mediaTypeDockerIndex : Bytes :=
  str "application/vnd.docker.distribution.manifest.list.v2+json"
def mediaTypeDockerManifest : Bytes := str "application/vnd.docker.distribution.manifest.v2+json"

def manifestAcceptHeader : Bytes :=
  mediaTypeOCIIndex ++ str ", " ++ mediaTypeDockerIndex ++ str ", " ++ mediaTypeOCIManifest ++
    str ", " ++ mediaTypeDockerManifest

variable (x : Ext)

/-- The common shape of `ParseIndex`, `ParseManifest` and `parseSigManifest`. -/
def decodeBody {α : Type} (unmarshal : Bytes → Except Bytes α) (raw : Bytes) : Except OciErr α :=
  if raw.isEmpty then .error .manifestEmpty else (unmarshal raw).mapError .json

def parseIndex (raw : Bytes) : Except OciErr Index := decodeBody x.unmarshalIndex raw

def parseManifest (raw : Bytes) : Except OciErr Manifest := decodeBody x.unmarshalManifest raw

def isIndex (raw contentType : Bytes) : Bool :=
  if contentType = mediaTypeOCIIndex ∨ contentType = mediaTypeDockerIndex then true else
  match x.unmarshalProbe raw with
  | .error _ => false
  | .ok probe =>
    if probe.mediaType = mediaTypeOCIIndex ∨ probe.mediaType = mediaTypeDockerIndex then true
    else !probe.manifests.isEmpty

/-- Is `m` an entry for the platform `(osName, arch)`? -/
def matchesPlatform (osName arch : Bytes) (m : Descriptor) : Bool :=
  match m.platform with
  | none => false
  | some p => p.os = osName ∧ p.architecture = arch

def pickPlatform (idx : Index) (osName arch : Bytes) : Except OciErr Descriptor :=
  match idx.manifests.find? (matchesPlatform osName arch) with
  | some m => .ok m
  | none => .error .indexNoMatch

/-! ## Digests -/

def digestSHA256HexLen : ℕ := 64

def parseDigest (s : Bytes) : Except OciErr (Bytes × Bytes) :=
  match indexByte s ':'.toUInt8 with
  | none => .error .digestBadShape
  | some i =>
    let algo := s.take i
    let hexStr := s.drop (i + 1)
    if algo ≠ str "sha256" then .error .digestUnsupported
    else if hexStr.length ≠ digestSHA256HexLen then .error .digestBadShape
    else if hexStr.all isHexDigit then .ok (algo, hexStr)
    else .error .digestBadShape

def digestFromBytes (b : Bytes) : Bytes := str "sha256:" ++ hexEncode (x.sha256 b)

def verifyDigest (want b : Bytes) : Except OciErr Unit :=
  match parseDigest want with
  | .error e => .error e
  | .ok (_, wantHex) =>
    if equalFold (hexEncode (x.sha256 b)) wantHex then .ok () else .error .digestMismatch

/-- The bytes `b` have the digest `d`: `d` is `sha256:HEX` and their SHA-256 is `HEX`, in either
letter case. -/
def HashesTo (b d : Bytes) : Prop :=
  ∃ hex, d = str "sha256:" ++ hex ∧ hexEncode (x.sha256 b) = hex.map asciiLower

theorem parseDigest_eq_ok {s algo hex : Bytes} : parseDigest s = .ok (algo, hex) ↔
    algo = str "sha256" ∧ s = str "sha256:" ++ hex ∧ hex.length = 64 ∧ hex.all isHexDigit = true := by
  have hcolon : str "sha256:" = str "sha256" ++ [':'.toUInt8] := by decide
  unfold parseDigest
  constructor
  · intro h
    cases hi : indexByte s ':'.toUInt8 with
    | none => rw [hi] at h; cases h
    | some i =>
      rw [hi] at h
      dsimp only at h
      split_ifs at h with h1 h2 h3
      simp only [not_not] at h1 h2
      cases h
      refine ⟨h1, ?_, h2, h3⟩
      rw [hcolon, List.append_assoc, ← h1]
      exact (indexByte_eq_some hi).1
  · rintro ⟨rfl, rfl, hlen, hhex⟩
    have hi : indexByte (str "sha256:" ++ hex) ':'.toUInt8 = some 6 := by
      rw [hcolon, List.append_assoc]
      exact indexByte_append (by decide)
    have htake : (str "sha256:" ++ hex).take 6 = str "sha256" := rfl
    have hdrop : (str "sha256:" ++ hex).drop 7 = hex := rfl
    rw [hi]
    simp only [htake, hdrop]
    simp [hlen, hhex, digestSHA256HexLen]

/-- **`VerifyDigest`** accepts the bytes with the wanted digest and no others. -/
theorem verifyDigest_eq_ok {want b : Bytes} : verifyDigest x want b = .ok () ↔
    HashesTo x b want ∧ ∃ r, parseDigest want = .ok r := by
  unfold verifyDigest
  cases h : parseDigest want with
  | error e => simp
  | ok r =>
    obtain ⟨algo, hex⟩ := r
    obtain ⟨-, rfl, -, hhex⟩ := parseDigest_eq_ok.mp h
    obtain ⟨e1, e2⟩ := hexEncode_lower (x.sha256 b)
    have hfold : equalFold (hexEncode (x.sha256 b)) hex = true ↔
        hexEncode (x.sha256 b) = hex.map asciiLower := by
      rw [equalFold, beq_iff_eq, fold_of_hex _ e1, fold_of_hex _ hhex, e2]
    have hto : HashesTo x b (str "sha256:" ++ hex) ↔ hexEncode (x.sha256 b) = hex.map asciiLower := by
      constructor
      · rintro ⟨hex', heq, h'⟩
        rw [List.append_cancel_left heq]
        exact h'
      · exact fun h' => ⟨hex, rfl, h'⟩
    rw [hto, ← hfold]
    by_cases hc : equalFold (hexEncode (x.sha256 b)) hex = true <;> simp [hc]

end TamagoUefi.Oci
