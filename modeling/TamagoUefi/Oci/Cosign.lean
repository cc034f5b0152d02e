import TamagoUefi.Oci.Fetch

/-!
# TamagoUefi.Oci.Cosign — keyed signature verification (`cosign.go`)

`ecdsa.VerifyASN1`, base64 and the JSON decoders of the three documents are the parameter
`CosignExt`; nothing is assumed about them.

* `collectSignatures` turns the layers of a signature manifest into `ParsedSignature`s, fetching
  the body of each bundle layer; `verify` judges them one after the other.
* `signatureDocs` is what a run fetched: each layer with its body.
* `Sound` says that a layer carries a signature over the canonical payload, or over a statement
  whose sole subject is the manifest.
* `verify_sound_iff`: the verifier looks at the first subject of a statement only, so it is sound
  exactly when no acceptance rests on a statement with further subjects alone.
-/

namespace TamagoUefi.Oci

open Go Lib
open Lib.Ask (Runs)
open Lib.AskE

/-! ## Documents -/

structure SigLayer where
  mediaType : Bytes
  digest : Bytes
  size : ℤ
  annotations : List (Bytes × Bytes)
  deriving DecidableEq

structure SigManifest where
  schemaVersion : ℤ
  mediaType : Bytes
  layers : List SigLayer
  deriving DecidableEq

structure BundleMessageSignature where
  algorithm : Bytes
  digest : Bytes
  signature : Bytes
  deriving DecidableEq

structure BundleDsseEnvelope where
  payload : Bytes
  payloadType : Bytes
  /-- The field `sig` of each signature. -/
  signatures : List Bytes
  deriving DecidableEq

structure SigstoreBundle where
  mediaType : Bytes
  messageSignature : Option BundleMessageSignature
  dsseEnvelope : Option BundleDsseEnvelope
  deriving DecidableEq

structure InTotoStatement where
  type : Bytes
  /-- The digest map of each subject. -/
  subject : List (List (Bytes × Bytes))
  deriving DecidableEq

/-- The functions of the verifier's environment, for public keys `K`. -/
structure CosignExt (K : Type) extends Ext where
  verifyASN1 : K → Bytes → Bytes → Bool
  decodeString : Bytes → Except Bytes Bytes
  unmarshalSigManifest : Bytes → Except Bytes SigManifest
  unmarshalBundle : Bytes → Except Bytes SigstoreBundle
  unmarshalStatement : Bytes → Except Bytes InTotoStatement

/-! ## Errors -/

inductive BundleErr
  | malformed (detail : Bytes)
  | algo (got : Bytes)
  deriving DecidableEq

/-- Why layer `i` gave no signature. -/
inductive LayerErr
  | base64 (i : ℕ) (e : Bytes)
  | fetch (i : ℕ) (digest : Bytes) (e : OciErr)
  | bundle (i : ℕ) (e : BundleErr)
  | unrecognised (i : ℕ) (mediaType : Bytes)
  deriving DecidableEq

/-- The cause reported with `noMatchingSignature`: the last one seen. -/
inductive SigErr
  | layer (e : LayerErr)
  | legacy (i : ℕ)
  | bundleDigest (i : ℕ)
  | bundle (i : ℕ)
  | dsseSubject (i : ℕ) (subject manifest : Bytes)
  | dsse (i : ℕ)
  deriving DecidableEq

inductive CosignErr
  | keyNotECDSA
  | badManifestDigest
  | fetchSig (tags : List Bytes) (e : Option OciErr)
  | parseSig (tag : Bytes) (e : OciErr)
  | sigManifestEmpty
  | noMatchingSignature (cause : Option SigErr)
  deriving DecidableEq

/-! ## Tags and payloads -/

def cosignSignatureAnnotation : Bytes := str "dev.cosignproject.cosign/signature"
def cosignPayloadType : Bytes := str "cosign container image signature"
def sigstoreBundleMediaTypeV02 : Bytes := str "application/vnd.dev.sigstore.bundle.v0.2+json"
def sigstoreBundleMediaTypeV03 : Bytes := str "application/vnd.dev.sigstore.bundle.v0.3+json"

def sigTag (manifestDigest : Bytes) : Except OciErr Bytes :=
  (parseDigest manifestDigest).map fun (algo, hexStr) => algo ++ str "-" ++ hexStr ++ str ".sig"

def sigTagOCI11 (manifestDigest : Bytes) : Except OciErr Bytes :=
  (parseDigest manifestDigest).map fun (algo, hexStr) => algo ++ str "-" ++ hexStr

def candidateSigTags (manifestDigest : Bytes) : Except OciErr (List Bytes) := do
  let legacy ← sigTag manifestDigest
  let oci11 ← sigTagOCI11 manifestDigest
  pure [legacy, oci11]

def jsonEscapeByte (c : UInt8) : Bytes :=
  if c = 0x22 then str "\\\""
  else if c = 0x5C then str "\\\\"
  else if c = 0x0A then str "\\n"
  else if c = 0x0D then str "\\r"
  else if c = 0x09 then str "\\t"
  else if c < 0x20 then str "\\u00" ++ [hexDigit (c >>> 4), hexDigit (c &&& 0x0F)]
  else [c]

def jsonEscape (s : Bytes) : Bytes := s.flatMap jsonEscapeByte

def canonicalPayload (dockerReference manifestDigest : Bytes) : Bytes :=
  str "\x7b\"critical\":\x7b\"identity\":\x7b\"docker-reference\":\"" ++
    jsonEscape dockerReference ++
    str "\"\x7d,\"image\":\x7b\"docker-manifest-digest\":\"" ++
    jsonEscape manifestDigest ++
    str "\"\x7d,\"type\":\"" ++ cosignPayloadType ++ str "\"\x7d,\"optional\":null\x7d"

/-- `itoaInt` of a length is `strconv.FormatUint`. -/
def dssePAE (payloadType payload : Bytes) : Bytes :=
  str "DSSEv1 " ++ formatUint payloadType.length ++ str " " ++ payloadType ++ str " " ++
    formatUint payload.length ++ str " " ++ payload

/-! ## Parsing signatures -/

/-- The three on-wire shapes; `bytes` is the raw signature. -/
inductive ParsedSignature
  | legacy (bytes : Bytes)
  | bundleV3 (bytes messageDigest : Bytes)
  | bundleV3DSSE (bytes payload payloadType subjectDigest : Bytes)
  deriving DecidableEq

def isSigstoreBundleMediaType (mt : Bytes) : Bool :=
  mt = sigstoreBundleMediaTypeV02 ∨ mt = sigstoreBundleMediaTypeV03

variable {K : Type} (c : CosignExt K)

def parseSigManifest (raw : Bytes) : Except OciErr SigManifest :=
  decodeBody c.unmarshalSigManifest raw

/-- Base64 with the name of the field in front of the error. -/
def decodeField (field b64 : Bytes) : Except BundleErr Bytes :=
  (c.decodeString b64).mapError fun e => .malformed (field ++ str " base64: " ++ e)

def parseSigstoreBundleMessageSignature (ms : BundleMessageSignature) :
    Except BundleErr ParsedSignature :=
  if ms.signature.isEmpty then .error (.malformed (str "missing messageSignature.signature"))
  else if ms.digest.isEmpty then
    .error (.malformed (str "missing messageSignature.messageDigest.digest"))
  else if ms.algorithm ≠ str "SHA2_256" then .error (.algo ms.algorithm)
  else do
    let sig ← decodeField c (str "signature") ms.signature
    let digest ← decodeField c (str "messageDigest") ms.digest
    if digest.length ≠ 32 then
      .error (.malformed (str "SHA2_256 digest must be 32 bytes, got " ++ formatUint digest.length))
    else pure (.bundleV3 sig digest)

/-- The digest of the first subject; the others are not looked at. -/
def firstSubject (stmt : InTotoStatement) : Except BundleErr Bytes :=
  match stmt.subject with
  | [] => .error (.malformed (str "in-toto Statement has no subjects"))
  | digests :: _ =>
    let subj := (digests.lookup (str "sha256")).getD []
    if subj.isEmpty then
      .error (.malformed (str "in-toto Statement subject[0] has no sha256 digest"))
    else .ok subj

def parseSigstoreBundleDSSE (env : BundleDsseEnvelope) : Except BundleErr ParsedSignature :=
  let sigText := env.signatures.headD []
  if env.payload.isEmpty then .error (.malformed (str "missing dsseEnvelope.payload"))
  else if env.payloadType.isEmpty then
    .error (.malformed (str "missing dsseEnvelope.payloadType"))
  else if sigText.isEmpty then
    .error (.malformed (str "missing dsseEnvelope.signatures[0].sig"))
  else do
    let payload ← decodeField c (str "dsseEnvelope.payload") env.payload
    let sig ← decodeField c (str "dsseEnvelope.signatures[0].sig") sigText
    let stmt ← (c.unmarshalStatement payload).mapError fun e =>
      .malformed (str "in-toto Statement parse: " ++ e)
    let subj ← firstSubject stmt
    pure (.bundleV3DSSE sig payload env.payloadType subj)

def parseSigstoreBundle (raw : Bytes) : Except BundleErr ParsedSignature :=
  if raw.isEmpty then .error (.malformed [])
  else
    match c.unmarshalBundle raw with
    | .error e => .error (.malformed e)
    | .ok b =>
      match b.messageSignature, b.dsseEnvelope with
      | some ms, _ => parseSigstoreBundleMessageSignature c ms
      | none, some env => parseSigstoreBundleDSSE c env
      | none, none =>
        .error (.malformed (str "bundle has neither messageSignature nor dsseEnvelope"))

/-! ## Collecting -/

/-- The legacy annotation of a layer; an empty one counts as absent. -/
def SigLayer.annotated (l : SigLayer) : Option Bytes :=
  (l.annotations.lookup cosignSignatureAnnotation).filter (!·.isEmpty)

/-- What `FetchBlob` returned for a layer, if it had to be fetched. -/
abbrev LayerBody : Type := Option (Except OciErr Bytes)

/-- The body of a layer: fetched for a bundle without annotation. -/
def fetchLayerBody (reg : Registry) (l : SigLayer) : Ask Request Reply LayerBody :=
  if l.annotated.isNone ∧ isSigstoreBundleMediaType l.mediaType then do
    let y ← (fetchBlob c.toExt reg ⟨l.mediaType, l.digest, l.size, none⟩).run
    pure (some y)
  else pure none

/-- The signature of layer `i`, given its body. -/
def parseLayer (i : ℕ) (l : SigLayer) (body : LayerBody) : Except LayerErr ParsedSignature :=
  match l.annotated, body with
  | some sigB64, _ =>
    match c.decodeString sigB64 with
    | .error e => .error (.base64 i e)
    | .ok sig => .ok (.legacy sig)
  | none, some (.error e) => .error (.fetch i l.digest e)
  | none, some (.ok b) => (parseSigstoreBundle c b).mapError (.bundle i)
  | none, none => .error (.unrecognised i l.mediaType)

/-- The signatures of the layers from layer `i` on, and the first error among them. -/
def collectSignatures (reg : Registry) :
    ℕ → List SigLayer → Ask Request Reply (List ParsedSignature × Option LayerErr)
  | _, [] => pure ([], none)
  | i, l :: rest => do
    let body ← fetchLayerBody c reg l
    let (sigs, perLayerErr) ← collectSignatures reg (i + 1) rest
    match parseLayer c i l body with
    | .ok sig => pure (sig :: sigs, perLayerErr)
    | .error e => pure (sigs, some e)

/-! ## Verify -/

/-- The first tag that can be fetched, with its document; the error of the first that cannot. -/
def fetchSigManifest (reg : Registry) :
    Option OciErr → List Bytes → AskE Request Reply (Option OciErr) (Bytes × Bytes)
  | fetchErr, [] => throw fetchErr
  | fetchErr, t :: rest => do
    match ← AskE.attempt (fetchManifestRaw reg t) with
    | .ok (raw, _) => pure (t, raw)
    | .error ferr => fetchSigManifest reg (fetchErr.orElse fun _ => some ferr) rest

/-- Does signature `i` pass, for the digest of the payload and the hex half of the manifest's? -/
def checkSignature (key : K) (digest hexDigest : Bytes) (i : ℕ) :
    ParsedSignature → Except SigErr Unit
  | .legacy bytes => if c.verifyASN1 key digest bytes then .ok () else .error (.legacy i)
  | .bundleV3 bytes messageDigest =>
    if messageDigest ≠ digest then .error (.bundleDigest i)
    else if c.verifyASN1 key digest bytes then .ok () else .error (.bundle i)
  | .bundleV3DSSE bytes payload payloadType subjectDigest =>
    if equalFold subjectDigest hexDigest = false then
      .error (.dsseSubject i subjectDigest hexDigest)
    else if c.verifyASN1 key (c.sha256 (dssePAE payloadType payload)) bytes then .ok ()
    else .error (.dsse i)

/-- The loop over the signatures from signature `i` on. -/
def judgeSignatures (key : K) (digest hexDigest : Bytes) :
    ℕ → Option SigErr → List ParsedSignature → Except CosignErr Unit
  | _, lastErr, [] => .error (.noMatchingSignature lastErr)
  | i, _, sig :: rest =>
    match checkSignature c key digest hexDigest i sig with
    | .ok () => .ok ()
    | .error e => judgeSignatures key digest hexDigest (i + 1) (some e) rest

/-- The hex half of a digest. -/
def hexHalf (digest : Bytes) : Bytes := ((parseDigest digest).toOption.map Prod.snd).getD []

/-- The layers of the signature manifest `Verify` finds. -/
def sigLayers (reg : Registry) (manifestDigest : Bytes) :
    AskE Request Reply CosignErr (List SigLayer) :=
  match parseDigest manifestDigest with
  | .error _ => throw .badManifestDigest
  | .ok _ => do
    let tags := (candidateSigTags manifestDigest).toOption.getD []
    let (usedTag, raw) ← AskE.mapErr (.fetchSig tags) (fetchSigManifest reg none tags)
    let m ← AskE.mapErr (.parseSig usedTag) (AskE.ofExcept (parseSigManifest c raw))
    if m.layers.isEmpty then throw .sigManifestEmpty else pure m.layers

/-- `CosignVerifier.Verify`; no key stands for a nil verifier or a nil `PubKey`. -/
def verify (pubKey : Option K) (reg : Registry) (ref : Ref) (manifestDigest : Bytes) :
    AskE Request Reply CosignErr Unit :=
  match pubKey with
  | none => throw .keyNotECDSA
  | some key => do
    let layers ← sigLayers c reg manifestDigest
    let digest := c.sha256 (canonicalPayload (ref.host ++ str "/" ++ ref.repo) manifestDigest)
    let (sigs, collectErr) ← ExceptT.lift (collectSignatures c reg 0 layers)
    AskE.ofExcept (judgeSignatures c key digest (hexHalf manifestDigest) 0
      (collectErr.map .layer) sigs)

/-! ## What a run fetched -/

/-- Some signature of the layer passes. -/
def Accepted (key : K) (ref : Ref) (manifestDigest : Bytes) (d : SigLayer × LayerBody) : Prop :=
  ∃ sig, parseLayer c 0 d.1 d.2 = .ok sig ∧ checkSignature c key
    (c.sha256 (canonicalPayload (ref.host ++ str "/" ++ ref.repo) manifestDigest))
    (hexHalf manifestDigest) 0 sig = .ok ()

/-- A signature with what it is over: the canonical payload of the image, or a statement in a DSSE
envelope. -/
inductive Signed
  | simple (bytes : Bytes)
  | statement (payloadType payload bytes : Bytes)
  deriving DecidableEq

/-- The signatures a layer carries, in its annotation or in its bundle. -/
inductive Carries (l : SigLayer) (body : LayerBody) : Signed → Prop
  | annotated {sigB64 bytes : Bytes} (h : l.annotated = some sigB64)
      (hd : c.decodeString sigB64 = .ok bytes) : Carries l body (.simple bytes)
  | message {raw bytes : Bytes} {b : SigstoreBundle} {ms : BundleMessageSignature}
      (h : body = some (.ok raw)) (hb : c.unmarshalBundle raw = .ok b)
      (hms : b.messageSignature = some ms) (hd : c.decodeString ms.signature = .ok bytes) :
      Carries l body (.simple bytes)
  | dsse {raw bytes payload : Bytes} {b : SigstoreBundle} {env : BundleDsseEnvelope}
      (h : body = some (.ok raw)) (hb : c.unmarshalBundle raw = .ok b)
      (henv : b.dsseEnvelope = some env)
      (hd : c.decodeString (env.signatures.headD []) = .ok bytes)
      (hp : c.decodeString env.payload = .ok payload) :
      Carries l body (.statement env.payloadType payload bytes)

/-- The subject has the manifest's digest, in either letter case. -/
def SubjectIs (digests : List (Bytes × Bytes)) (manifestDigest : Bytes) : Prop :=
  ∃ subj hex, digests.lookup (str "sha256") = some subj ∧
    manifestDigest = str "sha256:" ++ hex ∧ subj.map asciiLower = hex.map asciiLower

/-- The layer carries a signature for this repository and this manifest, and for nothing else. -/
def Sound (key : K) (ref : Ref) (manifestDigest : Bytes) (d : SigLayer × LayerBody) : Prop :=
  ∃ s, Carries c d.1 d.2 s ∧
    match s with
    | .simple bytes => c.verifyASN1 key
        (c.sha256 (canonicalPayload (ref.host ++ str "/" ++ ref.repo) manifestDigest)) bytes = true
    | .statement payloadType payload bytes =>
      c.verifyASN1 key (c.sha256 (dssePAE payloadType payload)) bytes = true ∧
        ∃ stmt digests, c.unmarshalStatement payload = .ok stmt ∧ stmt.subject = [digests] ∧
          SubjectIs digests manifestDigest

/-- The layer's bundle is a DSSE envelope with a good signature whose statement names the manifest
first and others after it. -/
def ManySubjects (key : K) (manifestDigest : Bytes) (d : SigLayer × LayerBody) : Prop :=
  ∃ bytes payload payloadType subj stmt,
    parseLayer c 0 d.1 d.2 = .ok (.bundleV3DSSE bytes payload payloadType subj) ∧
    c.verifyASN1 key (c.sha256 (dssePAE payloadType payload)) bytes = true ∧
    equalFold subj (hexHalf manifestDigest) = true ∧
    c.unmarshalStatement payload = .ok stmt ∧ 1 < stmt.subject.length

/-- The layers with their bodies. -/
def layerBodies (reg : Registry) : List SigLayer → Ask Request Reply (List (SigLayer × LayerBody))
  | [] => pure []
  | l :: rest => do
    let body ← fetchLayerBody c reg l
    let ds ← layerBodies reg rest
    pure ((l, body) :: ds)

/-- The fetches of `Verify`, without its judgement. -/
def signatureDocs (reg : Registry) (manifestDigest : Bytes) :
    AskE Request Reply CosignErr (List (SigLayer × LayerBody)) := do
  let layers ← sigLayers c reg manifestDigest
  ExceptT.lift (layerBodies c reg layers)

/-- What `collectSignatures` makes of the fetched layers. -/
def parseLayers : ℕ → List (SigLayer × LayerBody) → List ParsedSignature × Option LayerErr
  | _, [] => ([], none)
  | i, d :: ds =>
    match parseLayer c i d.1 d.2 with
    | .ok sig => (sig :: (parseLayers (i + 1) ds).1, (parseLayers (i + 1) ds).2)
    | .error e => ((parseLayers (i + 1) ds).1, some e)

section
variable {c}
variable {reg : Registry}

theorem runs_collectSignatures : ∀ (ls : List SigLayer) (i : ℕ)
    (tr : List (Request × Reply)) (res : List ParsedSignature × Option LayerErr),
    Runs (collectSignatures c reg i ls) tr res ↔
      ∃ ds, Runs (layerBodies c reg ls) tr ds ∧ res = parseLayers c i ds
  | [], i, tr, res => by
    simp [collectSignatures, layerBodies, parseLayers, eq_comm]
  | l :: ls, i, tr, res => by
    -- both programs ask for the body first and go on with the rest
    have hpure : ∀ body ds, (match parseLayer c i l body with
        | .ok sig => pure (sig :: (parseLayers c (i + 1) ds).1, (parseLayers c (i + 1) ds).2)
        | .error e => pure ((parseLayers c (i + 1) ds).1, some e)) =
          (pure (parseLayers c i ((l, body) :: ds)) : Ask Request Reply _) := by
      intro body ds
      rw [parseLayers]
      dsimp only
      cases parseLayer c i l body <;> rfl
    simp only [collectSignatures, layerBodies, Ask.runs_bind, runs_collectSignatures ls, Ask.runs_pure]
    constructor
    · rintro ⟨t₁, t₂, body, rfl, h₁, t₃, t₄, res', rfl, ⟨ds, hds, rfl⟩, h₃⟩
      rw [hpure] at h₃
      obtain ⟨rfl, rfl⟩ := Ask.runs_pure.mp h₃
      exact ⟨_, ⟨t₁, _, body, rfl, h₁, t₃, [], ds, rfl, hds, rfl, rfl⟩, rfl⟩
    · rintro ⟨ds', ⟨t₁, t₂, body, rfl, h₁, t₃, t₄, ds, rfl, hds, rfl, rfl⟩, rfl⟩
      refine ⟨t₁, _, body, rfl, h₁, t₃, [], _, rfl, ⟨ds, hds, rfl⟩, ?_⟩
      rw [hpure]
      exact ⟨rfl, rfl⟩

variable {l : SigLayer} {body : LayerBody} {sig : ParsedSignature}

/-- The two ways a layer gives a signature: by its annotation, or by the bundle in its body. -/
theorem parseLayer_eq_ok {i : ℕ} :
    parseLayer c i l body = .ok sig ↔
      (∃ sigB64 bytes, l.annotated = some sigB64 ∧ c.decodeString sigB64 = .ok bytes ∧
        sig = .legacy bytes) ∨
      ∃ b, l.annotated = none ∧ body = some (.ok b) ∧ parseSigstoreBundle c b = .ok sig := by
  unfold parseLayer
  split
  · rename_i sigB64 hann
    cases hd : c.decodeString sigB64 with
    | error e => simp [hann, hd]
    | ok bytes => simp [hann, hd, eq_comm]
  · simp_all
  · rename_i b hann
    simp [hann, except_mapError_eq_ok]
  · simp_all

/-- The number of a layer only matters in its error. -/
theorem parseLayer_ok_index {i j : ℕ}
    (h : parseLayer c i l body = .ok sig) : parseLayer c j l body = .ok sig := by
  rw [parseLayer_eq_ok] at h ⊢
  exact h

theorem mem_parseLayers (sig : ParsedSignature) : ∀ (ds : List (SigLayer × LayerBody)) (i : ℕ),
    sig ∈ (parseLayers c i ds).1 ↔ ∃ d ∈ ds, parseLayer c 0 d.1 d.2 = .ok sig
  | [], i => by simp [parseLayers]
  | d :: ds, i => by
    rw [parseLayers]
    have ih := mem_parseLayers sig ds (i + 1)
    cases hp : parseLayer c i d.1 d.2 with
    | error e =>
      have hno : parseLayer c 0 d.1 d.2 ≠ .ok sig := by
        intro h0
        rw [parseLayer_ok_index h0] at hp
        cases hp
      simp [ih, hno]
    | ok s =>
      have h0 : parseLayer c 0 d.1 d.2 = .ok s := parseLayer_ok_index hp
      simp [ih, h0, eq_comm]

variable {key : K} {digest hexDigest : Bytes}

theorem checkSignature_ok_index {i j : ℕ} (h : checkSignature c key digest hexDigest i sig = .ok ()) :
    checkSignature c key digest hexDigest j sig = .ok () := by
  cases sig with
  | legacy b => simp only [checkSignature] at h ⊢; split_ifs at h ⊢ with h1; rfl
  | bundleV3 b md => simp only [checkSignature] at h ⊢; split_ifs at h ⊢ with h1 h2; rfl
  | bundleV3DSSE b p ty sub => simp only [checkSignature] at h ⊢; split_ifs at h ⊢ with h1 h2; rfl

theorem judgeSignatures_ok :
    ∀ (sigs : List ParsedSignature) (i : ℕ) (lastErr : Option SigErr),
      judgeSignatures c key digest hexDigest i lastErr sigs = .ok () ↔
        ∃ sig ∈ sigs, checkSignature c key digest hexDigest 0 sig = .ok ()
  | [], i, lastErr => by simp [judgeSignatures]
  | sig :: rest, i, lastErr => by
    rw [judgeSignatures]
    cases hc : checkSignature c key digest hexDigest i sig with
    | ok u =>
      simp only [true_iff]
      exact ⟨sig, List.mem_cons_self, checkSignature_ok_index hc⟩
    | error e =>
      have hno : checkSignature c key digest hexDigest 0 sig ≠ .ok () := by
        intro h0
        rw [checkSignature_ok_index h0] at hc
        cases hc
      simp only [judgeSignatures_ok rest (i + 1) (some e), List.mem_cons, exists_eq_or_imp]
      simp [hno]

variable {ref : Ref} {manifestDigest : Bytes} {tr : List (Request × Reply)}

/-- **`Verify`** returns nil when some fetched layer parses to a signature that passes. -/
theorem yields_verify :
    Yields (verify c (some key) reg ref manifestDigest) tr () ↔
      ∃ ds, Yields (signatureDocs c reg manifestDigest) tr ds ∧
        ∃ d ∈ ds, Accepted c key ref manifestDigest d := by
  unfold verify signatureDocs
  rw [yields_bind]
  simp only [yields_bind]
  constructor
  · rintro ⟨t₁, t₂, layers, rfl, h₁, t₃, t₄, ⟨sigs, err⟩, rfl, h₂, h₃⟩
    obtain ⟨rfl, hj⟩ := yields_ofExcept.mp h₃
    obtain ⟨a, ha, hcol⟩ := runs_lift.mp h₂
    cases ha
    obtain ⟨ds, hds, heq⟩ := (runs_collectSignatures _ _ _ _).mp hcol
    obtain ⟨sig, hmem, hok⟩ := (judgeSignatures_ok _ _ _).mp hj
    have hsigs : sigs = (parseLayers c 0 ds).1 := congrArg Prod.fst heq
    rw [hsigs, mem_parseLayers] at hmem
    obtain ⟨d, hd, hp⟩ := hmem
    exact ⟨ds, ⟨t₁, t₃ ++ [], layers, rfl, h₁, runs_lift.mpr ⟨ds, rfl, by simpa using hds⟩⟩,
      d, hd, sig, hp, hok⟩
  · rintro ⟨ds, ⟨t₁, t₂, layers, rfl, h₁, h₂⟩, d, hd, sig, hp, hok⟩
    obtain ⟨a, ha, hds⟩ := runs_lift.mp h₂
    cases ha
    refine ⟨t₁, t₂, layers, rfl, h₁, t₂, [], parseLayers c 0 ds, by simp,
      runs_lift.mpr ⟨_, rfl, (runs_collectSignatures _ _ _ _).mpr ⟨ds, hds, rfl⟩⟩, ?_⟩
    exact yields_ofExcept.mpr ⟨rfl, (judgeSignatures_ok _ _ _).mpr
      ⟨sig, (mem_parseLayers _ _ _).mpr ⟨d, hd, hp⟩, hok⟩⟩

/-- Nothing is fetched for a digest that is not one. -/
theorem signatureDocs_digest {ds : List (SigLayer × LayerBody)}
    (h : Yields (signatureDocs c reg manifestDigest) tr ds) : ∃ r, parseDigest manifestDigest = .ok r := by
  unfold signatureDocs at h
  obtain ⟨t₁, t₂, layers, rfl, h₁, -⟩ := yields_bind.mp h
  unfold sigLayers at h₁
  cases hp : parseDigest manifestDigest with
  | error e => rw [hp] at h₁; exact absurd h₁ yields_throw
  | ok r => exact ⟨r, rfl⟩

/-! ### From the parsed signature back to the layer -/

theorem messageSignature_ok {ms : BundleMessageSignature}
    (h : parseSigstoreBundleMessageSignature c ms = .ok sig) :
    ∃ bytes digest, sig = .bundleV3 bytes digest ∧ c.decodeString ms.signature = .ok bytes := by
  unfold parseSigstoreBundleMessageSignature at h
  split_ifs at h with h1 h2 h3
  obtain ⟨bytes, hb, h⟩ := except_bind_eq_ok.mp h
  obtain ⟨digest, -, h⟩ := except_bind_eq_ok.mp h
  split_ifs at h with h4
  cases h
  exact ⟨bytes, digest, rfl, except_mapError_eq_ok.mp hb⟩

theorem firstSubject_ok {stmt : InTotoStatement} {subj : Bytes} (h : firstSubject stmt = .ok subj) :
    ∃ digests rest, stmt.subject = digests :: rest ∧
      digests.lookup (str "sha256") = some subj := by
  unfold firstSubject at h
  cases hs : stmt.subject with
  | nil => rw [hs] at h; cases h
  | cons digests rest =>
    rw [hs] at h
    dsimp only at h
    split_ifs at h with he
    cases hl : digests.lookup (str "sha256") with
    | none => rw [hl] at he; exact absurd rfl he
    | some v =>
      rw [hl] at h
      cases h
      exact ⟨digests, rest, rfl, hl⟩

theorem dsse_ok {env : BundleDsseEnvelope} (h : parseSigstoreBundleDSSE c env = .ok sig) :
    ∃ bytes payload subj stmt, sig = .bundleV3DSSE bytes payload env.payloadType subj ∧
      c.decodeString (env.signatures.headD []) = .ok bytes ∧
      c.decodeString env.payload = .ok payload ∧ c.unmarshalStatement payload = .ok stmt ∧
      firstSubject stmt = .ok subj := by
  unfold parseSigstoreBundleDSSE at h
  dsimp only at h
  split_ifs at h with h1 h2 h3
  obtain ⟨payload, hp, h⟩ := except_bind_eq_ok.mp h
  obtain ⟨bytes, hb, h⟩ := except_bind_eq_ok.mp h
  obtain ⟨stmt, hs, h⟩ := except_bind_eq_ok.mp h
  obtain ⟨subj, hsub, h⟩ := except_bind_eq_ok.mp h
  cases h
  exact ⟨bytes, payload, subj, stmt, rfl, except_mapError_eq_ok.mp hb, except_mapError_eq_ok.mp hp,
    except_mapError_eq_ok.mp hs, hsub⟩

/-- A parsed layer carries what was parsed, and a statement names its first subject. -/
theorem parseLayer_carries (h : parseLayer c 0 l body = .ok sig) :
    (∃ bytes, Carries c l body (.simple bytes) ∧
      (sig = .legacy bytes ∨ ∃ digest, sig = .bundleV3 bytes digest)) ∨
    (∃ bytes payload ty subj stmt, Carries c l body (.statement ty payload bytes) ∧
      sig = .bundleV3DSSE bytes payload ty subj ∧ c.unmarshalStatement payload = .ok stmt ∧
      firstSubject stmt = .ok subj) := by
  obtain ⟨sigB64, bytes, hann, hd, rfl⟩ | ⟨b, -, rfl, hp⟩ := parseLayer_eq_ok.mp h
  · exact Or.inl ⟨bytes, .annotated hann hd, Or.inl rfl⟩
  · unfold parseSigstoreBundle at hp
    split_ifs at hp with he
    cases hb : c.unmarshalBundle b with
    | error e => rw [hb] at hp; cases hp
    | ok bu =>
      rw [hb] at hp
      dsimp only at hp
      split at hp
      · rename_i ms hms
        obtain ⟨bytes, digest, rfl, hbytes⟩ := messageSignature_ok hp
        exact Or.inl ⟨bytes, .message rfl hb hms hbytes, Or.inr ⟨digest, rfl⟩⟩
      · rename_i env hms henv
        obtain ⟨bytes, payload, subj, stmt, rfl, h1, h2, h3, h4⟩ := dsse_ok hp
        exact Or.inr ⟨bytes, payload, _, subj, stmt, .dsse rfl hb henv h1 h2, rfl, h3, h4⟩
      · cases hp

/-- An accepted layer is sound, or its statement has further subjects. -/
theorem Accepted.sound_or_many {d : SigLayer × LayerBody} (hdig : ∃ r, parseDigest manifestDigest = .ok r)
    (h : Accepted c key ref manifestDigest d) :
    Sound c key ref manifestDigest d ∨ ManySubjects c key manifestDigest d := by
  obtain ⟨sig, hp, hok⟩ := h
  obtain ⟨bytes, hcar, rfl | ⟨digest, rfl⟩⟩ | ⟨bytes, payload, ty, subj, stmt, hcar, rfl, hst, hsub⟩ :=
    parseLayer_carries hp
  · refine Or.inl ⟨.simple bytes, hcar, ?_⟩
    simp only [checkSignature] at hok
    split_ifs at hok with hv
    exact hv
  · refine Or.inl ⟨.simple bytes, hcar, ?_⟩
    simp only [checkSignature] at hok
    split_ifs at hok with hm hv
    exact hv
  · simp only [checkSignature] at hok
    split_ifs at hok with hf hv
    have hfold : equalFold subj (hexHalf manifestDigest) = true := by simpa using hf
    obtain ⟨digests, rest, hsubject, hlook⟩ := firstSubject_ok hsub
    cases rest with
    | nil =>
      -- the sole subject, equal to the digest up to letter case
      obtain ⟨⟨algo, hex⟩, hpd⟩ := hdig
      obtain ⟨-, rfl, -, hhex⟩ := parseDigest_eq_ok.mp hpd
      have hhalf : hexHalf (str "sha256:" ++ hex) = hex := by
        unfold hexHalf
        rw [hpd]
        rfl
      rw [hhalf, equalFold, beq_iff_eq, fold_of_hex hex hhex] at hfold
      exact Or.inl ⟨.statement ty payload bytes, hcar, hv, stmt, digests, hst, hsubject,
        subj, hex, hlook, rfl, map_asciiLower_of_fold _ _ hhex hfold⟩
    | cons d' rest' =>
      exact Or.inr ⟨bytes, payload, ty, subj, stmt, hp, hv, hfold, hst, by rw [hsubject]; simp⟩

theorem ManySubjects.accepted {d : SigLayer × LayerBody} (h : ManySubjects c key manifestDigest d) :
    Accepted c key ref manifestDigest d := by
  obtain ⟨bytes, payload, ty, subj, stmt, hp, hv, hf, -, -⟩ := h
  refine ⟨_, hp, ?_⟩
  simp [checkSignature, hf, hv]

end

/-- **Soundness of `Verify`**, run by run: it returns nil only on a sound signature exactly when no
accepted statement with more than one subject stands alone, without a sound signature in another
layer. -/
theorem verify_sound_iff (key : K) (reg : Registry) (ref : Ref) (manifestDigest : Bytes)
    (tr : List (Request × Reply)) :
    (Yields (verify c (some key) reg ref manifestDigest) tr () →
      ∃ ds, Yields (signatureDocs c reg manifestDigest) tr ds ∧
        ∃ d ∈ ds, Sound c key ref manifestDigest d) ↔
    (∀ ds, Yields (signatureDocs c reg manifestDigest) tr ds →
      (∃ d ∈ ds, ManySubjects c key manifestDigest d) →
      ∃ d ∈ ds, Sound c key ref manifestDigest d) := by
  constructor
  · rintro h ds hds ⟨d, hd, hmany⟩
    obtain ⟨ds', hds', hsound⟩ := h (yields_verify.mpr ⟨ds, hds, d, hd, hmany.accepted⟩)
    obtain rfl : ds = ds' := Except.ok.inj (Ask.runs_det hds hds')
    exact hsound
  · intro h hv
    obtain ⟨ds, hds, d, hd, hacc⟩ := yields_verify.mp hv
    refine ⟨ds, hds, ?_⟩
    rcases hacc.sound_or_many (signatureDocs_digest hds) with hs | hm
    · exact ⟨d, hd, hs⟩
    · exact h ds hds ⟨d, hd, hm⟩

/-! ### A statement with two subjects -/

/-- The layer of the example: the bundle `B`, without annotation. -/
def twoSubjectLayer : SigLayer :=
  ⟨sigstoreBundleMediaTypeV03, digestFromBytes toyExt (str "B"), 0, []⟩

/-- An environment with a signature manifest `M` of one layer, whose bundle holds the statement `P`
about two images under the signature `S`. -/
def twoSubjectExt : CosignExt Unit where
  toExt := toyExt
  verifyASN1 _ _ bytes := bytes = str "S"
  decodeString b := .ok b
  unmarshalSigManifest b :=
    if b = str "M" then .ok ⟨2, [], [twoSubjectLayer]⟩ else .error (str "syntax")
  unmarshalBundle b :=
    if b = str "B" then .ok ⟨[], none, some ⟨str "P", str "T", [str "S"]⟩⟩ else .error (str "syntax")
  unmarshalStatement b :=
    if b = str "P" then
      .ok ⟨[], [[(str "sha256", List.replicate 64 0x30)], [(str "sha256", List.replicate 64 0x31)]]⟩
    else .error (str "syntax")

/-- The registry serves `M` and `B`. -/
def twoSubjectTrace : List (Request × Reply) :=
  let ref := toyRef (str "latest")
  [(getRequest (ref.manifestURL (str "sha256-" ++ List.replicate 64 0x30 ++ str ".sig"))
      manifestAcceptHeader [], ⟨none, 200, [], [str "M"]⟩),
    (getRequest (ref.blobURL twoSubjectLayer.digest) [] [], ⟨none, 200, [], [str "B"]⟩)]

/-- The verifier accepts a signature over a statement about two images. -/
theorem verify_sound_broken :
    ¬ ∀ (K : Type) (c : CosignExt K) (key : K) (reg : Registry) (ref : Ref) (manifestDigest : Bytes)
      (tr : List (Request × Reply)), Yields (verify c (some key) reg ref manifestDigest) tr () →
      ∃ ds, Yields (signatureDocs c reg manifestDigest) tr ds ∧
        ∃ d ∈ ds, Sound c key ref manifestDigest d := by
  intro h
  have hv : Yields (verify twoSubjectExt (some ()) ⟨toyRef (str "latest"), [], true⟩
      (toyRef (str "latest")) wrongDigest) twoSubjectTrace () := Ask.runs_iff_exec.mpr rfl
  have hdocs : Yields (signatureDocs twoSubjectExt ⟨toyRef (str "latest"), [], true⟩ wrongDigest)
      twoSubjectTrace [(twoSubjectLayer, some (.ok (str "B")))] := Ask.runs_iff_exec.mpr rfl
  obtain ⟨ds, hds, d, hd, s, hcar, hs⟩ := h Unit twoSubjectExt () _ _ _ _ hv
  obtain rfl := Except.ok.inj (Ask.runs_det hdocs hds)
  obtain rfl := List.mem_singleton.mp hd
  cases hcar with
  | annotated hann => cases hann
  | message hraw hb hms =>
    cases hraw
    cases hb
    cases hms
  | dsse hraw hb henv _ hp =>
    cases hraw
    cases hb
    cases henv
    cases hp
    obtain ⟨-, stmt, digests, hst, hone, -⟩ := hs
    cases hst
    cases hone

end TamagoUefi.Oci
