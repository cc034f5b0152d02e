import TamagoUefi.Oci.Blob

/-!
# TamagoUefi.Oci.Fetch — `FetchArtifact` and its chain of trust

`fetchArtifact` verifies the picked manifest against the index, and every blob against its
descriptor, but never the first document against the reference.  So for a reference by digest the
chain of trust of an artifact (`ChainOfTrust`) holds exactly when the registry happened to serve
the right bytes for the reference (`fetchArtifact_chain`).

The first document is the answer to the first request after authentication; `firstDocAt` finds its
place in a run from the answer to the probe.
-/

namespace TamagoUefi.Oci

open Go Lib
open Lib.Ask (Runs)
open Lib.AskE

/-! ## The model -/

structure Artifact where
  reference : Bytes
  manifestRaw : Bytes
  manifestDigest : Bytes
  /-- `none` when the registry returned an image manifest directly. -/
  indexRaw : Option Bytes
  indexDigest : Bytes
  manifest : Manifest
  /-- `none` when skipped. -/
  configBlob : Option Bytes
  /-- One entry per layer, `none` when filtered out. -/
  layerBlobs : List (Option Bytes)
  deriving DecidableEq

structure FetchOptions where
  os : Bytes
  arch : Bytes
  layerFilter : Option (Descriptor → Bool)
  skipConfig : Bool

namespace FetchOptions

def osName (opts : FetchOptions) : Bytes := if opts.os.isEmpty then str "linux" else opts.os

/-- Does the filter ask for this layer? -/
def wants (opts : FetchOptions) (layer : Descriptor) : Bool :=
  match opts.layerFilter with
  | none => true
  | some f => f layer

end FetchOptions

variable (x : Ext)

/-- What the index hop of `FetchArtifact` leaves: the index if there was one, and the manifest. -/
structure Resolved where
  reference : Bytes
  indexRaw : Option Bytes
  indexDigest : Bytes
  manifestRaw : Bytes

/-- From the first document to the image manifest. -/
def resolveManifest (reg : Registry) (opts : FetchOptions) (raw contentType : Bytes) :
    Net Resolved :=
  if isIndex x raw contentType then do
    let idx ← AskE.mapErr (.wrap (str "parse index: ")) (AskE.ofExcept (parseIndex x raw))
    let picked ← AskE.ofExcept (pickPlatform idx opts.osName opts.arch)
    let (mraw, _) ← AskE.mapErr (.wrap (str "fetch picked " ++ picked.digest ++ str ": "))
      (fetchManifestRaw reg picked.digest)
    AskE.mapErr (.wrap (str "verify picked manifest: "))
      (AskE.ofExcept (verifyDigest x picked.digest mraw))
    pure ⟨picked.digest, some raw, digestFromBytes x raw, mraw⟩
  else pure ⟨reg.ref.reference, none, [], raw⟩

/-- The layer loop from layer `i` on. -/
def fetchLayers (reg : Registry) (opts : FetchOptions) :
    ℕ → List Descriptor → Net (List (Option Bytes))
  | _, [] => pure []
  | i, layer :: rest =>
    if opts.wants layer then do
      let b ← AskE.mapErr
        (.wrap (str "fetch layer[" ++ formatUint i ++ str "] " ++ layer.digest ++ str ": "))
        (fetchBlob x reg layer)
      let bs ← fetchLayers reg opts (i + 1) rest
      pure (some b :: bs)
    else do
      let bs ← fetchLayers reg opts (i + 1) rest
      pure (none :: bs)

def fetchConfig (reg : Registry) (opts : FetchOptions) (config : Descriptor) :
    Net (Option Bytes) :=
  if opts.skipConfig then pure none
  else do
    let b ← AskE.mapErr (.wrap (str "fetch config " ++ config.digest ++ str ": "))
      (fetchBlob x reg config)
    pure (some b)

def fetchArtifact (reg : Registry) (opts : FetchOptions) : Net Artifact :=
  if opts.arch.isEmpty then throw .archMissing
  else do
    let reg ← AskE.mapErr (.wrap (str "authenticate: ")) (authenticate reg)
    let (raw, contentType) ←
      AskE.mapErr (.wrap (str "fetch " ++ reg.ref.reference ++ str ": "))
        (fetchManifestRaw reg reg.ref.reference)
    let res ← resolveManifest x reg opts raw contentType
    let m ← AskE.mapErr (.wrap (str "parse manifest: "))
      (AskE.ofExcept (parseManifest x res.manifestRaw))
    let config ← fetchConfig x reg opts m.config
    let layers ← fetchLayers x reg opts 0 m.layers
    pure ⟨res.reference, res.manifestRaw, digestFromBytes x res.manifestRaw, res.indexRaw,
      res.indexDigest, m, config, layers⟩

/-! ## The chain of trust -/

/-- Every document of the artifact is named by the digest above it, the first by the reference. -/
structure ChainOfTrust (ref : Ref) (opts : FetchOptions) (art : Artifact) : Prop where
  first : HashesTo x (art.indexRaw.getD art.manifestRaw) ref.reference
  picked : ∀ raw, art.indexRaw = some raw → ∃ idx d, parseIndex x raw = .ok idx ∧
    pickPlatform idx opts.osName opts.arch = .ok d ∧ HashesTo x art.manifestRaw d.digest
  manifest : parseManifest x art.manifestRaw = .ok art.manifest
  config : ∀ b, art.configBlob = some b → Stored x b art.manifest.config
  layers : ∀ (i : ℕ) b, art.layerBlobs[i]? = some (some b) →
    ∃ d, art.manifest.layers[i]? = some d ∧ Stored x b d

/-- The position in a run of the request for the first document: the one after the probe, or after
the token request when the probe was answered with a challenge. -/
def firstDocAt (tr : List (Request × Reply)) : ℕ :=
  match tr with
  | [] => 0
  | (_, r) :: _ => if r.status = 200 then 1 else 2

/-- The body served at a position of a run. -/
def servedBody (tr : List (Request × Reply)) (i : ℕ) : Bytes :=
  match tr[i]? with
  | none => []
  | some (_, r) => r.body

/-- The answer after a successful `Authenticate` is the one `firstDocAt` points to. -/
theorem firstDocAt_append {r r' : Registry} {t₁ : List (Request × Reply)} (h : Yields (authenticate r) t₁ r')
    (t₂ : List (Request × Reply)) : firstDocAt (t₁ ++ t₂) = t₁.length := by
  obtain ⟨r0, -, -, -, ⟨hs, -, rfl⟩ | ⟨hs, url, tok, -, -, -, rfl⟩⟩ := yields_authenticate h
  · simp [firstDocAt, hs]
  · simp [firstDocAt, hs]

theorem servedBody_firstDoc {r r' : Registry} {t₁ t₂ : List (Request × Reply)} {q : Request}
    {resp : Reply} (h : Yields (authenticate r) t₁ r') :
    servedBody (t₁ ++ (q, resp) :: t₂) (firstDocAt (t₁ ++ (q, resp) :: t₂)) = resp.body := by
  simp [firstDocAt_append h, servedBody]

variable {reg : Registry} {opts : FetchOptions}

theorem fetchLayers_stored :
    ∀ (ls : List Descriptor) (i : ℕ) (tr : List (Request × Reply)) (bs : List (Option Bytes)),
      Yields (fetchLayers x reg opts i ls) tr bs →
      ∀ (j : ℕ) b, bs[j]? = some (some b) → ∃ d, ls[j]? = some d ∧ Stored x b d
  | [], _, _, _, h, j, b, hb => by
    obtain ⟨-, rfl⟩ := yields_pure.mp h
    simp at hb
  | l :: ls, i, tr, bs, h, j, b, hb => by
    unfold fetchLayers at h
    split_ifs at h with hw
    · obtain ⟨t₁, t₂, b₀, rfl, h₁, h₂⟩ := yields_bind.mp h
      obtain ⟨t₃, t₄, bs', rfl, h₃, h₄⟩ := yields_bind.mp h₂
      obtain ⟨-, rfl⟩ := yields_pure.mp h₄
      cases j with
      | zero =>
        simp only [List.getElem?_cons_zero, Option.some.injEq] at hb
        subst hb
        exact ⟨l, rfl, fetchBlob_stored x (yields_mapErr.mp h₁)⟩
      | succ j => exact fetchLayers_stored ls _ _ bs' h₃ j b (by simpa using hb)
    · obtain ⟨t₁, t₂, bs', rfl, h₁, h₂⟩ := yields_bind.mp h
      obtain ⟨-, rfl⟩ := yields_pure.mp h₂
      cases j with
      | zero => simp at hb
      | succ j => exact fetchLayers_stored ls _ _ bs' h₁ j b (by simpa using hb)

theorem fetchConfig_stored {config : Descriptor} {tr : List (Request × Reply)} {ob : Option Bytes}
    (h : Yields (fetchConfig x reg opts config) tr ob) : ∀ b, ob = some b → Stored x b config := by
  rintro b rfl
  unfold fetchConfig at h
  split_ifs at h with hs
  · obtain ⟨-, h⟩ := yields_pure.mp h
    cases h
  · obtain ⟨t₁, t₂, b', rfl, h₁, h₂⟩ := yields_bind.mp h
    obtain ⟨-, h₂⟩ := yields_pure.mp h₂
    cases h₂
    exact fetchBlob_stored x (yields_mapErr.mp h₁)

/-- The index hop keeps the first document, and a picked manifest has the digest of its entry. -/
theorem resolveManifest_spec {raw ct : Bytes} {tr : List (Request × Reply)} {res : Resolved}
    (h : Yields (resolveManifest x reg opts raw ct) tr res) :
    res.indexRaw.getD res.manifestRaw = raw ∧
    ∀ raw', res.indexRaw = some raw' → ∃ idx d, parseIndex x raw' = .ok idx ∧
      pickPlatform idx opts.osName opts.arch = .ok d ∧ HashesTo x res.manifestRaw d.digest := by
  unfold resolveManifest at h
  split_ifs at h with hi
  · obtain ⟨t₁, t₂, idx, rfl, h₁, h₂⟩ := yields_bind.mp h
    obtain ⟨t₃, t₄, d, rfl, h₃, h₄⟩ := yields_bind.mp h₂
    obtain ⟨t₅, t₆, mraw, rfl, h₅, h₆⟩ := yields_bind.mp h₄
    obtain ⟨t₇, t₈, u, rfl, h₇, h₈⟩ := yields_bind.mp h₆
    obtain ⟨-, rfl⟩ := yields_pure.mp h₈
    obtain ⟨-, hidx⟩ := yields_ofExcept.mp (yields_mapErr.mp h₁)
    obtain ⟨-, hd⟩ := yields_ofExcept.mp h₃
    obtain ⟨-, hv⟩ := yields_ofExcept.mp (yields_mapErr.mp h₇)
    refine ⟨rfl, ?_⟩
    rintro raw' hraw
    cases hraw
    exact ⟨idx, d, hidx, hd, ((verifyDigest_eq_ok x).mp hv).1⟩
  · obtain ⟨-, rfl⟩ := yields_pure.mp h
    exact ⟨rfl, fun raw' h' => by cases h'⟩

/-- **Chain of trust of `FetchArtifact`**: of every returned artifact, everything below the first
document is verified; the first document itself is whatever the registry served, so the chain
reaches the reference exactly when that body has the reference as its digest. -/
theorem fetchArtifact_chain {reg : Registry} {opts : FetchOptions} {tr : List (Request × Reply)}
    {art : Artifact} (h : Yields (fetchArtifact x reg opts) tr art) :
    ChainOfTrust x reg.ref opts art ↔
      HashesTo x (servedBody tr (firstDocAt tr)) reg.ref.reference := by
  unfold fetchArtifact at h
  split_ifs at h with harch
  · exact absurd h yields_throw
  obtain ⟨t₁, t₂, reg', rfl, h₁, h₂⟩ := yields_bind.mp h
  have hauth := yields_mapErr.mp h₁
  obtain ⟨t₃, t₄, doc, rfl, h₃, h₄⟩ := yields_bind.mp h₂
  obtain ⟨resp, rfl, -, -, rfl⟩ := yields_fetchManifestRaw (yields_mapErr.mp h₃)
  obtain ⟨t₅, t₆, res, rfl, h₅, h₆⟩ := yields_bind.mp h₄
  obtain ⟨t₇, t₈, m, rfl, h₇, h₈⟩ := yields_bind.mp h₆
  obtain ⟨t₉, t₁₀, config, rfl, h₉, h₁₀⟩ := yields_bind.mp h₈
  obtain ⟨t₁₁, t₁₂, layers, rfl, h₁₁, h₁₂⟩ := yields_bind.mp h₁₀
  obtain ⟨-, rfl⟩ := yields_pure.mp h₁₂
  obtain ⟨-, hm⟩ := yields_ofExcept.mp (yields_mapErr.mp h₇)
  obtain ⟨hfirst, hpicked⟩ := resolveManifest_spec x h₅
  rw [List.singleton_append, servedBody_firstDoc hauth]
  constructor
  · intro hc
    have := hc.first
    rwa [hfirst] at this
  · intro hh
    exact ⟨by rw [hfirst]; exact hh, hpicked, hm, fetchConfig_stored x h₉,
      fetchLayers_stored x _ _ _ _ h₁₁⟩

/-! ### A concrete run -/

/-- The text of an empty JSON object. -/
def emptyObject : Bytes := [0x7B, 0x7D]

/-- A toy environment: the hash of a text is its length, and the one document the decoder knows is
`{}`, which decodes to zero values. -/
def toyExt : Ext where
  sha256 b := UInt8.ofNat b.length :: List.replicate 31 0
  unmarshalIndex b := if b = emptyObject then .ok ⟨0, [], []⟩ else .error (str "syntax")
  unmarshalManifest b :=
    if b = emptyObject then .ok ⟨0, [], ⟨[], [], 0, none⟩, []⟩ else .error (str "syntax")
  unmarshalProbe b := if b = emptyObject then .ok ⟨[], []⟩ else .error (str "syntax")

def toyRef (reference : Bytes) : Ref := ⟨str "https", str "r.io", str "a", reference⟩

theorem parseRef_toy : parseRef (str "r.io/a") = .ok (toyRef (str "latest")) := by
  decide +kernel

def toyOptions : FetchOptions := ⟨[], str "amd64", none, true⟩

/-- The registry answers every request with `{}`. -/
def toyReply : Reply := ⟨none, 200, [], [emptyObject]⟩

/-- The run of `FetchArtifact` for `reference` against that registry. -/
def toyTrace (reference : Bytes) : List (Request × Reply) :=
  [(getRequest ((toyRef reference).manifestURL reference) manifestAcceptHeader [], toyReply),
    (getRequest ((toyRef reference).manifestURL reference) manifestAcceptHeader [], toyReply)]

def toyArtifact (reference : Bytes) : Artifact :=
  ⟨reference, emptyObject, digestFromBytes toyExt (emptyObject), none, [], ⟨0, [], ⟨[], [], 0, none⟩, []⟩,
    none, []⟩

theorem toyRun (reference : Bytes) :
    Yields (fetchArtifact toyExt ⟨toyRef reference, [], true⟩ toyOptions) (toyTrace reference)
      (toyArtifact reference) :=
  Lib.Ask.runs_iff_exec.mpr rfl

/-- Texts of up to 32 bytes, all with different hashes. -/
def padded (b : Bytes) : Bytes := (b ++ List.replicate 32 0).take 32

def textDescriptor (text : Bytes) (platform : Option Platform) : Descriptor :=
  ⟨[], str "sha256:" ++ hexEncode (padded text), text.length, platform⟩

def linkedManifest : Manifest :=
  ⟨2, mediaTypeOCIManifest, textDescriptor (str "config") none, [textDescriptor (str "layer") none]⟩

/-- An environment that reads one index and the manifest it lists. -/
def linkedExt : Ext where
  sha256 := padded
  unmarshalIndex b :=
    if b = str "index" then
      .ok ⟨2, mediaTypeOCIIndex, [textDescriptor (str "manifest") (some ⟨str "amd64", str "linux", []⟩)]⟩
    else .error (str "syntax")
  unmarshalManifest b := if b = str "manifest" then .ok linkedManifest else .error (str "syntax")
  unmarshalProbe b := if b = str "index" then .ok ⟨mediaTypeOCIIndex, []⟩ else .error (str "syntax")

def linkedRef : Ref := toyRef (digestFromBytes linkedExt (str "index"))

/-- The registry serves the four texts under their digests. -/
def linkedTrace : List (Request × Reply) :=
  let get (url accept text : Bytes) := (getRequest url accept [], (⟨none, 200, [], [text]⟩ : Reply))
  [get (linkedRef.manifestURL linkedRef.reference) manifestAcceptHeader (str "index"),
    get (linkedRef.manifestURL linkedRef.reference) manifestAcceptHeader (str "index"),
    get (linkedRef.manifestURL (digestFromBytes linkedExt (str "manifest"))) manifestAcceptHeader (str "manifest"),
    get (linkedRef.blobURL linkedManifest.config.digest) [] (str "config"),
    get (linkedRef.blobURL (digestFromBytes linkedExt (str "layer"))) [] (str "layer")]

def linkedArtifact : Artifact where
  reference := digestFromBytes linkedExt (str "manifest")
  manifestRaw := str "manifest"
  manifestDigest := digestFromBytes linkedExt (str "manifest")
  indexRaw := some (str "index")
  indexDigest := linkedRef.reference
  manifest := linkedManifest
  configBlob := some (str "config")
  layerBlobs := [some (str "layer")]

theorem linkedRun : Yields (fetchArtifact linkedExt ⟨linkedRef, [], true⟩ ⟨[], str "amd64", none, false⟩)
    linkedTrace linkedArtifact :=
  Lib.Ask.runs_iff_exec.mpr (by decide +kernel)

/-- Index, manifest, config and layer: the chain with all its links. -/
theorem fetchArtifact_chain_linked :
    ChainOfTrust linkedExt linkedRef ⟨[], str "amd64", none, false⟩ linkedArtifact :=
  (fetchArtifact_chain linkedExt linkedRun).mpr ⟨hexEncode (padded (str "index")), rfl, by decide +kernel⟩

/-- A reference by digest that the served document does not have. -/
def wrongDigest : Bytes := str "sha256:" ++ List.replicate 64 0x30

/-- The first document is not checked: an artifact comes back for a reference by digest although
the registry served something else. -/
theorem fetchArtifact_chain_broken :
    ¬ ∀ (x : Ext) (reg : Registry) (opts : FetchOptions) (tr : List (Request × Reply))
      (art : Artifact), (∃ r, parseDigest reg.ref.reference = .ok r) →
      Yields (fetchArtifact x reg opts) tr art → ChainOfTrust x reg.ref opts art := by
  intro h
  have hc := h toyExt ⟨toyRef wrongDigest, [], true⟩ toyOptions _ _ ⟨_, rfl⟩ (toyRun wrongDigest)
  obtain ⟨hex, hd, hh⟩ := hc.first
  rw [← List.append_cancel_left (show str "sha256:" ++ _ = str "sha256:" ++ hex from hd)] at hh
  exact absurd hh (by decide)

end TamagoUefi.Oci
