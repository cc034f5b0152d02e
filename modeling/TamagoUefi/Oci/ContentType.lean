import TamagoUefi.Lib.TwoRuns
import TamagoUefi.Oci.Fetch

/-!
# TamagoUefi.Oci.ContentType — the Content-Type header and `FetchArtifact`

`IsIndex` goes by the Content-Type header and, failing that, by a sniff of the body, so two servers
that differ in this header alone can send `FetchArtifact` down the index route in one run and down the
manifest route in the other.  The index route then fails: a body that the sniff takes for a manifest
has no `manifests`, so no platform can be picked from it (`pickPlatform_of_not_isIndex`).

* `Retyped`: two answers that differ in Content-Type only.
* `fetchArtifact_alike`, call by call with the rules of `Lib.TwoRuns`.
* `fetchArtifact_retyped`: two runs that succeed return the same artifact.
-/

namespace TamagoUefi.Oci

open Go Lib
open Lib.AskE (Alike)

/-- Same status, body and headers other than Content-Type. -/
structure SameButType (r r' : Reply) : Prop where
  status : r.status = r'.status
  body : r.body = r'.body
  header : ∀ k, k ≠ str "content-type" → r.header k = r'.header k

/-- Two outcomes of a request that are the same but for Content-Type, unless the transport failed. -/
def Retyped (r r' : Reply) : Prop := r.err = none → r'.err = none → SameButType r r'

/-- A body decodes into the struct of `IsIndex` as it does into `Index`, for the members they
share. -/
def Ext.SharesMembers (x : Ext) : Prop :=
  ∀ raw idx, x.unmarshalIndex raw = .ok idx → x.unmarshalProbe raw = .ok ⟨idx.mediaType, idx.manifests⟩

/-! ## Requests -/

theorem httpGet_alike (url accept bearer : Bytes) :
    Alike Retyped SameButType (httpGet url accept bearer).run (httpGet url accept bearer).run := by
  unfold httpGet
  refine AskE.alike_query.bind fun r r' h => ?_
  cases he : r.err with
  | some e => exact .left
  | none =>
    cases he' : r'.err with
    | some e => exact .right
    | none => exact .ret (h he he')

theorem fetchToken_alike (url : Bytes) : Alike Retyped Eq (fetchToken url).run (fetchToken url).run := by
  unfold fetchToken
  refine (httpGet_alike _ _ _).mapErr.bind fun r r' h => ?_
  rw [h.status, h.body]
  dsimp only
  split_ifs
  · exact .left
  · exact .left
  · exact .ret rfl

theorem authenticate_alike (r : Registry) : Alike Retyped Eq (authenticate r).run (authenticate r).run := by
  unfold authenticate
  refine (httpGet_alike _ _ _).mapErr.bind fun resp resp' h => ?_
  rw [h.status, h.header (str "www-authenticate") (by decide)]
  split_ifs
  · exact .ret rfl
  · exact .left
  · refine AskE.alike_ofExcept.bind_eq fun url => ?_
    exact (fetchToken_alike url).bind_eq fun tok => .ret rfl

/-- The manifest body does not depend on the header; the content type returned with it may. -/
theorem fetchManifestRaw_alike (r : Registry) (reference : Bytes) :
    Alike Retyped (fun doc doc' => doc.1 = doc'.1) (fetchManifestRaw r reference).run
      (fetchManifestRaw r reference).run := by
  unfold fetchManifestRaw
  refine (httpGet_alike _ _ _).bind fun resp resp' h => ?_
  rw [h.status]
  split_ifs
  · exact .left
  · exact .ret h.body

/-! ## Both routes -/

section
variable (x : Ext)

theorem parseIndex_unmarshal {raw : Bytes} {idx : Index} (h : parseIndex x raw = .ok idx) :
    x.unmarshalIndex raw = .ok idx := by
  unfold parseIndex decodeBody at h
  split_ifs at h
  cases hu : x.unmarshalIndex raw with
  | error e =>
    rw [hu] at h
    cases h
  | ok idx' =>
    rw [hu] at h
    cases h
    rfl

/-- A body that is not sniffed as an index has no entry to pick. -/
theorem pickPlatform_of_not_isIndex (hx : x.SharesMembers) {raw ct : Bytes} {idx : Index}
    (hidx : parseIndex x raw = .ok idx) (hsniff : isIndex x raw ct = false) (osName arch : Bytes) :
    pickPlatform idx osName arch = .error .indexNoMatch := by
  have hprobe := hx raw idx (parseIndex_unmarshal x hidx)
  unfold isIndex at hsniff
  split_ifs at hsniff with hct
  rw [hprobe] at hsniff
  dsimp only at hsniff
  split_ifs at hsniff with hmt
  have hempty : idx.manifests = [] := by simpa using hsniff
  unfold pickPlatform
  rw [hempty]
  rfl

/-- The index route fails where the sniff would take the other one. -/
theorem resolveManifest_fails (hx : x.SharesMembers) (reg : Registry) (opts : FetchOptions)
    {raw ct ct' : Bytes} (hindex : isIndex x raw ct = true) (hsniff : isIndex x raw ct' = false) :
    ∃ e, (resolveManifest x reg opts raw ct).run = .ret (.error e) := by
  unfold resolveManifest
  rw [if_pos hindex]
  cases hidx : parseIndex x raw with
  | error e => exact ⟨_, rfl⟩
  | ok idx =>
    have hpick := pickPlatform_of_not_isIndex x hx hidx hsniff opts.osName opts.arch
    refine ⟨.indexNoMatch, ?_⟩
    change (AskE.ofExcept (pickPlatform idx opts.osName opts.arch) >>= _ : Net Resolved).run = _
    rw [hpick]
    rfl

theorem resolveManifest_alike (hx : x.SharesMembers) (reg : Registry) (opts : FetchOptions)
    (raw ct ct' : Bytes) :
    Alike Retyped Eq (resolveManifest x reg opts raw ct).run
      (resolveManifest x reg opts raw ct').run := by
  cases h : isIndex x raw ct with
  | false =>
    cases h' : isIndex x raw ct' with
    | false =>
      unfold resolveManifest
      rw [h, h']
      exact .ret rfl
    | true =>
      obtain ⟨e, he⟩ := resolveManifest_fails x hx reg opts h' h
      rw [he]
      exact .right
  | true =>
    cases h' : isIndex x raw ct' with
    | false =>
      obtain ⟨e, he⟩ := resolveManifest_fails x hx reg opts h h'
      rw [he]
      exact .left
    | true =>
      unfold resolveManifest
      rw [if_pos h, if_pos h']
      refine AskE.alike_ofExcept.mapErr.bind_eq fun idx => ?_
      refine AskE.alike_ofExcept.bind_eq fun picked => ?_
      refine (fetchManifestRaw_alike reg picked.digest).mapErr.bind fun doc doc' hdoc => ?_
      obtain ⟨mraw, t⟩ := doc
      obtain ⟨mraw', t'⟩ := doc'
      dsimp only at hdoc ⊢
      subst hdoc
      exact AskE.alike_ofExcept.mapErr.bind_eq fun _ => .ret rfl

/-! ## Blobs -/

theorem fetchBlobLoop_alike (desc : Descriptor) : ∀ (hops : ℕ) (url bearer : Bytes),
    Alike Retyped Eq (fetchBlobLoop x desc hops url bearer).run
      (fetchBlobLoop x desc hops url bearer).run
  | 0, _, _ => .left
  | hops + 1, url, bearer => by
    unfold fetchBlobLoop
    refine (httpGet_alike _ _ _).bind fun r r' h => ?_
    rw [h.status, h.body, h.header (str "location") (by decide)]
    dsimp only
    split_ifs
    · exact .left
    · exact fetchBlobLoop_alike desc hops _ _
    · exact .left
    · exact AskE.alike_ofExcept.bind_eq fun _ => .ret rfl

theorem fetchConfig_alike (reg : Registry) (opts : FetchOptions) (config : Descriptor) :
    Alike Retyped Eq (fetchConfig x reg opts config).run (fetchConfig x reg opts config).run := by
  unfold fetchConfig
  split_ifs
  · exact .ret rfl
  · exact (fetchBlobLoop_alike x config _ _ _).mapErr.bind_eq fun _ => .ret rfl

theorem fetchLayers_alike (reg : Registry) (opts : FetchOptions) : ∀ (ls : List Descriptor) (i : ℕ),
    Alike Retyped Eq (fetchLayers x reg opts i ls).run (fetchLayers x reg opts i ls).run
  | [], _ => .ret rfl
  | l :: ls, i => by
    unfold fetchLayers
    split_ifs
    · refine (fetchBlobLoop_alike x l _ _ _).mapErr.bind_eq fun b => ?_
      exact (fetchLayers_alike reg opts ls (i + 1)).bind_eq fun _ => .ret rfl
    · exact (fetchLayers_alike reg opts ls (i + 1)).bind_eq fun _ => .ret rfl

theorem fetchArtifact_alike (hx : x.SharesMembers) (reg : Registry) (opts : FetchOptions) :
    Alike Retyped Eq (fetchArtifact x reg opts).run (fetchArtifact x reg opts).run := by
  unfold fetchArtifact
  split_ifs
  · exact .left
  refine (authenticate_alike reg).mapErr.bind_eq fun reg' => ?_
  refine (fetchManifestRaw_alike reg' _).mapErr.bind fun doc doc' hdoc => ?_
  obtain ⟨raw, ct⟩ := doc
  obtain ⟨raw', ct'⟩ := doc'
  dsimp only at hdoc ⊢
  subst hdoc
  refine (resolveManifest_alike x hx reg' opts raw ct ct').bind_eq fun res => ?_
  refine AskE.alike_ofExcept.mapErr.bind_eq fun m => ?_
  refine (fetchConfig_alike x reg' opts m.config).bind_eq fun config => ?_
  exact (fetchLayers_alike x reg' opts m.layers 0).bind_eq fun layers => .ret rfl

/-- **Content-Type does not change what is fetched**: two runs of `FetchArtifact` against servers
whose answers differ in this header alone return the same artifact, if both return one. -/
theorem fetchArtifact_retyped (hx : x.SharesMembers) {s s' : List Request → Request → Reply}
    (hs : ∀ hist q, Retyped (s hist q) (s' hist q)) (reg : Registry) (opts : FetchOptions)
    {art art' : Artifact} (h : ((fetchArtifact x reg opts).run.serve s []).2 = .ok art)
    (h' : ((fetchArtifact x reg opts).run.serve s' []).2 = .ok art') : art = art' :=
  (fetchArtifact_alike x hx reg opts).serve hs [] art art' h h'

end

/-- The text of an empty JSON array, read by `indexExt` as an index with an entry for `{}`. -/
def indexText : Bytes := [0x5B, 0x5D]

def indexEntries : List Descriptor :=
  [⟨[], digestFromBytes toyExt emptyObject, 2, some ⟨str "amd64", str "linux", []⟩⟩]

def indexExt : Ext where
  sha256 := toyExt.sha256
  unmarshalIndex b := if b = indexText then .ok ⟨2, [], indexEntries⟩ else toyExt.unmarshalIndex b
  unmarshalManifest := toyExt.unmarshalManifest
  unmarshalProbe b := if b = indexText then .ok ⟨[], indexEntries⟩ else toyExt.unmarshalProbe b

theorem indexExt_sharesMembers : indexExt.SharesMembers := by
  intro raw idx h
  unfold indexExt toyExt at h ⊢
  dsimp only at h ⊢
  split_ifs at h ⊢
  · cases h
    rfl
  · cases h
    rfl

/-- A registry with that index under the tag; every answer has the given Content-Type. -/
def typedServer (ct : Bytes) (_ : List Request) (q : Request) : Reply :=
  ⟨none, 200, [(str "content-type", ct)],
    [if q.url = (toyRef (str "latest")).manifestURL (str "latest") then indexText else emptyObject]⟩

theorem typedServer_retyped (ct ct' : Bytes) (hist : List Request) (q : Request) :
    Retyped (typedServer ct hist q) (typedServer ct' hist q) := by
  refine fun _ _ => ⟨rfl, rfl, fun k hk => ?_⟩
  have hlookup : (k == str "content-type") = false := beq_false_of_ne hk
  simp [Reply.header, typedServer, hlookup]

def typedArtifact : Artifact :=
  ⟨digestFromBytes toyExt emptyObject, emptyObject, digestFromBytes toyExt emptyObject, some indexText,
    digestFromBytes toyExt indexText, ⟨0, [], ⟨[], [], 0, none⟩, []⟩, none, []⟩

theorem typedRun : ∀ ct ∈ [mediaTypeOCIIndex, str "text/plain"],
    ((fetchArtifact indexExt ⟨toyRef (str "latest"), [], true⟩ toyOptions).run.serve
      (typedServer ct) []).2 = .ok typedArtifact := by
  decide +kernel

/-- Once the header says that the first document is an index, once only its body does. -/
theorem fetchArtifact_retyped_index : ∃ art art',
    ((fetchArtifact indexExt ⟨toyRef (str "latest"), [], true⟩ toyOptions).run.serve
      (typedServer mediaTypeOCIIndex) []).2 = .ok art ∧
    ((fetchArtifact indexExt ⟨toyRef (str "latest"), [], true⟩ toyOptions).run.serve
      (typedServer (str "text/plain")) []).2 = .ok art' ∧
    art.indexRaw = some indexText ∧ art = art' :=
  have h := typedRun mediaTypeOCIIndex (by simp)
  have h' := typedRun (str "text/plain") (by simp)
  ⟨typedArtifact, typedArtifact, h, h', rfl, fetchArtifact_retyped indexExt indexExt_sharesMembers
    (typedServer_retyped _ _) _ _ h h'⟩

end TamagoUefi.Oci
