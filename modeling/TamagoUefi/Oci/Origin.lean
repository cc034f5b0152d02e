import TamagoUefi.Oci.Calls

/-!
# TamagoUefi.Oci.Origin — where the texts of a request come from

Every request of a call is the registry's own (`baseURL`, then `/manifests/` or `/blobs/` and the
name of a document), or goes where the answer just before it says.  `Origin` lists the cases with
the source of each text: the name is the reference, an argument, or a digest in a document served
before; the token was cached, or came with an answer before.

`Call.origin` is proved with the rules of `Meets` along `fetchArtifact`, one lemma per function.
-/

namespace TamagoUefi.Oci

open Go Lib
open Lib.Ask (Runs)
open Lib.AskE

/-- A name the client asks the registry for, and how it came to it. -/
inductive Named (x : Ext) (r : Registry) : Call → List Reply → Bytes → Prop
  | reference {c : Call} {hist : List Reply} : Named x r c hist r.ref.reference
  | manifestArg {hist : List Reply} {name : Bytes} :
      Named x r (.op (.fetchManifestRaw name)) hist name
  | blobArg {hist : List Reply} {desc : Descriptor} :
      Named x r (.op (.fetchBlob desc)) hist desc.digest
  | streamArg {hist : List Reply} {desc : Descriptor} {σ : Type} {w : Writer σ} {dst : σ} :
      Named x r (.op (.fetchBlobStream w desc dst)) hist desc.digest
  | bufferArg {hist : List Reply} {desc : Descriptor} {dst : Bytes} :
      Named x r (.op (.fetchBlobToBuffer desc dst)) hist desc.digest
  | entry {opts : FetchOptions} {hist : List Reply} {rep : Reply} {idx : Index} {d : Descriptor}
      (hrep : rep ∈ hist) (hidx : parseIndex x rep.body = .ok idx)
      (hd : pickPlatform idx opts.osName opts.arch = .ok d) :
      Named x r (.fetchArtifact opts) hist d.digest
  | part {opts : FetchOptions} {hist : List Reply} {rep : Reply} {m : Manifest} {d : Descriptor}
      (hrep : rep ∈ hist) (hm : parseManifest x rep.body = .ok m)
      (hd : d = m.config ∨ d ∈ m.layers) : Named x r (.fetchArtifact opts) hist d.digest

/-- A token the client sends, and how it came to it; the empty one is not sent. -/
inductive TokenFrom (r : Registry) (hist : List Reply) : Bytes → Prop
  | none : TokenFrom r hist []
  | cached : TokenFrom r hist r.bearer
  | answer {rep : Reply} (hrep : rep ∈ hist) : TokenFrom r hist (parseTokenBody rep.body)

/-- The last answer, if any, was a plain 200. -/
def Settled (hist : List Reply) : Prop := ∀ rep, hist.getLast? = some rep → rep.status = 200

/-- Where a request comes from, given the answers before it in the same call. -/
inductive Origin (x : Ext) (r : Registry) (c : Call) (hist : List Reply) : Request → Prop
  | manifest {name bearer : Bytes} (hs : Settled hist) (hn : Named x r c hist name)
      (hb : TokenFrom r hist bearer) :
      Origin x r c hist (getRequest (r.ref.manifestURL name) manifestAcceptHeader bearer)
  | blob {name bearer : Bytes} {stream : Bool} (hs : Settled hist) (hn : Named x r c hist name)
      (hb : TokenFrom r hist bearer) :
      Origin x r c hist ⟨r.ref.blobURL name, bearerLines bearer, stream⟩
  | followed {rep : Reply} {u : Bytes} {stream : Bool} (hlast : hist.getLast? = some rep)
      (hto : redirectTo rep = some u ∨ challengeTo rep = some u) :
      Origin x r c hist ⟨u, [], stream⟩

section
variable {x : Ext} {r reg : Registry} {c : Call} {hist : List Reply} {tr : List (Request × Reply)}

/-- A chain of requests, from the origin of its first one. -/
theorem Chain.origin {next : Reply → Option Bytes} {k : ℕ} {q : Request} (h : Chain next k q tr)
    (hnext : ∀ rep u, next rep = some u → redirectTo rep = some u ∨ challengeTo rep = some u)
    (hq : Origin x r c hist q) :
    ∀ t₁ q' rep t₂, tr = t₁ ++ (q', rep) :: t₂ → Origin x r c (hist ++ t₁.map Prod.snd) q' := by
  intro t₁ q' rep t₂ htr
  rcases h.split htr with ⟨rfl, rfl⟩ | ⟨last, hlast, hto, hextra⟩
  · simpa using hq
  · obtain ⟨url, extra, stream⟩ := q'
    obtain rfl : extra = [] := hextra
    refine .followed ?_ (hnext last url hto)
    rw [List.getLast?_append, hlast]
    rfl

/-- **The methods of a registry**: every request comes from where `Origin` says. -/
theorem Op.origin {o : Op} {r' : Registry} (h : o.Leaves x r tr r') :
    ∀ t₁ q rep t₂, tr = t₁ ++ (q, rep) :: t₂ → Origin x r (.op o) (t₁.map Prod.snd) q := by
  have hnil : Settled [] := fun rep hrep => by cases hrep
  have htrace := Op.leaves_trace h
  unfold Op.Trace at htrace
  cases hfirst : o.first r with
  | none =>
    rw [hfirst] at htrace
    intro t₁ q rep t₂ htr
    simp [show tr = [] from htrace] at htr
  | some q =>
    rw [hfirst] at htrace
    have hnext : ∀ rep u, o.next rep = some u →
        redirectTo rep = some u ∨ challengeTo rep = some u := by
      intro rep u hu
      cases o with
      | authenticate => exact Or.inr hu
      | fetchManifestRaw reference => cases hu
      | fetchBlob _ | fetchBlobStream _ _ _ | fetchBlobToBuffer _ _ => exact Or.inl hu
    have hq : Origin x r (.op o) [] q := ?_
    · exact Chain.origin htrace hnext hq
    cases o with
    | authenticate =>
      cases hfirst
      exact .manifest hnil .reference .none
    | fetchManifestRaw reference =>
      cases hfirst
      exact .manifest hnil .manifestArg .cached
    | fetchBlob desc =>
      cases hfirst
      exact .blob hnil .blobArg .cached
    | fetchBlobStream w desc dst =>
      obtain ⟨-, -, rfl⟩ := Option.map_eq_some_iff.mp hfirst
      exact .blob hnil .streamArg .cached
    | fetchBlobToBuffer desc dst =>
      obtain ⟨-, -, rfl⟩ := Option.map_eq_some_iff.mp hfirst
      exact .blob hnil .bufferArg .cached

/-! ## Along FetchArtifact -/

/-- What holds between the steps of `FetchArtifact`, `reg` being the registry authenticated. -/
structure Ready (r reg : Registry) (hist : List Reply) : Prop where
  ref : reg.ref = r.ref
  token : TokenFrom r hist reg.bearer
  settled : Settled hist

theorem TokenFrom.append {bearer : Bytes} (h : TokenFrom r hist bearer) (t : List Reply) :
    TokenFrom r (hist ++ t) bearer := by
  cases h with
  | none => exact .none
  | cached => exact .cached
  | answer hrep => exact .answer (List.mem_append_left t hrep)

/-- Requests the last of which was answered 200 keep the client ready. -/
theorem Ready.after {qr : Request × Reply} (h : Ready r reg hist) (hlast : tr.getLast? = some qr)
    (hs : qr.2.status = 200) : Ready r reg (hist ++ tr.map Prod.snd) := by
  refine ⟨h.ref, h.token.append _, fun rep hrep => ?_⟩
  rw [List.getLast?_append, List.getLast?_map, hlast] at hrep
  cases hrep
  exact hs

theorem fetchBlobLoop_last {desc : Descriptor} : ∀ (hops : ℕ) (url bearer : Bytes)
    (tr : List (Request × Reply)) (b : Bytes), Yields (fetchBlobLoop x desc hops url bearer) tr b →
      ∃ qr, tr.getLast? = some qr ∧ qr.2.status = 200
  | 0, _, _, _, _, h => absurd h yields_throw
  | hops + 1, url, bearer, tr, b, h => by
    unfold fetchBlobLoop at h
    obtain ⟨t₁, t₂, resp, rfl, h₁, h₂⟩ := yields_bind.mp h
    obtain ⟨rfl, -⟩ := yields_httpGet.mp h₁
    dsimp only at h₂
    split_ifs at h₂ with hr hl hs
    · exact absurd h₂ yields_throw
    · obtain ⟨qr, hlast, h200⟩ := fetchBlobLoop_last hops _ _ _ _ h₂
      exact ⟨qr, by rw [List.getLast?_append, hlast]; rfl, h200⟩
    · exact absurd h₂ yields_throw
    · rw [(runs_run_check.mp h₂).1]
      exact ⟨_, rfl, not_not.mp hs⟩

theorem meets_authenticate : Meets (Origin x r c) [] (authenticate r) fun hist reg => Ready r reg hist := by
  intro tr y h
  refine ⟨Chain.origin (chain_authenticate h) (fun _ _ => Or.inr)
    (.manifest (fun rep hrep => by cases hrep) .reference .none), ?_⟩
  rintro reg rfl
  obtain ⟨resp, -, href, -, ⟨h200, hb, rfl⟩ | ⟨-, url, tok, -, h200, hb, rfl⟩⟩ :=
    yields_authenticate h
  · refine ⟨href, ?_, fun rep hrep => ?_⟩
    · rw [hb]
      exact .none
    · cases hrep
      exact h200
  · refine ⟨href, ?_, fun rep hrep => ?_⟩
    · rw [hb]
      exact .answer (by simp)
    · cases hrep
      exact h200

theorem meets_fetchManifestRaw {name : Bytes} (hr : Ready r reg hist) (hn : Named x r c hist name) :
    Meets (Origin x r c) hist (fetchManifestRaw reg name) fun hist res =>
      Ready r reg hist ∧ ∃ rep ∈ hist, rep.body = res.1 := by
  intro tr y h
  constructor
  · obtain ⟨resp, rfl⟩ := asksOnce_fetchManifestRaw reg name _ _ h
    have hq : Origin x r c hist
        (getRequest (reg.ref.manifestURL name) manifestAcceptHeader reg.bearer) := by
      rw [hr.ref]
      exact .manifest hr.settled hn hr.token
    have hc : Chain (fun _ => none) 0
        (getRequest (reg.ref.manifestURL name) manifestAcceptHeader reg.bearer) [(_, resp)] :=
      .stop (Or.inl rfl)
    exact hc.origin (fun _ _ h => nomatch h) hq
  · rintro res rfl
    obtain ⟨resp, rfl, -, h200, rfl⟩ := yields_fetchManifestRaw h
    exact ⟨hr.after rfl h200, resp, by simp, rfl⟩

theorem meets_fetchBlob {desc : Descriptor} (hr : Ready r reg hist) (hn : Named x r c hist desc.digest) :
    Meets (Origin x r c) hist (fetchBlob x reg desc) fun hist _ => Ready r reg hist := by
  intro tr y h
  constructor
  · have hq : Origin x r c hist (getRequest (reg.ref.blobURL desc.digest) [] reg.bearer) := by
      rw [hr.ref]
      exact .blob hr.settled hn hr.token
    exact Chain.origin (chain_fetchBlobLoop x _ _ _ _ _ h) (fun _ _ => Or.inl) hq
  · rintro b rfl
    obtain ⟨qr, hlast, h200⟩ := fetchBlobLoop_last _ _ _ _ _ h
    exact hr.after hlast h200

variable {opts : FetchOptions}

theorem meets_resolveManifest {raw contentType : Bytes} (hr : Ready r reg hist)
    (hraw : ∃ rep ∈ hist, rep.body = raw) :
    Meets (Origin x r (.fetchArtifact opts)) hist (resolveManifest x reg opts raw contentType)
      fun hist res => Ready r reg hist ∧ ∃ rep ∈ hist, rep.body = res.manifestRaw := by
  unfold resolveManifest
  split_ifs
  · obtain ⟨rep, hrep, rfl⟩ := hraw
    refine meets_ofExcept_bind fun idx hidx => ?_
    rw [← AskE.mapErr_id_ofExcept]
    refine meets_ofExcept_bind fun picked hpicked => ?_
    refine meets_bind (meets_mapErr
      (meets_fetchManifestRaw hr (.entry hrep hidx hpicked))) ?_
    rintro t ⟨mraw, ct⟩ ⟨hr', hmraw⟩
    exact meets_ofExcept_bind fun _ _ => meets_pure ⟨hr', hmraw⟩
  · exact meets_pure ⟨hr, hraw⟩

theorem meets_fetchConfig {config : Descriptor} (hr : Ready r reg hist)
    (hn : Named x r (.fetchArtifact opts) hist config.digest) :
    Meets (Origin x r (.fetchArtifact opts)) hist (fetchConfig x reg opts config)
      fun hist _ => Ready r reg hist := by
  unfold fetchConfig
  split_ifs
  · exact meets_pure hr
  · exact meets_bind (meets_mapErr (meets_fetchBlob hr hn))
      fun t b hr' => meets_pure hr'

theorem meets_fetchLayers {rep : Reply} {m : Manifest} (hm : parseManifest x rep.body = .ok m) :
    ∀ (ls : List Descriptor) (i : ℕ) (hist : List Reply), Ready r reg hist → rep ∈ hist →
      ls ⊆ m.layers → Meets (Origin x r (.fetchArtifact opts)) hist (fetchLayers x reg opts i ls)
        fun hist _ => Ready r reg hist
  | [], _, _, hr, _, _ => meets_pure hr
  | l :: ls, i, hist, hr, hrep, hls => by
    have hrest := fun t (hr' : Ready r reg (hist ++ t)) => meets_fetchLayers hm ls (i + 1) _ hr'
      (List.mem_append_left t hrep) (List.subset_of_cons_subset hls)
    unfold fetchLayers
    split_ifs
    · refine meets_bind (meets_mapErr (meets_fetchBlob hr
        (.part hrep hm (Or.inr (hls List.mem_cons_self))))) fun t b hr' => ?_
      exact meets_bind (hrest t hr') fun _ _ hr'' => meets_pure hr''
    · have hskip := hrest []
      rw [List.append_nil] at hskip
      exact meets_bind (hskip hr) fun _ _ hr'' => meets_pure hr''

theorem meets_fetchArtifact :
    Meets (Origin x r (.fetchArtifact opts)) [] (fetchArtifact x r opts) fun _ _ => True := by
  unfold fetchArtifact
  split_ifs
  · exact meets_throw _
  refine meets_bind (meets_mapErr meets_authenticate) fun t₁ reg hr => ?_
  refine meets_bind (meets_mapErr (meets_fetchManifestRaw hr ?_)) ?_
  · rw [hr.ref]
    exact .reference
  rintro t₂ ⟨raw, contentType⟩ ⟨hr, hraw⟩
  refine meets_bind (meets_resolveManifest hr hraw) ?_
  rintro t₃ res ⟨hr, rep, hrep, hres⟩
  refine meets_ofExcept_bind fun m hm => ?_
  rw [← hres] at hm
  refine meets_bind (meets_fetchConfig hr (.part hrep hm (Or.inl rfl))) fun t₅ _ hr => ?_
  refine meets_bind (meets_fetchLayers hm m.layers 0 _ hr
    (List.mem_append_left t₅ hrep) (List.Subset.refl _)) fun t₆ _ _ => ?_
  exact meets_pure trivial

end

/-- **The origin of every request** of a call, whatever the servers answer. -/
theorem Call.origin {x : Ext} {r r' : Registry} {c : Call} {tr : List (Request × Reply)}
    (h : c.Leaves x r tr r') :
    ∀ t₁ q rep t₂, tr = t₁ ++ (q, rep) :: t₂ → Origin x r c (t₁.map Prod.snd) q := by
  cases c with
  | op o => exact Op.origin h
  | fetchArtifact opts =>
    obtain ⟨⟨y, hrun⟩, -⟩ := h
    exact (meets_fetchArtifact tr y hrun).1

end TamagoUefi.Oci
