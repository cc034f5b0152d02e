import TamagoUefi.Oci.Confine

/-!
# TamagoUefi.Oci.Inject — texts of the servers in the bytes of a request

The client puts a digest, a Location, a token URL or a token into a request as the server sent it.
`requests_intact_iff`: the requests of a call all read back as the one request that was meant
exactly when each text they use is harmless where it stands.

* `Text`, `Text.Harmless`: the texts, and which bytes break the place they stand in.
* `Uses`: the texts of a request and their source, as in `Origin`.
-/

namespace TamagoUefi.Oci

open Go Lib Net
open Lib.Ask (Runs)
open Lib.AskE (Yields)

/-! ## What is sent for a request -/

/-- The parser `stackTransport` hands a URL to. -/
def transportURL (url : Bytes) : Except HttpErr ParsedHTTPURL :=
  if hasPrefix url (str "http://") then parseHTTPURL url else parseHTTPSURL url

/-- If it comes to sending the request, the bytes read back as it was meant. -/
def SentIntact (q : Request) : Prop := ∀ u, transportURL q.url = .ok u → Intact u q.extraHeaders

/-- Host and port the registry's own requests go to, if its reference allows any. -/
def ownAddress (ref : Ref) : Option (Bytes × ℕ) :=
  if ref.scheme = str "http" then splitHostPort 80 ref.host
  else if ref.scheme = str "https" then splitHostPort 443 ref.host
  else none

variable {ref : Ref}

theorem transportURL_own (hr : Parsed ref) {rest : Bytes} {u : ParsedHTTPURL} :
    transportURL (ref.baseURL ++ rest) = .ok u ↔
      ∃ a, ownAddress ref = some a ∧ u = ⟨a.1, a.2, str "/v2/" ++ ref.repo ++ rest⟩ := by
  have hplain : hasPrefix (ref.baseURL ++ rest) (str "http://") = true ↔
      ref.scheme = str "http" := hasPrefix_own hr ends_http rest
  unfold transportURL ownAddress
  by_cases hs : ref.scheme = str "http"
  · have h := parseURL_own hr ends_http 80 .schemeNotHTTP rest
    rw [if_pos hs] at h
    rw [if_pos (hplain.mpr hs), if_pos hs, show parseHTTPURL (ref.baseURL ++ rest) = _ from h]
    cases splitHostPort 80 ref.host with
    | none => simp
    | some a => simp [eq_comm]
  · have h := parseURL_own hr ends_https 443 .schemeNotHTTPS rest
    rw [if_neg fun hp => hs (hplain.mp hp), if_neg hs,
      show parseHTTPSURL (ref.baseURL ++ rest) = _ from h]
    by_cases hs' : ref.scheme = str "https"
    · rw [if_pos hs', if_pos hs']
      cases splitHostPort 443 ref.host with
      | none => simp
      | some a => simp [eq_comm]
    · rw [if_neg hs', if_neg hs']
      simp

/-! ## The texts -/

/-- A URL whose bytes do not break the request for it: no space, CR or LF in its path, no CR or LF
in its host. -/
def CleanURL (url : Bytes) : Prop :=
  ∀ u, transportURL url = .ok u → Plain u.path ∧ Clean u.host

/-- What the client puts into its requests. -/
inductive Text
  /-- Host and repository of the reference. -/
  | own
  /-- A reference or digest, at the end of a URL of the registry. -/
  | name (d : Bytes)
  /-- A token, in the `Authorization` line. -/
  | token (t : Bytes)
  /-- A Location, or the token URL of a challenge. -/
  | url (u : Bytes)

/-- The text does not break the request it stands in, if that can be sent at all. -/
def Text.Harmless (ref : Ref) : Text → Prop
  | own => ∀ a, ownAddress ref = some a → Clean a.1 ∧ Plain ref.repo
  | name d => ∀ a, ownAddress ref = some a → Plain d
  | token t => ∀ a, ownAddress ref = some a → Clean t
  | url u => CleanURL u

/-- The texts of a request made after the answers `hist`, and where they come from. -/
inductive Uses (x : Ext) (r : Registry) (c : Call) (hist : List Reply) : Request → Text → Prop
  | manifest {name bearer : Bytes} {t : Text} (hn : Named x r c hist name)
      (hb : TokenFrom r hist bearer) (ht : t = .own ∨ t = .name name ∨ t = .token bearer) :
      Uses x r c hist (getRequest (r.ref.manifestURL name) manifestAcceptHeader bearer) t
  | blob {name bearer : Bytes} {stream : Bool} {t : Text} (hn : Named x r c hist name)
      (hb : TokenFrom r hist bearer) (ht : t = .own ∨ t = .name name ∨ t = .token bearer) :
      Uses x r c hist ⟨r.ref.blobURL name, bearerLines bearer, stream⟩ t
  | followed {rep : Reply} {u : Bytes} {stream : Bool} (hlast : hist.getLast? = some rep)
      (hto : redirectTo rep = some u ∨ challengeTo rep = some u) :
      Uses x r c hist ⟨u, [], stream⟩ (.url u)

theorem plain_append {a b : Bytes} : Plain (a ++ b) ↔ Plain a ∧ Plain b := by
  unfold Plain
  rw [clean_append, List.mem_append, not_or]
  tauto

variable {bearer : Bytes}

/-- The lines of a request are header lines, and clean when the token is. -/
theorem bearerLines_clean :
    (∀ l ∈ bearerLines bearer, Clean l ∧ (fieldLine l).isSome = true) ↔ Clean bearer := by
  unfold bearerLines
  split_ifs with h
  · rw [List.isEmpty_iff.mp h]
    exact ⟨fun _ => by decide, fun _ l hl => absurd hl List.not_mem_nil⟩
  · rw [List.forall_mem_singleton]
    unfold authorization
    rw [clean_append]
    exact ⟨fun hl => hl.1.2, fun hb => ⟨⟨by decide, hb⟩, rfl⟩⟩

variable {name : Bytes}

/-- **A request of the registry's own** is sent as meant exactly when its three texts are
harmless. -/
theorem sentIntact_own (hr : Parsed ref) {q : Request} (dir : Bytes) (hdir : Plain dir)
    (hurl : q.url = ref.baseURL ++ dir ++ name)
    (hlines : (∀ l ∈ q.extraHeaders, Clean l ∧ (fieldLine l).isSome = true) ↔ Clean bearer) :
    SentIntact q ↔ Text.Harmless ref .own ∧ Text.Harmless ref (.name name) ∧
      Text.Harmless ref (.token bearer) := by
  have hv2 : Plain (str "/v2/") := by decide
  have hone : ∀ a : Bytes × ℕ,
      Intact ⟨a.1, a.2, str "/v2/" ++ ref.repo ++ (dir ++ name)⟩ q.extraHeaders ↔
        (Clean a.1 ∧ Plain ref.repo) ∧ Plain name ∧ Clean bearer := by
    intro a
    rw [intact_iff, hlines, plain_append, plain_append, plain_append]
    tauto
  unfold SentIntact
  rw [hurl, List.append_assoc]
  constructor
  · intro h
    have hall := fun a ha => (hone a).mp (h _ ((transportURL_own hr).mpr ⟨a, ha, rfl⟩))
    exact ⟨fun a ha => (hall a ha).1, fun a ha => (hall a ha).2.1, fun a ha => (hall a ha).2.2⟩
  · rintro ⟨hown, hname, htoken⟩ u hu
    obtain ⟨a, ha, rfl⟩ := (transportURL_own hr).mp hu
    exact (hone a).mpr ⟨hown a ha, hname a ha, htoken a ha⟩

theorem sentIntact_manifest (hr : Parsed ref) :
    SentIntact (getRequest (ref.manifestURL name) manifestAcceptHeader bearer) ↔
      Text.Harmless ref .own ∧ Text.Harmless ref (.name name) ∧
        Text.Harmless ref (.token bearer) := by
  refine sentIntact_own hr (str "/manifests/") (by decide) rfl ?_
  have haccept : ∀ l ∈ acceptLines manifestAcceptHeader, Clean l ∧ (fieldLine l).isSome = true := by
    decide +kernel
  rw [← bearerLines_clean]
  exact ⟨fun h l hl => h l (List.mem_append_right _ hl),
    fun h l hl => (List.mem_append.mp hl).elim (haccept l) (h l)⟩

theorem sentIntact_blob (hr : Parsed ref) {stream : Bool} :
    SentIntact ⟨ref.blobURL name, bearerLines bearer, stream⟩ ↔
      Text.Harmless ref .own ∧ Text.Harmless ref (.name name) ∧
        Text.Harmless ref (.token bearer) :=
  sentIntact_own hr (str "/blobs/") (by decide) rfl bearerLines_clean

theorem sentIntact_followed {u : Bytes} {stream : Bool} :
    SentIntact ⟨u, [], stream⟩ ↔ Text.Harmless ref (.url u) := by
  refine forall₂_congr fun v hv => ?_
  rw [intact_iff]
  exact ⟨fun h => ⟨h.1, h.2.1⟩, fun h => ⟨h.1, h.2, fun l hl => absurd hl List.not_mem_nil⟩⟩

/-- **No injection, as far as the servers allow**: the requests of a call are all sent as meant
exactly when every text they use is harmless. -/
theorem requests_intact_iff {x : Ext} {target : Bytes} {c : Call} {reg reg' : Registry}
    {tr : List (Request × Reply)} (hr : parseRef target = .ok reg.ref) (h : c.Leaves x reg tr reg') :
    (∀ qr ∈ tr, SentIntact qr.1) ↔
      ∀ t₁ q rep t₂, tr = t₁ ++ (q, rep) :: t₂ →
        ∀ t, Uses x reg c (t₁.map Prod.snd) q t → t.Harmless reg.ref := by
  have hp := parseRef_parsed hr
  constructor
  · intro hall t₁ q rep t₂ htr t hu
    have hq : SentIntact q := hall (q, rep) (by rw [htr]; simp)
    cases hu with
    | manifest hn hb ht =>
      obtain ⟨hown, hname, htoken⟩ := (sentIntact_manifest hp).mp hq
      rcases ht with rfl | rfl | rfl <;> assumption
    | blob hn hb ht =>
      obtain ⟨hown, hname, htoken⟩ := (sentIntact_blob hp).mp hq
      rcases ht with rfl | rfl | rfl <;> assumption
    | followed hlast hto => exact sentIntact_followed.mp hq
  · rintro hall ⟨q, rep⟩ hmem
    obtain ⟨t₁, t₂, htr⟩ := List.append_of_mem hmem
    have huse := hall t₁ q rep t₂ htr
    cases Call.origin h t₁ q rep t₂ htr with
    | manifest hs hn hb =>
      exact (sentIntact_manifest hp).mpr ⟨huse _ (.manifest hn hb (Or.inl rfl)),
        huse _ (.manifest hn hb (Or.inr (Or.inl rfl))),
        huse _ (.manifest hn hb (Or.inr (Or.inr rfl)))⟩
    | blob hs hn hb =>
      exact (sentIntact_blob hp).mpr ⟨huse _ (.blob hn hb (Or.inl rfl)),
        huse _ (.blob hn hb (Or.inr (Or.inl rfl))), huse _ (.blob hn hb (Or.inr (Or.inr rfl)))⟩
    | followed hlast hto => exact sentIntact_followed.mpr (huse _ (.followed hlast hto))

/-! ### A concrete run -/

/-- A toy environment whose one document is a manifest with the config digest `d`. -/
def configExt (d : Bytes) : Ext :=
  { toyExt with unmarshalManifest := fun _ => .ok ⟨0, [], ⟨[], d, 0, none⟩, []⟩ }

def latestRegistry : Registry := ⟨toyRef (str "latest"), [], true⟩

def latestRequest : Request :=
  getRequest ((toyRef (str "latest")).manifestURL (str "latest")) manifestAcceptHeader []

def configRequest (d : Bytes) : Request :=
  ⟨(toyRef (str "latest")).blobURL d, bearerLines [], false⟩

def refused : Reply := ⟨some (str "refused"), 0, [], []⟩

/-- `FetchArtifact` gets that manifest and asks for its config; nobody answers. -/
def configTrace (d : Bytes) : List (Request × Reply) :=
  [(latestRequest, toyReply), (latestRequest, toyReply), (configRequest d, refused)]

theorem configRun (d : Bytes) : (Call.fetchArtifact ⟨[], str "amd64", none, false⟩).Leaves
    (configExt d) latestRegistry (configTrace d) latestRegistry := by
  have hauth : Yields (authenticate latestRegistry) [(latestRequest, toyReply)] latestRegistry :=
    Lib.Ask.runs_iff_exec.mpr rfl
  have hrun : Runs (fetchArtifact (configExt d) latestRegistry ⟨[], str "amd64", none, false⟩).run
      (configTrace d) (.error (.wrap (str "fetch config " ++ d ++ str ": ")
        (.transport (str "refused")))) :=
    Lib.Ask.runs_iff_exec.mpr rfl
  exact ⟨⟨_, hrun⟩, Or.inl ⟨[(latestRequest, toyReply)],
    [(latestRequest, toyReply), (configRequest d, refused)], rfl, hauth⟩⟩

/-- With a plain digest all three requests are sent as meant, and the digest is harmless. -/
theorem requests_intact_config :
    (∀ qr ∈ configTrace wrongDigest, SentIntact qr.1) ∧
      Text.Harmless latestRegistry.ref (.name wrongDigest) := by
  have hr : parseRef (str "r.io/a") = .ok latestRegistry.ref := parseRef_toy
  have hp := parseRef_parsed hr
  have hown : Text.Harmless latestRegistry.ref .own := by
    intro a ha
    cases ha
    decide
  have hall : ∀ qr ∈ configTrace wrongDigest, SentIntact qr.1 := by
    intro qr hqr
    simp only [configTrace, List.mem_cons, List.not_mem_nil, or_false] at hqr
    have hclean : Text.Harmless latestRegistry.ref (.token []) := fun _ _ => by decide
    have hmanifest := (sentIntact_manifest hp).mpr
      ⟨hown, show Text.Harmless _ (.name (str "latest")) from fun _ _ => by decide, hclean⟩
    rcases hqr with rfl | rfl | rfl
    · exact hmanifest
    · exact hmanifest
    · exact (sentIntact_blob hp).mpr ⟨hown, fun _ _ => by decide, hclean⟩
  have hiff := requests_intact_iff hr (configRun wrongDigest)
  have hsplit : configTrace wrongDigest = [(latestRequest, toyReply), (latestRequest, toyReply)] ++
      (configRequest wrongDigest, refused) :: [] := rfl
  refine ⟨hall, hiff.mp hall _ _ _ _ hsplit _ ?_⟩
  -- the digest is the config digest of the manifest served before
  have hm : parseManifest (configExt wrongDigest) toyReply.body =
      .ok ⟨0, [], ⟨[], wrongDigest, 0, none⟩, []⟩ := rfl
  exact .blob (.part (by simp) hm (Or.inl rfl)) .none (Or.inr (Or.inl rfl))

/-- A digest that ends the request line and adds a header line. -/
def injectingDigest : Bytes := str "x HTTP/1.1\r\nX-Injected: 1\r\nY:"

example : (RequestHead.parse (buildHTTPRequest ⟨str "r", 80, str "/" ++ injectingDigest⟩ [])).map
    (·.fields.take 2) = some [(str "X-Injected", str "1"), (str "Y", str "HTTP/1.1")] := by
  decide +kernel

/-- `FetchBlob` puts the digest into its URL before looking at it. -/
theorem requests_intact_broken :
    ¬ ∀ (x : Ext) (target : Bytes) (c : Call) (reg reg' : Registry) (tr : List (Request × Reply)),
      parseRef target = .ok reg.ref → c.Leaves x reg tr reg' → ∀ qr ∈ tr, SentIntact qr.1 := by
  intro h
  have hr : parseRef (str "r.io/a") = .ok latestRegistry.ref := parseRef_toy
  have hq : SentIntact (configRequest injectingDigest) := h _ _ _ _ _ _ hr
    (configRun injectingDigest) _ (List.mem_cons_of_mem _ (List.mem_cons_of_mem _ List.mem_cons_self))
  obtain ⟨-, hname, -⟩ := (sentIntact_blob (parseRef_parsed hr)).mp hq
  exact absurd (hname (str "r.io", 443) rfl) (by decide)

end TamagoUefi.Oci
