import TamagoUefi.Net.Http
import TamagoUefi.Oci.Origin

/-!
# TamagoUefi.Oci.Confine — where requests and the token go

* `stays_https_iff`: a call on an `https` registry stays on `https` exactly when the challenge it
  answers and the redirects it follows name `https` URLs; nothing in the client checks them.
* `parseURL_own`: what the URL parsers make of the registry's own URLs.
* `bearer_confined`: over any sequence of calls, a request with an `Authorization` line goes to the
  registry's own manifests and blobs, and to the host and port of the reference.
-/

namespace TamagoUefi.Oci

open Go Lib Net
open Lib.Ask (Runs)
open Lib.AskE (Yields)

/-! ## Staying on https -/

def Https (url : Bytes) : Prop := hasPrefix url (str "https://") = true

instance (url : Bytes) : Decidable (Https url) := inferInstanceAs (Decidable (_ = true))

theorem tokenURL_eq_ok {chal url : Bytes} : tokenURL chal = .ok url ↔
    ∃ params, parseBearerChallenge chal = .ok params ∧ param params (str "realm") ≠ [] ∧
      url = buildTokenURL (param params (str "realm")) (param params (str "service"))
        (param params (str "scope")) := by
  unfold tokenURL
  by_cases hempty : chal.isEmpty = true
  · rw [if_pos hempty, List.isEmpty_iff.mp hempty]
    refine ⟨fun h => (nomatch h), ?_⟩
    rintro ⟨params, h, -⟩
    cases h
  · rw [if_neg hempty]
    cases parseBearerChallenge chal with
    | error e => exact ⟨fun h => (nomatch h), fun ⟨_, h, _⟩ => (nomatch h)⟩
    | ok params =>
      dsimp only
      constructor
      · intro h
        split_ifs at h with hrealm
        exact ⟨params, rfl, fun he => hrealm (List.isEmpty_iff.mpr he), (Except.ok.inj h).symm⟩
      · rintro ⟨params', hp, hrealm, rfl⟩
        cases hp
        rw [if_neg fun he => hrealm (List.isEmpty_iff.mp he)]

/-- A token URL is the realm, or the realm and a query. -/
theorem buildTokenURL_eq (realm service scope : Bytes) :
    buildTokenURL realm service scope = realm ∨
      ∃ c rest, (c = '?'.toUInt8 ∨ c = '&'.toUInt8) ∧
        buildTokenURL realm service scope = realm ++ c :: rest := by
  unfold buildTokenURL
  by_cases hnone : service.isEmpty = true ∧ scope.isEmpty = true
  · exact Or.inl (if_pos hnone)
  · right
    rw [if_neg hnone]
    simp only [List.append_assoc]
    by_cases hq : contains realm (str "?") = true
    · rw [if_pos hq]
      exact ⟨_, _, Or.inr rfl, rfl⟩
    · rw [if_neg hq]
      exact ⟨_, _, Or.inl rfl, rfl⟩

theorem https_buildTokenURL {realm service scope : Bytes} :
    Https (buildTokenURL realm service scope) ↔ Https realm := by
  rcases buildTokenURL_eq realm service scope with h | ⟨c, rest, hc, h⟩
  · rw [h]
  · have hfree : c ∉ str "https://" := by
      rcases hc with rfl | rfl <;> decide
    rw [h]
    exact hasPrefix_append_cons hfree

/-- The answers a call follows send it to `https` URLs: the challenge to the probe of
`Authenticate` has an `https` realm; each redirect of a blob, as long as there are hops left, has
an `https` Location. -/
def Op.Upright : Op → List (Request × Reply) → Prop
  | .authenticate, tr => ∀ qr, tr[0]? = some qr → qr.2.err = none → qr.2.status = 401 →
      ∀ params, parseBearerChallenge (qr.2.header (str "www-authenticate")) = .ok params →
        param params (str "realm") ≠ [] → Https (param params (str "realm"))
  | .fetchManifestRaw _, _ => True
  | .fetchBlob _, tr | .fetchBlobStream _ _ _, tr | .fetchBlobToBuffer _ _, tr =>
    ∀ i < maxBlobRedirects, ∀ qr, tr[i]? = some qr → qr.2.err = none →
      isRedirect qr.2.status = true → qr.2.header (str "location") ≠ [] →
        Https (qr.2.header (str "location"))

theorem https_redirectTo {rep : Reply} : (∀ u, redirectTo rep = some u → Https u) ↔
    (rep.err = none → isRedirect rep.status = true → rep.header (str "location") ≠ [] →
      Https (rep.header (str "location"))) := by
  constructor
  · intro h herr hr hl
    exact h _ (if_pos ⟨herr, hr, hl⟩)
  · intro h u hu
    unfold redirectTo at hu
    split_ifs at hu with hc
    cases hu
    exact h hc.1 hc.2.1 hc.2.2

theorem https_challengeTo {rep : Reply} : (∀ u, challengeTo rep = some u → Https u) ↔
    (rep.err = none → rep.status = 401 →
      ∀ params, parseBearerChallenge (rep.header (str "www-authenticate")) = .ok params →
        param params (str "realm") ≠ [] → Https (param params (str "realm"))) := by
  constructor
  · intro h herr h401 params hp hrealm
    have hok := tokenURL_eq_ok.mpr ⟨params, hp, hrealm, rfl⟩
    have hto : challengeTo rep = some (buildTokenURL (param params (str "realm"))
        (param params (str "service")) (param params (str "scope"))) := by
      unfold challengeTo
      rw [if_pos ⟨herr, h401⟩, hok]
      rfl
    exact https_buildTokenURL.mp (h _ hto)
  · intro h u hu
    unfold challengeTo at hu
    split_ifs at hu with hc
    cases hok : tokenURL (rep.header (str "www-authenticate")) with
    | error e => rw [hok] at hu; cases hu
    | ok url =>
      rw [hok] at hu
      cases hu
      obtain ⟨params, hp, hrealm, rfl⟩ := tokenURL_eq_ok.mp hok
      exact https_buildTokenURL.mpr (h hc.1 hc.2 params hp hrealm)

/-- A call goes where upright answers say exactly when those are `https` URLs. -/
theorem Op.upright_iff (o : Op) (tr : List (Request × Reply)) : o.Upright tr ↔
    ∀ i < o.hops, ∀ qr, tr[i]? = some qr → ∀ u, o.next qr.2 = some u → Https u := by
  cases o with
  | authenticate =>
    constructor
    · intro h i hi qr hqr
      obtain rfl : i = 0 := Nat.lt_one_iff.mp hi
      exact https_challengeTo.mpr (h qr hqr)
    · intro h qr hqr
      exact https_challengeTo.mp (h 0 Nat.one_pos qr hqr)
  | fetchManifestRaw reference =>
    exact ⟨fun _ i hi => absurd hi (Nat.not_lt_zero i), fun _ => trivial⟩
  | fetchBlob _ | fetchBlobStream _ _ _ | fetchBlobToBuffer _ _ =>
    refine forall₄_congr fun i hi qr hqr => ?_
    exact https_redirectTo.symm

theorem https_first {o : Op} {reg : Registry} {q : Request} (hs : reg.ref.scheme = str "https")
    (hq : o.first reg = some q) : Https q.url := by
  have hbase : ∀ rest, Https (reg.ref.baseURL ++ rest) := by
    intro rest
    unfold Https Ref.baseURL
    rw [hs]
    simp only [List.append_assoc]
    exact hasPrefix_append (str "https://") _
  cases o with
  | authenticate | fetchManifestRaw _ | fetchBlob _ =>
    cases hq
    simp only [getRequest, Ref.manifestURL, Ref.blobURL, List.append_assoc]
    exact hbase _
  | fetchBlobStream _ _ _ | fetchBlobToBuffer _ _ =>
    obtain ⟨-, -, rfl⟩ := Option.map_eq_some_iff.mp hq
    simp only [Ref.blobURL, List.append_assoc]
    exact hbase _

/-- **No downgrade, as far as the servers allow**: every URL a call on an `https` registry hands to
the transport is an `https` URL exactly when the answers it follows are upright. -/
theorem stays_https_iff {x : Ext} {o : Op} {reg reg' : Registry} {tr : List (Request × Reply)}
    (hs : reg.ref.scheme = str "https") (h : o.Leaves x reg tr reg') :
    (∀ qr ∈ tr, Https qr.1.url) ↔ o.Upright tr := by
  have htrace := Op.leaves_trace h
  unfold Op.Trace at htrace
  rw [Op.upright_iff]
  cases hfirst : o.first reg with
  | none =>
    rw [hfirst] at htrace
    rw [show tr = [] from htrace]
    exact ⟨fun _ i _ qr hqr => by simp at hqr, fun _ qr hqr => by simp at hqr⟩
  | some q =>
    rw [hfirst] at htrace
    rw [Chain.all_urls_iff htrace]
    exact and_iff_right (https_first hs hfirst)

/-- `FetchBlob` redirected to `loc`, where nobody answers. -/
def hopTrace (loc : Bytes) : List (Request × Reply) :=
  [(getRequest ((toyRef (str "latest")).blobURL wrongDigest) [] [],
      ⟨none, 302, [(str "location", loc)], []⟩),
    (⟨loc, [], false⟩, ⟨some (str "refused"), 0, [], []⟩)]

theorem hopRun_cdn : (Op.fetchBlob ⟨[], wrongDigest, 0, none⟩).Leaves toyExt
    ⟨toyRef (str "latest"), [], true⟩ (hopTrace (str "https://cdn.io/b"))
    ⟨toyRef (str "latest"), [], true⟩ :=
  ⟨⟨.error (.transport (str "refused")), Lib.Ask.runs_iff_exec.mpr rfl⟩, rfl⟩

/-- A redirect to another `https` URL. -/
theorem stays_https_cdn : (toyRef (str "latest")).scheme = str "https" ∧
    ∀ qr ∈ hopTrace (str "https://cdn.io/b"), Https qr.1.url := by
  refine ⟨rfl, (stays_https_iff rfl hopRun_cdn).mpr fun i hi qr hqr _ _ _ => ?_⟩
  -- the first answer is the redirect; the second is the transport's error
  have hi : i = 0 ∨ i = 1 := by
    unfold maxBlobRedirects at hi
    omega
  rcases hi with rfl | rfl
  · cases hqr
    decide
  · cases hqr
    contradiction

/-- The Location is followed whatever its scheme. -/
theorem stays_https_broken :
    ¬ ∀ (x : Ext) (o : Op) (reg reg' : Registry) (tr : List (Request × Reply)),
      reg.ref.scheme = str "https" → o.Leaves x reg tr reg' → ∀ qr ∈ tr, Https qr.1.url := by
  intro h
  have hrun : (Op.fetchBlob ⟨[], wrongDigest, 0, none⟩).Leaves toyExt
      ⟨toyRef (str "latest"), [], true⟩ (hopTrace (str "http://cdn.io/b"))
      ⟨toyRef (str "latest"), [], true⟩ :=
    ⟨⟨.error (.transport (str "refused")), Lib.Ask.runs_iff_exec.mpr rfl⟩, rfl⟩
  have hlast := h _ _ _ _ _ rfl hrun _ (List.mem_cons_of_mem _ List.mem_cons_self)
  exact absurd hlast (by decide)

/-! ## The registry's own URLs -/

/-- What `ParseRef` guarantees: the scheme ends at its `://`, and the host at its slash. -/
structure Parsed (ref : Ref) : Prop where
  scheme : Ends ref.scheme (str "://")
  host : '/'.toUInt8 ∉ ref.host

theorem ends_splitScheme (s : Bytes) : Ends (splitScheme s).1 (str "://") := by
  unfold splitScheme
  cases hi : index s (str "://") with
  | none => exact ends_https
  | some i => exact ends_take_index hi

variable {ref : Ref}

theorem parseRef_parsed {s : Bytes} (h : parseRef s = .ok ref) : Parsed ref := by
  have hscheme := ends_splitScheme s
  unfold parseRef at h
  generalize splitScheme s = p at h hscheme
  obtain ⟨scheme, rest⟩ := p
  dsimp only at h hscheme
  cases hslash : indexByte rest '/'.toUInt8 with
  | none => rw [hslash] at h; cases h
  | some i =>
    rw [hslash] at h
    dsimp only at h
    split_ifs at h <;> cases h
    · exact ⟨ends_http, (indexByte_eq_some hslash).2⟩
    · exact ⟨hscheme, (indexByte_eq_some hslash).2⟩
    · exact ⟨hscheme, (indexByte_eq_some hslash).2⟩

theorem baseURL_append (ref : Ref) (rest : Bytes) : ref.baseURL ++ rest =
    ref.scheme ++ str "://" ++ (ref.host ++ '/'.toUInt8 :: (str "v2/" ++ ref.repo ++ rest)) := by
  unfold Ref.baseURL
  rw [show str "/v2/" = '/'.toUInt8 :: str "v2/" by decide]
  simp only [List.append_assoc, List.cons_append]

variable {scheme : Bytes}

/-- The registry's own URLs begin with their own scheme only. -/
theorem hasPrefix_own (hr : Parsed ref) (hscheme : Ends scheme (str "://")) (rest : Bytes) :
    hasPrefix (ref.baseURL ++ rest) (scheme ++ str "://") = true ↔ ref.scheme = scheme := by
  rw [baseURL_append]
  constructor
  · intro hpre
    -- both texts have their first `://` at the end of the scheme
    obtain ⟨t, ht⟩ := hasPrefix_iff.mp hpre
    have hlen : scheme.length = ref.scheme.length := by
      have h := hr.scheme.index_append (ref.host ++ '/'.toUInt8 :: (str "v2/" ++ ref.repo ++ rest))
      rw [← ht, hscheme.index_append t] at h
      exact Option.some.inj h
    rw [List.append_assoc, List.append_assoc] at ht
    exact (List.append_inj_left ht hlen).symm
  · rintro rfl
    exact hasPrefix_append _ _

/-- **The registry's own URLs** parse under their own scheme only, to the host and port that the
reference spells. -/
theorem parseURL_own (hr : Parsed ref) (hscheme : Ends scheme (str "://")) (defaultPort : ℕ) (e : HttpErr)
    (rest : Bytes) :
    parseURL (scheme ++ str "://") defaultPort e (ref.baseURL ++ rest) =
      if ref.scheme = scheme then
        match splitHostPort defaultPort ref.host with
        | none => .error .badURL
        | some (host, port) => .ok ⟨host, port, str "/v2/" ++ ref.repo ++ rest⟩
      else .error e := by
  split_ifs with hs
  · rw [baseURL_append, hs, parseURL_authority hr.host]
    rw [show str "/v2/" = '/'.toUInt8 :: str "v2/" by decide]
    rfl
  · refine parseURL_of_not_prefix ?_
    rw [Bool.eq_false_iff]
    exact fun hpre => hs ((hasPrefix_own hr hscheme rest).mp hpre)

/-! ## The token -/

/-- An `Authorization` header line, in any letter case. -/
def isAuthorization (l : Bytes) : Bool := hasPrefix (toLower l) (str "authorization:")

/-- A request, made after the answers `hist` of the same call, that may carry the token: it is for
the registry's own manifests or blobs; whichever parser takes its URL finds the host and port of
the reference; and it answers neither a redirect nor a challenge. -/
structure Confined (ref : Ref) (hist : List Reply) (q : Request) : Prop where
  own : ref.baseURL ++ str "/manifests/" <+: q.url ∨ ref.baseURL ++ str "/blobs/" <+: q.url
  http : ∀ u, parseHTTPURL q.url = .ok u → SpellsHost 80 ref.host u.host u.port
  https : ∀ u, parseHTTPSURL q.url = .ok u → SpellsHost 443 ref.host u.host u.port
  unsent : ∀ rep, hist.getLast? = some rep → isRedirect rep.status = false ∧ rep.status ≠ 401

theorem parseURL_own_spells (hr : Parsed ref) (hscheme : Ends scheme (str "://")) {defaultPort : ℕ}
    {e : HttpErr} {rest : Bytes} {u : ParsedHTTPURL}
    (h : parseURL (scheme ++ str "://") defaultPort e (ref.baseURL ++ rest) = .ok u) :
    SpellsHost defaultPort ref.host u.host u.port := by
  rw [parseURL_own hr hscheme] at h
  split_ifs at h
  cases hs : splitHostPort defaultPort ref.host with
  | none => rw [hs] at h; cases h
  | some hp =>
    rw [hs] at h
    cases h
    exact splitHostPort_spells hs

theorem confined_own (hr : Parsed ref) {hist : List Reply} (hs : Settled hist) {q : Request} {dir name : Bytes}
    (hdir : dir = str "/manifests/" ∨ dir = str "/blobs/")
    (hq : q.url = ref.baseURL ++ dir ++ name) : Confined ref hist q := by
  refine ⟨?_, fun u hu => ?_, fun u hu => ?_, fun rep hrep => ?_⟩
  · rw [hq]
    rcases hdir with rfl | rfl
    · exact Or.inl (List.prefix_append _ _)
    · exact Or.inr (List.prefix_append _ _)
  · rw [hq, List.append_assoc] at hu
    exact parseURL_own_spells hr ends_http hu
  · rw [hq, List.append_assoc] at hu
    exact parseURL_own_spells hr ends_https hu
  · rw [hs rep hrep]
    exact ⟨by decide, by decide⟩

/-- One call: the requests that carry an `Authorization` line are confined. -/
theorem Call.confined {x : Ext} {c : Call} {reg reg' : Registry} {tr : List (Request × Reply)}
    (hr : Parsed reg.ref) (h : c.Leaves x reg tr reg') :
    ∀ t₁ q rep t₂, tr = t₁ ++ (q, rep) :: t₂ → (∃ l ∈ q.extraHeaders, isAuthorization l = true) →
      Confined reg.ref (t₁.map Prod.snd) q := by
  intro t₁ q rep t₂ htr hauth
  cases Call.origin h t₁ q rep t₂ htr with
  | manifest hs hn hb => exact confined_own hr hs (Or.inl rfl) rfl
  | blob hs hn hb => exact confined_own hr hs (Or.inr rfl) rfl
  | followed hlast hto =>
    -- where an answer sends the client, it goes without extra lines
    obtain ⟨l, hl, -⟩ := hauth
    exact absurd hl List.not_mem_nil

theorem Session.confined {x : Ext} : ∀ {calls : List Call} {reg reg' : Registry}
    {trs : List (List (Request × Reply))}, Parsed reg.ref → Session x calls reg trs reg' →
    ∀ tr ∈ trs, ∀ t₁ q rep t₂, tr = t₁ ++ (q, rep) :: t₂ →
      (∃ l ∈ q.extraHeaders, isAuthorization l = true) → Confined reg.ref (t₁.map Prod.snd) q
  | [], _, _, _, _, ⟨htrs, _⟩, tr, htr => by
    rw [htrs] at htr
    exact absurd htr List.not_mem_nil
  | c :: cs, reg, reg', _, hr, ⟨tr₀, trs', r₁, htrs, h₀, h⟩, tr, htr => by
    have href := Call.leaves_ref h₀
    rw [htrs] at htr
    rcases List.mem_cons.mp htr with rfl | htr
    · exact Call.confined hr h₀
    · have hrest := Session.confined (href ▸ hr) h tr htr
      rwa [href] at hrest

/-- **Bearer confinement**: over any sequence of calls on a registry made from a parsed reference,
and whatever the servers answer, a request with an `Authorization` line is confined. -/
theorem bearer_confined {x : Ext} {target : Bytes} {ref : Ref} {streaming : Bool}
    {calls : List Call} {trs : List (List (Request × Reply))} {reg' : Registry}
    (hr : parseRef target = .ok ref) (h : Session x calls ⟨ref, [], streaming⟩ trs reg') :
    ∀ tr ∈ trs, ∀ t₁ q rep t₂, tr = t₁ ++ (q, rep) :: t₂ →
      (∃ l ∈ q.extraHeaders, isAuthorization l = true) → Confined ref (t₁.map Prod.snd) q :=
  Session.confined (parseRef_parsed hr) h

/-- `Authenticate` answered with a challenge, then the token endpoint answered with the token `k`. -/
def challengeTrace : List (Request × Reply) :=
  [(getRequest ((toyRef (str "latest")).manifestURL (str "latest")) manifestAcceptHeader [],
      ⟨none, 401, [(str "www-authenticate", str "Bearer realm=\"https://a.io/t\"")], []⟩),
    (⟨str "https://a.io/t", [], false⟩, ⟨none, 200, [], [str "\"token\":\"k\""]⟩)]

/-- `FetchBlob` with that token, redirected to another host. -/
def tokenTrace : List (Request × Reply) :=
  [(getRequest ((toyRef (str "latest")).blobURL wrongDigest) [] (str "k"),
      ⟨none, 302, [(str "location", str "https://cdn.io/b")], []⟩),
    (⟨str "https://cdn.io/b", [], false⟩, ⟨some (str "refused"), 0, [], []⟩)]

/-- In that session the blob request is the one that carries the token. -/
theorem bearer_confined_session :
    Confined (toyRef (str "latest")) []
      (getRequest ((toyRef (str "latest")).blobURL wrongDigest) [] (str "k")) := by
  have hsession : Session toyExt [.op .authenticate, .op (.fetchBlob ⟨[], wrongDigest, 0, none⟩)]
      ⟨toyRef (str "latest"), [], true⟩ [challengeTrace, tokenTrace]
      ⟨toyRef (str "latest"), str "k", true⟩ := by
    refine ⟨_, _, ⟨toyRef (str "latest"), str "k", true⟩, rfl, ?_, _, _, _, rfl, ?_, rfl, rfl⟩
    · exact Or.inl (Lib.Ask.runs_iff_exec.mpr rfl)
    · exact ⟨⟨.error (.transport (str "refused")), Lib.Ask.runs_iff_exec.mpr rfl⟩, rfl⟩
  refine bearer_confined parseRef_toy hsession tokenTrace (by simp) [] _ _ _ rfl ?_
  exact ⟨authorization (str "k"), by decide, by decide⟩

end TamagoUefi.Oci
