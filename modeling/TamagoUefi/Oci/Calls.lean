import TamagoUefi.Oci.Fetch

/-!
# TamagoUefi.Oci.Calls — what the calls on a registry ask for

Whatever it returns, each call asks for one URL of its own and then goes where the answers send it:
`authenticate` once, to the token endpoint of a challenge; the blob fetchers at most
`maxBlobRedirects` times, to a Location.  Nothing but the first request has extra header lines.

* `Chain next k q tr`: the requests `tr` start with `q` and follow `next` up to `k` times.
* `Op`, `Op.Leaves`: the five calls, with the registry each leaves behind; `Op.leaves_trace`.
* `Call`, `Session`: these and `FetchArtifact`, one after the other on one registry.
-/

namespace TamagoUefi.Oci

open Go Lib
open Lib.Ask (Runs)
open Lib.AskE

/-! ## Going where the answers say -/

/-- The Location a blob fetcher goes to after an answer. -/
def redirectTo (r : Reply) : Option Bytes :=
  if r.err = none ∧ isRedirect r.status = true ∧ r.header (str "location") ≠ [] then
    some (r.header (str "location"))
  else none

/-- The token endpoint `Authenticate` goes to after the answer to its probe. -/
def challengeTo (r : Reply) : Option Bytes :=
  if r.err = none ∧ r.status = 401 then
    (tokenURL (r.header (str "www-authenticate"))).toOption
  else none

/-- The requests start with `q`; each answer sends the client on as `next` says, at most `k` times,
and the later requests have no extra header lines. -/
inductive Chain (next : Reply → Option Bytes) : ℕ → Request → List (Request × Reply) → Prop
  | stop {k : ℕ} {q : Request} {r : Reply} (h : k = 0 ∨ next r = none) : Chain next k q [(q, r)]
  | follow {k : ℕ} {q : Request} {r : Reply} {u : Bytes} {tr : List (Request × Reply)}
      (h : next r = some u) (t : Chain next k ⟨u, [], q.stream⟩ tr) :
      Chain next (k + 1) q ((q, r) :: tr)

namespace Chain

variable {next : Reply → Option Bytes} {k : ℕ} {q : Request} {tr : List (Request × Reply)}

/-- **A property of URLs** holds of all requests exactly when it holds of the first one and of
wherever the answers that are followed send the client. -/
theorem all_urls_iff {P : Bytes → Prop} (h : Chain next k q tr) :
    (∀ qr ∈ tr, P qr.1.url) ↔
      P q.url ∧ ∀ i < k, ∀ qr, tr[i]? = some qr → ∀ u, next qr.2 = some u → P u := by
  induction h with
  | @stop k q r h =>
    rw [List.forall_mem_singleton]
    refine ⟨fun hq => ⟨hq, ?_⟩, And.left⟩
    intro i hi qr hqr u hu
    -- there is one answer, and it is not followed
    obtain rfl : i = 0 := by
      have := (List.getElem?_eq_some_iff.mp hqr).1
      simpa using this
    obtain rfl : (q, r) = qr := by simpa using hqr
    rcases h with rfl | h
    · exact absurd hi (Nat.lt_irrefl 0)
    · rw [h] at hu
      cases hu
  | @follow k q r u tr h t ih =>
    rw [List.forall_mem_cons, ih]
    constructor
    · rintro ⟨hq, hu, hrest⟩
      refine ⟨hq, fun i hi qr hqr v hv => ?_⟩
      cases i with
      | zero =>
        obtain rfl : (q, r) = qr := by simpa using hqr
        obtain rfl := Option.some.inj (h.symm.trans hv)
        exact hu
      | succ i => exact hrest i (by omega) qr (by simpa using hqr) v hv
    · rintro ⟨hq, hall⟩
      refine ⟨hq, hall 0 (by omega) (q, r) rfl u h, fun i hi qr hqr v hv => ?_⟩
      exact hall (i + 1) (by omega) qr (by simpa using hqr) v hv

/-- A request of a chain is its first one, or was asked for by the answer just before it. -/
theorem split {t₁ t₂ : List (Request × Reply)} {q' : Request} {r' : Reply} (h : Chain next k q tr)
    (htr : tr = t₁ ++ (q', r') :: t₂) :
    (t₁ = [] ∧ q' = q) ∨
      ∃ r, (t₁.map Prod.snd).getLast? = some r ∧ next r = some q'.url ∧ q'.extraHeaders = [] := by
  induction h generalizing t₁ with
  | stop h =>
    cases t₁ with
    | nil => exact Or.inl ⟨rfl, (Prod.mk.inj (List.cons_eq_cons.mp htr).1).1.symm⟩
    | cons a t => simp at htr
  | @follow k q r u tr h t ih =>
    cases t₁ with
    | nil => exact Or.inl ⟨rfl, (Prod.mk.inj (List.cons_eq_cons.mp htr).1).1.symm⟩
    | cons a t =>
      obtain ⟨rfl, hrest⟩ := List.cons_eq_cons.mp htr
      right
      rcases ih hrest with ⟨rfl, rfl⟩ | ⟨r₁, hlast, hnext, hextra⟩
      · exact ⟨r, rfl, h, rfl⟩
      · refine ⟨r₁, ?_, hnext, hextra⟩
        rw [List.map_cons, List.getLast?_cons, hlast]
        rfl

end Chain

/-! ## The trace of each function -/

/-- `p` asks `q` and nothing else. -/
def AsksOnce {α : Type} (q : Request) (p : Net α) : Prop :=
  ∀ tr y, Runs p.run tr y → ∃ r, tr = [(q, r)]

variable {q : Request}

theorem AsksOnce.bind {α β : Type} {p : Net α} {f : α → Net β} (hp : AsksOnce q p)
    (hf : ∀ a tr y, Runs (f a).run tr y → tr = []) : AsksOnce q (p >>= f) := by
  intro tr y h
  rcases runs_bind.mp h with ⟨e, -, he⟩ | ⟨t₁, t₂, a, rfl, h₁, h₂⟩
  · exact hp tr _ he
  · rw [hf a t₂ y h₂, List.append_nil]
    exact hp t₁ _ h₁

theorem AsksOnce.mapErr {α : Type} {p : Net α} (hp : AsksOnce q p) (f : OciErr → OciErr) :
    AsksOnce q (AskE.mapErr f p) := by
  intro tr y h
  obtain ⟨y', -, h'⟩ := runs_run_mapErr.mp h
  exact hp tr y' h'

theorem asksOnce_httpGet (url accept bearer : Bytes) :
    AsksOnce (getRequest url accept bearer) (httpGet url accept bearer) := by
  intro tr y h
  obtain ⟨r, htr, -⟩ := runs_httpGet.mp h
  exact ⟨r, htr⟩

theorem asksOnce_fetchToken (url : Bytes) : AsksOnce (getRequest url [] []) (fetchToken url) := by
  refine ((asksOnce_httpGet url [] []).mapErr _).bind fun tok tr y h => ?_
  dsimp only at h
  split_ifs at h
  · exact (runs_run_throw.mp h).1
  · exact (runs_run_throw.mp h).1
  · exact (runs_run_pure.mp h).1

theorem asksOnce_fetchManifestRaw (r : Registry) (reference : Bytes) :
    AsksOnce (getRequest (r.ref.manifestURL reference) manifestAcceptHeader r.bearer)
      (fetchManifestRaw r reference) := by
  refine (asksOnce_httpGet _ _ _).bind fun resp tr y h => ?_
  split_ifs at h
  · exact (runs_run_throw.mp h).1
  · exact (runs_run_pure.mp h).1

variable {tr : List (Request × Reply)}

theorem chain_authenticate {r : Registry} {y : Except OciErr Registry} (h : Runs (authenticate r).run tr y) :
    Chain challengeTo 1 (getRequest (r.ref.manifestURL r.ref.reference) manifestAcceptHeader [])
      tr := by
  unfold authenticate at h
  rcases runs_bind.mp h with ⟨e, -, he⟩ | ⟨t₁, t₂, resp, rfl, h₁, h₂⟩
  · obtain ⟨y', hy', he⟩ := runs_run_mapErr.mp he
    cases y' with
    | ok a => cases hy'
    | error e' =>
      obtain ⟨resp, rfl, herr⟩ := runs_httpGet_error he
      exact .stop (Or.inr (if_neg fun hc => herr hc.1))
  · obtain ⟨rfl, herr⟩ := yields_httpGet.mp (yields_mapErr.mp h₁)
    split_ifs at h₂ with h200 h401
    · obtain ⟨rfl, -⟩ := runs_run_pure.mp h₂
      exact .stop (Or.inr (if_neg fun hc => by rw [hc.2] at h200; cases h200))
    · obtain ⟨rfl, -⟩ := runs_run_throw.mp h₂
      exact .stop (Or.inr (if_neg fun hc => h401 hc.2))
    · have hto : challengeTo resp = (tokenURL (resp.header (str "www-authenticate"))).toOption :=
        if_pos ⟨herr, not_not.mp h401⟩
      rcases runs_bind.mp h₂ with ⟨e, -, he⟩ | ⟨t₃, t₄, url, rfl, h₃, h₄⟩
      · obtain ⟨rfl, hurl⟩ := runs_run_ofExcept.mp he
        exact .stop (Or.inr (by rw [hto, ← hurl]; rfl))
      · obtain ⟨rfl, hurl⟩ := yields_ofExcept.mp h₃
        obtain ⟨tok, rfl⟩ := (asksOnce_fetchToken url).bind
          (fun _ _ _ hp => (runs_run_pure.mp hp).1) _ _ h₄
        exact .follow (by rw [hto, hurl]; rfl) (.stop (Or.inl rfl))

/-- The requests of a blob loop with `hops` requests left. -/
def LoopChain : ℕ → Request → List (Request × Reply) → Prop
  | 0, _, tr => tr = []
  | k + 1, q, tr => Chain redirectTo k q tr

variable {r : Reply}

theorem LoopChain.ends {hops : ℕ} (h : redirectTo r = none) : LoopChain (hops + 1) q [(q, r)] :=
  .stop (Or.inr h)

theorem LoopChain.goes {hops : ℕ} {u : Bytes} (h : redirectTo r = some u)
    (t : LoopChain hops ⟨u, [], q.stream⟩ tr) : LoopChain (hops + 1) q ((q, r) :: tr) := by
  cases hops with
  | zero =>
    rw [show tr = [] from t]
    exact .stop (Or.inl rfl)
  | succ k => exact .follow h t

theorem redirectTo_eq_none_of_not_redirect (h : ¬ isRedirect r.status = true) : redirectTo r = none :=
  if_neg fun hc => h hc.2.1

theorem redirectTo_eq_none_of_err (h : r.err ≠ none) : redirectTo r = none :=
  if_neg fun hc => h hc.1

/-- What the blob loops do with an answer: follow a Location, or stop. -/
theorem LoopChain.answer {α : Type} {hops : ℕ} {y : Except OciErr α} {e₁ e₂ : OciErr}
    {followed checked : Net α} (herr : r.err = none)
    (hf : Runs followed.run tr y → LoopChain hops ⟨r.header (str "location"), [], q.stream⟩ tr)
    (hc : Runs checked.run tr y → tr = [])
    (h : Runs (if isRedirect r.status then if (r.header (str "location")).isEmpty then throw e₁ else followed else if r.status ≠ 200 then throw e₂ else checked : Net α).run tr y) :
    
    LoopChain (hops + 1) q ((q, r) :: tr) := by
  split_ifs at h with hr hl hs
  · rw [(runs_run_throw.mp h).1]
    exact .ends (if_neg fun hc => hc.2.2 (List.isEmpty_iff.mp hl))
  · exact .goes (if_pos ⟨herr, hr, mt List.isEmpty_iff.mpr hl⟩) (hf h)
  · rw [(runs_run_throw.mp h).1]
    exact .ends (redirectTo_eq_none_of_not_redirect hr)
  · rw [hc h]
    exact .ends (redirectTo_eq_none_of_not_redirect hr)

section
variable (x : Ext) {desc : Descriptor}

theorem chain_fetchBlobLoop : ∀ (hops : ℕ) (url bearer : Bytes) (tr : List (Request × Reply))
    (y : Except OciErr Bytes), Runs (fetchBlobLoop x desc hops url bearer).run tr y →
      LoopChain hops (getRequest url [] bearer) tr
  | 0, _, _, _, _, h => (runs_run_throw.mp h).1
  | hops + 1, url, bearer, tr, y, h => by
    unfold fetchBlobLoop at h
    obtain ⟨resp, t, rfl, ⟨herr, rfl, -⟩ | ⟨herr, h⟩⟩ := runs_httpGet_bind h
    · exact .ends (redirectTo_eq_none_of_err herr)
    · exact .answer herr (chain_fetchBlobLoop hops _ [] t y) (fun hc => (runs_run_check.mp hc).1) h

theorem chain_streamBlob {σ : Type} {w : Writer σ} {rewind : σ → σ} : ∀ (hops : ℕ)
    (url bearer : Bytes) (dst : σ) (tr : List (Request × Reply)) (y : Except OciErr (σ × ℕ)),
    Runs (streamBlob x w rewind desc hops url bearer dst).run tr y →
      LoopChain hops ⟨url, bearerLines bearer, true⟩ tr
  | 0, _, _, _, _, _, h => (runs_run_throw.mp h).1
  | hops + 1, url, bearer, dst, tr, y, h => by
    unfold streamBlob at h
    obtain ⟨resp, t, rfl, ⟨herr | ⟨h3xx, -⟩, rfl, -⟩ | ⟨c, herr, -, -, h⟩⟩ := runs_getStream_bind h
    · exact .ends (redirectTo_eq_none_of_err herr)
    · exact .ends (redirectTo_eq_none_of_not_redirect fun hr => h3xx (isRedirect_3xx hr))
    · exact .answer herr (chain_streamBlob hops _ [] _ t y) (fun hc => (runs_run_check.mp hc).1) h

end

/-! ## Calls on a registry -/

/-- The methods of a registry that send requests. -/
inductive Op : Type 1
  | authenticate
  | fetchManifestRaw (reference : Bytes)
  | fetchBlob (desc : Descriptor)
  | fetchBlobStream {σ : Type} (w : Writer σ) (desc : Descriptor) (dst : σ)
  | fetchBlobToBuffer (desc : Descriptor) (dst : Bytes)

namespace Op

variable (x : Ext)

/-- Made on `r`, the call has the requests and answers `tr` and leaves `r'`: only a successful
`Authenticate` changes the registry. -/
def Leaves : Op → Registry → List (Request × Reply) → Registry → Prop
  | authenticate, r, tr, r' =>
    Yields (Oci.authenticate r) tr r' ∨
      ∃ e, Runs (Oci.authenticate r).run tr (.error e) ∧ r' = r
  | fetchManifestRaw reference, r, tr, r' =>
    (∃ y, Runs (Oci.fetchManifestRaw r reference).run tr y) ∧ r' = r
  | fetchBlob desc, r, tr, r' => (∃ y, Runs (Oci.fetchBlob x r desc).run tr y) ∧ r' = r
  | fetchBlobStream w desc dst, r, tr, r' =>
    (∃ y, Runs (Oci.fetchBlobStream x w r desc dst).run tr y) ∧ r' = r
  | fetchBlobToBuffer desc dst, r, tr, r' =>
    (∃ y, Runs (Oci.fetchBlobToBuffer x r desc dst).run tr y) ∧ r' = r

/-- The first request of the call, if its guards let it come to one. -/
def first (r : Registry) : Op → Option Request
  | authenticate =>
    some (getRequest (r.ref.manifestURL r.ref.reference) manifestAcceptHeader [])
  | fetchManifestRaw reference =>
    some (getRequest (r.ref.manifestURL reference) manifestAcceptHeader r.bearer)
  | fetchBlob desc => some (getRequest (r.ref.blobURL desc.digest) [] r.bearer)
  | fetchBlobStream _ desc _ =>
    (streamable r desc).toOption.map fun _ => ⟨r.ref.blobURL desc.digest, bearerLines r.bearer, true⟩
  | fetchBlobToBuffer desc dst =>
    (bufferable r desc dst).toOption.map fun _ =>
      ⟨r.ref.blobURL desc.digest, bearerLines r.bearer, true⟩

/-- Where an answer sends the call. -/
def next : Op → Reply → Option Bytes
  | authenticate => challengeTo
  | fetchManifestRaw _ => fun _ => none
  | fetchBlob _ | fetchBlobStream _ _ _ | fetchBlobToBuffer _ _ => redirectTo

/-- How often it goes on. -/
def hops : Op → ℕ
  | authenticate => 1
  | fetchManifestRaw _ => 0
  | fetchBlob _ | fetchBlobStream _ _ _ | fetchBlobToBuffer _ _ => maxBlobRedirects

/-- The requests of a call. -/
def Trace (o : Op) (r : Registry) (tr : List (Request × Reply)) : Prop :=
  match o.first r with
  | none => tr = []
  | some q => Chain o.next o.hops q tr

variable {x} {o : Op} {r r' : Registry} {tr : List (Request × Reply)}

theorem trace_guarded {α : Type} {g : Except OciErr Unit} {p : Net α} {y : Except OciErr α}
    (hp : ∀ tr y, Runs p.run tr y → Chain redirectTo maxBlobRedirects q tr)
    (h : Runs (AskE.ofExcept g >>= fun _ => p).run tr y) :
    match g.toOption.map fun _ => q with
    | none => tr = []
    | some q => Chain redirectTo maxBlobRedirects q tr := by
  rcases runs_bind.mp h with ⟨e, -, he⟩ | ⟨t₁, t₂, a, rfl, h₁, h₂⟩
  · obtain ⟨rfl, hg⟩ := runs_run_ofExcept.mp he
    rw [← hg]
    rfl
  · obtain ⟨rfl, rfl⟩ := yields_ofExcept.mp h₁
    exact hp _ _ h₂

/-- **What a call asks for**, whatever the answers and whatever it returns. -/
theorem leaves_trace (h : o.Leaves x r tr r') : o.Trace r tr := by
  cases o with
  | authenticate =>
    rcases h with h | ⟨e, h, -⟩
    · exact chain_authenticate h
    · exact chain_authenticate h
  | fetchManifestRaw reference =>
    obtain ⟨⟨y, h⟩, -⟩ := h
    obtain ⟨resp, rfl⟩ := asksOnce_fetchManifestRaw r reference _ _ h
    exact .stop (Or.inl rfl)
  | fetchBlob desc =>
    obtain ⟨⟨y, h⟩, -⟩ := h
    exact chain_fetchBlobLoop x _ _ _ _ _ h
  | fetchBlobStream w desc dst =>
    obtain ⟨⟨y, h⟩, -⟩ := h
    exact trace_guarded (fun _ _ hs => chain_streamBlob x (maxBlobRedirects + 1) _ _ _ _ _ hs) h
  | fetchBlobToBuffer desc dst =>
    obtain ⟨⟨y, h⟩, -⟩ := h
    refine trace_guarded (fun tr y hs => ?_) h
    rcases runs_bind.mp hs with ⟨e, -, he⟩ | ⟨t₁, t₂, ⟨c, n⟩, rfl, h₁, h₂⟩
    · exact chain_streamBlob x (maxBlobRedirects + 1) _ _ _ _ _ he
    · rw [(runs_run_pure.mp h₂).1, List.append_nil]
      exact chain_streamBlob x (maxBlobRedirects + 1) _ _ _ _ _ h₁

theorem leaves_ref (h : o.Leaves x r tr r') : r'.ref = r.ref := by
  cases o with
  | authenticate =>
    rcases h with h | ⟨e, -, rfl⟩
    · obtain ⟨-, -, href, -⟩ := yields_authenticate h
      exact href
    · rfl
  | _ => rw [h.2]

end Op

/-- A call on a registry: one of its methods, or `FetchArtifact` with it. -/
inductive Call : Type 1
  | op (o : Op)
  | fetchArtifact (opts : FetchOptions)

/-- As `Op.Leaves`.  `FetchArtifact` keeps the token its `Authenticate` got, however it ends. -/
def Call.Leaves (x : Ext) : Call → Registry → List (Request × Reply) → Registry → Prop
  | .op o, r, tr, r' => o.Leaves x r tr r'
  | .fetchArtifact opts, r, tr, r' =>
    (∃ y, Runs (Oci.fetchArtifact x r opts).run tr y) ∧
      ((∃ t₁ t₂, tr = t₁ ++ t₂ ∧ Yields (authenticate r) t₁ r') ∨
        (r' = r ∧ ∀ t₁ t₂ r₁, tr = t₁ ++ t₂ → ¬ Yields (authenticate r) t₁ r₁))

theorem Call.leaves_ref {x : Ext} {c : Call} {r r' : Registry} (h : c.Leaves x r tr r') : r'.ref = r.ref := by
  cases c with
  | op o => exact Op.leaves_ref h
  | fetchArtifact opts =>
    rcases h.2 with ⟨t₁, t₂, -, hauth⟩ | ⟨rfl, -⟩
    · obtain ⟨-, -, href, -⟩ := yields_authenticate hauth
      exact href
    · rfl

/-- Calls one after the other, with the requests and answers of each. -/
def Session (x : Ext) : List Call → Registry → List (List (Request × Reply)) → Registry → Prop
  | [], r, trs, r' => trs = [] ∧ r' = r
  | c :: cs, r, trs, r' =>
    ∃ tr trs' r₁, trs = tr :: trs' ∧ c.Leaves x r tr r₁ ∧ Session x cs r₁ trs' r'

end TamagoUefi.Oci
