import TamagoUefi.Oci.Fetch

/-!
# TamagoUefi.Oci.Fetchers — the blob fetchers compared (`registry.go`, `fetch.go`)

`FetchBlob` buffers a body and checks digest, then size; `FetchBlobStream` and `FetchBlobToBuffer`
copy it through a hash and check size, then digest, the latter into a slice that can run out of room.

A `Transport` answers a request from its URL and headers and from those before it; `Agrees` says that
`Get` and `GetStream` give the same answers.  The comparison is made once, for any writer that is
described by `Delivers`: what it holds after a body it has room for.

* `loops_agree`: the two loops send the same requests and end alike.
* `fetchers_agree`: so do the three fetchers.
-/

namespace TamagoUefi.Oci

open Go Lib
open Lib.Ask (Runs Answered)
open Lib.AskE

/-! ## Transports -/

/-- What `Get` and `GetStream` answer to a URL with its header lines, after those before it. -/
structure Transport where
  get : List (Bytes × List Bytes) → Bytes × List Bytes → Reply
  getStream : List (Bytes × List Bytes) → Bytes × List Bytes → Reply

/-- The URL and the header lines of a request. -/
def Request.line (q : Request) : Bytes × List Bytes := (q.url, q.extraHeaders)

/-- The requests of a run, by URL and header lines. -/
def requestLines (tr : List (Request × Reply)) : List (Bytes × List Bytes) :=
  tr.map fun qr => qr.1.line

/-- Two answers with the same status, location and body, or none at all; the body may come in other
pieces. -/
structure SameAnswer (r r' : Reply) : Prop where
  err : r.err = none ↔ r'.err = none
  status : r.err = none → r.status = r'.status
  location : r.err = none → r.header (str "location") = r'.header (str "location")
  body : r.err = none → r.body = r'.body

namespace Transport

def Agrees (t : Transport) : Prop := ∀ hist line, SameAnswer (t.get hist line) (t.getStream hist line)

def answer (t : Transport) (hist : List Request) (q : Request) : Reply :=
  if q.stream then t.getStream (hist.map Request.line) q.line
  else t.get (hist.map Request.line) q.line

/-- The run of a call: its requests with their answers, and its outcome. -/
def run {α : Type} (t : Transport) (p : Net α) : List (Request × Reply) × Except OciErr α :=
  p.run.serve t.answer []

theorem run_runs {α : Type} (t : Transport) (p : Net α) :
    Runs p.run (t.run p).1 (t.run p).2 ∧ Answered t.answer [] (t.run p).1 :=
  Lib.Ask.serve_eq_iff.mp rfl

end Transport

/-! ## Writers -/

/-- From `start`, a body that fits leaves `out body` in the writer and is hashed and counted in full;
one that does not fit is an error. -/
structure Delivers {σ : Type} (w : Writer σ) (start : σ) (fits : Bytes → Prop) (out : Bytes → σ) :
    Prop where
  whole : ∀ ps : List Bytes, fits ps.flatten →
    copyChunks w ⟨start, [], 0, none⟩ ps = ⟨out ps.flatten, ps.flatten, ps.flatten.length, none⟩
  error : ∀ ps : List Bytes, ¬ fits ps.flatten → (copyChunks w ⟨start, [], 0, none⟩ ps).err ≠ none

theorem delivers_buffer (pre : Bytes) : Delivers bufferWriter pre (fun _ => True) (fun b => pre ++ b) where
  whole ps _ := by
    rw [copyChunks_buffer ps _ rfl]
    simp
  error ps h := absurd trivial h

/-- A stream that meets no error has hashed all of the body. -/
theorem copyChunks_hashed {σ : Type} {w : Writer σ} : ∀ (ps : List Bytes) (c : Copied σ),
    (copyChunks w c ps).err = none → (copyChunks w c ps).hashed = c.hashed ++ ps.flatten
  | [], c, _ => by simp [copyChunks]
  | p :: ps, c, h => by
    rw [copyChunks] at h ⊢
    cases hw : w.write c.dst p with
    | mk s rest =>
      obtain ⟨n, oe⟩ := rest
      rw [hw] at h
      cases oe with
      | some e => cases h
      | none =>
        dsimp only at h ⊢
        by_cases hn : n ≠ p.length
        · rw [if_pos hn] at h
          cases h
        · rw [if_neg hn] at h ⊢
          rw [copyChunks_hashed ps _ h, List.flatten_cons, List.append_assoc]

theorem Filling.fits {buf p : Bytes} {c : Copied (Bytes × ℕ)} (h : Filling buf c)
    (hroom : c.hashed.length + p.length ≤ buf.length) :
    ∃ s, fixedSliceWriter.write c.dst p = (s, p.length, none) := by
  obtain ⟨hle, hdst, -⟩ := h
  have hlen : (c.hashed ++ buf.drop c.hashed.length).length = buf.length := by
    simp
    omega
  rw [hdst]
  simp only [fixedSliceWriter, hlen]
  by_cases hfull : buf.length ≤ c.hashed.length
  · have hp : p = [] := List.length_eq_zero_iff.mp (by omega)
    subst hp
    rw [if_pos hfull]
    exact ⟨_, rfl⟩
  · rw [if_neg hfull, Nat.min_eq_right (by omega), if_neg (Nat.lt_irrefl _)]
    exact ⟨_, rfl⟩

theorem copyChunks_fixed_fits {buf : Bytes} : ∀ (ps : List Bytes) (c : Copied (Bytes × ℕ)),
    Filling buf c → c.err = none → c.hashed.length + ps.flatten.length ≤ buf.length →
    (copyChunks fixedSliceWriter c ps).err = none
  | [], _, _, herr, _ => herr
  | p :: ps, c, h, _, hroom => by
    rw [List.flatten_cons, List.length_append] at hroom
    obtain ⟨s, hw⟩ := h.fits (p := p) (by omega)
    obtain ⟨-, hfill⟩ := h.write hw
    rw [copyChunks, hw]
    dsimp only
    rw [if_neg (by simp)]
    refine copyChunks_fixed_fits ps _ hfill rfl ?_
    rw [List.length_append]
    omega

theorem delivers_fixed (dst : Bytes) :
    Delivers fixedSliceWriter (dst, 0) (fun b => b.length ≤ dst.length)
      (fun b => (b ++ dst.drop b.length, b.length)) := by
  have hstart : Filling dst ⟨(dst, 0), [], 0, none⟩ := ⟨by simp, by simp, rfl⟩
  constructor
  · intro ps hfit
    have herr := copyChunks_fixed_fits ps _ hstart rfl (by simpa using hfit)
    obtain ⟨-, hdst, hn⟩ := copyChunks_fixed ps _ hstart herr
    have hhash := copyChunks_hashed ps _ herr
    generalize copyChunks fixedSliceWriter ⟨(dst, 0), [], 0, none⟩ ps = c at herr hdst hn hhash
    obtain ⟨d, hashed, written, err⟩ := c
    simp only [List.nil_append] at herr hdst hn hhash ⊢
    subst hhash
    rw [hdst, hn, herr]
  · intro ps hfit herr
    obtain ⟨hle, -, -⟩ := copyChunks_fixed ps _ hstart herr
    rw [copyChunks_hashed ps _ herr, List.nil_append] at hle
    exact hfit hle

/-! ## The loops -/

variable (x : Ext)

/-- Both calls succeed, with the same content, or both fail. -/
inductive SameOutcome {α : Type} (desc : Descriptor) (out : Bytes → α) :
    Except OciErr Bytes → Except OciErr α → Prop
  | ok {b : Bytes} (h : Stored x b desc) : SameOutcome desc out (.ok b) (.ok (out b))
  | error {e e' : OciErr} : SameOutcome desc out (.error e) (.error e')

section
variable {desc : Descriptor} {σ : Type} {w : Writer σ} {start : σ} {fits : Bytes → Prop}
  {out : Bytes → σ} (hw : Delivers w start fits out)
  (hd : ∃ r, parseDigest desc.digest = .ok r)
include hw hd

/-- The end of both loops, at an answer that is no redirect. -/
theorem ends_agree {url : Bytes} {r r' : Reply} (hsame : SameAnswer r r') (herr : r.err = none)
    {t₁ : List (Request × Reply)} {y₁ : Except OciErr Bytes}
    (h₁ : Runs (if r.status ≠ 200 then throw (.registryStatus url r.status)
      else do
        AskE.ofExcept (checkBlob x desc r.body)
        pure r.body : Net Bytes).run t₁ y₁)
    {c : Copied σ} (hc : c.err = none)
    (hcopy : r'.status = 200 → c = copyChunks w ⟨start, [], 0, none⟩ r'.chunks)
    {t₂ : List (Request × Reply)} {y₂ : Except OciErr (σ × ℕ)}
    (h₂ : Runs (if r'.status ≠ 200 then throw (.registryStatus url r'.status)
      else do
        AskE.ofExcept (checkStream x desc c.written c.hashed)
        pure (c.dst, c.written) : Net (σ × ℕ)).run t₂ y₂) :
    t₁ = [] ∧ t₂ = [] ∧ SameOutcome x desc (fun b => (out b, b.length)) y₁ y₂ := by
  by_cases hs : r.status = 200
  case neg =>
    rw [if_pos hs] at h₁
    rw [if_pos (by rwa [← hsame.status herr])] at h₂
    obtain ⟨rfl, rfl⟩ := runs_run_throw.mp h₁
    obtain ⟨rfl, rfl⟩ := runs_run_throw.mp h₂
    exact ⟨rfl, rfl, .error⟩
  have hs' : r'.status = 200 := by rw [← hsame.status herr, hs]
  rw [if_neg (by simp [hs])] at h₁
  rw [if_neg (by simp [hs'])] at h₂
  -- the stream took the whole body, so both checks look at the same bytes
  have hfit : fits r'.body := by
    by_contra hno
    rw [hcopy hs'] at hc
    exact hw.error _ hno hc
  have hcopied : c = ⟨out r'.body, r'.body, r'.body.length, none⟩ :=
    (hcopy hs').trans (hw.whole _ hfit)
  subst hcopied
  rw [hsame.body herr] at h₁
  have hcheck : checkBlob x desc r'.body = .ok () ↔
      checkStream x desc r'.body.length r'.body = .ok () := by
    rw [checkBlob_eq_ok, checkStream_eq_ok x hd, and_iff_left hd]
  obtain ⟨rfl, rfl⟩ := runs_run_check.mp h₁
  obtain ⟨rfl, rfl⟩ := runs_run_check.mp h₂
  refine ⟨rfl, rfl, ?_⟩
  dsimp only
  by_cases hok : checkBlob x desc r'.body = .ok ()
  · rw [hok, hcheck.mp hok]
    exact .ok ((checkBlob_eq_ok x).mp hok).1
  · cases h : checkBlob x desc r'.body with
    | ok u => exact absurd h hok
    | error e =>
      cases h' : checkStream x desc r'.body.length r'.body with
      | ok u => exact absurd (hcheck.mpr h') hok
      | error e' => exact .error

omit hd in
/-- A body that the writer has no room for fails the checks of `FetchBlob`. -/
theorem noRoom_agree (hfits : ∀ b, Stored x b desc → fits b) {url : Bytes} {r r' : Reply}
    (hsame : SameAnswer r r') (herr : r.err = none)
    (hcopy : (copyChunks w ⟨start, [], 0, none⟩ r'.chunks).err ≠ none)
    {t₁ : List (Request × Reply)} {y₁ : Except OciErr Bytes}
    (h₁ : Runs (if r.status ≠ 200 then throw (.registryStatus url r.status)
      else do
        AskE.ofExcept (checkBlob x desc r.body)
        pure r.body : Net Bytes).run t₁ y₁) : t₁ = [] ∧ ∃ e, y₁ = .error e := by
  by_cases hs : r.status = 200
  case neg =>
    rw [if_pos hs] at h₁
    obtain ⟨rfl, rfl⟩ := runs_run_throw.mp h₁
    exact ⟨rfl, _, rfl⟩
  rw [if_neg (by simp [hs]), hsame.body herr] at h₁
  obtain ⟨rfl, rfl⟩ := runs_run_check.mp h₁
  cases h : checkBlob x desc r'.body with
  | error e => exact ⟨rfl, e, rfl⟩
  | ok u =>
    have hstored := ((checkBlob_eq_ok x).mp h).1
    have hwhole := hw.whole r'.chunks (hfits _ hstored)
    rw [hwhole] at hcopy
    exact absurd rfl hcopy

/-- **The loops agree**: the same requests, and the same outcome. -/
theorem loops_agree {t : Transport} (ht : t.Agrees) {rewind : σ → σ} (hstart : rewind start = start)
    (hfits : ∀ b, Stored x b desc → fits b) : ∀ (hops : ℕ) (url bearer : Bytes)
    (hist hist' : List Request) (s : σ) (tr tr' : List (Request × Reply))
    (y : Except OciErr Bytes) (y' : Except OciErr (σ × ℕ)),
    hist.map Request.line = hist'.map Request.line → rewind s = start →
    Runs (fetchBlobLoop x desc hops url bearer).run tr y → Answered t.answer hist tr →
    Runs (streamBlob x w rewind desc hops url bearer s).run tr' y' → Answered t.answer hist' tr' →
    requestLines tr = requestLines tr' ∧ SameOutcome x desc (fun b => (out b, b.length)) y y'
  | 0, _, _, _, _, _, _, _, _, _, _, _, h, _, h', _ => by
    obtain ⟨rfl, rfl⟩ := runs_run_throw.mp h
    obtain ⟨rfl, rfl⟩ := runs_run_throw.mp h'
    exact ⟨rfl, .error⟩
  | hops + 1, url, bearer, hist, hist', s, tr, tr', y, y', hhist, hs, h, ha, h', ha' => by
    unfold fetchBlobLoop at h
    unfold streamBlob at h'
    rw [hs] at h'
    obtain ⟨r, t₁, rfl, hget⟩ := runs_httpGet_bind h
    obtain ⟨r', t₂, rfl, hstream⟩ := runs_getStream_bind h'
    obtain ⟨hr, ha⟩ := ha
    obtain ⟨hr', ha'⟩ := ha'
    have hsame : SameAnswer r r' := by
      change r = t.get (hist.map Request.line) (url, bearerLines bearer) at hr
      change r' = t.getStream (hist'.map Request.line) (url, bearerLines bearer) at hr'
      rw [hr, hr', ← hhist]
      exact ht _ _
    rcases hget with ⟨herr, rfl, e, rfl⟩ | ⟨herr, h₁⟩
    · -- no answer to `Get`, so none to `GetStream`
      rcases hstream with ⟨-, rfl, e', rfl⟩ | ⟨c, herr', -⟩
      · exact ⟨rfl, .error⟩
      · exact absurd (hsame.err.mpr herr') herr
    rcases hstream with ⟨herr' | ⟨h3xx, hcopy⟩, rfl, e', rfl⟩ | ⟨c, -, hcerr, hc, h₂⟩
    · exact absurd (hsame.err.mp herr) herr'
    · -- the body did not fit
      have hred : ¬ isRedirect r.status = true := by
        rw [hsame.status herr]
        exact fun h => h3xx (isRedirect_3xx h)
      rw [if_neg hred] at h₁
      obtain ⟨rfl, e, rfl⟩ := noRoom_agree x hw hfits hsame herr hcopy h₁
      exact ⟨rfl, .error⟩
    dsimp only at h₁ h₂
    rw [← hsame.status herr, ← hsame.location herr] at h₂
    by_cases hred : isRedirect r.status = true
    · rw [if_pos hred] at h₁ h₂
      by_cases hloc : (r.header (str "location")).isEmpty = true
      · rw [if_pos hloc] at h₁ h₂
        obtain ⟨rfl, rfl⟩ := runs_run_throw.mp h₁
        obtain ⟨rfl, rfl⟩ := runs_run_throw.mp h₂
        exact ⟨rfl, .error⟩
      · -- nothing was written: the next hop starts as this one did
        rw [if_neg hloc] at h₁ h₂
        rw [← hsame.status herr, if_pos (isRedirect_3xx hred)] at hc
        obtain ⟨hlines, hout⟩ := loops_agree ht hstart hfits hops _ [] _ _ c.dst t₁ t₂ y y'
          (by simp [hhist, Request.line, getRequest, acceptLines]) (by rw [hc, hstart]) h₁ ha h₂ ha'
        exact ⟨congrArg (List.cons (url, bearerLines bearer)) hlines, hout⟩
    · rw [if_neg hred] at h₁ h₂
      have hcopy : r'.status = 200 → c = copyChunks w ⟨start, [], 0, none⟩ r'.chunks := by
        intro h200
        rwa [if_neg (by omega)] at hc
      rw [hsame.status herr] at h₂
      obtain ⟨rfl, rfl, hout⟩ := ends_agree x hw hd hsame herr h₁ hcerr hcopy h₂
      exact ⟨rfl, hout⟩

end

/-! ## The fetchers -/

/-- All three calls fail, or all succeed with the same content. -/
def FetchersAgree (desc : Descriptor) (pre dst : Bytes) (buffered : Except OciErr Bytes)
    (streamed sliced : Except OciErr (Bytes × ℕ)) : Prop :=
  ((∃ e, buffered = .error e) ∧ (∃ e, streamed = .error e) ∧ ∃ e, sliced = .error e) ∨
    ∃ b, buffered = .ok b ∧ streamed = .ok (pre ++ b, b.length) ∧
      sliced = .ok (b ++ dst.drop b.length, b.length) ∧
      (b.length : ℤ) = desc.size ∧ HashesTo x b desc.digest

section
variable (t : Transport) {r : Registry} {desc : Descriptor}

theorem run_fetchBlob_malformed (hd : ¬ ∃ p, parseDigest desc.digest = .ok p) :
    ∃ e, (t.run (fetchBlob x r desc)).2 = .error e := by
  have hruns := (t.run_runs (fetchBlob x r desc)).1
  cases hy : (t.run (fetchBlob x r desc)).2 with
  | error e => exact ⟨e, rfl⟩
  | ok b =>
    rw [hy] at hruns
    have hc := fetchBlobLoop_checked x _ _ _ _ _ hruns
    exact absurd ((checkBlob_eq_ok x).mp hc).2 hd

theorem run_fetchBlobStream_malformed (hd : ¬ ∃ p, parseDigest desc.digest = .ok p) (pre : Bytes) :
    ∃ e, (t.run (fetchBlobStream x bufferWriter r desc pre)).2 = .error e := by
  unfold fetchBlobStream
  cases hs : streamable r desc with
  | ok u => exact absurd (streamable_eq_ok.mp hs).1 hd
  | error e => exact ⟨e, rfl⟩

theorem run_fetchBlobToBuffer_malformed (hd : ¬ ∃ p, parseDigest desc.digest = .ok p) (dst : Bytes) :
    ∃ e, (t.run (fetchBlobToBuffer x r desc dst)).2 = .error e := by
  unfold fetchBlobToBuffer
  cases hs : bufferable r desc dst with
  | ok u => exact absurd (bufferable_eq_ok.mp hs).1 hd
  | error e => exact ⟨e, rfl⟩

variable {t} (ht : t.Agrees) (hd : ∃ p, parseDigest desc.digest = .ok p)
  (hr : r.streaming = true)
include ht hd hr

theorem fetchBlobStream_agrees (pre : Bytes) :
    requestLines (t.run (fetchBlob x r desc)).1 =
        requestLines (t.run (fetchBlobStream x bufferWriter r desc pre)).1 ∧
      SameOutcome x desc (fun b => (pre ++ b, b.length)) (t.run (fetchBlob x r desc)).2
        (t.run (fetchBlobStream x bufferWriter r desc pre)).2 := by
  have hs : fetchBlobStream x bufferWriter r desc pre = streamBlob x bufferWriter id desc
      (maxBlobRedirects + 1) (r.ref.blobURL desc.digest) r.bearer pre := by
    unfold fetchBlobStream
    rw [streamable_eq_ok.mpr ⟨hd, hr⟩]
    rfl
  rw [hs]
  obtain ⟨h₁, ha₁⟩ := t.run_runs (fetchBlob x r desc)
  obtain ⟨h₂, ha₂⟩ := t.run_runs (streamBlob x bufferWriter id desc (maxBlobRedirects + 1)
    (r.ref.blobURL desc.digest) r.bearer pre)
  exact loops_agree x (delivers_buffer pre) hd ht rfl (fun _ _ => trivial) _ _ _ [] [] pre _ _ _ _
    rfl rfl h₁ ha₁ h₂ ha₂

theorem fetchBlobToBuffer_agrees (hsize : 0 < desc.size) {dst : Bytes} (hdst : desc.size ≤ dst.length) :
    requestLines (t.run (fetchBlob x r desc)).1 =
        requestLines (t.run (fetchBlobToBuffer x r desc dst)).1 ∧
      SameOutcome x desc (fun b => (b ++ dst.drop b.length, b.length)) (t.run (fetchBlob x r desc)).2
        (t.run (fetchBlobToBuffer x r desc dst)).2 := by
  obtain ⟨h₁, ha₁⟩ := t.run_runs (fetchBlob x r desc)
  obtain ⟨h₂, ha₂⟩ := t.run_runs (fetchBlobToBuffer x r desc dst)
  have hroom : ∀ b, Stored x b desc → b.length ≤ dst.length := by
    intro b hb
    have := hb.2 hsize
    omega
  generalize t.run (fetchBlob x r desc) = run₁ at h₁ ha₁ ⊢
  generalize t.run (fetchBlobToBuffer x r desc dst) = run₂ at h₂ ha₂ ⊢
  obtain ⟨tr₁, y₁⟩ := run₁
  obtain ⟨tr₂, y₂⟩ := run₂
  unfold fetchBlobToBuffer at h₂
  rw [bufferable_eq_ok.mpr ⟨hd, by omega, hr⟩] at h₂
  generalize hstream : streamBlob x fixedSliceWriter (fun c => (c.1, 0)) desc (maxBlobRedirects + 1)
    (r.ref.blobURL desc.digest) r.bearer (dst, 0) = stream at h₂
  have hloops : ∀ tr y, Runs stream.run tr y → Answered t.answer [] tr →
      requestLines tr₁ = requestLines tr ∧
        SameOutcome x desc (fun b => ((b ++ dst.drop b.length, b.length), b.length)) y₁ y := by
    intro tr y h ha
    subst hstream
    exact loops_agree x (delivers_fixed dst) hd ht rfl hroom _ _ _ [] [] (dst, 0) _ tr _ y
      rfl rfl h₁ ha₁ h ha
  replace h₂ : Runs (stream >>= fun cn => pure (cn.1.1, cn.2) : Net (Bytes × ℕ)).run tr₂ y₂ := h₂
  rcases runs_bind.mp h₂ with ⟨e, rfl, he⟩ | ⟨t₁, t₂, ⟨⟨buf, off⟩, n⟩, rfl, h₃, h₄⟩
  · obtain ⟨hlines, hout⟩ := hloops _ _ he ha₂
    refine ⟨hlines, ?_⟩
    cases hout with
    | error => exact .error
  · obtain ⟨rfl, rfl⟩ := runs_run_pure.mp h₄
    rw [List.append_nil] at ha₂ ⊢
    obtain ⟨hlines, hout⟩ := hloops _ _ h₃ ha₂
    refine ⟨hlines, ?_⟩
    cases hout with
    | ok h => exact .ok h

end

/-- **The three fetchers agree**: against a transport whose `Get` and `GetStream` agree they succeed
in the same cases and deliver the same bytes, of the descriptor's size and digest; for a well-formed
digest they also send the same requests. -/
theorem fetchers_agree {t : Transport} (ht : t.Agrees) {r : Registry} (hr : r.streaming = true)
    {desc : Descriptor} (hsize : 0 < desc.size) (pre : Bytes) {dst : Bytes} (hdst : desc.size ≤ dst.length) :
    FetchersAgree x desc pre dst (t.run (fetchBlob x r desc)).2
        (t.run (fetchBlobStream x bufferWriter r desc pre)).2
        (t.run (fetchBlobToBuffer x r desc dst)).2 ∧
      ((∃ p, parseDigest desc.digest = .ok p) →
        requestLines (t.run (fetchBlobStream x bufferWriter r desc pre)).1 =
            requestLines (t.run (fetchBlob x r desc)).1 ∧
          requestLines (t.run (fetchBlobToBuffer x r desc dst)).1 =
            requestLines (t.run (fetchBlob x r desc)).1) := by
  by_cases hd : ∃ p, parseDigest desc.digest = .ok p
  case neg =>
    refine ⟨.inl ⟨run_fetchBlob_malformed x t hd, run_fetchBlobStream_malformed x t hd pre,
      run_fetchBlobToBuffer_malformed x t hd dst⟩, fun h => absurd h hd⟩
  obtain ⟨hlines, hout⟩ := fetchBlobStream_agrees x ht hd hr pre
  obtain ⟨hlines', hout'⟩ := fetchBlobToBuffer_agrees x ht hd hr hsize hdst
  refine ⟨?_, fun _ => ⟨hlines.symm, hlines'.symm⟩⟩
  generalize (t.run (fetchBlob x r desc)).2 = y at hout hout'
  generalize (t.run (fetchBlobStream x bufferWriter r desc pre)).2 = y₁ at hout
  generalize (t.run (fetchBlobToBuffer x r desc dst)).2 = y₂ at hout'
  cases hout with
  | error =>
    cases hout' with
    | error => exact .inl ⟨⟨_, rfl⟩, ⟨_, rfl⟩, ⟨_, rfl⟩⟩
  | ok h =>
    cases hout' with
    | ok => exact .inr ⟨_, rfl, rfl, rfl, h.2 hsize, h.1⟩

/-- A registry that sends every blob request on to a store; `GetStream` hands the stored body over
byte by byte. -/
def redirecting : Transport where
  get _ line := if line.1 = str "https://cdn" then ⟨none, 200, [], [emptyObject]⟩
    else ⟨none, 307, [(str "location", str "https://cdn")], []⟩
  getStream _ line := if line.1 = str "https://cdn" then ⟨none, 200, [], emptyObject.map ([·])⟩
    else ⟨none, 307, [(str "location", str "https://cdn")], []⟩

theorem redirecting_agrees : redirecting.Agrees := by
  intro hist line
  unfold redirecting
  dsimp only
  split_ifs
  · exact ⟨Iff.rfl, fun _ => rfl, fun _ => rfl, fun _ => by decide⟩
  · exact ⟨Iff.rfl, fun _ => rfl, fun _ => rfl, fun _ => rfl⟩

def emptyDescriptor : Descriptor := ⟨[], digestFromBytes toyExt emptyObject, 2, none⟩

/-- A blob behind a redirect, streamed after one byte and into a slice with two bytes to spare. -/
theorem fetchers_agree_redirecting :
    (redirecting.run (fetchBlob toyExt ⟨toyRef [], [], true⟩ emptyDescriptor)).2 = .ok emptyObject ∧
      FetchersAgree toyExt emptyDescriptor [0] [1, 2, 3, 4]
        (redirecting.run (fetchBlob toyExt ⟨toyRef [], [], true⟩ emptyDescriptor)).2
        (redirecting.run (fetchBlobStream toyExt bufferWriter ⟨toyRef [], [], true⟩ emptyDescriptor
          [0])).2
        (redirecting.run (fetchBlobToBuffer toyExt ⟨toyRef [], [], true⟩ emptyDescriptor
          [1, 2, 3, 4])).2 :=
  ⟨by decide +kernel,
    (fetchers_agree toyExt redirecting_agrees rfl (by decide) [0] (by decide)).1⟩

end TamagoUefi.Oci
