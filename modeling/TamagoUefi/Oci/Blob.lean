import TamagoUefi.Oci.Registry

/-!
# TamagoUefi.Oci.Blob — the blob fetchers (`registry.go`, `fetch.go`)

* `fetchBlob`: buffered GETs, `Transport.Get`.
* `fetchBlobStream`, `fetchBlobToBuffer`: `StreamTransport.GetStream` into a writer, teed through
  the hash; both are `streamBlob` at their own writer.
* `fetchBlob_stored`, `fetchBlobStream_stored`, `fetchBlobToBuffer_stored`: each returns only
  content for its descriptor, whatever the servers answer.
-/

namespace TamagoUefi.Oci

open Go Lib
open Lib.Ask (Runs)
open Lib.AskE

/-! ## Blobs -/

def maxBlobRedirects : ℕ := 2

def isRedirect (status : ℤ) : Bool :=
  status = 301 ∨ status = 302 ∨ status = 303 ∨ status = 307 ∨ status = 308

variable (x : Ext)

/-- The checks of a buffered blob body: digest, then size. -/
def checkBlob (desc : Descriptor) (body : Bytes) : Except OciErr Unit :=
  match verifyDigest x desc.digest body with
  | .error e => .error e
  | .ok () =>
    if 0 < desc.size ∧ (body.length : ℤ) ≠ desc.size then
      .error (.blobSizeMismatch body.length desc.size)
    else .ok ()

/-- The loop of `FetchBlob` with `hops` requests left. -/
def fetchBlobLoop (desc : Descriptor) : ℕ → Bytes → Bytes → Net Bytes
  | 0, _, _ => throw (.tooManyRedirects desc.digest)
  | hops + 1, url, bearer => do
    let resp ← httpGet url [] bearer
    if isRedirect resp.status then
      let loc := resp.header (str "location")
      if loc.isEmpty then throw (.registryStatus url resp.status)
      -- the bearer is dropped on the next hop
      else fetchBlobLoop desc hops loc []
    else if resp.status ≠ 200 then throw (.registryStatus url resp.status)
    else do
      AskE.ofExcept (checkBlob x desc resp.body)
      pure resp.body

def fetchBlob (r : Registry) (desc : Descriptor) : Net Bytes :=
  fetchBlobLoop x desc (maxBlobRedirects + 1) (r.ref.blobURL desc.digest) r.bearer

/-- `b` is content for the descriptor `d`: it has its digest and, when that is given, its size. -/
def Stored (b : Bytes) (d : Descriptor) : Prop :=
  HashesTo x b d.digest ∧ (0 < d.size → (b.length : ℤ) = d.size)

variable {desc : Descriptor}

theorem checkBlob_eq_ok {body : Bytes} : checkBlob x desc body = .ok () ↔
    Stored x body desc ∧ ∃ r, parseDigest desc.digest = .ok r := by
  unfold checkBlob Stored
  cases hv : verifyDigest x desc.digest body with
  | error e =>
    simp only [reduceCtorEq, false_iff]
    rintro ⟨⟨hh, -⟩, hd⟩
    rw [(verifyDigest_eq_ok x).mpr ⟨hh, hd⟩] at hv
    cases hv
  | ok u =>
    obtain ⟨hh, hd⟩ := (verifyDigest_eq_ok x).mp hv
    dsimp only
    split_ifs with hs
    · simp only [false_iff]
      rintro ⟨⟨-, hsize⟩, -⟩
      exact hs.2 (hsize hs.1)
    · simp only [true_iff]
      refine ⟨⟨hh, fun hpos => ?_⟩, hd⟩
      by_contra hne
      exact hs ⟨hpos, hne⟩

theorem fetchBlobLoop_checked : ∀ (hops : ℕ) (url bearer : Bytes)
    (tr : List (Request × Reply)) (b : Bytes),
    Yields (fetchBlobLoop x desc hops url bearer) tr b → checkBlob x desc b = .ok ()
  | 0, _, _, _, _, h => absurd h yields_throw
  | hops + 1, url, bearer, tr, b, h => by
    unfold fetchBlobLoop at h
    obtain ⟨t₁, t₂, resp, rfl, h₁, h₂⟩ := yields_bind.mp h
    dsimp only at h₂
    split_ifs at h₂ with hr hl hs
    · exact absurd h₂ yields_throw
    · exact fetchBlobLoop_checked hops _ _ _ b h₂
    · exact absurd h₂ yields_throw
    · obtain ⟨t₃, t₄, u, rfl, h₃, h₄⟩ := yields_bind.mp h₂
      obtain ⟨-, hc⟩ := yields_ofExcept.mp h₃
      obtain ⟨-, rfl⟩ := yields_pure.mp h₄
      exact hc

variable {r : Registry} {tr : List (Request × Reply)}

/-- **`FetchBlob`** returns only content for its descriptor, whatever the servers answer. -/
theorem fetchBlob_stored {b : Bytes} (h : Yields (fetchBlob x r desc) tr b) : Stored x b desc :=
  ((checkBlob_eq_ok x).mp (fetchBlobLoop_checked x _ _ _ _ _ h)).1

/-! ## Streaming blobs -/

/-- An `io.Writer` with state `σ`: the bytes taken and its error. -/
structure Writer (σ : Type) where
  write : σ → Bytes → σ × ℕ × Option OciErr

/-- `bytes.Buffer`. -/
def bufferWriter : Writer Bytes := ⟨fun b p => (b ++ p, p.length, none)⟩

/-- `fixedSliceWriter`: a slice and the offset filled so far. -/
def fixedSliceWriter : Writer (Bytes × ℕ) where
  write := fun (buf, off) p =>
    if buf.length ≤ off then
      if p.isEmpty then ((buf, off), 0, none) else ((buf, off), 0, some .blobBufferOverflow)
    else
      let n := min (buf.length - off) p.length
      ((buf.take off ++ p.take n ++ buf.drop (off + n), off + n), n,
        if n < p.length then some .blobBufferOverflow else none)

/-- The state of one `GetStream` into `io.MultiWriter(dst, h)`: the writer, what the hash has seen,
the bytes counted as written, and the error that stopped it. -/
structure Copied (σ : Type) where
  dst : σ
  hashed : Bytes
  written : ℕ
  err : Option OciErr

/-- Write the pieces of a body through the tee, stopping at the first write error. -/
def copyChunks {σ : Type} (w : Writer σ) : Copied σ → List Bytes → Copied σ
  | c, [] => c
  | c, p :: ps =>
    match w.write c.dst p with
    | (s, n, some e) => ⟨s, c.hashed, c.written + n, some e⟩
    | (s, n, none) =>
      if n ≠ p.length then ⟨s, c.hashed, c.written + n, some .shortWrite⟩
      else copyChunks w ⟨s, c.hashed ++ p, c.written + n, none⟩ ps

/-- `GetStream`: the body of a 3xx reply goes to `io.Discard`. -/
def getStream {σ : Type} (w : Writer σ) (dst : σ) (url bearer : Bytes) :
    Net (Reply × Copied σ) := do
  let r ← AskE.query ⟨url, bearerLines bearer, true⟩
  let c :=
    if 300 ≤ r.status ∧ r.status < 400 then ⟨dst, [], 0, none⟩
    else copyChunks w ⟨dst, [], 0, none⟩ r.chunks
  match c.err, r.err with
  | some e, _ => throw e
  | none, some e => throw (.transport e)
  | none, none => pure (r, c)

/-- The checks at the end of a stream: size, then digest. -/
def checkStream (desc : Descriptor) (written : ℕ) (hashed : Bytes) : Except OciErr Unit :=
  if 0 < desc.size ∧ (written : ℤ) ≠ desc.size then
    .error (.blobSizeMismatch written desc.size)
  else
    -- `_, wantHex, _ := ParseDigest(...)`: the error was looked at before the first request
    let wantHex := ((parseDigest desc.digest).toOption.map Prod.snd).getD []
    if equalFold (hexEncode (x.sha256 hashed)) wantHex then .ok () else .error .digestMismatch

/-- The loop shared by `FetchBlobStream` and `FetchBlobToBuffer`; `rewind` readies the writer for
a new hop. -/
def streamBlob {σ : Type} (w : Writer σ) (rewind : σ → σ) (desc : Descriptor) :
    ℕ → Bytes → Bytes → σ → Net (σ × ℕ)
  | 0, _, _, _ => throw (.tooManyRedirects desc.digest)
  | hops + 1, url, bearer, dst => do
    let (resp, c) ← getStream w (rewind dst) url bearer
    if isRedirect resp.status then
      let loc := resp.header (str "location")
      if loc.isEmpty then throw (.registryStatus url resp.status)
      else streamBlob w rewind desc hops loc [] c.dst
    else if resp.status ≠ 200 then throw (.registryStatus url resp.status)
    else do
      AskE.ofExcept (checkStream x desc c.written c.hashed)
      pure (c.dst, c.written)

/-- The guards both streaming fetchers start with. -/
def streamable (r : Registry) (desc : Descriptor) : Except OciErr Unit :=
  match parseDigest desc.digest with
  | .error e => .error e
  | .ok _ => if r.streaming then .ok () else .error .transportNotStreaming

theorem streamable_eq_ok : streamable r desc = .ok () ↔
    (∃ p, parseDigest desc.digest = .ok p) ∧ r.streaming = true := by
  unfold streamable
  cases hp : parseDigest desc.digest with
  | error e => simp
  | ok p => simp

def fetchBlobStream {σ : Type} (w : Writer σ) (r : Registry) (desc : Descriptor) (dst : σ) :
    Net (σ × ℕ) := do
  AskE.ofExcept (streamable r desc)
  streamBlob x w id desc (maxBlobRedirects + 1) (r.ref.blobURL desc.digest) r.bearer dst

/-- The size guard of `FetchBlobToBuffer`, between the two of `streamable`. -/
def bufferable (r : Registry) (desc : Descriptor) (dst : Bytes) : Except OciErr Unit :=
  match parseDigest desc.digest with
  | .error e => .error e
  | .ok _ =>
    if 0 < desc.size ∧ (dst.length : ℤ) < desc.size then .error .blobBufferTooSmall
    else if r.streaming then .ok () else .error .transportNotStreaming

theorem bufferable_eq_ok {dst : Bytes} :
    bufferable r desc dst = .ok () ↔ (∃ p, parseDigest desc.digest = .ok p) ∧
      ¬ (0 < desc.size ∧ (dst.length : ℤ) < desc.size) ∧ r.streaming = true := by
  unfold bufferable
  cases hp : parseDigest desc.digest with
  | error e => simp
  | ok p =>
    by_cases hsize : 0 < desc.size ∧ (dst.length : ℤ) < desc.size <;> simp [hsize]

/-- The buffer afterwards, and the number of bytes written into it. -/
def fetchBlobToBuffer (r : Registry) (desc : Descriptor) (dst : Bytes) : Net (Bytes × ℕ) := do
  AskE.ofExcept (bufferable r desc dst)
  let (c, n) ← streamBlob x fixedSliceWriter (fun c => (c.1, 0)) desc (maxBlobRedirects + 1)
    (r.ref.blobURL desc.digest) r.bearer (dst, 0)
  pure (c.1, n)

/-! ### What the stream leaves in its writer -/

theorem copyChunks_buffer : ∀ (ps : List Bytes) (c : Copied Bytes), c.err = none →
    copyChunks bufferWriter c ps =
      ⟨c.dst ++ ps.flatten, c.hashed ++ ps.flatten, c.written + ps.flatten.length, none⟩
  | [], c, h => by
    cases c
    simp_all [copyChunks]
  | p :: ps, c, h => by
    simp only [copyChunks, bufferWriter, ne_eq, not_true_eq_false, if_false]
    rw [show (⟨fun b p => (b ++ p, p.length, none)⟩ : Writer Bytes) = bufferWriter from rfl,
      copyChunks_buffer ps _ rfl]
    simp [Nat.add_assoc]

/-- A slice being filled: what the hash has seen, then the old contents. -/
def Filling (buf : Bytes) (c : Copied (Bytes × ℕ)) : Prop :=
  c.hashed.length ≤ buf.length ∧ c.dst = (c.hashed ++ buf.drop c.hashed.length, c.hashed.length) ∧
    c.written = c.hashed.length

theorem Filling.write {buf p : Bytes} {c : Copied (Bytes × ℕ)} (h : Filling buf c) {s : Bytes × ℕ}
    {n : ℕ} (hw : fixedSliceWriter.write c.dst p = (s, n, none)) :
    n = p.length ∧ Filling buf ⟨s, c.hashed ++ p, c.written + n, none⟩ := by
  obtain ⟨hle, hdst, hn⟩ := h
  have hlen : (c.hashed ++ buf.drop c.hashed.length).length = buf.length := by
    simp; omega
  rw [hdst] at hw
  simp only [fixedSliceWriter, hlen] at hw
  split_ifs at hw with h1 h2 h3
  · obtain ⟨rfl, rfl, -⟩ := by simpa using hw
    have hp : p = [] := by simpa using h2
    subst hp
    refine ⟨rfl, ?_, ?_, ?_⟩ <;> simp [hle, hn]
  · simp at hw
  · simp at hw
  · obtain ⟨rfl, rfl⟩ := by simpa using hw
    have hfit : p.length ≤ buf.length - c.hashed.length := by omega
    rw [Nat.min_eq_right hfit]
    refine ⟨rfl, ?_, ?_, ?_⟩
    · simp; omega
    · simp
    · simp [hn]

theorem copyChunks_fixed {buf : Bytes} : ∀ (ps : List Bytes) (c : Copied (Bytes × ℕ)),
    Filling buf c → (copyChunks fixedSliceWriter c ps).err = none →
    Filling buf (copyChunks fixedSliceWriter c ps)
  | [], _, h, _ => h
  | p :: ps, c, h, he => by
    rw [copyChunks] at he ⊢
    cases hw : fixedSliceWriter.write c.dst p with
    | mk s rest =>
      obtain ⟨n, oe⟩ := rest
      rw [hw] at he
      cases oe with
      | some e => simp at he
      | none =>
        obtain ⟨rfl, hf⟩ := h.write hw
        simp only [ne_eq, not_true_eq_false, if_false] at he ⊢
        exact copyChunks_fixed ps _ hf he

theorem isRedirect_3xx {status : ℤ} (h : isRedirect status = true) : 300 ≤ status ∧ status < 400 := by
  simp only [isRedirect, decide_eq_true_eq] at h
  omega

variable {σ : Type} {w : Writer σ}

/-- `GetStream` asks once.  It fails when the transport does, or when the writer does not take the
body; the body of a 3xx reply is not written to it. -/
theorem runs_getStream {dst : σ} {url bearer : Bytes} {y : Except OciErr (Reply × Copied σ)}
    (h : Runs (getStream w dst url bearer).run tr y) :
    ∃ r, tr = [(⟨url, bearerLines bearer, true⟩, r)] ∧
      ((∃ c, y = .ok (r, c) ∧ r.err = none ∧ c.err = none ∧
        c = (if 300 ≤ r.status ∧ r.status < 400 then ⟨dst, [], 0, none⟩
          else copyChunks w ⟨dst, [], 0, none⟩ r.chunks)) ∨
      ∃ e, y = .error e ∧ (r.err ≠ none ∨ ¬ (300 ≤ r.status ∧ r.status < 400) ∧
        (copyChunks w ⟨dst, [], 0, none⟩ r.chunks).err ≠ none)) := by
  unfold getStream at h
  rcases runs_bind.mp h with ⟨e, -, he⟩ | ⟨t₁, t₂, r, rfl, h₁, h₂⟩
  · simp at he
  · rw [yields_query] at h₁
    subst h₁
    refine ⟨r, ?_⟩
    dsimp only at h₂
    generalize hc : (if 300 ≤ r.status ∧ r.status < 400 then (⟨dst, [], 0, none⟩ : Copied σ)
      else copyChunks w ⟨dst, [], 0, none⟩ r.chunks) = c at h₂
    cases hce : c.err with
    | some e =>
      rw [hce] at h₂
      obtain ⟨rfl, rfl⟩ := runs_run_throw.mp h₂
      have h3xx : ¬ (300 ≤ r.status ∧ r.status < 400) := by
        intro h3xx
        rw [if_pos h3xx] at hc
        rw [← hc] at hce
        cases hce
      rw [if_neg h3xx] at hc
      exact ⟨rfl, Or.inr ⟨e, rfl, Or.inr ⟨h3xx, by rw [hc, hce]; simp⟩⟩⟩
    | none =>
      rw [hce] at h₂
      cases hre : r.err with
      | some e =>
        rw [hre] at h₂
        obtain ⟨rfl, rfl⟩ := runs_run_throw.mp h₂
        exact ⟨rfl, Or.inr ⟨_, rfl, Or.inl (Option.some_ne_none e)⟩⟩
      | none =>
        rw [hre] at h₂
        obtain ⟨rfl, rfl⟩ := runs_run_pure.mp h₂
        exact ⟨rfl, Or.inl ⟨c, rfl, rfl, hce, rfl⟩⟩

theorem runs_getStream_bind {α : Type} {dst : σ} {url bearer : Bytes} {f : Reply × Copied σ → Net α}
    {y : Except OciErr α} (h : Runs (getStream w dst url bearer >>= f).run tr y) :
    ∃ r t, tr = (⟨url, bearerLines bearer, true⟩, r) :: t ∧
      (((r.err ≠ none ∨ ¬ (300 ≤ r.status ∧ r.status < 400) ∧
        (copyChunks w ⟨dst, [], 0, none⟩ r.chunks).err ≠ none) ∧ t = [] ∧ ∃ e, y = .error e) ∨
      ∃ c, r.err = none ∧ c.err = none ∧
        c = (if 300 ≤ r.status ∧ r.status < 400 then ⟨dst, [], 0, none⟩
          else copyChunks w ⟨dst, [], 0, none⟩ r.chunks) ∧ Runs (f (r, c)).run t y) := by
  rcases runs_bind.mp h with ⟨e, rfl, he⟩ | ⟨t₁, t₂, ⟨r, c⟩, rfl, h₁, h₂⟩
  · obtain ⟨r, rfl, ⟨c, hc, -⟩ | ⟨e', -, hfail⟩⟩ := runs_getStream he
    · cases hc
    · exact ⟨r, [], rfl, .inl ⟨hfail, rfl, e, rfl⟩⟩
  · obtain ⟨r', rfl, ⟨c', heq, herr, hcerr, hc⟩ | ⟨e, he, -⟩⟩ := runs_getStream h₁
    · cases heq
      exact ⟨r, t₂, rfl, .inr ⟨c, herr, hcerr, hc, h₂⟩⟩
    · cases he

/-- What a finished stream has done: one body was copied into the readied writer, completely, and
passed the checks. -/
theorem streamBlob_copied {rewind : σ → σ} :
    ∀ (hops : ℕ) (url bearer : Bytes) (dst : σ) (tr : List (Request × Reply)) (res : σ × ℕ),
      Yields (streamBlob x w rewind desc hops url bearer dst) tr res →
      (∀ s, rewind (rewind s) = rewind s) →
      ∃ ps c, c = copyChunks w ⟨rewind dst, [], 0, none⟩ ps ∧ c.err = none ∧
        res = (c.dst, c.written) ∧ checkStream x desc c.written c.hashed = .ok ()
  | 0, _, _, _, _, _, h, _ => absurd h yields_throw
  | hops + 1, url, bearer, dst, tr, res, h, hrw => by
    unfold streamBlob at h
    obtain ⟨resp, t₂, rfl, ⟨-, -, e, he⟩ | ⟨c, -, herr, hc, h₂⟩⟩ := runs_getStream_bind h
    · cases he
    dsimp only at h₂
    split_ifs at h₂ with hr hl hs
    · exact absurd h₂ yields_throw
    · -- a redirect: nothing was written, so the writer is still the readied one
      obtain ⟨ps, c', hc', rest⟩ := streamBlob_copied hops _ _ _ _ _ h₂ hrw
      rw [if_pos (isRedirect_3xx hr)] at hc
      rw [hc, hrw] at hc'
      exact ⟨ps, c', hc', rest⟩
    · exact absurd h₂ yields_throw
    · obtain ⟨t₃, t₄, u, rfl, h₃, h₄⟩ := yields_bind.mp h₂
      obtain ⟨-, hck⟩ := yields_ofExcept.mp h₃
      obtain ⟨-, rfl⟩ := yields_pure.mp h₄
      have hst : resp.status = 200 := by simpa using hs
      rw [if_neg (by omega)] at hc
      exact ⟨resp.chunks, c, hc, herr, rfl, hck⟩

theorem checkStream_eq_ok {b : Bytes} (hd : ∃ r, parseDigest desc.digest = .ok r) :
    checkStream x desc b.length b = .ok () ↔ Stored x b desc := by
  have hdigest : (if equalFold (hexEncode (x.sha256 b))
      (((parseDigest desc.digest).toOption.map Prod.snd).getD []) then (.ok () : Except OciErr Unit)
      else .error .digestMismatch) = verifyDigest x desc.digest b := by
    obtain ⟨⟨algo, hex⟩, hp⟩ := hd
    unfold verifyDigest
    rw [hp]
    rfl
  unfold checkStream Stored
  dsimp only
  rw [hdigest]
  split_ifs with hs
  · simp only [false_iff]
    rintro ⟨-, hsize⟩
    exact hs.2 (hsize hs.1)
  · rw [verifyDigest_eq_ok, and_iff_left hd]
    refine (and_iff_left fun hpos => ?_).symm
    by_contra hne
    exact hs ⟨hpos, hne⟩

/-- **`FetchBlobStream`** into an empty buffer leaves content for the descriptor in it. -/
theorem fetchBlobStream_stored {res : Bytes × ℕ}
    (h : Yields (fetchBlobStream x bufferWriter r desc []) tr res) : Stored x res.1 desc := by
  unfold fetchBlobStream at h
  obtain ⟨t₁, t₂, u, rfl, h₁, h₂⟩ := yields_bind.mp h
  obtain ⟨-, hs⟩ := yields_ofExcept.mp h₁
  have hd := (streamable_eq_ok.mp hs).1
  obtain ⟨ps, c, hc, -, rfl, hck⟩ := streamBlob_copied x _ _ _ _ _ _ h₂ (fun _ => rfl)
  rw [copyChunks_buffer ps _ rfl] at hc
  subst hc
  simp only [List.nil_append, Nat.zero_add] at hck ⊢
  exact (checkStream_eq_ok x hd).mp hck

/-- **`FetchBlobToBuffer`** fills the front of the slice with content for the descriptor and keeps
the rest. -/
theorem fetchBlobToBuffer_stored {dst : Bytes} {res : Bytes × ℕ}
    (h : Yields (fetchBlobToBuffer x r desc dst) tr res) :
    ∃ b, Stored x b desc ∧ b.length ≤ dst.length ∧ res = (b ++ dst.drop b.length, b.length) := by
  unfold fetchBlobToBuffer at h
  obtain ⟨t₁, t₂, u, rfl, h₁, h₂⟩ := yields_bind.mp h
  obtain ⟨-, hs⟩ := yields_ofExcept.mp h₁
  have hd := (bufferable_eq_ok.mp hs).1
  obtain ⟨t₃, t₄, ⟨⟨buf, off⟩, n⟩, rfl, h₃, h₄⟩ := yields_bind.mp h₂
  obtain ⟨-, rfl⟩ := yields_pure.mp h₄
  obtain ⟨ps, c, hc, herr, hres, hck⟩ := streamBlob_copied x _ _ _ _ _ _ h₃ (fun _ => rfl)
  have hfill : Filling dst c := by
    rw [hc] at herr ⊢
    exact copyChunks_fixed ps _ ⟨by simp, by simp, rfl⟩ herr
  obtain ⟨hle, hdst, hn⟩ := hfill
  rw [hdst, hn] at hres
  obtain ⟨⟨rfl, rfl⟩, rfl⟩ := by simpa using hres
  rw [hn] at hck
  exact ⟨c.hashed, (checkStream_eq_ok x hd).mp hck, hle, rfl⟩

end TamagoUefi.Oci
