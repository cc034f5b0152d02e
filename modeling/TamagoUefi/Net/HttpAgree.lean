import TamagoUefi.Net.BufferedReader
import TamagoUefi.Net.HeaderLines

/-!
# TamagoUefi.Net.HttpAgree — the buffered and the streaming reader agree

A `Response` is a status line, header lines and what is behind the empty line; `Response.Complete` says
that both readers can take it: CRLF line ends, short lines, a status that is no redirect, at most one
`Content-Length` and `Transfer-Encoding`, and a body that is complete under its framing.

* `Response.Complete.parse`, `Response.Complete.stream`: what each of the readers makes of the text.
* `Response.stream_agrees_iff`: both give the same, unless a chunked response has a `Content-Length` that
  is no length.  The streaming reader looks at it, the buffered reader does not.
-/

namespace TamagoUefi.Net

open Go Lib LineReader

variable {raw : Bytes} {e : ReadErr} {lr : LineReader} {headers : Bytes → Option Bytes}

structure Response where
  statusLine : Bytes
  /-- The header lines. -/
  fields : List Bytes
  /-- What is behind the empty line. -/
  rest : Bytes

namespace Response

def render (r : Response) : Bytes :=
  (r.statusLine :: r.fields).flatMap (· ++ crlf) ++ (crlf ++ r.rest)

def lengths (r : Response) : List Bytes := fieldValues r.fields (str "content-length")

def encodings (r : Response) : List Bytes := fieldValues r.fields (str "transfer-encoding")

def chunked (r : Response) : Bool := r.encodings.any (equalFold · (str "chunked"))

/-- The body that the framing gives: chunked, with a length, or until the peer closes. -/
def Carries (r : Response) (body : Bytes) : Prop :=
  if r.chunked then Chunks r.rest body
  else
    match r.lengths with
    | [] => body = r.rest
    | v :: _ => ∃ n, lengthOf v = some n ∧ n ≤ r.rest.length ∧ body = r.rest.take n

/-- A complete response with a status and a body. -/
structure Complete (r : Response) (code : ℤ) (body : Bytes) : Prop where
  size : r.render.length ≤ httpMaxResponseBytes
  lines : ∀ l ∈ r.statusLine :: r.fields, HeadLine l
  status : statusCode r.statusLine = some code
  noRedirect : ¬ (300 ≤ code ∧ code < 400)
  fields : ∀ l ∈ r.fields, headerField l ≠ none
  oneLength : r.lengths.length ≤ 1
  oneEncoding : r.encodings.length ≤ 1
  body : r.Carries body

section
variable {r : Response} {code : ℤ} {body : Bytes}

theorem any_of_length_le_one {α : Type} (p : α → Bool) {l : List α} (h : l.length ≤ 1) :
    l.head?.any p = l.any p := by
  match l, h with
  | [], _ => rfl
  | [a], _ => simp

theorem Complete.length_rest (h : r.Complete code body) : r.rest.length ≤ httpMaxResponseBytes := by
  have := h.size
  rw [render, List.length_append, List.length_append] at this
  omega

theorem Complete.decode (h : r.Complete code body) (hte : headers (str "transfer-encoding") = r.encodings.head?)
    (hcl : headers (str "content-length") = r.lengths.head?) : decodeBody headers r.rest = .ok body := by
  have hbody := h.body
  unfold Carries at hbody
  unfold decodeBody
  rw [hte, hcl, any_of_length_le_one _ h.oneEncoding]
  change (if r.chunked then _ else _) = _
  split_ifs at hbody ⊢ with hch
  · have hlen : r.rest.length < 2 ^ 32 := Nat.lt_of_le_of_lt h.length_rest (by decide)
    exact decodeChunkedFrom_eq hbody hlen []
  · cases hvs : r.lengths with
    | nil =>
      rw [hvs] at hbody
      rw [hbody]
      rfl
    | cons v vs =>
      rw [hvs] at hbody
      obtain ⟨n, hn, -, rfl⟩ := hbody
      unfold lengthOf at hn
      obtain ⟨m, hm, hnonneg⟩ := Option.bind_eq_some_iff.mp hn
      split_ifs at hnonneg with hneg
      obtain rfl := Option.some.inj hnonneg
      simp [hm, hneg]

/-- **The buffered reader** gives status and body. -/
theorem Complete.parse (h : r.Complete code body) :
    ∃ headers, parseHTTPResponse r.render = .ok ⟨code, r.statusLine, headers, body⟩ := by
  have hlf : ∀ m ∈ r.statusLine :: r.fields, lf ∉ m := fun m hm => (h.lines m hm).line
  have hne : ∀ m ∈ r.fields, m ≠ [] := fun m hm => ne_nil_of_headerField (h.fields m hm)
  have hrender : r.render = joinLines (r.statusLine :: r.fields) ++ (crlf ++ crlf) ++ r.rest := by
    rw [render, flatMap_crlf]
    simp
  obtain ⟨headers, hfold, hval⟩ := addHeaders_eq r.fields (fun _ => none) h.fields
  have hblock : HeaderBlock r.render code r.statusLine headers r.rest :=
    ⟨_, r.fields, ends_joinLines r.statusLine r.fields hlf hne, hrender, split_joinLines _ _ hlf, h.status, hfold⟩
  exact ⟨headers, hblock.parse (h.decode (hval _ h.oneEncoding) (hval _ h.oneLength))⟩

theorem Complete.chunked_of_bad (h : r.Complete code body) (hbad : ∃ v ∈ r.lengths, lengthOf v = none) :
    r.chunked = true := by
  by_contra hno
  obtain ⟨v, hv, hnone⟩ := hbad
  have hbody := h.body
  rw [Carries, if_neg hno] at hbody
  match hvs : r.lengths, h.oneLength with
  | [], _ => simp [hvs] at hv
  | [v'], _ =>
    rw [hvs] at hbody hv
    obtain ⟨n, hn, -⟩ := hbody
    rw [List.mem_singleton.mp hv, hn] at hnone
    cases hnone

theorem Complete.streamBody {σ : Type} {w : Sink σ} {contents : σ → Bytes} (hw : Takes w contents)
    (h : r.Complete code body) (he : e = .eof ∨ e = .peerClosed) {hd : Head} (hch : hd.chunked = r.chunked)
    (hcl : hd.contentLength = r.lengths.foldl (fun n v => ((lengthOf v).map Int.ofNat).getD n) (-1))
    (hat : At r.render e r.rest lr) (dst : σ) (hu : Unsplit r.render (streamBody w hd lr dst).lr) :
    (streamBody w hd lr dst).err = none ∧
      contents (streamBody w hd lr dst).dst = contents dst ++ body := by
  have hclosed : lr.src.err.closed = true := by
    rw [hat.err]
    rcases he with rfl | rfl <;> rfl
  have hbody := h.body
  unfold Carries at hbody
  unfold Net.streamBody at hu ⊢
  rw [hch] at hu ⊢
  by_cases hc : r.chunked = true
  · rw [if_pos hc] at hu hbody ⊢
    have hlen : r.rest.length < 2 ^ 63 := Nat.lt_of_le_of_lt h.length_rest (by decide)
    obtain ⟨h₁, -, h₃⟩ := streamChunkedBody_eq hw hbody hlen hat dst 0 hu
    exact ⟨h₁, h₃⟩
  · rw [if_neg hc] at hbody ⊢
    rw [hcl]
    match hvs : r.lengths, h.oneLength with
    | [], _ =>
      rw [hvs] at hbody
      obtain rfl : body = r.rest := hbody
      obtain ⟨h₁, -, h₃⟩ := streamIdentityBody_eq hw lr dst 0 hclosed
      rw [hat.text] at h₃
      exact ⟨h₁, h₃⟩
    | [v], _ =>
      rw [hvs] at hbody
      obtain ⟨n, hn, hle, rfl⟩ := hbody
      have hlen : 0 + (r.rest.take n).length = n := by
        rw [List.length_take]
        omega
      obtain ⟨h₁, -, h₃⟩ := streamBoundedBody_eq hw n lr dst 0
        (hat.text.trans (List.take_append_drop n r.rest).symm) hlen hclosed
      simp only [List.foldl_cons, List.foldl_nil, hn, Option.map_some, Option.getD_some]
      exact ⟨h₁, h₃⟩

/-- **The streaming reader** gives status and body as well, unless it meets a `Content-Length` that is
no length. -/
theorem Complete.stream {σ : Type} {w : Sink σ} {contents : σ → Bytes} (hw : Takes w contents)
    (h : r.Complete code body) (he : e = .eof ∨ e = .peerClosed) (hat : At r.render e r.render lr) (dst : σ)
    (hu : Unsplit r.render (streamHTTPResponseHeaders w lr dst).lr) :
    if ∃ v ∈ r.lengths, lengthOf v = none then
      (streamHTTPResponseHeaders w lr dst).err ≠ none
    else
      (streamHTTPResponseHeaders w lr dst).err = none ∧
      (streamHTTPResponseHeaders w lr dst).status = code ∧
      contents (streamHTTPResponseHeaders w lr dst).dst = contents dst ++ body := by
  have hne : ∀ m ∈ r.fields, m ≠ [] := fun m hm => ne_nil_of_headerField (h.fields m hm)
  have hfirst := h.lines r.statusLine (by simp)
  have hat₀ : At r.render e (r.statusLine ++ crlf ++ (r.fields.flatMap (· ++ crlf) ++ (crlf ++ r.rest))) lr := by
    have hrender : r.render =
        r.statusLine ++ crlf ++ (r.fields.flatMap (· ++ crlf) ++ (crlf ++ r.rest)) := by
      rw [render, List.flatMap_cons, List.append_assoc (r.statusLine ++ crlf)]
    rwa [← hrender]
  obtain ⟨hline, hat₁⟩ := readLine_at hat₀ hfirst.line hfirst.short rfl
    (hu.of_later (later_streamHTTPResponseHeaders w lr dst))
  have hread : lr.readLine = (.ok r.statusLine, lr.readLine.2) := Prod.ext hline rfl
  rw [streamHTTPResponseHeaders_of_line w hread h.status h.noRedirect] at hu ⊢
  have hfields := streamFields_eq r.fields (fun l hl => h.lines l (by simp [hl])) hne
    lr.readLine.2 ⟨-1, false, fun _ => none⟩ hat₁ (hu.of_later (later_streamRest w _ _ dst))
  have hheads := foldlM_streamField r.fields ⟨-1, false, fun _ => none⟩ h.fields
  cases hfold : r.fields.foldlM streamField ⟨-1, false, fun _ => none⟩ with
  | none =>
    rw [hfold] at hfields hheads
    have hbad : ∃ v ∈ r.lengths, lengthOf v = none := hheads
    rw [if_pos hbad]
    simp [streamRest, hfields]
  | some hd =>
    rw [hfold] at hfields hheads
    obtain ⟨hgood, hch, hcl⟩ := hheads
    rw [if_neg fun ⟨v, hv, hbad⟩ => hgood v hv hbad]
    obtain ⟨rfl, hnone, hat₂⟩ := hfields
    simp only [streamRest, hnone] at hu ⊢
    obtain ⟨h₁, h₂⟩ := h.streamBody hw he (hch.trans (Bool.false_or _)) hcl hat₂ dst hu
    exact ⟨h₁, trivial, h₂⟩

end

/-! Two short responses, each of which comes in one read. -/

/-- `bytes.Buffer`. -/
def buffer : Sink Bytes := ⟨fun dst b => (b.length, none, dst ++ b)⟩

theorem takes_buffer : Takes buffer id := ⟨fun _ _ => rfl, fun _ _ => rfl, fun _ _ => rfl⟩

/-- A reader that has got all of its text. -/
def drained (e : ReadErr) (buffered : Bytes) : LineReader := ⟨⟨[], [], e, [0]⟩, buffered⟩

theorem readLine_start (e : ReadErr) (hne : raw ≠ []) (hshort : raw.length ≤ streamReadBufBytes) :
    (newLineReader (.start raw e [])).readLine = (drained e raw).readLine := by
  have hrefill : (newLineReader (.start raw e [])).refill = (none, drained e raw) := by
    rw [refill_eq]
    simp [newLineReader, Source.start, Source.read, drained, hne, List.take_of_length_le hshort,
      List.drop_of_length_le hshort]
  have hnone : indexByte (newLineReader (.start raw e [])).buffered lf = none := rfl
  have hempty : ¬ httpLineMaxBytes < ([] ++ (newLineReader (.start raw e [])).buffered).length :=
    Nat.not_lt_zero _
  rw [readLine, readLineFrom, hnone]
  simp only
  rw [if_neg hempty]
  split
  · rename_i lr' h
    rw [hrefill] at h
    cases h
    rfl
  · rename_i h
    rw [hrefill] at h
    cases h

theorem unsplit_start (hne : raw ≠ []) (hshort : raw.length ≤ streamReadBufBytes)
    (h : (newLineReader (.start raw e [])).readLine.2.src.Later lr.src) : Unsplit raw lr := by
  rw [readLine_start e hne hshort] at h
  have hl : (drained e raw).src.Later lr.src := (later_readLine rfl).trans h
  intro k hk
  obtain rfl : k = 0 := (hl.new k hk).elim List.mem_singleton.mp Nat.le_zero.mp
  simp [Splits]

def plain : Response := ⟨str "HTTP/1.1 200 OK", [str "Content-Length: 2"], str "hi"⟩

theorem plain_complete : plain.Complete 200 (str "hi") where
  size := by decide
  lines := by
    intro l hl
    simp only [plain, List.mem_cons, List.not_mem_nil, or_false] at hl
    rcases hl with rfl | rfl
    · exact ⟨by decide, by decide⟩
    · exact ⟨by decide, by decide⟩
  status := by decide
  noRedirect := by decide
  fields := by decide
  oneLength := by decide
  oneEncoding := by decide
  body := by
    rw [Carries, if_neg (by decide)]
    exact ⟨2, by decide, by decide, rfl⟩

theorem plain_unsplit : Unsplit plain.render
    (streamHTTPResponseHeaders buffer (newLineReader (.start plain.render .eof [])) []).lr :=
  unsplit_start (by decide) (by decide) (later_streamHTTPResponseHeaders buffer _ [])

def oddLength : Response :=
  ⟨str "HTTP/1.1 200 OK", [str "Content-Length: x", str "Transfer-Encoding: chunked"], str "0\r\n\r\n"⟩

theorem oddLength_complete : oddLength.Complete 200 [] where
  size := by decide
  lines := by
    intro l hl
    simp only [oddLength, List.mem_cons, List.not_mem_nil, or_false] at hl
    rcases hl with rfl | rfl | rfl
    · exact ⟨by decide, by decide⟩
    · exact ⟨by decide, by decide⟩
    · exact ⟨by decide, by decide⟩
  status := by decide
  noRedirect := by decide
  fields := by decide
  oneLength := by decide
  oneEncoding := by decide
  body := by
    rw [Carries, if_pos (by decide)]
    exact @Chunks.last (str "0") crlf (by decide) (by decide) (by decide)

theorem oddLength_unsplit : Unsplit oddLength.render
    (streamHTTPResponseHeaders buffer (newLineReader (.start oddLength.render .eof [])) []).lr :=
  unsplit_start (by decide) (by decide) (later_streamHTTPResponseHeaders buffer _ [])

/-- **The two readers agree** on a complete response whose reads leave every CRLF whole, unless it is
chunked and has a `Content-Length` that is no length. -/
theorem stream_agrees_iff {σ : Type} (w : Sink σ) (contents : σ → Bytes) (hw : Takes w contents)
    (r : Response) (code : ℤ) (body : Bytes) (h : r.Complete code body) (e : ReadErr)
    (he : e = .eof ∨ e = .peerClosed) (cuts : List Cut) (dst : σ)
    (hu : Unsplit r.render
      (streamHTTPResponseHeaders w (newLineReader (.start r.render e cuts)) dst).lr) :
    ∃ resp, parseHTTPResponse r.render = .ok resp ∧
      ((streamHTTPResponseHeaders w (newLineReader (.start r.render e cuts)) dst).err = none ∧
        (streamHTTPResponseHeaders w (newLineReader (.start r.render e cuts)) dst).status =
          resp.statusCode ∧
        contents (streamHTTPResponseHeaders w (newLineReader (.start r.render e cuts)) dst).dst =
          contents dst ++ resp.body ↔
      ¬ (r.chunked ∧ ∃ v ∈ r.lengths, lengthOf v = none)) := by
  obtain ⟨headers, hparse⟩ := h.parse
  refine ⟨_, hparse, ?_⟩
  have hstart : At r.render e r.render (newLineReader (.start r.render e cuts)) :=
    ⟨before_start _ _ _, List.suffix_rfl, rfl⟩
  have hstream := h.stream hw he hstart dst hu
  split_ifs at hstream with hbad
  · -- without chunks such a length would not be complete
    have hch : r.chunked = true := h.chunked_of_bad hbad
    simp [hstream, hch, hbad]
  · simp [hstream, hbad]

theorem plain_agrees : ∃ resp, parseHTTPResponse plain.render = .ok resp ∧
    ((streamHTTPResponseHeaders buffer (newLineReader (.start plain.render .eof [])) []).err = none ∧
      (streamHTTPResponseHeaders buffer (newLineReader (.start plain.render .eof [])) []).status =
        resp.statusCode ∧
      (streamHTTPResponseHeaders buffer (newLineReader (.start plain.render .eof [])) []).dst =
        [] ++ resp.body ↔
    ¬ (plain.chunked ∧ ∃ v ∈ plain.lengths, lengthOf v = none)) :=
  stream_agrees_iff buffer id takes_buffer plain 200 (str "hi") plain_complete .eof (.inl rfl) [] []
    plain_unsplit

/-- A chunked response with `Content-Length: x`: the buffered reader takes it, the streaming reader
does not. -/
theorem stream_agrees_broken : ¬ ∀ (r : Response) (code : ℤ) (body : Bytes), r.Complete code body →
    ∀ (e : ReadErr), e = .eof ∨ e = .peerClosed → ∀ (cuts : List Cut),
    Unsplit r.render
      (streamHTTPResponseHeaders buffer (newLineReader (.start r.render e cuts)) []).lr →
    ∃ resp, parseHTTPResponse r.render = .ok resp ∧
      (streamHTTPResponseHeaders buffer (newLineReader (.start r.render e cuts)) []).err = none ∧
      (streamHTTPResponseHeaders buffer (newLineReader (.start r.render e cuts)) []).status =
        resp.statusCode ∧
      (streamHTTPResponseHeaders buffer (newLineReader (.start r.render e cuts)) []).dst = resp.body := by
  intro h
  obtain ⟨resp, -, herr, -⟩ :=
    h oddLength 200 [] oddLength_complete .eof (.inl rfl) [] oddLength_unsplit
  have hstart : At oddLength.render .eof oddLength.render
      (newLineReader (.start oddLength.render .eof [])) := ⟨before_start _ _ _, List.suffix_rfl, rfl⟩
  have hstream := oddLength_complete.stream takes_buffer (.inl rfl) hstart [] oddLength_unsplit
  rw [if_pos (by decide)] at hstream
  exact hstream herr

end Response

end TamagoUefi.Net
