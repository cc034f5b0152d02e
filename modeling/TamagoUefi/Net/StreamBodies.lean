import TamagoUefi.Lib.Ask
import TamagoUefi.Net.LineSplits

/-!
# TamagoUefi.Net.StreamBodies — the bodies that the streaming reader writes

A text is read when no read ends between a CR and its LF, and into a sink that takes all it is given.

* `readLine_at`: a line off such a text.
* `streamBoundedBody_eq`, `streamIdentityBody_eq`: a body with a length, and one until the peer closes.
* `Chunks`, `streamChunkedBody_eq`: a chunked body.
* `later_streamHTTPResponseHeaders`: whatever comes, the functions only go on in the stream.
-/

namespace TamagoUefi.Net

open Go Lib LineReader

/-! ## Lines -/

/-- The reader is in front of `tail`, the end of `raw`. -/
structure At (raw : Bytes) (e : ReadErr) (tail : Bytes) (lr : LineReader) : Prop extends Before tail lr where
  suffix : tail <:+ raw
  err : lr.src.err = e

variable {raw line rest : Bytes} {e : ReadErr} {lr lr' : LineReader}

/-- The line is taken as it stands: no read ends between its CR and its LF. -/
theorem fits_of_unsplit (hsuffix : line ++ crlf ++ rest <:+ raw) (hshort : line.length ≤ httpLineMaxBytes)
    (hu : Unsplit raw lr) : lineAs lr.src.ends line rest = line ∧ Fits lr.src.ends line rest := by
  obtain ⟨done, hraw⟩ := hsuffix
  have hno : rest.length + 1 ∉ lr.src.ends := by
    intro hmem
    have hsplits : raw = (done ++ (line ++ [cr])) ++ lf :: rest := by
      rw [← hraw, crlf]
      simp
    have hlen : raw.length - (rest.length + 1) = (done ++ (line ++ [cr])).length := by
      rw [hsplits, List.length_append, List.length_cons, Nat.add_sub_cancel]
    refine hu _ hmem ?_
    rw [hlen, hsplits]
    exact splits_append.mpr ⟨by simp, rfl⟩
  rw [Fits, lineAs, if_neg hno]
  exact ⟨rfl, hshort⟩

variable {r : Except ReadErr Bytes}

theorem readLine_at (h : At raw e (line ++ crlf ++ rest) lr) (hline : lf ∉ line)
    (hshort : line.length ≤ httpLineMaxBytes) (hread : lr.readLine = (r, lr')) (hu : Unsplit raw lr') :
    r = .ok line ∧ At raw e rest lr' := by
  obtain ⟨hline', hfits⟩ := fits_of_unsplit h.suffix hshort hu
  have hnext := readLine_before h.toBefore hline hread
  rw [if_pos hfits, hline'] at hnext
  exact ⟨hnext.1, hnext.2, (List.suffix_append _ rest).trans h.suffix, (later_readLine hread).err.trans h.err⟩

/-! ## Copies -/

variable {text : Bytes}

section
variable {σ : Type} {w : Sink σ} {contents : σ → Bytes}

/-- A sink that takes all that it is given. -/
structure Takes (w : Sink σ) (contents : σ → Bytes) : Prop where
  count : ∀ dst b, (w.write dst b).1 = b.length
  err : ∀ dst b, (w.write dst b).2.1 = none
  adds : ∀ dst b, contents (w.write dst b).2.2 = contents dst ++ b

/-- What a round of a copy moves. -/
structure Moved (contents : σ → Bytes) (lr : LineReader) (dst : σ) (want : ℕ) (r : Round σ) : Prop where
  wrote : r.wrote = r.got.length
  werr : r.werr = none
  dst : contents r.dst = contents dst ++ r.got
  read : lr.read want = (r.got, r.rerr, r.lr)
  pulled : Pulled lr want r.got r.rerr r.lr

theorem copyRound_spec (hw : Takes w contents) (lr : LineReader) (dst : σ) (want : ℕ) :
    Moved contents lr dst want (copyRound w lr dst want) := by
  have hread := copyRound_read w lr dst want
  have hpull := read_spec hread
  by_cases hgot : (copyRound w lr dst want).got = []
  · have hgot' : (lr.read want).1 = [] := hgot
    refine ⟨?_, ?_, ?_, hread, hpull⟩
    · simp [copyRound, hgot']
    · simp [copyRound, hgot']
    · simp [copyRound, hgot']
  · have hgot' : (lr.read want).1 ≠ [] := hgot
    refine ⟨?_, ?_, ?_, hread, hpull⟩
    · simp [copyRound, hgot', hw.count]
    · simp [copyRound, hgot', hw.err]
    · simp [copyRound, hgot', hw.adds]

variable {data : Bytes}

/-- A piece of the text that is no longer than the data is a piece of the data. -/
theorem data_of_piece {got : Bytes} (h : got ++ text = data ++ rest) (hlen : got.length ≤ data.length) :
    data = got ++ data.drop got.length ∧ text = data.drop got.length ++ rest := by
  have hpre : got <+: data := List.prefix_of_prefix_length_le
    (h ▸ List.prefix_append got text) (List.prefix_append data rest) hlen
  obtain ⟨more, rfl⟩ := hpre
  rw [List.append_assoc, List.append_cancel_left_eq] at h
  simp [h]

/-- A round that wants no more than the data; the stream can be over only behind all of it. -/
theorem Moved.took {dst : σ} {want : ℕ} {r : Round σ} (hm : Moved contents lr dst want r)
    (htext : lr.text = data ++ rest) (hwant : want ≤ data.length) :
    ∃ more, data = r.got ++ more ∧ r.lr.text = more ++ rest ∧ (∀ e, r.rerr = some e → more = [] ∧ rest = []) := by
  obtain ⟨hdata, hmore⟩ := data_of_piece (hm.pulled.text.symm.trans htext) (hm.pulled.room.trans hwant)
  refine ⟨_, hdata, hmore, fun e he => ?_⟩
  rw [(hm.pulled.done e he).2] at hmore
  exact List.append_eq_nil_iff.mp hmore.symm

/-- **The data of a chunk**, with something behind it. -/
theorem streamChunkData_eq (hw : Takes w contents) (remaining : ℕ) (lr : LineReader) (dst : σ) (written : ℕ)
    (hb : Before (data ++ rest) lr) (hrest : rest ≠ []) (hlen : data.length = remaining) :
    (streamChunkData w remaining lr dst written).err = none ∧
      (streamChunkData w remaining lr dst written).written = written + data.length ∧
      contents (streamChunkData w remaining lr dst written).dst = contents dst ++ data ∧
      Before rest (streamChunkData w remaining lr dst written).lr := by
  fun_induction streamChunkData w remaining lr dst written generalizing data with
  | case1 remaining lr dst written hrem r written' e =>
    rename_i he
    rw [(copyRound_spec hw lr dst _).werr] at he
    cases he
  | case2 remaining lr dst written hrem r written' _ e =>
    rename_i he
    -- the stream is not over
    have hm : Moved contents lr dst _ r := copyRound_spec hw lr dst _
    obtain ⟨more, -, -, hend⟩ := hm.took hb.text (by omega)
    exact absurd (hend e he).2 hrest
  | case3 remaining lr dst written hrem r written' _ _ _ =>
    rename_i ih
    have hm : Moved contents lr dst _ r := copyRound_spec hw lr dst _
    obtain ⟨more, rfl, -, -⟩ := hm.took hb.text (by omega)
    have hwrote : r.wrote = r.got.length := hm.wrote
    rw [List.length_append] at hlen ⊢
    rw [List.append_assoc] at hb
    obtain ⟨h₁, h₂, h₃, h₄⟩ := ih (hb.read hm.read) (by omega)
    refine ⟨h₁, by omega, ?_, h₄⟩
    rw [h₃, hm.dst, List.append_assoc]
  | case4 remaining lr dst written hrem =>
    obtain rfl : data = [] := List.eq_nil_of_length_eq_zero (by omega)
    exact ⟨rfl, rfl, (List.append_nil _).symm, hb⟩

/-- **A body with a length.** -/
theorem streamBoundedBody_eq (hw : Takes w contents) (total : ℕ) (lr : LineReader) (dst : σ) (written : ℕ)
    (htext : lr.text = data ++ rest) (hlen : written + data.length = total)
    (hclosed : lr.src.err.closed = true) :
    (streamBoundedBody w total lr dst written).err = none ∧
      (streamBoundedBody w total lr dst written).written = total ∧
      contents (streamBoundedBody w total lr dst written).dst = contents dst ++ data := by
  fun_induction streamBoundedBody w total lr dst written generalizing data with
  | case1 lr dst written hlt r written' e =>
    rename_i he
    rw [(copyRound_spec hw lr dst _).werr] at he
    cases he
  | case2 lr dst written hlt r written' _ e he =>
    rename_i hcl
    -- all of the text has come with the last read
    have hm : Moved contents lr dst _ r := copyRound_spec hw lr dst _
    obtain ⟨more, rfl, -, hend⟩ := hm.took htext (by omega)
    rw [(hend e he).1, List.append_nil] at hlen ⊢
    have hwrote : r.wrote = r.got.length := hm.wrote
    have hwritten : written' = total := by omega
    exact ⟨if_neg (by omega), hwritten, hm.dst⟩
  | case3 lr dst written hlt r written' _ e he =>
    rename_i hcl
    have hm : Moved contents lr dst _ r := copyRound_spec hw lr dst _
    rw [(hm.pulled.done e he).1] at hcl
    exact absurd hclosed hcl
  | case4 lr dst written hlt r written' _ _ _ =>
    rename_i ih
    have hm : Moved contents lr dst _ r := copyRound_spec hw lr dst _
    obtain ⟨more, rfl, hmore, -⟩ := hm.took htext (by omega)
    have hwrote : r.wrote = r.got.length := hm.wrote
    have herr : r.lr.src.err = lr.src.err := hm.pulled.err
    rw [List.length_append] at hlen
    obtain ⟨h₁, h₂, h₃⟩ := ih hmore (by omega) (herr ▸ hclosed)
    refine ⟨h₁, h₂, ?_⟩
    rw [h₃, hm.dst, List.append_assoc]
  | case5 lr dst written hlt =>
    obtain rfl : data = [] := List.eq_nil_of_length_eq_zero (by omega)
    simp only [List.length_nil, Nat.add_zero] at hlen
    simp [hlen]

/-- **A body until the peer closes.** -/
theorem streamIdentityBody_eq (hw : Takes w contents) (lr : LineReader) (dst : σ) (written : ℕ)
    (hclosed : lr.src.err.closed = true) :
    (streamIdentityBody w lr dst written).err = none ∧
      (streamIdentityBody w lr dst written).written = written + lr.text.length ∧
      contents (streamIdentityBody w lr dst written).dst = contents dst ++ lr.text := by
  fun_induction streamIdentityBody w lr dst written with
  | case1 lr dst written r written' e =>
    rename_i he
    rw [(copyRound_spec hw lr dst _).werr] at he
    cases he
  | case2 lr dst written r written' _ e =>
    rename_i he
    have hm : Moved contents lr dst _ r := copyRound_spec hw lr dst _
    have hwrote : r.wrote = r.got.length := hm.wrote
    have htext : lr.text = r.got := by
      rw [hm.pulled.text, (hm.pulled.done e he).2, List.append_nil]
    rw [(hm.pulled.done e he).1, if_pos hclosed, htext]
    exact ⟨rfl, congrArg _ hwrote, hm.dst⟩
  | case3 lr dst written r written' _ _ _ =>
    rename_i ih
    have hm : Moved contents lr dst _ r := copyRound_spec hw lr dst _
    have hwrote : r.wrote = r.got.length := hm.wrote
    have herr : r.lr.src.err = lr.src.err := hm.pulled.err
    obtain ⟨h₁, h₂, h₃⟩ := ih (herr ▸ hclosed)
    have htext : lr.text = r.got ++ r.lr.text := hm.pulled.text
    refine ⟨h₁, ?_, ?_⟩
    · rw [h₂, htext, List.length_append]
      omega
    · rw [h₃, hm.dst, htext, List.append_assoc]

end

/-! ## What the functions do to the stream -/

section
variable {σ : Type} (w : Sink σ)

theorem later_streamChunkData (remaining : ℕ) (lr : LineReader) (dst : σ) (written : ℕ) :
    lr.src.Later (streamChunkData w remaining lr dst written).lr.src := by
  fun_induction streamChunkData w remaining lr dst written with
  | case1 remaining lr dst => exact later_copyRound w lr dst _
  | case2 remaining lr dst => exact later_copyRound w lr dst _
  | case3 remaining lr dst =>
    rename_i ih
    exact (later_copyRound w lr dst _).trans ih
  | case4 => exact .refl _

theorem later_streamBoundedBody (total : ℕ) (lr : LineReader) (dst : σ) (written : ℕ) :
    lr.src.Later (streamBoundedBody w total lr dst written).lr.src := by
  fun_induction streamBoundedBody w total lr dst written with
  | case1 lr dst => exact later_copyRound w lr dst _
  | case2 lr dst => exact later_copyRound w lr dst _
  | case3 lr dst => exact later_copyRound w lr dst _
  | case4 lr dst =>
    rename_i ih
    exact (later_copyRound w lr dst _).trans ih
  | case5 => exact .refl _

theorem later_streamIdentityBody (lr : LineReader) (dst : σ) (written : ℕ) :
    lr.src.Later (streamIdentityBody w lr dst written).lr.src := by
  fun_induction streamIdentityBody w lr dst written with
  | case1 lr dst => exact later_copyRound w lr dst _
  | case2 lr dst => exact later_copyRound w lr dst _
  | case3 lr dst =>
    rename_i ih
    exact (later_copyRound w lr dst _).trans ih

theorem later_streamChunkedBody (lr : LineReader) (dst : σ) (written : ℕ) :
    lr.src.Later (streamChunkedBody w lr dst written).lr.src := by
  fun_induction streamChunkedBody w lr dst written with
  | case1 lr dst written e lr' h => exact later_readLine h
  | case2 lr dst written line lr' h => exact later_readLine h
  | case3 lr dst written line lr' h => exact (later_readLine h).trans (later_drainTrailer lr')
  | case4 lr dst written line lr' h =>
    exact (later_readLine h).trans (later_streamChunkData w _ lr' dst written)
  | case5 lr dst written line lr' h size _ _ c _ e lr'' hend =>
    exact ((later_readLine h).trans (later_streamChunkData w _ lr' dst written)).trans
      (later_readLine hend)
  | case6 lr dst written line lr' h size _ _ c _ l lr'' hend _ ih =>
    exact (((later_readLine h).trans (later_streamChunkData w _ lr' dst written)).trans
      (later_readLine hend)).trans ih

theorem later_streamFields (lr : LineReader) (hd : Head) : lr.src.Later (streamFields lr hd).2.2.src := by
  fun_induction streamFields lr hd with
  | case1 lr hd e lr' h => exact later_readLine h
  | case2 lr hd lr' h => exact later_readLine h
  | case3 lr hd line lr' h => exact later_readLine h
  | case4 lr hd line lr' h _ hd' _ _ ih => exact (later_readLine h).trans ih

theorem later_streamBody (hd : Head) (lr : LineReader) (dst : σ) :
    lr.src.Later (streamBody w hd lr dst).lr.src := by
  unfold streamBody
  split_ifs
  · exact later_streamChunkedBody w lr dst 0
  · exact later_streamBoundedBody w _ lr dst 0
  · exact later_streamIdentityBody w lr dst 0

theorem later_streamHTTPResponseHeaders (lr : LineReader) (dst : σ) :
    lr.readLine.2.src.Later (streamHTTPResponseHeaders w lr dst).lr.src := by
  unfold streamHTTPResponseHeaders
  split
  · rename_i h
    rw [h]
    exact .refl _
  · rename_i line lr₁ h
    rw [h]
    split
    · exact .refl _
    · have hlater := later_streamFields lr₁ ⟨-1, false, fun _ => none⟩
      split
      · rename_i hf
        rwa [hf] at hlater
      · rename_i hd lr₂ hf
        rw [hf] at hlater
        split_ifs
        · exact hlater.trans (later_streamBody _ hd lr₂ dst)
        · exact hlater.trans (later_streamBody w hd lr₂ dst)

/-- What follows the status line of a response that is no redirect. -/
def streamRest (code : ℤ) (lr : LineReader) (dst : σ) : Streamed σ :=
  let f := streamFields lr ⟨-1, false, fun _ => none⟩
  match f.2.1 with
  | some e => ⟨0, 0, f.1.headers, some e, dst, f.2.2⟩
  | none =>
    let c := streamBody w f.1 f.2.2 dst
    ⟨code, c.written, f.1.headers, c.err, c.dst, c.lr⟩

theorem streamHTTPResponseHeaders_of_line {dst : σ} {code : ℤ} (h : lr.readLine = (.ok line, lr'))
    (hcode : statusCode line = some code) (hno : ¬ (300 ≤ code ∧ code < 400)) :
    streamHTTPResponseHeaders w lr dst = streamRest w code lr' dst := by
  unfold streamHTTPResponseHeaders streamRest
  rw [h]
  simp only [hcode, if_neg hno]
  rcases streamFields lr' ⟨-1, false, fun _ => none⟩ with ⟨hd, _ | e, lr''⟩
  · rfl
  · rfl

theorem later_streamRest (code : ℤ) (lr : LineReader) (dst : σ) :
    (streamFields lr ⟨-1, false, fun _ => none⟩).2.2.src.Later (streamRest w code lr dst).lr.src := by
  unfold streamRest
  simp only
  split
  · exact .refl _
  · exact later_streamBody w _ _ dst

end

/-! ## Chunks -/

/-- A chunked body that is complete, and what it carries.  What is behind the last chunk does not
matter. -/
inductive Chunks : Bytes → Bytes → Prop
  | last {line trailer : Bytes} (hline : lf ∉ line) (hshort : line.length ≤ httpLineMaxBytes)
      (hsize : chunkSize 64 line = some 0) : Chunks (line ++ crlf ++ trailer) []
  | chunk {line data text body : Bytes} (hline : lf ∉ line) (hshort : line.length ≤ httpLineMaxBytes)
      (hsize : chunkSize 64 line = some data.length) (hne : data ≠ []) (more : Chunks text body) :
      Chunks (line ++ crlf ++ (data ++ (crlf ++ text))) (data ++ body)

/-- A chunked text: the size lines, each with what is behind it, and what the chunks carry. -/
inductive ChunkText : List (Bytes × Bytes) → Bytes → Bytes → Prop
  | last {line behind : Bytes} (hline : lf ∉ line) (hsize : chunkSize 64 line = some 0) :
      ChunkText [(line, behind)] (line ++ crlf ++ behind) []
  | chunk {line data text body : Bytes} {ls : List (Bytes × Bytes)} (hline : lf ∉ line)
      (hsize : chunkSize 64 line = some data.length) (hne : data ≠ []) (more : ChunkText ls text body) :
      ChunkText ((line, data ++ (crlf ++ text)) :: ls) (line ++ crlf ++ (data ++ (crlf ++ text))) (data ++ body)

variable {body : Bytes}

theorem Chunks.chunkText (h : Chunks text body) :
    ∃ ls, ChunkText ls text body ∧ ∀ p ∈ ls, p.1 ++ crlf ++ p.2 <:+ text ∧ p.1.length ≤ httpLineMaxBytes := by
  induction h with
  | last hline hshort hsize => exact ⟨_, .last hline hsize, by simpa using hshort⟩
  | @chunk line data text body hline hshort hsize hne more ih =>
    obtain ⟨ls, htext, hls⟩ := ih
    refine ⟨_, .chunk hline hsize hne htext, List.forall_mem_cons.mpr ⟨⟨List.suffix_rfl, hshort⟩, ?_⟩⟩
    have hsuffix : text <:+ line ++ crlf ++ (data ++ (crlf ++ text)) :=
      ⟨line ++ crlf ++ (data ++ crlf), by simp⟩
    exact fun p hp => ⟨(hls p hp).1.trans hsuffix, (hls p hp).2⟩

theorem chunkBound_of_lt {n : ℕ} (h : n < 2 ^ 63) : chunkBound n = n := by
  unfold chunkBound
  rw [Int.bmod_eq_of_le (by omega) (by omega)]
  rfl

/-- A size line off the text: it is too long, or has its size, with a CR or without. -/
theorem readLine_size {size : ℕ} (hb : Before (line ++ crlf ++ rest) lr) (hline : lf ∉ line)
    (hsize : chunkSize 64 line = some size) (hread : lr.readLine = (r, lr')) :
    if Fits lr'.src.ends line rest then (∃ l, r = .ok l ∧ chunkSize 64 l = some size) ∧ Before rest lr'
    else r = .error .lineTooLong := by
  have hnext := readLine_before hb hline hread
  obtain ⟨t, ht, heq⟩ := lineAs_eq lr'.src.ends line rest
  split_ifs at hnext ⊢
  · rw [heq] at hnext
    exact ⟨⟨_, hnext.1, (chunkSize_tail 64 line ht).trans hsize⟩, hnext.2⟩
  · exact hnext

section
variable {σ : Type} {w : Sink σ} {contents : σ → Bytes}

theorem streamChunkedBody_unfold (lr : LineReader) (dst : σ) (written : ℕ) :
    streamChunkedBody w lr dst written =
      match lr.readLine with
      | (.error e, lr') => ⟨written, some (.read e), dst, lr'⟩
      | (.ok line, lr') =>
        match chunkSize 64 line with
        | none => ⟨written, some .badChunk, dst, lr'⟩
        | some size =>
          if size = 0 then ⟨written, none, dst, drainTrailer lr'⟩
          else
            let c := streamChunkData w (chunkBound size) lr' dst written
            match c.err with
            | some e => ⟨c.written, some e, c.dst, c.lr⟩
            | none =>
              match c.lr.readLine with
              | (.error e, lr'') => ⟨c.written, some (.read e), c.dst, lr''⟩
              | (.ok _, lr'') => streamChunkedBody w lr'' c.dst c.written := by
  fun_cases streamChunkedBody w lr dst written <;> simp_all +zetaDelta

/-- **A chunk** with a line behind its data: the function goes on behind that line, or the size line is too
long. -/
theorem streamChunkedBody_step (hw : Takes w contents) {sizeLine data : Bytes} (hsizeLine : lf ∉ sizeLine)
    (hsize : chunkSize 64 sizeLine = some data.length) (hne : data ≠ []) (hdata : data.length < 2 ^ 63)
    (line : Bytes) (hline : lf ∉ line) (hshort : line.length < httpLineMaxBytes)
    (hb : Before (sizeLine ++ crlf ++ (data ++ (line ++ crlf ++ rest))) lr) (hread : lr.readLine = (r, lr'))
    (dst : σ) (written : ℕ) :
    if Fits lr'.src.ends sizeLine (data ++ (line ++ crlf ++ rest)) then
      ∃ lr'' dst', streamChunkedBody w lr dst written = streamChunkedBody w lr'' dst' (written + data.length) ∧
        contents dst' = contents dst ++ data ∧ Before rest lr'' ∧ lr'.src.Later lr''.src ∧
        lr'.src.ahead.length ≤ (data ++ (line ++ crlf ++ rest)).length
    else streamChunkedBody w lr dst written = ⟨written, some (.read .lineTooLong), dst, lr'⟩ := by
  have hnext := readLine_size hb hsizeLine hsize hread
  rw [streamChunkedBody_unfold lr, hread]
  split_ifs at hnext ⊢
  · obtain ⟨⟨l, rfl, hl⟩, hb'⟩ := hnext
    obtain ⟨hcopy, hwritten, hdst, hb''⟩ := streamChunkData_eq hw _ _ dst written hb' (by simp [crlf]) rfl
    rcases hend : (streamChunkData w data.length lr' dst written).lr.readLine with ⟨r', lr''⟩
    have hbehind := readLine_before hb'' hline hend
    rw [if_pos (fits_of_lt _ _ hshort)] at hbehind
    obtain ⟨rfl, hb₃⟩ := hbehind
    have hpos : data.length ≠ 0 := fun hzero => hne (List.eq_nil_of_length_eq_zero hzero)
    refine ⟨lr'', _, ?_, hdst, hb₃, (later_streamChunkData w _ lr' dst written).trans (later_readLine hend),
      hb'.ahead_le⟩
    simp only [hl, if_neg hpos, chunkBound_of_lt hdata, hcopy, hend, hwritten]
  · rw [hnext]

/-- **`streamChunkedBody`** gives the chunks back if `ReadLine` takes their size lines, and else an
error. -/
theorem streamChunkedBody_spec (hw : Takes w contents) {ls : List (Bytes × Bytes)}
    (hc : ChunkText ls text body) (hlen : text.length < 2 ^ 63) (hb : Before text lr) (dst : σ)
    (written : ℕ) :
    if ∀ p ∈ ls, Fits (streamChunkedBody w lr dst written).lr.src.ends p.1 p.2 then
      (streamChunkedBody w lr dst written).err = none ∧
        (streamChunkedBody w lr dst written).written = written + body.length ∧
        contents (streamChunkedBody w lr dst written).dst = contents dst ++ body
    else (streamChunkedBody w lr dst written).err = some (.read .lineTooLong) := by
  induction hc generalizing lr dst written with
  | @last line behind hline hsize =>
    simp only [List.forall_mem_singleton]
    rcases hread : lr.readLine with ⟨r, lr'⟩
    have hnext := readLine_size hb hline hsize hread
    rw [streamChunkedBody_unfold, hread]
    split_ifs at hnext with hfits
    · obtain ⟨⟨l, rfl, hl⟩, hb'⟩ := hnext
      simp only [hl, if_true]
      rw [if_pos ((fits_later (later_drainTrailer lr') line hb'.ahead_le).mpr hfits)]
      simp
    · rw [hnext]
      exact (if_neg hfits).symm ▸ rfl
  | @chunk line data text body ls hline hsize hne more ih =>
    simp only [List.forall_mem_cons]
    have hshort : data.length < 2 ^ 63 ∧ text.length < 2 ^ 63 := by
      simp only [List.length_append] at hlen
      omega
    rcases hread : lr.readLine with ⟨r, lr'⟩
    have hstep := streamChunkedBody_step hw hline hsize hne hshort.1 [] (by simp) (by decide) hb hread dst
      written
    rw [List.nil_append] at hstep
    split_ifs at hstep with hfits
    · obtain ⟨lr'', dst', heq, hdst, hb', hlater, hle⟩ := hstep
      rw [heq]
      have hrest := ih hshort.2 hb' dst' (written + data.length)
      have hfits' := (fits_later (hlater.trans (later_streamChunkedBody w lr'' dst' (written + data.length)))
        line hle).mpr hfits
      simp only [hfits', true_and]
      split_ifs at hrest ⊢
      · obtain ⟨h₁, h₂, h₃⟩ := hrest
        refine ⟨h₁, ?_, ?_⟩
        · rw [h₂, List.length_append, Nat.add_assoc]
        · rw [h₃, hdst, List.append_assoc]
      · exact hrest
    · rw [hstep, if_neg fun h => hfits h.1]

/-- **A chunked body.** -/
theorem streamChunkedBody_eq (hw : Takes w contents) (hc : Chunks text body) (hlen : text.length < 2 ^ 63)
    (hat : At raw e text lr) (dst : σ) (written : ℕ)
    (hu : Unsplit raw (streamChunkedBody w lr dst written).lr) :
    (streamChunkedBody w lr dst written).err = none ∧
      (streamChunkedBody w lr dst written).written = written + body.length ∧
      contents (streamChunkedBody w lr dst written).dst = contents dst ++ body := by
  obtain ⟨ls, htext, hls⟩ := hc.chunkText
  have hspec := streamChunkedBody_spec hw htext hlen hat.toBefore dst written
  rwa [if_pos fun p hp => (fits_of_unsplit ((hls p hp).1.trans hat.suffix) (hls p hp).2 hu).2] at hspec

end

end TamagoUefi.Net
