import TamagoUefi.Net.HttpAgree
import TamagoUefi.Orasoci.Transport

/-!
# TamagoUefi.Orasoci.Copies — what the three copies write (`orasoci/transport.go`)

* `streamIdentity_spec`: the copy until the stream ends writes all of it, and is without error for
  `io.EOF` only.
* `streamBounded_iff`: the copy of a length is good when so much is there.
* `Chunked` is the grammar of chunked bodies, with a condition on the lines in front of the chunks;
  `streamChunked_spec`: the copy by chunks is good when `ReadLine` takes each of these lines.
-/

namespace TamagoUefi.Orasoci

open Go Lib Net LineReader

variable {br br' : LineReader} {e : ReadErr} {n : ℕ} {rest : Bytes}

section
variable {σ : Type} {w : Sink σ} {contents : σ → Bytes}

/-! ## Until the end, and by length -/

theorem streamIdentity_spec (hw : Takes w contents) (br : LineReader) (dst : σ) (written : ℕ) :
    (streamIdentity w br dst written).err =
        (if br.src.err = .eof then none else some (.read br.src.err)) ∧
      contents (streamIdentity w br dst written).dst = contents dst ++ br.text := by
  fun_induction streamIdentity w br dst written with
  | case1 br dst written r written' e he =>
    rw [(copyRound_spec hw br dst _).werr] at he
    cases he
  | case2 br dst written r written' _ e he =>
    have hm : Moved contents br dst _ r := copyRound_spec hw br dst _
    obtain ⟨rfl, hend⟩ := hm.pulled.done e he
    have htext : br.text = r.got := by rw [hm.pulled.text, hend, List.append_nil]
    exact ⟨rfl, htext ▸ hm.dst⟩
  | case3 br dst written r written' _ _ _ ih =>
    have hm : Moved contents br dst _ r := copyRound_spec hw br dst _
    have herr : r.lr.src.err = br.src.err := hm.pulled.err
    have htext : br.text = r.got ++ r.lr.text := hm.pulled.text
    rw [herr, hm.dst, List.append_assoc, ← htext] at ih
    exact ih

/-- Of a `TCP4Conn` bytes and the error come in reads of their own. -/
def Apart (br : LineReader) : Prop := br.src.err ≠ .eof → br.src.Late

theorem Apart.later (h : Apart br) (hl : br.src.Later br'.src) : Apart br' := by
  intro hne
  rw [hl.err] at hne
  exact (h hne).later hl

/-- A read that reports the end and not `io.EOF` finds nothing. -/
theorem Apart.read {got : Bytes} (h : Apart br) (hread : br.read n = (got, some e, br')) (hne : e ≠ .eof) :
    br.text = [] := by
  have hp := LineReader.read_spec hread
  unfold LineReader.read at hread
  split_ifs at hread with hb
  · obtain ⟨-, herr, -⟩ : _ ∧ (br.src.read n).err = some e ∧ _ := by
      simpa only [Prod.mk.injEq] using hread
    rw [(hp.done e rfl).1] at hne
    rw [LineReader.text, hb, (h hne).read herr]
    rfl
  · cases hread

theorem streamBounded_enough (hw : Takes w contents) (n : ℕ) (br : LineReader) (dst : σ) (written : ℕ)
    (ha : Apart br) {data : Bytes} (htext : br.text = data ++ rest) (hlen : written + data.length = n) :
    (streamBounded w n br dst written).err = none ∧
      contents (streamBounded w n br dst written).dst = contents dst ++ data := by
  fun_induction streamBounded w n br dst written generalizing data with
  | case1 br dst written hn r written' e =>
    rename_i he
    rw [(copyRound_spec hw br dst _).werr] at he
    cases he
  | case2 br dst written hn r written' _ =>
    rename_i he
    -- all of the text has come with the last read
    have hm : Moved contents br dst _ r := copyRound_spec hw br dst _
    obtain ⟨more, rfl, -, hend⟩ := hm.took htext (by omega)
    rw [(hend _ he).1, List.append_nil] at hlen ⊢
    have hwrote : r.wrote = r.got.length := hm.wrote
    have hwritten : written' = n := by omega
    exact ⟨if_neg (by omega), hm.dst⟩
  | case3 br dst written hn r written' _ e he =>
    rename_i hne
    have hm : Moved contents br dst _ r := copyRound_spec hw br dst _
    have hread := hm.read
    rw [he] at hread
    have hnil := ha.read hread hne
    rw [hnil] at htext
    rw [(List.append_eq_nil_iff.mp htext.symm).1, List.length_nil] at hlen
    omega
  | case4 br dst written hn r written' _ _ _ =>
    rename_i ih
    have hm : Moved contents br dst _ r := copyRound_spec hw br dst _
    obtain ⟨more, rfl, hmore, -⟩ := hm.took htext (by omega)
    have hwrote : r.wrote = r.got.length := hm.wrote
    rw [List.length_append] at hlen
    obtain ⟨h₁, h₂⟩ := ih (ha.later (later_copyRound w br dst _)) hmore (by omega)
    refine ⟨h₁, ?_⟩
    rw [h₂, hm.dst, List.append_assoc]
  | case5 br dst written hn =>
    obtain rfl : data = [] := List.eq_nil_of_length_eq_zero (by omega)
    simp

theorem streamBounded_short (hw : Takes w contents) (n : ℕ) (br : LineReader) (dst : σ) (written : ℕ)
    (hshort : written + br.text.length < n) :
    ∃ e, (streamBounded w n br dst written).err = some e ∧ e ≠ .read .eof := by
  fun_induction streamBounded w n br dst written with
  | case1 br dst written hn r written' e he => exact ⟨_, rfl, TransportErr.noConfusion⟩
  | case2 br dst written hn r written' _ he =>
    have hm : Moved contents br dst _ r := copyRound_spec hw br dst _
    have hwrote : r.wrote = r.got.length := hm.wrote
    have hlen := congrArg List.length hm.pulled.text
    rw [(hm.pulled.done _ he).2, List.append_nil] at hlen
    exact ⟨_, if_pos (by omega), TransportErr.noConfusion⟩
  | case3 br dst written hn r written' _ e he hne =>
    exact ⟨_, rfl, fun heq => hne (TransportErr.read.inj heq)⟩
  | case4 br dst written hn r written' _ _ _ ih =>
    have hm : Moved contents br dst _ r := copyRound_spec hw br dst _
    have hwrote : r.wrote = r.got.length := hm.wrote
    have hlen := congrArg List.length hm.pulled.text
    rw [List.length_append] at hlen
    exact ih (by omega)
  | case5 br dst written hn => omega

theorem closeWith_eq_eof {err : Option TransportErr} :
    closeWith err = .eof ↔ err = none ∨ err = some (.read .eof) := by
  unfold closeWith
  split
  · simp
  · simp
  · rename_i e hne
    simp only [reduceCtorEq, Option.some.injEq, false_or, false_iff]
    exact fun h => hne h

/-- **A copy of a length is good when so much is there.** -/
theorem streamBounded_iff (hw : Takes w contents) (n : ℕ) (ha : Apart br) (dst : σ) (body : Bytes) :
    (contents (streamBounded w n br dst 0).dst = contents dst ++ body ∧
        closeWith (streamBounded w n br dst 0).err = .eof) ↔
      n ≤ br.text.length ∧ br.text.take n = body := by
  by_cases hn : n ≤ br.text.length
  · have hlen : 0 + (br.text.take n).length = n := by
      rw [List.length_take]
      omega
    obtain ⟨herr, hdst⟩ := streamBounded_enough hw n br dst 0 ha (List.take_append_drop n br.text).symm hlen
    rw [herr, hdst, List.append_cancel_left_eq]
    simp [closeWith, hn]
  · obtain ⟨e, herr, hne⟩ := streamBounded_short hw n br dst 0 (by omega)
    rw [closeWith_eq_eof, herr]
    simp [hn, hne]

/-! ## By chunks -/

end

/-- The line in front of a chunk of `n` bytes: hexadecimal digits, and extensions behind a `;`. -/
structure SizeLine (line : Bytes) (n : ℕ) : Prop where
  oneLine : lf ∉ line
  size : ∃ digits ext, line = digits ++ ext ∧ parseUintHex digits 64 = some n ∧
    (ext = [] ∨ ∃ blanks more, ext = blanks ++ ';'.toUInt8 :: more ∧
      ∀ c ∈ blanks, c = ' '.toUInt8 ∨ c = '\t'.toUInt8)

variable {line : Bytes}

theorem SizeLine.chunkSize (h : SizeLine line n) : chunkSize 64 line = some n := by
  obtain ⟨digits, ext, rfl, hsize, hext⟩ := h.size
  rw [chunkSize_hex (hexVal_of_parse hsize) hext, hsize]

theorem SizeLine.unique {m : ℕ} (h : SizeLine line n) (h' : SizeLine line m) : n = m := by
  have hn := h.chunkSize
  rw [h'.chunkSize] at hn
  exact (Option.some.inj hn).symm

/-- A chunked body and what it carries; `P` holds of each line in front of a chunk and of what is
behind it.  What is behind the last of them does not matter. -/
inductive Chunked (P : Bytes → Bytes → Prop) : Bytes → Bytes → Prop
  | last {line behind : Bytes} (h : SizeLine line 0) (hp : P line behind) :
      Chunked P (line ++ crlf ++ behind) []
  | chunk {line data text body : Bytes} (h : SizeLine line data.length) (hne : data ≠ [])
      (hp : P line (data ++ (crlf ++ text))) (more : Chunked P text body) :
      Chunked P (line ++ crlf ++ (data ++ (crlf ++ text))) (data ++ body)

section
variable {P : Bytes → Bytes → Prop} {line behind data text body : Bytes}

theorem Chunked.length_lt (h : Chunked P text body) : body.length < text.length := by
  induction h with
  | last => simp [crlf]
  | chunk _ _ _ _ ih =>
    simp only [List.length_append, crlf, List.length_cons, List.length_nil] at ih ⊢
    omega

theorem line_inj {line' rest' : Bytes} (h : lf ∉ line) (h' : lf ∉ line')
    (heq : line ++ crlf ++ rest = line' ++ crlf ++ rest') : line = line' ∧ rest = rest' := by
  have heq' : (line ++ [cr]) ++ lf :: rest = (line' ++ [cr]) ++ lf :: rest' := by simpa [crlf] using heq
  obtain ⟨hl, hr⟩ := append_lf_inj (by simp [h, cr_ne_lf.symm]) (by simp [h', cr_ne_lf.symm]) heq'
  exact ⟨(List.append_inj' hl rfl).1, hr⟩

theorem chunked_last_iff (h : SizeLine line 0) : Chunked P (line ++ crlf ++ behind) [] ↔ P line behind := by
  constructor
  · intro hc
    generalize htext : line ++ crlf ++ behind = text at hc
    generalize hbody : ([] : Bytes) = body at hc
    cases hc with
    | @last line' behind' h' hp =>
      obtain ⟨rfl, rfl⟩ := line_inj h.oneLine h'.oneLine htext
      exact hp
    | @chunk line' data' text' body' h' hne hp more =>
      exact absurd (List.append_eq_nil_iff.mp hbody.symm).1 hne
  · exact fun hp => .last h hp

theorem chunked_chunk_iff (h : SizeLine line data.length) (hne : data ≠ []) :
    Chunked P (line ++ crlf ++ (data ++ (crlf ++ text))) (data ++ body) ↔
      P line (data ++ (crlf ++ text)) ∧ Chunked P text body := by
  constructor
  · intro hc
    generalize htext : line ++ crlf ++ (data ++ (crlf ++ text)) = text₀ at hc
    generalize hbody : data ++ body = body₀ at hc
    cases hc with
    | last => exact absurd (List.append_eq_nil_iff.mp hbody).1 hne
    | @chunk line' data' text' body' h' hne' hp more =>
      obtain ⟨rfl, hrest⟩ := line_inj h.oneLine h'.oneLine htext
      obtain ⟨rfl, htext'⟩ := List.append_inj hrest (h.unique h')
      obtain rfl := List.append_cancel_left htext'
      obtain rfl := List.append_cancel_left hbody
      exact ⟨hp, more⟩
  · exact fun ⟨hp, more⟩ => .chunk h hne hp more

/-- The lines in front of the chunks, of which the condition is. -/
theorem Chunked.chunkText (h : Chunked (fun _ _ => True) text body) :
    ∃ ls, ChunkText ls text body ∧ ∀ P, Chunked P text body ↔ ∀ p ∈ ls, P p.1 p.2 := by
  induction h with
  | last h _ =>
    refine ⟨_, .last h.oneLine h.chunkSize, fun P => ?_⟩
    rw [chunked_last_iff h, List.forall_mem_singleton]
  | chunk h hne _ _ ih =>
    obtain ⟨ls, htext, hiff⟩ := ih
    refine ⟨_, .chunk h.oneLine h.chunkSize hne htext, fun P => ?_⟩
    rw [chunked_chunk_iff h hne, hiff, List.forall_mem_cons]

end

section
variable {σ : Type} {w : Sink σ} {contents : σ → Bytes}

/-- The copies by chunks of the two clients: all but the errors is the same. -/
structure Alike (c : Copy σ) (c' : Copied σ) : Prop where
  written : c.written = c'.written
  dst : c.dst = c'.dst
  br : c.br = c'.lr
  err : c.err = none ↔ c'.err = none
  tooLong : c'.err = some (.read .lineTooLong) → c.err = some (.read .lineTooLong)

variable {dst : σ} {written : ℕ}

theorem alike_error {e : TransportErr} {e' : RespErr} (h : e' = .read .lineTooLong → e = .read .lineTooLong) :
    Alike ⟨written, some e, dst, br⟩ ⟨written, some e', dst, br⟩ :=
  ⟨rfl, rfl, rfl, by simp, by simpa using h⟩

theorem copyChunk_alike (remaining : ℕ) (br : LineReader) (dst : σ) (written : ℕ) :
    Alike (copyChunk w remaining br dst written) (streamChunkData w remaining br dst written) := by
  fun_induction copyChunk w remaining br dst written with
  | case1 remaining br dst written hrem r written' e he =>
    fun_cases streamChunkData w remaining br dst written <;> simp_all +zetaDelta [streamReadBufBytes, bufBytes]
    exact alike_error (by simp)
  | case2 remaining br dst written hrem r written' hw e he =>
    fun_cases streamChunkData w remaining br dst written <;> simp_all +zetaDelta [streamReadBufBytes, bufBytes]
    refine alike_error fun h => ?_
    split_ifs at h
    cases h
    rfl
  | case3 remaining br dst written hrem r written' hw he hlt ih =>
    fun_cases streamChunkData w remaining br dst written <;> simp_all +zetaDelta [streamReadBufBytes, bufBytes]
  | case4 remaining br dst written hrem =>
    rw [streamChunkData, dif_neg hrem]
    exact ⟨rfl, rfl, rfl, by simp, by simp⟩

theorem streamChunked_alike (br : LineReader) (dst : σ) (written : ℕ) :
    Alike (streamChunked w br dst written) (streamChunkedBody w br dst written) := by
  fun_induction streamChunked w br dst written with
  | case1 br dst written e br' h =>
    rw [streamChunkedBody_unfold, h]
    exact alike_error (by simp)
  | case2 br dst written line br' h hsize =>
    rw [streamChunkedBody_unfold, h]
    simp only [hsize]
    exact alike_error (by simp)
  | case3 br dst written line br' h hsize =>
    rw [streamChunkedBody_unfold, h]
    simp only [hsize, if_true]
    exact ⟨rfl, rfl, rfl, by simp, by simp⟩
  | case4 br dst written line br' h size hsize hpos c e he =>
    have hc : Alike c _ := copyChunk_alike _ br' dst written
    rw [streamChunkedBody_unfold, h]
    simp only [hsize, if_neg hpos]
    rcases he' : (streamChunkData w (chunkBound size) br' dst written).err with _ | e'
    · rw [hc.err.mpr he'] at he
      cases he
    · have hlong := hc.tooLong
      rw [he, he'] at hlong
      exact ⟨hc.written, hc.dst, hc.br, by simp, hlong⟩
  | case5 br dst written line br' h size hsize hpos c hcopy e br'' hend =>
    have hc : Alike c _ := copyChunk_alike _ br' dst written
    rw [hc.br] at hend
    rw [streamChunkedBody_unfold, h]
    simp only [hsize, if_neg hpos, hc.err.mp hcopy, hend]
    rw [hc.written, hc.dst]
    exact alike_error (by simp)
  | case6 br dst written line br' h size hsize hpos c hcopy l br'' hend _ ih =>
    have hc : Alike c _ := copyChunk_alike _ br' dst written
    rw [hc.br] at hend
    rw [streamChunkedBody_unfold br, h]
    simp only [hsize, if_neg hpos, hc.err.mp hcopy, hend]
    rw [hc.written, hc.dst] at ih ⊢
    exact ih

theorem later_streamBodyOnly (w : Sink σ) (br : LineReader) (dst : σ) (headers : Headers) :
    br.src.Later (streamBodyOnly w br dst headers).br.src := by
  unfold streamBodyOnly
  split
  · rw [(streamChunked_alike br dst 0).br]
    exact later_streamChunkedBody w br dst 0
  · split
    · split
      · exact .refl _
      · split
        · exact .refl _
        · exact later_streamBounded w _ br dst 0
    · exact later_streamIdentity w br dst 0

theorem streamChunked_error (h : br.readLine = (.error e, br')) :
    streamChunked w br dst written = ⟨written, some (.read e), dst, br'⟩ := by
  rw [streamChunked]
  split
  · rename_i h'
    rw [h] at h'
    cases h'
    rfl
  · rename_i h'
    rw [h] at h'
    cases h'

/-- **The copy by chunks is good when `ReadLine` takes the lines in front of the chunks.** -/
theorem streamChunked_spec (hw : Takes w contents) {text body : Bytes}
    (hc : Chunked (fun _ _ => True) text body) (hlen : text.length < 2 ^ 63) (hb : Before text br) (dst : σ)
    (written : ℕ) :
    (Chunked (Fits (streamChunked w br dst written).br.src.ends) text body →
      (streamChunked w br dst written).err = none ∧
        contents (streamChunked w br dst written).dst = contents dst ++ body) ∧
    (¬ Chunked (Fits (streamChunked w br dst written).br.src.ends) text body →
      (streamChunked w br dst written).err = some (.read .lineTooLong)) := by
  have halike := streamChunked_alike (w := w) br dst written
  obtain ⟨ls, htext, hiff⟩ := hc.chunkText
  have hspec := streamChunkedBody_spec hw htext hlen hb dst written
  rw [halike.br, hiff, halike.dst, halike.err]
  split_ifs at hspec with hfits
  · exact ⟨fun _ => ⟨hspec.1, hspec.2.2⟩, fun hno => absurd hfits hno⟩
  · exact ⟨fun h => absurd h hfits, fun _ => halike.tooLong hspec⟩

end

end TamagoUefi.Orasoci
