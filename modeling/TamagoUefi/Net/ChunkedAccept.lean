import TamagoUefi.Net.ChunkedCode

/-!
# TamagoUefi.Net.ChunkedAccept — which texts `streamChunkedBody` takes for chunked bodies (`http.go`)

`streamChunkedBody` reads a size as 64 bits without a sign and counts it down with a sign, and it does not
look at the line behind the data of a chunk.

* `readLine_text`: a line that is returned, under any split.
* `Walk`: what the function goes through until it returns without an error (`walk_of_success`).
* `ChunkedBody`: the grammar.
* `chunked_success_iff`: when the function goes through the chunks of the grammar.
-/

namespace TamagoUefi.Net

open Go Lib LineReader Response

/-! ## Lines -/

theorem stripCR_tail (line : Bytes) : ∃ t, (t = [] ∨ t = [cr]) ∧ line = stripCR line ++ t := by
  unfold stripCR
  split_ifs with h
  · exact ⟨[cr], .inr rfl, (List.dropLast_append_getLast? _ h).symm⟩
  · exact ⟨[], .inl rfl, (List.append_nil line).symm⟩

theorem readLineFrom_text (lr : LineReader) (acc line : Bytes) (hacc : lf ∉ acc)
    (h : (readLineFrom lr acc).1 = .ok line) :
    ∃ t, (t = [] ∨ t = [cr]) ∧ lf ∉ line ++ t ∧
      acc ++ lr.text = line ++ t ++ lf :: (readLineFrom lr acc).2.text := by
  revert hacc h
  refine readLineFrom_rule (P := fun lr acc r => lf ∉ acc → r.1 = .ok line →
    ∃ t, (t = [] ∨ t = [cr]) ∧ lf ∉ line ++ t ∧ acc ++ lr.text = line ++ t ++ lf :: r.2.text)
    ?_ ?_ ?_ ?_ lr acc
  · intro lr acc pre post hb hpre hacc h
    dsimp only at h
    split_ifs at h
    obtain rfl := Except.ok.inj h
    obtain ⟨t, ht, heq⟩ := stripCR_tail pre
    have hline : acc ++ stripCR pre ++ t = acc ++ pre := by
      rw [List.append_assoc, ← heq]
    refine ⟨t, ht, ?_, ?_⟩
    · rw [hline]
      simp [hacc, hpre]
    · rw [hline, text, hb]
      simp [text]
  · intro lr acc _ _ _ h
    cases h
  · intro lr acc lr' _ _ _ _ _ h
    cases h
  · intro lr acc err lr' hb _ hrefill ih hacc h
    obtain ⟨t, ht, hline, heq⟩ := ih (by simp [hacc, hb]) h
    refine ⟨t, ht, hline, ?_⟩
    rw [← heq, text, (refill_spec hrefill).ahead, List.append_assoc]

/-- **A line that is returned** stands at the beginning of the text, but for its CR. -/
theorem readLine_text {lr lr' : LineReader} {line : Bytes} (h : lr.readLine = (.ok line, lr')) :
    ∃ t, (t = [] ∨ t = [cr]) ∧ lf ∉ line ++ t ∧ lr.text = line ++ t ++ lf :: lr'.text := by
  have htext := readLineFrom_text lr [] line (by simp)
  rw [readLine] at h
  rw [h] at htext
  exact htext rfl

/-! ## What the function goes through -/

/-- A chunk as the function takes it: the size on its line, the bytes it copies, and the line behind them with
its CR. -/
structure Passed where
  size : ℕ
  data : Bytes
  line : Bytes

inductive Walk : Bytes → List Passed → Prop
  | last {line behind : Bytes} (hline : lf ∉ line) (hsize : chunkSize 64 line = some 0) :
      Walk (line ++ lf :: behind) []
  | chunk {line text : Bytes} {p : Passed} {ps : List Passed} (hline : lf ∉ line)
      (hsize : chunkSize 64 line = some p.size) (hpos : p.size ≠ 0) (hdata : p.data.length = chunkBound p.size)
      (hend : lf ∉ p.line) (more : Walk text ps) :
      Walk (line ++ lf :: (p.data ++ (p.line ++ lf :: text))) (p :: ps)

section
variable {σ : Type} {w : Sink σ} {contents : σ → Bytes}

/-- A writer that returns an error if it does not take all that it is given. -/
def Honest (w : Sink σ) (contents : σ → Bytes) : Prop :=
  ∀ dst b, (w.write dst b).2.1 = none → contents (w.write dst b).2.2 = contents dst ++ b

theorem Takes.honest (h : Takes w contents) : Honest w contents := fun dst b _ => h.adds dst b

theorem copyRound_honest (hw : Honest w contents) {lr : LineReader} {dst : σ} {want : ℕ}
    (h : (copyRound w lr dst want).werr = none) :
    contents (copyRound w lr dst want).dst = contents dst ++ (copyRound w lr dst want).got := by
  by_cases hgot : (lr.read want).1 = []
  · simp [copyRound, hgot]
  · simp only [copyRound, hgot, if_false] at h ⊢
    exact hw dst _ h

theorem streamChunkData_sound (hw : Honest w contents) (remaining : ℕ) (lr : LineReader) (dst : σ)
    (written : ℕ) (h : (streamChunkData w remaining lr dst written).err = none) :
    ∃ data, data.length = remaining ∧ lr.text = data ++ (streamChunkData w remaining lr dst written).lr.text ∧
      contents (streamChunkData w remaining lr dst written).dst = contents dst ++ data := by
  fun_induction streamChunkData w remaining lr dst written with
  | case1 => cases h
  | case2 => cases h
  | case3 remaining lr dst written hrem r written' hwerr =>
    rename_i ih
    have hp : Pulled lr _ r.got r.rerr r.lr := read_spec (copyRound_read w lr dst _)
    have hroom : r.got.length ≤ min remaining streamReadBufBytes := hp.room
    have hdst : contents r.dst = contents dst ++ r.got := copyRound_honest hw hwerr
    obtain ⟨data, hlen, htext, hcontents⟩ := ih h
    refine ⟨r.got ++ data, ?_, ?_, ?_⟩
    · rw [List.length_append]
      omega
    · rw [hp.text, htext, List.append_assoc]
    · rw [hcontents, hdst, List.append_assoc]
  | case4 remaining lr dst written hrem =>
    exact ⟨[], by rw [List.length_nil]; omega, rfl, (List.append_nil _).symm⟩

/-- **The walk** of a call that returns no error. -/
theorem walk_of_success (hw : Honest w contents) (lr : LineReader) (dst : σ) (written : ℕ)
    (h : (streamChunkedBody w lr dst written).err = none) :
    ∃ ps, Walk lr.text ps ∧
      contents (streamChunkedBody w lr dst written).dst = contents dst ++ ps.flatMap Passed.data := by
  fun_induction streamChunkedBody w lr dst written with
  | case1 => cases h
  | case2 => cases h
  | case3 lr dst written line lr' hread hsize =>
    obtain ⟨t, ht, hline, htext⟩ := readLine_text hread
    rw [htext]
    exact ⟨[], .last hline (by rw [chunkSize_tail 64 line ht, hsize]), (List.append_nil _).symm⟩
  | case4 => cases h
  | case5 => cases h
  | case6 lr dst written line lr' hread size hsize hpos c hcopy l lr'' hend _ ih =>
    obtain ⟨t, ht, hline, htext⟩ := readLine_text hread
    obtain ⟨data, hlen, hdata, hdst⟩ := streamChunkData_sound hw _ _ _ _ hcopy
    obtain ⟨t', ht', hline', htext'⟩ := readLine_text hend
    obtain ⟨ps, hwalk, hcontents⟩ := ih h
    refine ⟨⟨size, data, l ++ t'⟩ :: ps, ?_, ?_⟩
    · rw [htext, hdata, htext']
      exact .chunk (p := ⟨size, data, l ++ t'⟩) hline (by rw [chunkSize_tail 64 line ht, hsize]) hpos hlen
        hline' hwalk
    · rw [hcontents, hdst, List.flatMap_cons, List.append_assoc]

end

/-! ## The grammar -/

def LineEnd (eol : Bytes) : Prop := eol = [lf] ∨ eol = crlf

/-- Chunks, each with the size of its data on its line, and a chunk of size zero. -/
inductive ChunkedBody : Bytes → Bytes → Prop
  | last {line eol behind : Bytes} (hline : lf ∉ line) (hsize : chunkSize 64 line = some 0)
      (heol : LineEnd eol) : ChunkedBody (line ++ eol ++ behind) []
  | chunk {line eol data eol' text body : Bytes} (hline : lf ∉ line)
      (hsize : chunkSize 64 line = some data.length) (hne : data ≠ []) (heol : LineEnd eol)
      (heol' : LineEnd eol') (more : ChunkedBody text body) :
      ChunkedBody (line ++ eol ++ (data ++ (eol' ++ text))) (data ++ body)

/-- A chunk whose size is what it says, with its line end behind it. -/
def Passed.Clean (p : Passed) : Prop := p.size < 2 ^ 63 ∧ (p.line = [] ∨ p.line = [cr])

theorem lineEnd_iff {eol : Bytes} : LineEnd eol ↔ ∃ t, (t = [] ∨ t = [cr]) ∧ eol = t ++ [lf] := by
  constructor
  · rintro (rfl | rfl)
    · exact ⟨[], .inl rfl, rfl⟩
    · exact ⟨[cr], .inr rfl, rfl⟩
  · rintro ⟨t, rfl | rfl, rfl⟩
    · exact .inl rfl
    · exact .inr rfl

theorem lf_notMem_tail {t : Bytes} (ht : t = [] ∨ t = [cr]) : lf ∉ t := by
  rcases ht with rfl | rfl <;> decide

/-- The walk of a text with clean chunks is that of the grammar. -/
theorem Walk.chunkedBody {text : Bytes} {ps : List Passed} (h : Walk text ps) (hclean : ∀ p ∈ ps, p.Clean) :
    ChunkedBody text (ps.flatMap Passed.data) := by
  induction h with
  | @last line behind hline hsize =>
    have hbody : ChunkedBody (line ++ [lf] ++ behind) [] := .last hline hsize (.inl rfl)
    rwa [List.append_assoc] at hbody
  | @chunk line text p ps hline hsize hpos hdata hend more ih =>
    obtain ⟨hp, hps⟩ := List.forall_mem_cons.mp hclean
    rw [chunkBound_of_lt hp.1] at hdata
    have hne : p.data ≠ [] := fun hnil => hpos (by rw [← hdata, hnil]; rfl)
    have hbody : ChunkedBody (line ++ [lf] ++ (p.data ++ (p.line ++ [lf] ++ text)))
        (p.data ++ ps.flatMap Passed.data) :=
      .chunk hline (by rw [hdata, hsize]) hne (.inl rfl) (lineEnd_iff.mpr ⟨p.line, hp.2, rfl⟩) (ih hps)
    simpa only [List.append_assoc, List.singleton_append, List.flatMap_cons] using hbody

theorem line_lf_inj {line eol rest rest' : Bytes} (line' : Bytes) (hline : lf ∉ line) (hline' : lf ∉ line')
    (heol : LineEnd eol) (h : line ++ lf :: rest = line' ++ eol ++ rest') :
    ∃ t, (t = [] ∨ t = [cr]) ∧ line = line' ++ t ∧ rest = rest' := by
  obtain ⟨t, ht, rfl⟩ := lineEnd_iff.mp heol
  have heq : line ++ lf :: rest = line' ++ t ++ lf :: rest' := by simpa using h
  obtain ⟨rfl, rfl⟩ := append_lf_inj hline (by simp [hline', lf_notMem_tail ht]) heq
  exact ⟨t, ht, rfl, rfl⟩

/-- The walk of a text of the grammar has clean chunks. -/
theorem Walk.clean {text : Bytes} {ps : List Passed} (h : Walk text ps) (hlen : text.length < 2 ^ 63)
    {body : Bytes} (hbody : ChunkedBody text body) : ∀ p ∈ ps, p.Clean := by
  induction h generalizing body with
  | last => simp
  | @chunk line text p ps hline hsize hpos hdata hend more ih =>
    generalize htext : line ++ lf :: (p.data ++ (p.line ++ lf :: text)) = whole at hbody hlen
    cases hbody with
    | @last line' eol behind hline' hsize' heol =>
      obtain ⟨t, ht, rfl, -⟩ := line_lf_inj line' hline hline' heol htext
      rw [chunkSize_tail 64 line' ht, hsize'] at hsize
      exact absurd (Option.some.inj hsize).symm hpos
    | @chunk line' eol data eol' text' body hline' hsize' hne heol heol' more' =>
      obtain ⟨t, ht, rfl, hrest⟩ := line_lf_inj line' hline hline' heol htext
      rw [chunkSize_tail 64 line' ht, hsize'] at hsize
      have hsmall : data.length < 2 ^ 63 ∧ text'.length < 2 ^ 63 := by
        simp only [List.length_append] at hlen
        omega
      rw [← Option.some.inj hsize, chunkBound_of_lt hsmall.1] at hdata
      -- the data is the same, so what is behind it is its line end
      obtain ⟨-, hbehind⟩ := List.append_inj hrest hdata
      obtain ⟨t', ht', hp, rfl⟩ := line_lf_inj [] hend (by simp) heol' hbehind
      refine List.forall_mem_cons.mpr ⟨⟨?_, ?_⟩, ih hsmall.2 more'⟩
      · rw [← Option.some.inj hsize]
        exact hsmall.1
      · rwa [hp]

/-! ## The result -/

/-- The text begins with chunks of the grammar, and their data is what was added. -/
def Delivers (text before after : Bytes) : Prop := ∃ body, ChunkedBody text body ∧ after = before ++ body

/-- **What is accepted**: a call without an error goes through chunks and copies their data. If they are clean
they are chunks of the grammar; on a text that a counter of 63 bits can count, only then. -/
theorem chunked_success_iff {σ : Type} (w : Sink σ) (contents : σ → Bytes) (hw : Honest w contents)
    (text : Bytes) (e : ReadErr) (cuts : List Cut) (dst : σ)
    (h : (streamChunkedBody w (newLineReader (.start text e cuts)) dst 0).err = none) :
    ∃ ps after, Walk text ps ∧
      contents (streamChunkedBody w (newLineReader (.start text e cuts)) dst 0).dst = after ∧
      after = contents dst ++ ps.flatMap Passed.data ∧
      ((∀ p ∈ ps, p.Clean) → Delivers text (contents dst) after) ∧
      (text.length < 2 ^ 63 → (Delivers text (contents dst) after ↔ ∀ p ∈ ps, p.Clean)) := by
  obtain ⟨ps, hwalk, hdst⟩ := walk_of_success hw _ dst 0 h
  have hsuff : (∀ p ∈ ps, p.Clean) → Delivers text (contents dst) (contents dst ++ ps.flatMap Passed.data) :=
    fun hclean => ⟨_, hwalk.chunkedBody hclean, rfl⟩
  refine ⟨ps, _, hwalk, hdst, rfl, hsuff, fun hlen => ⟨?_, hsuff⟩⟩
  rintro ⟨body, hbody, -⟩
  exact hwalk.clean hlen hbody

theorem hi_success : (streamChunkedBody buffer (newLineReader (.start (encode hiLast [hiChunk]) .eof [])) []
    0).err = none := by
  have hlines : ∀ p ∈ sizeLines hiLast [hiChunk], p.1.length < httpLineMaxBytes := by decide
  have hlen : (encode hiLast [hiChunk]).length < 2 ^ 63 := by decide
  have hstream := streamChunkedBody_spec takes_buffer (chunkText_encode _ _ hlen) hlen (before_start _ .eof [])
    [] 0
  rw [if_pos fun p hp => fits_of_lt _ _ (hlines p hp)] at hstream
  exact hstream.1

theorem chunked_success_hi : Honest buffer id ∧ (encode hiLast [hiChunk]).length < 2 ^ 63 ∧
    ∃ ps after, Walk (encode hiLast [hiChunk]) ps ∧
      (streamChunkedBody buffer (newLineReader (.start (encode hiLast [hiChunk]) .eof [])) [] 0).dst = after ∧
      after = [] ++ ps.flatMap Passed.data ∧
      ((∀ p ∈ ps, p.Clean) → Delivers (encode hiLast [hiChunk]) [] after) ∧
      ((encode hiLast [hiChunk]).length < 2 ^ 63 →
        (Delivers (encode hiLast [hiChunk]) [] after ↔ ∀ p ∈ ps, p.Clean)) :=
  ⟨takes_buffer.honest, by decide,
    chunked_success_iff buffer id takes_buffer.honest (encode hiLast [hiChunk]) .eof [] [] hi_success⟩

/-- Two bytes of data where the size line says two, and a third behind them. -/
def overlong : Bytes := hiChunk.line ++ crlf ++ (hiChunk.data ++ (str "X" ++ crlf ++ encode hiLast []))

/-- The function takes them for a chunk of two bytes. -/
theorem chunked_success_overlong :
    (streamChunkedBody buffer (newLineReader (.start overlong .eof [])) [] 0).err = none ∧
      (streamChunkedBody buffer (newLineReader (.start overlong .eof [])) [] 0).dst = str "hi" ∧
      ¬ ∃ body, ChunkedBody overlong body := by
  obtain ⟨lr, dst, heq, hdst, hb, -⟩ : ∃ lr dst,
      streamChunkedBody buffer (newLineReader (.start overlong .eof [])) [] 0 =
        streamChunkedBody buffer lr dst (0 + hiChunk.data.length) ∧
      id dst = id [] ++ hiChunk.data ∧ Before (encode hiLast []) lr ∧ _ := by
    have hstep := streamChunkedBody_step takes_buffer hiChunk.lf_notMem_line (by decide +kernel) (by decide)
      (by decide) (str "X") (by decide) (by decide) (before_start overlong .eof []) rfl [] 0
    rwa [if_pos (fits_of_lt _ _ (by decide))] at hstep
  have hlines : ∀ p ∈ sizeLines hiLast [], p.1.length < httpLineMaxBytes := by decide
  have hlen : (encode hiLast []).length < 2 ^ 63 := by decide
  have hstream := streamChunkedBody_spec takes_buffer (chunkText_encode _ _ hlen) hlen hb dst
    (0 + hiChunk.data.length)
  rw [if_pos fun p hp => fits_of_lt _ _ (hlines p hp)] at hstream
  rw [heq]
  refine ⟨hstream.1, ?_, ?_⟩
  · have hcontents := hstream.2.2
    simp only [id, List.flatMap_nil, List.append_nil] at hcontents hdst
    rw [hcontents, hdst]
    rfl
  · rintro ⟨body, hbody⟩
    have hlast : Walk (str "0\r" ++ lf :: hiLast.behind) [] := .last (by decide) (by decide +kernel)
    have hwalk : Walk (str "2;a=b\r" ++ lf :: (str "hi" ++ (str "X\r" ++ lf :: (str "0\r" ++ lf ::
        hiLast.behind)))) [⟨2, str "hi", str "X\r"⟩] :=
      .chunk (p := ⟨2, str "hi", str "X\r"⟩) (by decide) (by decide +kernel) (by decide) (by decide) (by decide)
        hlast
    have hclean := hwalk.clean (by decide) hbody _ (List.mem_singleton_self _)
    exact absurd hclean.2 (by decide)

end TamagoUefi.Net
