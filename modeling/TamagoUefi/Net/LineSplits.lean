import TamagoUefi.Net.HttpResponse

/-!
# TamagoUefi.Net.LineSplits — lines under any split of the stream (`http.go`)

`ReadLine` leaves the CR on a line whose last read ended between the CR and the LF.  With `ends`, the
log of where the reads of a stream ended, this can be said of a line before it is read: `lineAs` is
what `ReadLine` makes of it, and it is too long when that is.

* `Before`: the reader is in front of a text, and all reads so far ended before it or at the end of
  what is buffered.
* `readLine_before`: the next line, for every split.
* `chunkSize_hex`: the size on a line in front of a chunk.
-/

namespace TamagoUefi.Net

open Go Lib

variable {n : ℕ}

namespace LineReader

/-! ## In front of a text -/

/-- The reads so far ended before the text, or at the end of the buffer. -/
def Settled (lr : LineReader) : Prop :=
  ∀ k ∈ lr.src.ends, k = lr.src.ahead.length ∨ lr.text.length ≤ k

structure Before (tail : Bytes) (lr : LineReader) : Prop where
  text : lr.text = tail
  logged : Logged lr
  settled : Settled lr

theorem before_start (raw : Bytes) (e : ReadErr) (cuts : List Cut) :
    Before raw (newLineReader (.start raw e cuts)) := ⟨rfl, .inl rfl, nofun⟩

variable {lr : LineReader} {tail : Bytes}

theorem Before.ahead_le (h : Before tail lr) : lr.src.ahead.length ≤ tail.length := by
  rw [← h.text, LineReader.text, List.length_append]
  omega

variable {err : Option ReadErr} {got : Bytes} {lr' : LineReader}

theorem read_settled (hread : lr.read n = (got, err, lr')) (h : Settled lr) : Settled lr' := by
  have hle : lr'.text.length ≤ lr.text.length := by
    rw [(read_spec hread).text, List.length_append]
    omega
  intro k hk
  unfold LineReader.read at hread
  split_ifs at hread with hb
  · cases hread
    -- the buffer stays empty, and the read ended where the text begins
    rw [(lr.src.read_spec n).ends] at hk
    rcases List.mem_cons.mp hk with rfl | hold
    · exact .inl rfl
    · rcases h k hold with rfl | hle'
      · refine .inr (hle.trans ?_)
        rw [LineReader.text, hb]
        exact le_rfl
      · exact .inr (hle.trans hle')
  · cases hread
    rcases h k hk with rfl | hle'
    · exact .inl rfl
    · exact .inr (hle.trans hle')

theorem Before.read (h : Before (got ++ tail) lr) (hread : lr.read n = (got, err, lr')) : Before tail lr' :=
  ⟨List.append_cancel_left ((read_spec hread).text.symm.trans h.text), read_logged hread h.logged,
    read_settled hread h.settled⟩

/-! ## Lines -/

/-- What `ReadLine` makes of a line with `behind` behind it. -/
def lineAs (ends : List ℕ) (line behind : Bytes) : Bytes :=
  if behind.length + 1 ∈ ends then line ++ [cr] else line

/-- `ReadLine` takes the line. -/
def Fits (ends : List ℕ) (line behind : Bytes) : Prop :=
  (lineAs ends line behind).length ≤ httpLineMaxBytes

instance (ends : List ℕ) (line behind : Bytes) : Decidable (Fits ends line behind) :=
  inferInstanceAs (Decidable (_ ≤ _))

/-- At most the CR is left on it. -/
theorem lineAs_eq (ends : List ℕ) (line behind : Bytes) :
    ∃ t, (t = [] ∨ t = [cr]) ∧ lineAs ends line behind = line ++ t := by
  unfold lineAs
  split_ifs
  · exact ⟨[cr], .inr rfl, rfl⟩
  · exact ⟨[], .inl rfl, (List.append_nil line).symm⟩

variable {line : Bytes}

/-- A line that is shorter than the limit is taken under every split. -/
theorem fits_of_lt (ends : List ℕ) (behind : Bytes) (h : line.length < httpLineMaxBytes) :
    Fits ends line behind := by
  obtain ⟨t, ht, heq⟩ := lineAs_eq ends line behind
  rw [Fits, heq, List.length_append]
  rcases ht with rfl | rfl
  · exact h.le
  · exact h

theorem fits_nil (ends : List ℕ) (behind : Bytes) : Fits ends [] behind := fits_of_lt ends behind (by decide)

variable {s s' : Source UInt8 ReadErr} {behind : Bytes}

/-- Where reads ended is settled for a line that has been read. -/
theorem lineAs_later (h : s.Later s') (line : Bytes) (hle : s.ahead.length ≤ behind.length) :
    lineAs s'.ends line behind = lineAs s.ends line behind := by
  unfold lineAs
  rw [if_congr (h.mem_ends_iff (Nat.lt_succ_of_le hle)) rfl rfl]

theorem fits_later (h : s.Later s') (line : Bytes) (hle : s.ahead.length ≤ behind.length) :
    Fits s'.ends line behind ↔ Fits s.ends line behind := by
  unfold Fits
  rw [lineAs_later h line hle]

/-- A line of which `acc` has been put aside, its CR only if the read before ended behind it. -/
structure Halfway (line rest : Bytes) (lr : LineReader) (acc : Bytes) : Prop where
  text : acc ++ lr.text = line ++ cr :: lf :: rest
  aside : lf ∉ acc
  cut : acc = line ++ [cr] → rest.length + 1 ∈ lr.src.ends
  logged : Logged lr
  settled : Settled lr

section
variable {line rest acc : Bytes} {lr lr' : LineReader}

/-- A piece without LF ends in the line, or behind its CR. -/
theorem Halfway.piece (h : Halfway line rest lr acc) (hb : lf ∉ lr.buffered) :
    acc ++ lr.buffered <+: line ++ [cr] ∧
      (acc ++ lr.buffered = line ++ [cr] → rest.length + 1 ∈ lr.src.ends) := by
  have heq : acc ++ lr.buffered ++ lr.src.ahead = (line ++ [cr]) ++ lf :: rest := by
    have := h.text
    simpa [LineReader.text] using this
  have hpiece : lf ∉ acc ++ lr.buffered := by simp [h.aside, hb]
  have hpre : acc ++ lr.buffered <+: line ++ [cr] := by
    rcases List.append_eq_append_iff.mp heq with ⟨as, has, -⟩ | ⟨bs, hbs, hahead⟩
    · exact ⟨as, has.symm⟩
    · cases bs with
      | nil => exact ⟨[], by simpa using hbs⟩
      | cons c bs =>
        obtain ⟨rfl, -⟩ := List.cons.inj hahead
        simp [hbs] at hpiece
  refine ⟨hpre, fun hall => ?_⟩
  by_cases hnil : lr.buffered = []
  · rw [hnil, List.append_nil] at hall
    exact h.cut hall
  · have hahead : lr.src.ahead = lf :: rest := by
      rw [hall] at heq
      exact List.append_cancel_left heq
    have := h.logged.resolve_left hnil
    rwa [hahead, List.length_cons] at this

theorem Halfway.more (h : Halfway line rest lr acc) (hb : lf ∉ lr.buffered)
    (hr : Refilled lr err lr') : Halfway line rest lr' (acc ++ lr.buffered) := by
  refine ⟨?_, by simp [h.aside, hb], fun hall => ?_, .inr ?_, fun k hk => ?_⟩
  · rw [← hr.ahead, List.append_assoc]
    exact h.text
  · rw [hr.ends]
    exact List.mem_cons_of_mem _ ((h.piece hb).2 hall)
  · rw [hr.ends]
    exact List.mem_cons_self
  · rw [hr.ends] at hk
    rcases List.mem_cons.mp hk with rfl | hold
    · exact .inl rfl
    · refine .inr ?_
      rw [← hr.ahead]
      rcases h.settled k hold with rfl | hle
      · exact le_rfl
      · refine le_trans ?_ hle
        rw [LineReader.text, List.length_append]
        omega

end

variable {rest : Bytes}

/-- **The rounds of `ReadLine` under any split.** -/
theorem readLineFrom_halfway (lr : LineReader) (acc : Bytes) (hline : lf ∉ line)
    (h : Halfway line rest lr acc) :
    if Fits (readLineFrom lr acc).2.src.ends line rest then
      (readLineFrom lr acc).1 = .ok (lineAs (readLineFrom lr acc).2.src.ends line rest) ∧
        Before rest (readLineFrom lr acc).2
    else (readLineFrom lr acc).1 = .error .lineTooLong := by
  revert h
  refine readLineFrom_rule (P := fun lr acc r => Halfway line rest lr acc →
    if Fits r.2.src.ends line rest then
      r.1 = .ok (lineAs r.2.src.ends line rest) ∧ Before rest r.2
    else r.1 = .error .lineTooLong) ?_ ?_ ?_ ?_ lr acc
  · intro lr acc pre post hb hpre h
    have heq : acc ++ pre ++ lf :: (post ++ lr.src.ahead) = (line ++ [cr]) ++ lf :: rest := by
      have := h.text
      simpa [text, hb] using this
    obtain ⟨hl, hrest⟩ := append_lf_inj (by simp [h.aside, hpre]) (by simp [hline, cr_ne_lf.symm]) heq
    have hgot : acc ++ stripCR pre = lineAs lr.src.ends line rest := by
      rcases List.eq_nil_or_concat' pre with rfl | ⟨p, c, rfl⟩
      · -- the CR has been put aside
        rw [List.append_nil] at hl
        rw [lineAs, if_pos (h.cut hl), ← hl]
        simp [stripCR]
      · rw [← List.append_assoc] at hl
        obtain ⟨rfl, hc⟩ := List.append_inj' hl rfl
        obtain ⟨rfl, -⟩ := List.cons.inj hc
        -- the last read went on behind the LF
        have hno : rest.length + 1 ∉ lr.src.ends := by
          intro hmem
          have hlen := congrArg List.length hrest
          rw [List.length_append] at hlen
          rcases h.settled _ hmem with hk | hk
          · omega
          · rw [text, hb] at hk
            simp only [List.length_append, List.length_cons, List.length_nil] at hk
            omega
        rw [lineAs, if_neg hno, stripCR_concat]
    have hbefore : Before rest { lr with buffered := post } := by
      refine ⟨hrest, .inr ?_, fun k hk => ?_⟩
      · exact h.logged.resolve_left (by simp [hb])
      · rcases h.settled k hk with rfl | hle
        · exact .inl rfl
        · refine .inr (le_trans ?_ hle)
          simp only [text, hb, List.length_append, List.length_cons]
          omega
    dsimp only
    rw [hgot]
    by_cases hfits : Fits lr.src.ends line rest
    · rw [if_pos hfits, if_neg (Nat.not_lt.mpr hfits)]
      exact ⟨rfl, hbefore⟩
    · rw [if_neg hfits, if_pos (Nat.lt_of_not_le hfits)]
  · intro lr acc hb hlong h
    obtain ⟨hpre, hcut⟩ := h.piece hb
    have hno : ¬ Fits lr.src.ends line rest := by
      have hle := hpre.length_le
      unfold Fits lineAs
      split_ifs with hmem
      · omega
      · -- the piece ends before the CR
        have hne : acc ++ lr.buffered ≠ line ++ [cr] := fun hall => hmem (hcut hall)
        have hlt : (acc ++ lr.buffered).length ≠ (line ++ [cr]).length :=
          fun hlen => hne (hpre.eq_of_length hlen)
        simp only [List.length_append, List.length_singleton] at hle hlt hlong
        omega
    dsimp only
    rw [if_neg hno]
  · intro lr acc lr' hb _ hr hend h
    have hnil : lr.src.ahead = [] := hr.ahead.trans hend
    have hmem : lf ∈ acc ++ lr.text := by
      rw [h.text]
      simp
    rw [text, hnil, List.append_nil] at hmem
    exact absurd hmem (by simp [h.aside, hb])
  · intro lr acc err lr' hb _ hrefill ih h
    exact ih (h.more hb (refill_spec hrefill))

variable {r : Except ReadErr Bytes}

/-- **The next line, for every split.** -/
theorem readLine_before (h : Before (line ++ crlf ++ rest) lr) (hline : lf ∉ line)
    (hread : lr.readLine = (r, lr')) :
    if Fits lr'.src.ends line rest then r = .ok (lineAs lr'.src.ends line rest) ∧ Before rest lr'
    else r = .error .lineTooLong := by
  have hhalf : Halfway line rest lr [] := by
    refine ⟨?_, by simp, by simp, h.logged, h.settled⟩
    rw [List.nil_append, h.text, crlf]
    simp
  have hline := readLineFrom_halfway lr [] hline hhalf
  rw [readLine] at hread
  rwa [hread] at hline

theorem readLine_nil (h : lr.text = []) (hread : lr.readLine = (r, lr')) : r = .error lr.src.err := by
  have hk : ∀ k, EndsAt lr k → Harmless ([] ++ lr.text) (([] : Bytes).length + k) := by
    intro k hk
    have hle := hk.le
    rw [h, List.length_nil] at hle
    obtain rfl : k = 0 := Nat.le_zero.mp hle
    rw [h]
    decide
  have hline := (readLineFrom_whole lr [] (aside_nil lr) hk).1
  rw [readLine] at hread
  rw [hread, h] at hline
  exact hline

end LineReader

/-! ## Lines in front of chunks -/

/-- What may stand behind the size: nothing, or extensions behind blanks and a `;`. -/
def Extension (ext : Bytes) : Prop :=
  ext = [] ∨ ∃ blanks more, ext = blanks ++ ';'.toUInt8 :: more ∧
    ∀ c ∈ blanks, c = ' '.toUInt8 ∨ c = '\t'.toUInt8

theorem hexVal_of_parse {digits : Bytes} {bits : ℕ} (h : parseUintHex digits bits = some n) :
    ∀ c ∈ digits, hexVal c ≠ none := by
  have hfold : ∀ (s : Bytes) (m k : ℕ), s.foldlM (fun n c => (hexVal c).map (n * 16 + ·)) m = some k →
      ∀ c ∈ s, hexVal c ≠ none := by
    intro s
    induction s with
    | nil => simp
    | cons d s ih =>
      intro m k hk c hc
      rw [List.foldlM_cons] at hk
      obtain ⟨m', hd, hrest⟩ := Option.bind_eq_some_iff.mp hk
      rcases List.mem_cons.mp hc with rfl | hc
      · intro hnone
        simp [hnone] at hd
      · exact ih m' k hrest c hc
  unfold parseUintHex at h
  split_ifs at h
  exact hfold digits 0 n (Option.filter_eq_some_iff.mp h).1

section
variable {digits ext t : Bytes}

theorem trimSpace_hex {blanks : Bytes} (h : ∀ c ∈ digits, hexVal c ≠ none) (hb : ∀ c ∈ blanks, [c] ∈ spaces) :
    trimSpace (digits ++ blanks) = digits := by
  rw [trimSpace_append hb]
  refine trimSpace_eq_self fun v hv c hc hmem => h c hmem ?_
  have hno : ∀ v ∈ spaces, ∀ c ∈ v, hexVal c = none := by decide +kernel
  exact hno v hv c hc

theorem mem_spaces_of_tail (ht : t = [] ∨ t = [cr]) : ∀ c ∈ t, [c] ∈ spaces := by
  rcases ht with rfl | rfl
  · simp
  · decide +kernel

/-- The size on a line does not depend on the CR that `ReadLine` may leave. -/
theorem chunkSize_tail (bits : ℕ) (line : Bytes) (ht : t = [] ∨ t = [cr]) :
    chunkSize bits (line ++ t) = chunkSize bits line := by
  have hsemi : ';'.toUInt8 ∉ t := by
    rcases ht with rfl | rfl <;> decide
  unfold chunkSize
  by_cases hmem : ';'.toUInt8 ∈ line
  · obtain ⟨pre, post, rfl, hpre⟩ := List.eq_append_cons_of_mem hmem
    rw [List.append_assoc, List.cons_append, indexByte_append hpre, indexByte_append hpre]
    simp only [List.take_left]
  · rw [indexByte_eq_none.mpr hmem, indexByte_eq_none.mpr (by simp [hmem, hsemi])]
    simp only
    rw [trimSpace_append (mem_spaces_of_tail ht)]

/-- **A size line**: the extensions do not matter. -/
theorem chunkSize_hex (h : ∀ c ∈ digits, hexVal c ≠ none) (hext : Extension ext) (bits : ℕ) :
    chunkSize bits (digits ++ ext) = parseUintHex digits bits := by
  have hdigits : ';'.toUInt8 ∉ digits := fun hmem => h _ hmem (by decide)
  unfold chunkSize
  rcases hext with rfl | ⟨blanks, more, rfl, hblanks⟩
  · have htrim : trimSpace (digits ++ []) = digits := trimSpace_hex h (by simp)
    rw [List.append_nil] at htrim ⊢
    rw [indexByte_eq_none.mpr hdigits]
    simp only [htrim]
  · have hsep : ';'.toUInt8 ∉ digits ++ blanks := by
      intro hmem
      rcases List.mem_append.mp hmem with hmem | hmem
      · exact hdigits hmem
      · rcases hblanks _ hmem with heq | heq
        · exact absurd heq (by decide)
        · exact absurd heq (by decide)
    rw [← List.append_assoc, indexByte_append hsep]
    simp only
    rw [List.take_left, trimSpace_hex h]
    intro c hc
    rcases hblanks c hc with rfl | rfl
    · decide
    · decide

end

end TamagoUefi.Net
