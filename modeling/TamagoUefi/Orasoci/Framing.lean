import TamagoUefi.Orasoci.Copies

/-!
# TamagoUefi.Orasoci.Framing — where the body of an answer ends (`orasoci/transport.go`)

`Frames` says which body an answer has: none to `HEAD` and with 1xx, 204 and 304; else by chunks, by
`Content-Length`, or until the connection closes.  `RoundTrip` knows the last three only, chunks only
when they are the only transfer coding, and the end of the connection only as `io.EOF`.

* `HeadFits`: `ReadLine` takes status line and header lines, and sees the empty line behind them.
* `Agrees`: the copy that `streamBodyOnly` picks gives the body of the answer.
* `body_meets_iff`: `Body` gives the body and `io.EOF` exactly when both hold.
-/

namespace TamagoUefi.Orasoci

open Go Lib Net LineReader

/-! ## Answers -/

/-- The transfer codings that a value of `Transfer-Encoding` lists. -/
def codings (v : Bytes) : List Bytes :=
  ((v.splitOn ','.toUInt8).map (trim · (str " \t"))).filter (· ≠ [])

/-- The last transfer coding is `chunked`. -/
def lastChunked (r : Response) : Bool :=
  r.encodings.any fun v => (codings v).getLast?.any (equalFold · (str "chunked"))

/-- An answer that has no body, whatever its header says. -/
def bodyless (method : Bytes) (code : ℤ) : Bool :=
  method = str "HEAD" ∨ (100 ≤ code ∧ code < 200) ∨ code = 204 ∨ code = 304

/-- The body of an answer to a request with this method. -/
def Frames (method : Bytes) (r : Response) (code : ℤ) (body : Bytes) : Prop :=
  if bodyless method code then r.rest = [] ∧ body = []
  else if lastChunked r then Chunked (fun _ _ => True) r.rest body
  else
    match r.lengths.head? with
    | some v => ∃ n, parseDec v = some n ∧ n ≤ r.rest.length ∧ body = r.rest.take n
    | none => body = r.rest

def sp : UInt8 := ' '.toUInt8

/-- The status line `HTTP/x code reason`; the blank before the reason is there even if that is empty. -/
def StatusLine (line : Bytes) (code : ℤ) : Prop :=
  ∃ proto num reason, line = proto ++ sp :: (num ++ sp :: reason) ∧ sp ∉ proto ∧ sp ∉ num ∧
    hasPrefix proto (str "HTTP/") = true ∧ parseInt64 num = some code

/-- A complete answer to a request with this method.  The code counts its bytes in an `int64`. -/
structure Answers (method : Bytes) (r : Response) (code : ℤ) (body : Bytes) : Prop where
  status : StatusLine r.statusLine code
  lines : ∀ l ∈ r.statusLine :: r.fields, lf ∉ l
  fields : ∀ l ∈ r.fields, headerField l ≠ none
  oneLength : r.lengths.length ≤ 1
  oneEncoding : r.encodings.length ≤ 1
  size : r.render.length < 2 ^ 63
  body : Frames method r code body

/-! ## The head -/

/-- `ReadLine` takes the lines, with `after` behind the last. -/
def LinesFit (ends : List ℕ) : List Bytes → Bytes → Prop
  | [], _ => True
  | l :: ls, after => Fits ends l (ls.flatMap (· ++ crlf) ++ after) ∧ LinesFit ends ls after

/-- `ReadLine` takes the lines of the head, and no read ends within the CRLF of the empty line. -/
def HeadFits (ends : List ℕ) (r : Response) : Prop :=
  LinesFit ends (r.statusLine :: r.fields) (crlf ++ r.rest) ∧ r.rest.length + 1 ∉ ends

variable {s s' : Source UInt8 ReadErr}

theorem linesFit_later (h : s.Later s') (lines : List Bytes) {after : Bytes}
    (hle : s.ahead.length ≤ after.length) : LinesFit s'.ends lines after ↔ LinesFit s.ends lines after := by
  induction lines with
  | nil => exact Iff.rfl
  | cons l ls ih =>
    have hbehind : s.ahead.length ≤ (ls.flatMap (· ++ crlf) ++ after).length := by
      rw [List.length_append]
      omega
    rw [LinesFit, LinesFit, fits_later h l hbehind, ih]

variable {r : Response}

theorem headFits_later (h : s.Later s') (hle : s.ahead.length ≤ r.rest.length) :
    HeadFits s'.ends r ↔ HeadFits s.ends r := by
  have hafter : s.ahead.length ≤ (crlf ++ r.rest).length := by
    rw [List.length_append]
    omega
  rw [HeadFits, HeadFits, linesFit_later h _ hafter, h.mem_ends_iff (Nat.lt_succ_of_le hle)]

variable {line t : Bytes}

/-- The CR that `ReadLine` may leave on the line does not matter. -/
theorem headerField_append (h : headerField line ≠ none) (ht : t = [] ∨ t = [cr]) :
    headerField (line ++ t) = headerField line := by
  have htail := mem_spaces_of_tail ht
  unfold headerField at h ⊢
  cases hi : indexByte line ':'.toUInt8 with
  | none => simp [hi] at h
  | some i =>
    obtain ⟨hsplit, hpre⟩ := indexByte_eq_some hi
    generalize line.take i = name at hsplit hpre
    generalize line.drop (i + 1) = value at hsplit
    subst hsplit
    rw [indexByte_append hpre] at hi
    obtain rfl := Option.some.inj hi
    rw [List.append_assoc, List.cons_append, indexByte_append hpre]
    have hdrop : ∀ v : Bytes, (name ++ ':'.toUInt8 :: v).drop (name.length + 1) = v := by
      intro v
      rw [List.drop_append]
      simp
    simp only [Option.map_some, List.take_left, hdrop, trimSpace_append htail]

variable {headers : Headers}

theorem addHeader_append (h : headerField line ≠ none) (ht : t = [] ∨ t = [cr]) :
    addHeader headers (line ++ t) = addHeader headers line := by
  have hne := ne_nil_of_headerField h
  unfold addHeader
  rw [headerField_append h ht, if_neg (by simp [hne]), if_neg (by simp [hne])]

variable {br br' : LineReader}

theorem readHeaders_unfold (br : LineReader) (headers : Headers) : readHeaders br headers =
    match br.readLine with
    | (.error e, br') => (.error (.read e), br')
    | (.ok line, br') =>
      if line = [] then (.ok headers, br')
      else
        match addHeader headers line with
        | .error _ => (.error .badHeader, br')
        | .ok headers' => readHeaders br' headers' := by
  fun_cases readHeaders br headers <;> simp_all +zetaDelta

/-- **The loop over the header lines.** -/
theorem readHeaders_spec {fields : List Bytes} {rest : Bytes} (hlines : ∀ l ∈ fields, lf ∉ l)
    (hfields : ∀ l ∈ fields, headerField l ≠ none)
    (hb : Before (fields.flatMap (· ++ crlf) ++ (crlf ++ rest)) br) (headers : Headers) :
    (LinesFit (readHeaders br headers).2.src.ends fields (crlf ++ rest) ∧
        rest.length + 1 ∉ (readHeaders br headers).2.src.ends →
      ∃ headers', fields.foldlM addHeader headers = .ok headers' ∧
        (readHeaders br headers).1 = .ok headers' ∧ Before rest (readHeaders br headers).2) ∧
    (¬ (LinesFit (readHeaders br headers).2.src.ends fields (crlf ++ rest) ∧
        rest.length + 1 ∉ (readHeaders br headers).2.src.ends) →
      ∃ e, (readHeaders br headers).1 = .error e) := by
  induction fields generalizing br headers with
  | nil =>
    have hb' : Before ([] ++ crlf ++ rest) br := hb
    rcases hread : br.readLine with ⟨r, br'⟩
    have hline := readLine_before hb' (by simp) hread
    rw [if_pos (fits_nil _ _)] at hline
    obtain ⟨rfl, hrest⟩ := hline
    rw [readHeaders_unfold, hread]
    dsimp only
    by_cases hsplit : rest.length + 1 ∈ br'.src.ends
    · -- the CR is a header line
      rw [lineAs, if_pos hsplit, if_neg (by simp)]
      refine ⟨fun h => absurd hsplit h.2, fun _ => ⟨.badHeader, rfl⟩⟩
    · rw [lineAs, if_neg hsplit, if_pos rfl]
      exact ⟨fun _ => ⟨headers, rfl, rfl, hrest⟩, fun hno => absurd ⟨trivial, hsplit⟩ hno⟩
  | cons l ls ih =>
    rw [List.flatMap_cons, List.append_assoc] at hb
    rcases hread : br.readLine with ⟨r, br'⟩
    have hline := readLine_before hb (hlines l (by simp)) hread
    by_cases hfits : Fits br'.src.ends l (ls.flatMap (· ++ crlf) ++ (crlf ++ rest))
    · rw [if_pos hfits] at hline
      obtain ⟨t, ht, heq⟩ := lineAs_eq br'.src.ends l (ls.flatMap (· ++ crlf) ++ (crlf ++ rest))
      rw [heq] at hline
      obtain ⟨rfl, hb'⟩ := hline
      have hl := hfields l (by simp)
      obtain ⟨headers', hadd⟩ : ∃ headers', addHeader headers l = .ok headers' := by
        obtain ⟨⟨k, v⟩, hkv⟩ := Option.ne_none_iff_exists'.mp hl
        exact ⟨_, addHeader_of_field hkv⟩
      rw [readHeaders_unfold, hread]
      simp only [List.append_eq_nil_iff, ne_nil_of_headerField hl, false_and, if_false, addHeader_append hl ht, hadd]
      have hlater := later_readHeaders br' headers'
      rw [LinesFit, fits_later hlater l hb'.ahead_le, List.foldlM_cons, hadd]
      obtain ⟨hgood, hbad⟩ := ih (fun m hm => hlines m (by simp [hm]))
        (fun m hm => hfields m (by simp [hm])) hb' headers'
      exact ⟨fun h => hgood ⟨h.1.2, h.2⟩, fun hno => hbad fun h => hno ⟨⟨hfits, h.1⟩, h.2⟩⟩
    · rw [if_neg hfits] at hline
      rw [readHeaders_unfold, hread, hline]
      exact ⟨fun h => absurd h.1.1 hfits, fun _ => ⟨_, rfl⟩⟩

theorem splitN_status {proto num reason : Bytes} (hp : sp ∉ proto) (hn : sp ∉ num) :
    splitN (proto ++ sp :: (num ++ sp :: reason)) sp 3 = [proto, num, reason] := by
  rw [splitN, indexByte_append hp]
  simp only
  rw [List.take_left, List.drop_append, splitN]
  simp only [Nat.add_sub_cancel_left, List.drop_succ_cons, List.drop_zero]
  rw [List.drop_of_length_le (Nat.le_succ _), List.nil_append, indexByte_append hn]
  simp only
  rw [List.take_left, List.drop_append, splitN]
  simp

variable {code : ℤ}

/-- Behind a status line, whatever the line ends with, come the headers. -/
theorem readStatusAndHeaders_status (hstatus : StatusLine line code)
    (hread : br.readLine = (.ok (line ++ t), br')) :
    readStatusAndHeaders br =
      ((readHeaders br' fun _ => none).1.map (code, ·), (readHeaders br' fun _ => none).2) := by
  obtain ⟨proto, num, reason, hline, hproto, hnum, hhttp, hcode⟩ := hstatus
  have hsplit : splitN (line ++ t) ' '.toUInt8 3 = [proto, num, reason ++ t] := by
    have hthree := @splitN_status proto num (reason ++ t) hproto hnum
    rw [hline]
    simp only [List.append_assoc, List.cons_append]
    exact hthree
  unfold readStatusAndHeaders
  rw [hread]
  simp only [hsplit, hhttp, if_true, hcode]
  rcases readHeaders br' fun _ => none with ⟨_ | headers, br''⟩ <;> rfl

/-- **Status line and headers.** -/
theorem readStatusAndHeaders_lines (hstatus : StatusLine r.statusLine code)
    (hlines : ∀ l ∈ r.statusLine :: r.fields, lf ∉ l) (hfields : ∀ l ∈ r.fields, headerField l ≠ none)
    (hb : Before r.render br) :
    (HeadFits (readStatusAndHeaders br).2.src.ends r →
      ∃ headers, r.fields.foldlM addHeader (fun _ => none) = .ok headers ∧
        (readStatusAndHeaders br).1 = .ok (code, headers) ∧
        Before r.rest (readStatusAndHeaders br).2) ∧
    (¬ HeadFits (readStatusAndHeaders br).2.src.ends r →
      ∃ e, (readStatusAndHeaders br).1 = .error e) := by
  have hb₀ : Before (r.statusLine ++ crlf ++ (r.fields.flatMap (· ++ crlf) ++ (crlf ++ r.rest))) br := by
    rwa [Response.render, List.flatMap_cons, List.append_assoc (r.statusLine ++ crlf)] at hb
  rcases hread : br.readLine with ⟨res, br'⟩
  have hline := readLine_before hb₀ (hlines _ List.mem_cons_self) hread
  unfold HeadFits
  rw [LinesFit]
  by_cases hfits : Fits br'.src.ends r.statusLine (r.fields.flatMap (· ++ crlf) ++ (crlf ++ r.rest))
  · rw [if_pos hfits] at hline
    obtain ⟨t, ht, heq⟩ := lineAs_eq br'.src.ends r.statusLine
      (r.fields.flatMap (· ++ crlf) ++ (crlf ++ r.rest))
    rw [heq] at hline
    obtain ⟨rfl, hb'⟩ := hline
    rw [readStatusAndHeaders_status hstatus hread]
    -- what the reader meets behind the status line does not change how it met that line
    have hlater := later_readHeaders br' fun _ => none
    have hfirst := (fits_later hlater r.statusLine hb'.ahead_le).mpr hfits
    obtain ⟨hgood, hbad⟩ := readHeaders_spec (fun l hl => hlines l (List.mem_cons_of_mem _ hl)) hfields
      hb' fun _ => none
    constructor
    · intro hfit
      obtain ⟨headers, hfold, hok, hb''⟩ := hgood ⟨hfit.1.2, hfit.2⟩
      exact ⟨headers, hfold, congrArg (Except.map (code, ·)) hok, hb''⟩
    · intro hno
      obtain ⟨e, herr⟩ := hbad fun hfit => hno ⟨⟨hfirst, hfit.1⟩, hfit.2⟩
      exact ⟨e, congrArg (Except.map (code, ·)) herr⟩
  · rw [if_neg hfits] at hline
    rw [hline] at hread
    unfold readStatusAndHeaders
    rw [hread]
    exact ⟨fun h => absurd h.1.1 hfits, fun _ => ⟨_, rfl⟩⟩

theorem readStatusAndHeaders_spec {method : Bytes} {body : Bytes} (h : Answers method r code body)
    (hb : Before r.render br) :
    (HeadFits (readStatusAndHeaders br).2.src.ends r →
      ∃ headers, (readStatusAndHeaders br).1 = .ok (code, headers) ∧
        headers (str "transfer-encoding") = r.encodings.head? ∧
        headers (str "content-length") = r.lengths.head? ∧ Before r.rest (readStatusAndHeaders br).2) ∧
    (¬ HeadFits (readStatusAndHeaders br).2.src.ends r →
      ∃ e, (readStatusAndHeaders br).1 = .error e) := by
  obtain ⟨hgood, hbad⟩ := readStatusAndHeaders_lines h.status h.lines h.fields hb
  obtain ⟨headers, hfold, hval⟩ := addHeaders_eq r.fields (fun _ => none) h.fields
  refine ⟨fun hfit => ?_, hbad⟩
  obtain ⟨headers', hfold', hok, hrest⟩ := hgood hfit
  obtain rfl := Except.ok.inj (hfold.symm.trans hfold')
  exact ⟨headers, hok, hval _ h.oneEncoding, hval _ h.oneLength, hrest⟩

/-! ## The body -/

/-- What `streamBodyOnly` makes of the answer is its body. -/
def Agrees (req : Request) (r : Response) (code : ℤ) (body : Bytes) (ends : List ℕ) : Prop :=
  if bodyless req.method code then
    -- it waits for chunks, for the bytes of the length, or for the end
    if r.chunked then req.scheme = .https
    else
      match r.lengths.head? with
      | some v => lengthOf v = some 0
      | none => req.scheme = .https
  else if r.chunked then Chunked (Fits ends) r.rest body
  else
    match r.lengths.head? with
    -- the chunks behind another coding are taken for the body
    | some v => lastChunked r → ∃ n, lengthOf v = some n ∧ n ≤ r.rest.length ∧ r.rest.take n = body
    | none => ¬ lastChunked r ∧ req.scheme = .https

theorem takes_pipe : Takes pipe id := ⟨fun _ _ => rfl, fun _ _ => rfl, fun _ _ => rfl⟩

variable {v : Bytes}

theorem lengthOf_of_parseDec {n : ℕ} (h : parseDec v = some n) (hn : n < 2 ^ 63) : lengthOf v = some n := by
  have hint : parseInt64 v = some (n : ℤ) := by
    unfold parseInt64
    split
    · simp [parseDec, decDigit] at h
    · simp [parseDec, decDigit] at h
    · rw [h, Option.bind_some, if_pos hn]
  simp [lengthOf, hint]

/-- `chunked` alone is the last coding. -/
theorem lastChunked_of_chunked (h : r.chunked = true) : lastChunked r = true := by
  unfold Response.chunked at h
  unfold lastChunked
  rw [List.any_eq_true] at h ⊢
  obtain ⟨v, hv, hfold⟩ := h
  refine ⟨v, hv, ?_⟩
  have hfold' : fold v = str "chunked" := by
    have : fold (str "chunked") = str "chunked" := by decide
    rw [← this]
    simpa [equalFold] using hfold
  have hno : ∀ c : UInt8, c < 0x80 → asciiLower c ∉ str "chunked" → c ∉ v := by
    intro c hc hlower hmem
    rw [← hfold'] at hlower
    exact hlower (asciiLower_mem_fold hmem hc)
  have hcomma : ','.toUInt8 ∉ v := hno _ (by decide) (by decide)
  have htrim : trim v (str " \t") = v := by
    refine trim_eq_self fun c hc => Bool.eq_false_iff.mpr fun hmem => ?_
    have hblank : c = 32 ∨ c = 9 := by simpa [str] using hmem
    rcases hblank with rfl | rfl
    · exact hno _ (by decide) (by decide) hc
    · exact hno _ (by decide) (by decide) hc
  have hne : v ≠ [] := by
    rintro rfl
    cases hfold'
  have hcodings : codings v = [v] := by
    rw [codings, List.splitOn_eq_singleton hcomma]
    simp [htrim, hne]
  rw [hcodings]
  simpa using hfold

section
variable {req : Request} {r : Response} {code : ℤ} {body : Bytes} {br : LineReader} {headers : Headers}
variable (h : Answers req.method r code body)
include h

theorem rest_lt : r.rest.length < 2 ^ 63 := by
  have hsize := h.size
  rw [Response.render, List.length_append, List.length_append] at hsize
  omega

theorem streamBodyOnly_chunked (hb : Before r.rest br)
    (herr : br.src.err = req.scheme.closed) (hch : r.chunked = true) :
    ((streamChunked pipe br [] 0).dst = body ∧ closeWith (streamChunked pipe br [] 0).err = .eof) ↔
      Agrees req r code body (streamChunked pipe br [] 0).br.src.ends := by
  have hbody := h.body
  unfold Frames at hbody
  unfold Agrees
  by_cases hless : bodyless req.method code = true
  · rw [if_pos hless] at hbody ⊢
    rw [if_pos hch]
    obtain ⟨hrest, rfl⟩ := hbody
    rcases hread : br.readLine with ⟨res, br'⟩
    obtain rfl := readLine_nil (hb.text.trans hrest) hread
    rw [streamChunked_error hread, herr, closeWith_eq_eof]
    cases req.scheme with
    | http => simp [Scheme.closed]
    | https => simp [Scheme.closed]
  · rw [if_neg hless, if_pos (lastChunked_of_chunked hch)] at hbody
    rw [if_neg hless, if_pos hch]
    obtain ⟨hgood, hbad⟩ := streamChunked_spec takes_pipe hbody (rest_lt h) hb [] 0
    constructor
    · intro hdone
      by_contra hno
      rw [hbad hno] at hdone
      cases hdone.2
    · intro hfit
      obtain ⟨hnone, hdst⟩ := hgood hfit
      rw [hnone]
      exact ⟨hdst, rfl⟩

theorem streamBodyOnly_length (hb : Before r.rest br) (ha : Apart br)
    (hch : ¬ r.chunked = true) (hv : r.lengths.head? = some v)
    (hte : headers (str "transfer-encoding") = r.encodings.head?)
    (hcl : headers (str "content-length") = some v) (ends : List ℕ) :
    ((streamBodyOnly pipe br [] headers).dst = body ∧
        closeWith (streamBodyOnly pipe br [] headers).err = .eof) ↔ Agrees req r code body ends := by
  have hno : ¬ (headers (str "transfer-encoding")).any (equalFold · (str "chunked")) = true := by
    rw [hte, Response.any_of_length_le_one _ h.oneEncoding]
    exact hch
  have hiff : ((streamBodyOnly pipe br [] headers).dst = body ∧
      closeWith (streamBodyOnly pipe br [] headers).err = .eof) ↔
      ∃ n, lengthOf v = some n ∧ n ≤ r.rest.length ∧ r.rest.take n = body := by
    unfold streamBodyOnly lengthOf
    rw [if_neg hno, hcl]
    simp only
    cases parseInt64 v with
    | none => simp [closeWith]
    | some n =>
      simp only [Option.bind_some]
      by_cases hneg : n < 0
      · rw [if_pos hneg, if_pos hneg]
        simp [closeWith]
      · rw [if_neg hneg, if_neg hneg]
        have hcopy := streamBounded_iff takes_pipe n.toNat ha [] body
        rw [hb.text] at hcopy
        simpa using hcopy
  have hbody := h.body
  unfold Frames at hbody
  unfold Agrees
  rw [hiff, hv]
  by_cases hless : bodyless req.method code = true
  · rw [if_pos hless] at hbody ⊢
    obtain ⟨hrest, rfl⟩ := hbody
    rw [if_neg hch, hrest]
    simp
  · rw [if_neg hless] at hbody ⊢
    by_cases hlast : lastChunked r = true
    · rw [if_neg hch]
      simp [hlast]
    · rw [if_neg hlast, hv] at hbody
      obtain ⟨n, hn, hle, rfl⟩ := hbody
      have hlen := lengthOf_of_parseDec hn (Nat.lt_of_le_of_lt hle (rest_lt h))
      rw [if_neg hch]
      exact iff_of_true ⟨n, hlen, hle, rfl⟩ fun hyes => absurd hyes hlast

theorem streamBodyOnly_close (hb : Before r.rest br)
    (herr : br.src.err = req.scheme.closed) (hch : ¬ r.chunked = true) (hv : r.lengths.head? = none)
    (ends : List ℕ) :
    ((streamIdentity pipe br [] 0).dst = body ∧ closeWith (streamIdentity pipe br [] 0).err = .eof) ↔
      Agrees req r code body ends := by
  have hiff : ((streamIdentity pipe br [] 0).dst = body ∧
      closeWith (streamIdentity pipe br [] 0).err = .eof) ↔ r.rest = body ∧ req.scheme = .https := by
    obtain ⟨hend, hdst⟩ := streamIdentity_spec takes_pipe br [] 0
    rw [hb.text] at hdst
    rw [hend, herr]
    change (streamIdentity pipe br [] 0).dst = r.rest at hdst
    rw [hdst]
    cases req.scheme with
    | http => simp [Scheme.closed, closeWith]
    | https => simp [Scheme.closed, closeWith]
  have hbody := h.body
  unfold Frames at hbody
  unfold Agrees
  rw [hiff, hv]
  by_cases hless : bodyless req.method code = true
  · rw [if_pos hless] at hbody ⊢
    obtain ⟨hrest, rfl⟩ := hbody
    rw [if_neg hch, hrest]
    simp
  · rw [if_neg hless] at hbody ⊢
    rw [if_neg hch]
    by_cases hlast : lastChunked r = true
    · -- chunks are longer than what they carry
      rw [if_pos hlast] at hbody
      have hlt := hbody.length_lt
      have hne : r.rest ≠ body := by
        rintro rfl
        omega
      simp [hlast, hne]
    · rw [if_neg hlast, hv] at hbody
      simp [hlast, hbody]

/-- **The body of an answer**, behind its head. -/
theorem streamBodyOnly_iff (hb : Before r.rest br) (herr : br.src.err = req.scheme.closed) (ha : Apart br)
    (hte : headers (str "transfer-encoding") = r.encodings.head?)
    (hcl : headers (str "content-length") = r.lengths.head?) :
    ((streamBodyOnly pipe br [] headers).dst = body ∧
        closeWith (streamBodyOnly pipe br [] headers).err = .eof) ↔
      Agrees req r code body (streamBodyOnly pipe br [] headers).br.src.ends := by
  have hany : (headers (str "transfer-encoding")).any (equalFold · (str "chunked")) = r.chunked := by
    rw [hte, Response.any_of_length_le_one _ h.oneEncoding]
    rfl
  by_cases hch : r.chunked = true
  · have heq : streamBodyOnly pipe br [] headers = streamChunked pipe br [] 0 := by
      rw [streamBodyOnly, hany, if_pos hch]
    rw [heq]
    exact streamBodyOnly_chunked h hb herr hch
  · cases hv : r.lengths.head? with
    | some v => exact streamBodyOnly_length h hb ha hch hv hte (hcl.trans hv) _
    | none =>
      have heq : streamBodyOnly pipe br [] headers = streamIdentity pipe br [] 0 := by
        rw [streamBodyOnly, hany, if_neg hch, hcl, hv]
      rw [heq]
      exact streamBodyOnly_close h hb herr hch hv _

end

/-! ## Round trips -/

/-- Reading `Body` gives the body and `io.EOF`. -/
def Yields (res : Except TransportErr Reply) (body : Bytes) : Prop :=
  ∃ reply, res = .ok reply ∧ reply.body = body ∧ reply.bodyEnd = .eof

/-- The ways in which the connection may hand out its bytes: `TCP4Conn.Read` gives bytes or the error,
never both. -/
def Scheme.Allows (scheme : Scheme) (cuts : List Cut) : Prop :=
  scheme = .http → ∀ c ∈ cuts, c.late = true

/-- The request over a connection that carries the answer. -/
def trip (req : Request) (r : Response) (cuts : List Cut) : Except TransportErr Reply × LineReader :=
  roundTrip req (.start r.render req.scheme.closed cuts)

section
variable {req : Request} {r : Response} {cuts : List Cut} {code : ℤ} {body : Bytes} {headers : Headers}
  {br : LineReader}

theorem trip_of_head
    (h : readStatusAndHeaders (newLineReader (.start r.render req.scheme.closed cuts)) =
      (.ok (code, headers), br)) :
    (trip req r cuts).2 = (streamBodyOnly pipe br [] headers).br ∧
      (Yields (trip req r cuts).1 body ↔ (streamBodyOnly pipe br [] headers).dst = body ∧
        closeWith (streamBodyOnly pipe br [] headers).err = .eof) := by
  unfold trip roundTrip
  rw [h]
  refine ⟨rfl, ?_, fun ⟨hbody, hend⟩ => ⟨_, rfl, hbody, hend⟩⟩
  rintro ⟨reply, heq, hbody, hend⟩
  cases heq
  exact ⟨hbody, hend⟩

theorem trip_of_error {e : TransportErr}
    (h : readStatusAndHeaders (newLineReader (.start r.render req.scheme.closed cuts)) =
      (.error e, br)) : (trip req r cuts).2 = br ∧ ¬ Yields (trip req r cuts).1 body := by
  unfold trip roundTrip
  rw [h]
  refine ⟨rfl, ?_⟩
  rintro ⟨reply, heq, -⟩
  cases heq

theorem copy_of_head (hcuts : req.scheme.Allows cuts)
    (h : readStatusAndHeaders (newLineReader (.start r.render req.scheme.closed cuts)) =
      (.ok (code, headers), br)) : br.src.err = req.scheme.closed ∧ Apart br := by
  have hlater := later_readStatusAndHeaders (newLineReader (.start r.render req.scheme.closed cuts))
  rw [h] at hlater
  have herr : br.src.err = req.scheme.closed := hlater.err
  refine ⟨herr, fun hne => ?_⟩
  rw [herr] at hne
  have hhttp : req.scheme = .http := by
    cases hs : req.scheme with
    | http => rfl
    | https =>
      rw [hs] at hne
      exact absurd rfl hne
  have hlate : (newLineReader (.start r.render req.scheme.closed cuts)).src.Late := hcuts hhttp
  exact hlate.later hlater

theorem trip_spec (h : Answers req.method r code body) (hcuts : req.scheme.Allows cuts) :
    (HeadFits (trip req r cuts).2.src.ends r →
      (Yields (trip req r cuts).1 body ↔ Agrees req r code body (trip req r cuts).2.src.ends)) ∧
    (¬ HeadFits (trip req r cuts).2.src.ends r → ¬ Yields (trip req r cuts).1 body) := by
  obtain ⟨hgood, hbad⟩ := readStatusAndHeaders_spec h (before_start r.render req.scheme.closed cuts)
  rcases hhead : readStatusAndHeaders (newLineReader (.start r.render req.scheme.closed cuts)) with ⟨res, br⟩
  rw [hhead] at hgood hbad
  by_cases hfits : HeadFits br.src.ends r
  · obtain ⟨headers, hok, hte, hcl, hb⟩ := hgood hfits
    obtain rfl : res = .ok (code, headers) := hok
    obtain ⟨hbr, hyields⟩ := @trip_of_head req r cuts code body headers br hhead
    obtain ⟨herr, ha⟩ := copy_of_head hcuts hhead
    rw [hyields, hbr, headFits_later (later_streamBodyOnly pipe br [] headers) hb.ahead_le,
      streamBodyOnly_iff h hb herr ha hte hcl]
    exact ⟨fun _ => Iff.rfl, fun hno => absurd hfits hno⟩
  · obtain ⟨e, herr⟩ := hbad hfits
    obtain rfl : res = .error e := herr
    obtain ⟨hbr, hno⟩ := @trip_of_error req r cuts body br e hhead
    rw [hbr]
    exact ⟨fun hfit => absurd hfit hfits, fun _ => hno⟩

end

/-- **`Body` gives the body of the answer and `io.EOF`** exactly when `ReadLine` takes the head and the
copy that the code picks gives that body. -/
theorem body_meets_iff (req : Request) (r : Response) (code : ℤ) (body : Bytes)
    (h : Answers req.method r code body) (cuts : List Cut) (hcuts : req.scheme.Allows cuts) :
    Yields (trip req r cuts).1 body ↔
      HeadFits (trip req r cuts).2.src.ends r ∧
        Agrees req r code body (trip req r cuts).2.src.ends := by
  obtain ⟨hgood, hbad⟩ := trip_spec h hcuts
  by_cases hfits : HeadFits (trip req r cuts).2.src.ends r
  · rw [hgood hfits, and_iff_right hfits]
  · exact iff_of_false (hbad hfits) fun hfit => hfits hfit.1

theorem statusLine_ok : StatusLine (str "HTTP/1.1 200 OK") 200 := by
  refine ⟨str "HTTP/1.1", str "200", str "OK", ?_, ?_, ?_, ?_, ?_⟩ <;> decide +kernel

def getRequest : Request := ⟨.https, str "GET"⟩

theorem plain_answers : Answers (str "GET") .plain 200 (str "hi") where
  status := statusLine_ok
  lines := by decide
  fields := by decide
  oneLength := by decide
  oneEncoding := by decide
  size := by decide
  body := by
    rw [Frames, if_neg (by decide), if_neg (by decide)]
    exact ⟨2, by decide, by decide, rfl⟩

theorem body_meets_plain : Answers (str "GET") .plain 200 (str "hi") ∧
    (Yields (trip getRequest .plain []).1 (str "hi") ↔
      HeadFits (trip getRequest .plain []).2.src.ends .plain ∧
        Agrees getRequest .plain 200 (str "hi") (trip getRequest .plain []).2.src.ends) :=
  ⟨plain_answers, body_meets_iff getRequest .plain 200 (str "hi") plain_answers [] nofun⟩

def headRequest : Request := ⟨.https, str "HEAD"⟩

/-- The answer to a `HEAD` request, with the length that the body would have. -/
def headAnswer : Response := ⟨str "HTTP/1.1 200 OK", [str "Content-Length: 2"], []⟩

theorem headAnswer_answers : Answers (str "HEAD") headAnswer 200 [] where
  status := statusLine_ok
  lines := by decide
  fields := by decide
  oneLength := by decide
  oneEncoding := by decide
  size := by decide
  body := by
    rw [Frames, if_pos (by decide)]
    exact ⟨rfl, rfl⟩

/-- To `HEAD` the code waits for the bytes of the length. -/
theorem head_body_fails : ¬ ∀ (req : Request) (r : Response) (code : ℤ) (body : Bytes),
    Answers req.method r code body → ∀ cuts : List Cut, req.scheme.Allows cuts →
      Yields (trip req r cuts).1 body := by
  intro hall
  have hyields := hall headRequest headAnswer 200 [] headAnswer_answers [] nofun
  obtain ⟨hgood, hbad⟩ := @trip_spec headRequest headAnswer [] 200 [] headAnswer_answers nofun
  have hagrees := (hgood (not_not.mp fun hno => hbad hno hyields)).mp hyields
  rw [Agrees, if_pos (by decide), if_neg (by decide)] at hagrees
  have hzero : lengthOf (str "2") = some 0 := hagrees
  exact absurd hzero (by decide)

end TamagoUefi.Orasoci
