import TamagoUefi.Go.Strings
import TamagoUefi.Lib.Reader
import TamagoUefi.Lib.Run

/-!
# TamagoUefi.Net.LineReader — lines and raw bytes off one reader (`http.go`)

`lineReader` buffers a reader and serves lines and raw bytes from one buffer.  `ReadLine` looks for
the LF in the piece that is buffered and puts the pieces before it aside; the CR is stripped off the
last piece only, and a line that is too long is noticed piece by piece.

* `nextLine`, `nextBytes`: what the calls give on a stream that is there as a whole.
* `Harmless` says where a read may end: behind the line, or in its first 8 KiB and not between its CR
  and its LF.
* `calls_agree`: in a run in which every `ReadLine` meets such reads only, all calls give that.
* `calls_agree_iff`: and only in such runs.
-/

namespace TamagoUefi.Net

open Go Lib

/-! ## The reader -/

inductive ReadErr
  | eof
  /-- `errTCP4PeerClosed` -/
  | peerClosed
  | lineTooLong
  | bufferFull
  | other (text : Bytes)
  deriving DecidableEq

def httpLineMaxBytes : ℕ := 8 * 1024
def streamReadBufBytes : ℕ := 8 * 1024

def lf : UInt8 := '\n'.toUInt8
def cr : UInt8 := '\r'.toUInt8

theorem cr_ne_lf : cr ≠ lf := by decide

/-- `buffered` is `buf[pos:end]`; where it lies in `buf` does not matter, `fill` moves it to the
front before it reads. -/
structure LineReader where
  src : Source UInt8 ReadErr
  buffered : Bytes
  deriving DecidableEq

namespace LineReader

def newLineReader (src : Source UInt8 ReadErr) : LineReader := ⟨src, []⟩

def fill (lr : LineReader) : Option ReadErr × LineReader :=
  if lr.buffered.length = streamReadBufBytes then (some .bufferFull, lr)
  else
    let r := lr.src.read (streamReadBufBytes - lr.buffered.length)
    (r.err, ⟨r.src, lr.buffered ++ r.got⟩)

/-- `pos = end`, then `fill`. -/
def refill (lr : LineReader) : Option ReadErr × LineReader := fill { lr with buffered := [] }

/-- The text that has not been handed out. -/
def text (lr : LineReader) : Bytes := lr.buffered ++ lr.src.ahead

theorem refill_eq (lr : LineReader) :
    lr.refill = ((lr.src.read streamReadBufBytes).err,
      ⟨(lr.src.read streamReadBufBytes).src, (lr.src.read streamReadBufBytes).got⟩) := rfl

/-- What a read for the next piece gives. -/
structure Refilled (lr : LineReader) (reported : Option ReadErr) (lr' : LineReader) : Prop where
  ahead : lr.src.ahead = lr'.text
  err : lr'.src.err = lr.src.err
  done : ∀ e, reported = some e → e = lr.src.err ∧ lr'.src.ahead = []
  ends : lr'.src.ends = lr'.src.ahead.length :: lr.src.ends

variable {err : Option ReadErr} {lr lr' : LineReader}

theorem refill_spec (h : lr.refill = (err, lr')) : Refilled lr err lr' := by
  rw [refill_eq] at h
  cases h
  obtain ⟨h₁, -, h₃, h₄, h₅⟩ := lr.src.read_spec streamReadBufBytes
  exact ⟨h₁, h₃, h₄, h₅⟩

theorem refill_progress (h : lr.refill = (err, lr')) (hgo : err = none ∨ lr'.buffered ≠ []) :
    lr'.src.fuel < lr.src.fuel := by
  rw [refill_eq] at h
  cases h
  exact lr.src.read_progress (by decide) hgo

/-- A line without the CR that it may end in. -/
def stripCR (line : Bytes) : Bytes := if line.getLast? = some cr then line.dropLast else line

/-- The loop of `ReadLine`; `acc` are the pieces put aside. -/
def readLineFrom (lr : LineReader) (acc : Bytes) : Except ReadErr Bytes × LineReader :=
  match indexByte lr.buffered lf with
  | some i =>
    let line := acc ++ stripCR (lr.buffered.take i)
    (if httpLineMaxBytes < line.length then .error .lineTooLong else .ok line,
      { lr with buffered := lr.buffered.drop (i + 1) })
  | none =>
    -- the buffer is given up only after the check
    if httpLineMaxBytes < (acc ++ lr.buffered).length then (.error .lineTooLong, lr)
    else
      match h : lr.refill with
      | (none, lr') =>
        have := refill_progress h (.inl rfl)
        readLineFrom lr' (acc ++ lr.buffered)
      | (some e, lr') =>
        if hmore : lr'.buffered = [] then (.error e, lr')
        else
          have := refill_progress h (.inr hmore)
          readLineFrom lr' (acc ++ lr.buffered)
termination_by lr.src.fuel

def readLine (lr : LineReader) : Except ReadErr Bytes × LineReader := readLineFrom lr []

def read (lr : LineReader) (n : ℕ) : Bytes × Option ReadErr × LineReader :=
  if lr.buffered = [] then
    let r := lr.src.read n
    (r.got, r.err, { lr with src := r.src })
  else (lr.buffered.take n, none, { lr with buffered := lr.buffered.drop n })

variable {n : ℕ} {got : Bytes}

theorem read_progress (hn : 0 < n) (h : lr.read n = (got, none, lr')) :
    lr'.src.fuel + lr'.buffered.length < lr.src.fuel + lr.buffered.length := by
  unfold read at h
  split_ifs at h with hb
  · obtain ⟨-, herr, rfl⟩ : _ ∧ (lr.src.read n).err = none ∧ _ := by
      simpa only [Prod.mk.injEq] using h
    have := lr.src.read_progress hn (.inl herr)
    simp only
    omega
  · obtain ⟨-, -, rfl⟩ := h
    have hpos : 0 < lr.buffered.length := List.length_pos_iff.mpr hb
    simp only [List.length_drop]
    omega

/-- `Read` until `n` bytes are there or the reader reports something. -/
def readFull (lr : LineReader) (n : ℕ) : (Bytes × Option ReadErr) × LineReader :=
  if hn : n = 0 then (([], none), lr)
  else
    match h : lr.read n with
    | (got, none, lr') =>
      have := read_progress (Nat.pos_of_ne_zero hn) h
      let r := readFull lr' (n - got.length)
      ((got ++ r.1.1, r.1.2), r.2)
    | (got, some e, lr') => ((got, if got.length < n then some e else none), lr')
termination_by lr.src.fuel + lr.buffered.length

/-! ## One call -/

/-- A line off a text that is there as a whole, and the text behind it. -/
def nextLine (text : Bytes) (e : ReadErr) : Except ReadErr Bytes × Bytes :=
  match indexByte text lf with
  | some i =>
    let line := stripCR (text.take i)
    (if httpLineMaxBytes < line.length then .error .lineTooLong else .ok line, text.drop (i + 1))
  | none => (.error (if httpLineMaxBytes < text.length then .lineTooLong else e), [])

def nextBytes (text : Bytes) (e : ReadErr) (n : ℕ) : (Bytes × Option ReadErr) × Bytes :=
  ((text.take n, if text.length < n then some e else none), text.drop n)

variable {post pre : Bytes}

theorem nextLine_append (e : ReadErr) (h : lf ∉ pre) :
    nextLine (pre ++ lf :: post) e =
      (if httpLineMaxBytes < (stripCR pre).length then .error .lineTooLong else .ok (stripCR pre),
        post) := by
  unfold nextLine
  rw [indexByte_append h]
  simp

theorem nextLine_of_notMem {text : Bytes} (e : ReadErr) (h : lf ∉ text) :
    nextLine text e = (.error (if httpLineMaxBytes < text.length then .lineTooLong else e), []) := by
  unfold nextLine
  rw [indexByte_eq_none.mpr h]

variable {line : Bytes}

theorem stripCR_concat (line : Bytes) : stripCR (line ++ [cr]) = line := by
  simp [stripCR]

variable {a b : Bytes}

/-- The CR is stripped off the last piece, unless that is empty. -/
theorem stripCR_append (h : b = [] → a.getLast? ≠ some cr) : stripCR (a ++ b) = a ++ stripCR b := by
  rcases List.eq_nil_or_concat' b with rfl | ⟨b', c, rfl⟩
  · rw [List.append_nil, stripCR, if_neg (h rfl)]
    simp [stripCR]
  · unfold stripCR
    rw [← List.append_assoc, List.getLast?_concat, List.getLast?_concat, List.dropLast_concat,
      List.dropLast_concat, List.append_assoc]
    split_ifs <;> rfl

/-- **The rounds of `ReadLine`**: the LF is there; the line is too long; the stream ends; or the piece
is put aside and the next one read. -/
theorem readLineFrom_rule {P : LineReader → Bytes → Except ReadErr Bytes × LineReader → Prop}
    (found : ∀ lr acc pre post, lr.buffered = pre ++ lf :: post → lf ∉ pre →
      P lr acc (if httpLineMaxBytes < (acc ++ stripCR pre).length then .error .lineTooLong
        else .ok (acc ++ stripCR pre), { lr with buffered := post }))
    (long : ∀ lr acc, lf ∉ lr.buffered → httpLineMaxBytes < (acc ++ lr.buffered).length →
      P lr acc (.error .lineTooLong, lr))
    (stop : ∀ lr acc lr', lf ∉ lr.buffered → (acc ++ lr.buffered).length ≤ httpLineMaxBytes →
      Refilled lr (some lr.src.err) lr' → lr'.text = [] → P lr acc (.error lr.src.err, lr'))
    (more : ∀ lr acc err lr', lf ∉ lr.buffered → (acc ++ lr.buffered).length ≤ httpLineMaxBytes →
      lr.refill = (err, lr') →
      P lr' (acc ++ lr.buffered) (readLineFrom lr' (acc ++ lr.buffered)) →
      P lr acc (readLineFrom lr' (acc ++ lr.buffered)))
    (lr : LineReader) (acc : Bytes) : P lr acc (readLineFrom lr acc) := by
  fun_induction readLineFrom lr acc with
  | case1 lr acc i hi line =>
    obtain ⟨hsplit, hpre⟩ := indexByte_eq_some hi
    exact found lr acc _ _ hsplit hpre
  | case2 lr acc hnone hlong => exact long lr acc (indexByte_eq_none.mp hnone) hlong
  | case3 lr acc hnone hlong lr' h _ ih =>
    exact more lr acc none lr' (indexByte_eq_none.mp hnone) (Nat.le_of_not_lt hlong) h ih
  | case4 lr acc hnone hlong e lr' h hnil =>
    have hr := refill_spec h
    obtain ⟨rfl, hend⟩ := hr.done e rfl
    exact stop lr acc lr' (indexByte_eq_none.mp hnone) (Nat.le_of_not_lt hlong) hr
      (by rw [text, hnil, hend]; rfl)
  | case5 lr acc hnone hlong e lr' h hmore _ ih =>
    exact more lr acc (some e) lr' (indexByte_eq_none.mp hnone) (Nat.le_of_not_lt hlong) h ih

/-! ## Progress -/

/-- What bounds the calls that can still be made. -/
def fuel (lr : LineReader) : ℕ := lr.src.fuel + lr.buffered.length

theorem refill_fuel (h : lr.refill = (err, lr')) : lr'.fuel ≤ lr.fuel := by
  rw [refill_eq] at h
  cases h
  have := lr.src.read_fuel streamReadBufBytes
  simp only [fuel]
  omega

theorem read_fuel (h : lr.read n = (got, err, lr')) : lr'.fuel ≤ lr.fuel := by
  unfold read at h
  split_ifs at h with hb
  · cases h
    have := lr.src.read_fuel n
    simp only [fuel]
    omega
  · cases h
    simp only [fuel, List.length_drop]
    omega

theorem readLineFrom_progress (lr : LineReader) (acc line : Bytes)
    (h : (readLineFrom lr acc).1 = .ok line) : (readLineFrom lr acc).2.fuel < lr.fuel := by
  revert h
  refine readLineFrom_rule (P := fun lr _ r => r.1 = .ok line → r.2.fuel < lr.fuel)
    ?_ ?_ ?_ ?_ lr acc
  · intro lr acc pre post hb _ _
    simp only [fuel, hb, List.length_append, List.length_cons]
    omega
  · exact fun _ _ _ _ => nofun
  · exact fun _ _ _ _ _ _ _ => nofun
  · intro lr acc err lr' _ _ hrefill ih h
    exact (ih h).trans_le (refill_fuel hrefill)

theorem readLine_progress (h : lr.readLine = (.ok line, lr')) : lr'.fuel < lr.fuel := by
  have hlt := readLineFrom_progress lr [] line
  rw [readLine] at h
  rw [h] at hlt
  exact hlt rfl

/-! ## What calls do to the stream -/

theorem later_refill (h : lr.refill = (err, lr')) : lr.src.Later lr'.src := by
  rw [refill_eq] at h
  cases h
  exact lr.src.later_read _

theorem later_readLineFrom (lr : LineReader) (acc : Bytes) : lr.src.Later (readLineFrom lr acc).2.src := by
  fun_induction readLineFrom lr acc with
  | case1 lr acc => exact .refl _
  | case2 lr acc => exact .refl _
  | case3 lr acc _ _ lr' h _ ih => exact (later_refill h).trans ih
  | case4 lr acc _ _ e lr' h => exact later_refill h
  | case5 lr acc _ _ e lr' h _ _ ih => exact (later_refill h).trans ih

theorem later_readLine {r : Except ReadErr Bytes} (h : lr.readLine = (r, lr')) : lr.src.Later lr'.src := by
  have hlater := later_readLineFrom lr []
  rw [readLine] at h
  rwa [h] at hlater

theorem later_read (h : lr.read n = (got, err, lr')) : lr.src.Later lr'.src := by
  unfold read at h
  split_ifs at h with hb
  · cases h
    exact lr.src.later_read n
  · cases h
    exact .refl _

/-! ## Where reads may end -/

/-- The places in the text ahead at which a read ends, as long as lines are read. -/
inductive EndsAt : LineReader → ℕ → Prop
  | buffered (lr : LineReader) : EndsAt lr lr.buffered.length
  | next {lr : LineReader} {k : ℕ} (h : EndsAt lr.refill.2 k) : EndsAt lr (lr.buffered.length + k)

variable {k : ℕ}

theorem EndsAt.ge (h : EndsAt lr k) : lr.buffered.length ≤ k := by
  cases h with
  | buffered => exact le_rfl
  | next => exact Nat.le_add_right _ _

theorem EndsAt.le (h : EndsAt lr k) : k ≤ lr.text.length := by
  induction h with
  | buffered lr => simp [text]
  | @next lr k _ ih =>
    have hr : Refilled lr lr.refill.1 lr.refill.2 := refill_spec rfl
    rw [text, List.length_append, hr.ahead]
    exact Nat.add_le_add_left ih _

/-- Place `k` is between a CR and its LF. -/
def Splits (text : Bytes) (k : ℕ) : Prop := (text.take k).getLast? = some cr ∧ text[k]? = some lf

instance (text : Bytes) (k : ℕ) : Decidable (Splits text k) := inferInstanceAs (Decidable (_ ∧ _))

/-- A read may end at place `k`: behind the line, or within its first 8 KiB and not between CR and
LF. -/
def Harmless (text : Bytes) (k : ℕ) : Prop :=
  lf ∈ text.take k ∨ (k ≤ httpLineMaxBytes ∧ ¬ Splits text k)

instance (text : Bytes) (k : ℕ) : Decidable (Harmless text k) := inferInstanceAs (Decidable (_ ∨ _))

/-- The reads for the next line end where they may. -/
def Whole (lr : LineReader) : Prop := ∀ k, EndsAt lr k → Harmless lr.text k

theorem splits_append : Splits (a ++ b) a.length ↔ a.getLast? = some cr ∧ b.head? = some lf := by
  unfold Splits
  rw [List.take_left, List.getElem?_append_right le_rfl, Nat.sub_self, List.head?_eq_getElem?]

theorem harmless_append (h : lf ∉ a) : Harmless (a ++ b) a.length ↔
    a.length ≤ httpLineMaxBytes ∧ ¬ (a.getLast? = some cr ∧ b.head? = some lf) := by
  unfold Harmless
  rw [splits_append, List.take_left]
  exact or_iff_right h

/-- What `ReadLine` has put aside: part of a line, of which it has not lost the CR. -/
structure Aside (lr : LineReader) (acc : Bytes) : Prop where
  line : lf ∉ acc
  short : acc.length ≤ httpLineMaxBytes
  whole : ¬ (acc.getLast? = some cr ∧ lr.text.head? = some lf)

theorem aside_nil (lr : LineReader) : Aside lr [] := ⟨by simp, by decide, by simp⟩

section
variable {lr lr' : LineReader} {acc : Bytes}

theorem Aside.piece (ha : Aside lr acc) (hb : lf ∉ lr.buffered) : lf ∉ acc ++ lr.buffered := by
  simp [ha.line, hb]

theorem Aside.more (ha : Aside lr acc) (hb : lf ∉ lr.buffered) (hr : lr.src.ahead = lr'.text)
    (h : Harmless (acc ++ lr.text) (acc.length + lr.buffered.length)) : Aside lr' (acc ++ lr.buffered) := by
  have hline := ha.piece hb
  rw [text, hr, ← List.append_assoc, ← List.length_append, harmless_append hline] at h
  exact ⟨hline, h.1, h.2⟩

/-- The line that is found has lost its CR. -/
theorem Aside.strip (ha : Aside lr acc) (hb : lr.buffered = pre ++ lf :: post) :
    stripCR (acc ++ pre) = acc ++ stripCR pre := by
  refine stripCR_append fun hpre hcr => ha.whole ⟨hcr, ?_⟩
  rw [text, hb, hpre]
  rfl

end

/-- **`ReadLine` on reads that end where they may** gives the line of the text. -/
theorem readLineFrom_whole (lr : LineReader) (acc : Bytes) (ha : Aside lr acc)
    (hk : ∀ k, EndsAt lr k → Harmless (acc ++ lr.text) (acc.length + k)) :
    (readLineFrom lr acc).1 = (nextLine (acc ++ lr.text) lr.src.err).1 ∧
      (readLineFrom lr acc).2.text = (nextLine (acc ++ lr.text) lr.src.err).2 ∧
      (readLineFrom lr acc).2.src.err = lr.src.err := by
  revert ha hk
  refine readLineFrom_rule (P := fun lr acc r => Aside lr acc →
    (∀ k, EndsAt lr k → Harmless (acc ++ lr.text) (acc.length + k)) →
    r.1 = (nextLine (acc ++ lr.text) lr.src.err).1 ∧
      r.2.text = (nextLine (acc ++ lr.text) lr.src.err).2 ∧ r.2.src.err = lr.src.err)
    ?_ ?_ ?_ ?_ lr acc
  · intro lr acc pre post hb hpre ha _
    have hline : lf ∉ acc ++ pre := by simp [ha.line, hpre]
    have hfull : acc ++ lr.text = acc ++ pre ++ lf :: (post ++ lr.src.ahead) := by
      simp [text, hb]
    rw [hfull, nextLine_append _ hline, ha.strip hb]
    exact ⟨rfl, rfl, rfl⟩
  · intro lr acc hb hlong ha hk
    have hline := ha.piece hb
    have h := hk _ (.buffered lr)
    rw [text, ← List.append_assoc, ← List.length_append, harmless_append hline] at h
    omega
  · intro lr acc lr' hb hshort hr hend ha _
    have hnil : lr.src.ahead = [] := hr.ahead.trans hend
    have hfull : acc ++ lr.text = acc ++ lr.buffered := by rw [text, hnil, List.append_nil]
    have hline := ha.piece hb
    rw [hfull, nextLine_of_notMem _ hline, if_neg (Nat.not_lt.mpr hshort)]
    exact ⟨rfl, hend, hr.err⟩
  · intro lr acc err lr' hb _ hrefill ih ha hk
    have hr := refill_spec hrefill
    have hfull : acc ++ lr.text = acc ++ lr.buffered ++ lr'.text := by
      rw [text, hr.ahead, List.append_assoc]
    have hnext : ∀ k, EndsAt lr' k →
        Harmless (acc ++ lr.buffered ++ lr'.text) ((acc ++ lr.buffered).length + k) := by
      intro k h
      rw [← hfull, List.length_append, Nat.add_assoc]
      exact hk _ (.next (by rwa [hrefill]))
    rw [hfull, ← hr.err]
    exact ih (ha.more hb hr.ahead (hk _ (.buffered lr))) hnext

/-- The LF comes next, and is not in the buffer. -/
theorem buffered_eq_nil (hb : lf ∉ lr.buffered) (hlf : lr.text.head? = some lf) : lr.buffered = [] := by
  cases hbuf : lr.buffered with
  | nil => rfl
  | cons c b =>
    rw [text, hbuf] at hlf
    obtain rfl : c = lf := by simpa using hlf
    simp [hbuf] at hb

/-- After a read between CR and LF the CR is part of the line. -/
theorem readLineFrom_split (lr : LineReader) (acc : Bytes) (hne : acc ≠ [])
    (hshort : acc.length ≤ httpLineMaxBytes) (hlf : lr.text.head? = some lf) :
    (readLineFrom lr acc).1 = .ok acc := by
  revert hne hshort hlf
  refine readLineFrom_rule (P := fun lr acc r => acc ≠ [] → acc.length ≤ httpLineMaxBytes →
    lr.text.head? = some lf → r.1 = .ok acc) ?_ ?_ ?_ ?_ lr acc
  · intro lr acc pre post hb hpre _ hshort hlf
    -- the piece begins with the LF
    obtain rfl : pre = [] := by
      cases pre with
      | nil => rfl
      | cons c pre =>
        rw [text, hb] at hlf
        obtain rfl : c = lf := by simpa using hlf
        simp at hpre
    have hstrip : acc ++ stripCR [] = acc := by simp [stripCR]
    rw [hstrip, if_neg (Nat.not_lt.mpr hshort)]
  · intro lr acc hb hlong hne hshort hlf
    have hnil := buffered_eq_nil hb hlf
    rw [hnil, List.append_nil] at hlong
    omega
  · intro lr acc lr' hb _ hr hend _ _ hlf
    have hnil : lr.src.ahead = [] := hr.ahead.trans hend
    rw [text, hnil, List.append_nil] at hlf
    exact absurd (List.mem_of_mem_head? hlf) hb
  · intro lr acc err lr' hb hshort' hrefill ih hne _ hlf
    have hr := refill_spec hrefill
    have hnil := buffered_eq_nil hb hlf
    rw [hnil, List.append_nil] at ih hshort' ⊢
    refine ih hne hshort' ?_
    rw [← hr.ahead]
    rwa [text, hnil] at hlf

theorem length_nextLine_le (b : Bytes) (e : ReadErr) (h : lf ∉ a) :
    (nextLine (a ++ b) e).2.length ≤ b.length := by
  by_cases hlf : lf ∈ b
  · obtain ⟨pre, post, rfl, hpre⟩ := List.eq_append_cons_of_mem hlf
    have hline : lf ∉ a ++ pre := by simp [h, hpre]
    rw [← List.append_assoc, nextLine_append e hline]
    simp only [List.length_append, List.length_cons]
    omega
  · rw [nextLine_of_notMem e (by simp [h, hlf])]
    exact Nat.zero_le _

/-- Of a line that was read in two the CR is left, which is not in the line of the text. -/
theorem readLineFrom_ne_nextLine (lr : LineReader) {acc : Bytes} (hline : lf ∉ acc)
    (hshort : acc.length ≤ httpLineMaxBytes) (hcr : acc.getLast? = some cr) (hlf : lr.text.head? = some lf)
    (e : ReadErr) : (readLineFrom lr acc).1 ≠ (nextLine (acc ++ lr.text) e).1 := by
  have hne : acc ≠ [] := by
    rintro rfl
    cases hcr
  obtain ⟨post, hpost⟩ := List.head?_eq_some_iff.mp hlf
  rw [readLineFrom_split lr _ hne hshort hlf, hpost, nextLine_append _ hline, stripCR, if_pos hcr,
    if_neg (by rw [List.length_dropLast]; omega)]
  intro heq
  have hlen := congrArg List.length (Except.ok.inj heq)
  have hpos := List.length_pos_iff.mpr hne
  rw [List.length_dropLast] at hlen
  omega

/-- **A read that ends where it must not shows**: in the line, or in what is left. -/
theorem readLineFrom_harmed (lr : LineReader) (acc : Bytes) (ha : Aside lr acc) {k : ℕ} (hk : EndsAt lr k)
    (hharm : ¬ Harmless (acc ++ lr.text) (acc.length + k)) :
    (readLineFrom lr acc).1 ≠ (nextLine (acc ++ lr.text) lr.src.err).1 ∨
      (nextLine (acc ++ lr.text) lr.src.err).2.length < (readLineFrom lr acc).2.text.length := by
  revert k ha
  refine readLineFrom_rule (P := fun lr acc r => Aside lr acc → ∀ {k : ℕ}, EndsAt lr k →
    ¬ Harmless (acc ++ lr.text) (acc.length + k) →
    r.1 ≠ (nextLine (acc ++ lr.text) lr.src.err).1 ∨
      (nextLine (acc ++ lr.text) lr.src.err).2.length < r.2.text.length) ?_ ?_ ?_ ?_ lr acc
  · intro lr acc pre post hb _ _ k hk hharm
    -- the LF is before `k`
    refine absurd (.inl ?_) hharm
    have hle := hk.ge
    rw [text, List.take_append, List.take_append, List.mem_append, List.mem_append]
    refine .inr (.inl ?_)
    rw [Nat.add_sub_cancel_left, List.take_of_length_le hle, hb]
    simp
  · intro lr acc hb hlong ha k _ _
    -- the piece in the buffer has been counted, but not given up
    right
    have hline := ha.piece hb
    have hle := length_nextLine_le lr.src.ahead lr.src.err hline
    have hshort := ha.short
    rw [text, ← List.append_assoc]
    simp only [List.length_append] at hle hlong ⊢
    omega
  · intro lr acc lr' hb hshort hr hend ha k hk hharm
    have hnil : lr.src.ahead = [] := hr.ahead.trans hend
    have htext : lr.text = lr.buffered := by rw [text, hnil, List.append_nil]
    obtain rfl : k = lr.buffered.length := Nat.le_antisymm (htext ▸ hk.le) hk.ge
    have hline := ha.piece hb
    have hend' := (harmless_append (b := []) hline).mpr ⟨hshort, by simp⟩
    rw [List.append_nil, List.length_append] at hend'
    rw [htext] at hharm
    exact absurd hend' hharm
  · intro lr acc err lr' hb hshort hrefill ih ha k hk hharm
    have hr := refill_spec hrefill
    have hfull : acc ++ lr.text = acc ++ lr.buffered ++ lr'.text := by
      rw [text, hr.ahead, List.append_assoc]
    have hline := ha.piece hb
    by_cases hfirst : Harmless (acc ++ lr.text) (acc.length + lr.buffered.length)
    · -- a later read does the harm
      cases hk with
      | buffered => exact absurd hfirst hharm
      | @next _ k hk =>
        rw [hfull, ← hr.err]
        rw [hfull, ← Nat.add_assoc, ← List.length_append] at hharm
        exact ih (ha.more hb hr.ahead hfirst) (by rwa [hrefill] at hk) hharm
    · left
      rw [hfull, ← List.length_append, harmless_append hline] at hfirst
      obtain ⟨hcr, hlf⟩ : (acc ++ lr.buffered).getLast? = some cr ∧ lr'.text.head? = some lf := by
        by_contra hno
        exact hfirst ⟨hshort, hno⟩
      rw [hfull]
      exact readLineFrom_ne_nextLine lr' hline hshort hcr hlf _

/-- What one `Read` gives. -/
structure Pulled (lr : LineReader) (n : ℕ) (got : Bytes) (reported : Option ReadErr)
    (lr' : LineReader) : Prop where
  text : lr.text = got ++ lr'.text
  room : got.length ≤ n
  err : lr'.src.err = lr.src.err
  done : ∀ e, reported = some e → e = lr.src.err ∧ lr'.text = []

theorem read_spec {reported : Option ReadErr} (h : lr.read n = (got, reported, lr')) :
    Pulled lr n got reported lr' := by
  unfold read at h
  split_ifs at h with hb
  · cases h
    obtain ⟨h₁, h₂, h₃, h₄, -⟩ := lr.src.read_spec n
    refine ⟨?_, h₂, h₃, fun e he => ⟨(h₄ e he).1, ?_⟩⟩
    · rw [text, text, hb]
      exact h₁
    · rw [text, hb]
      exact (h₄ e he).2
  · cases h
    refine ⟨?_, List.length_take_le n _, rfl, nofun⟩
    rw [text, text, ← List.append_assoc, List.take_append_drop]

/-- A counted read does not depend on where reads end. -/
theorem readFull_eq (lr : LineReader) (n : ℕ) :
    (readFull lr n).1 = (nextBytes lr.text lr.src.err n).1 ∧
      (readFull lr n).2.text = (nextBytes lr.text lr.src.err n).2 ∧
      (readFull lr n).2.src.err = lr.src.err := by
  fun_induction readFull lr n with
  | case1 lr => simp [nextBytes]
  | case2 lr n hn got lr' h _ r ih =>
    obtain ⟨htext, hroom, herr, -⟩ := read_spec h
    obtain ⟨h₁, h₂, h₃⟩ := ih
    have hlen : lr'.text.length < n - got.length ↔ (got ++ lr'.text).length < n := by
      rw [List.length_append]
      omega
    rw [herr] at h₁ h₂ h₃
    refine ⟨?_, ?_, h₃⟩
    · rw [h₁, htext]
      simp only [nextBytes, List.take_append, List.take_of_length_le hroom, hlen]
    · rw [h₂, htext]
      simp only [nextBytes, List.drop_append, List.drop_of_length_le hroom, List.nil_append]
  | case3 lr n hn got e lr' h =>
    obtain ⟨htext, hroom, herr, hdone⟩ := read_spec h
    obtain ⟨rfl, hend⟩ := hdone e rfl
    rw [hend, List.append_nil] at htext
    refine ⟨?_, ?_, herr⟩
    · rw [htext]
      simp only [nextBytes, List.take_of_length_le hroom]
    · rw [htext, hend]
      simp only [nextBytes, List.drop_of_length_le hroom]

/-! ## Lines of a text, by the log of its reads -/

/-- No read so far ended between a CR and its LF. -/
def Unsplit (raw : Bytes) (lr : LineReader) : Prop :=
  ∀ k ∈ lr.src.ends, ¬ Splits raw (raw.length - k)

/-- What is buffered came with the last read. -/
def Logged (lr : LineReader) : Prop := lr.buffered = [] ∨ lr.src.ahead.length ∈ lr.src.ends

theorem Unsplit.of_later {raw : Bytes} (h : lr.src.Later lr'.src) (hu : Unsplit raw lr') :
    Unsplit raw lr := fun k hk => hu k (h.ends.subset hk)

theorem read_logged (h : lr.read n = (got, err, lr')) (hl : Logged lr) : Logged lr' := by
  unfold read at h
  split_ifs at h with hb
  · cases h
    exact .inl hb
  · cases h
    exact .inr (hl.resolve_left hb)

theorem append_lf_inj {c d : Bytes} (ha : lf ∉ a) (hb : lf ∉ b)
    (h : a ++ lf :: c = b ++ lf :: d) : a = b ∧ c = d := by
  have hlen : a.length = b.length := by
    have := congrArg (indexByte · lf) h
    simpa only [indexByte_append ha, indexByte_append hb, Option.some.injEq] using this
  obtain ⟨hab, hcd⟩ := List.append_inj h hlen
  exact ⟨hab, (List.cons.inj hcd).2⟩

/-! ## Runs -/

inductive LineCall
  | readLine
  | readFull (n : ℕ)
  deriving DecidableEq

inductive LineResult
  | line (r : Except ReadErr Bytes)
  | bytes (b : Bytes) (err : Option ReadErr)

def call (lr : LineReader) : LineCall → LineResult × LineReader
  | .readLine => (.line lr.readLine.1, lr.readLine.2)
  | .readFull n => (.bytes (lr.readFull n).1.1 (lr.readFull n).1.2, (lr.readFull n).2)

def after (lr : LineReader) (c : LineCall) : LineReader := (lr.call c).2

/-- The results of a sequence of calls. -/
def results (lr : LineReader) : List LineCall → List LineResult
  | [] => []
  | c :: cs => (lr.call c).1 :: results (lr.after c) cs

/-- The results on a text that is there as a whole. -/
def nextResults (text : Bytes) (e : ReadErr) : List LineCall → List LineResult
  | [] => []
  | .readLine :: cs => .line (nextLine text e).1 :: nextResults (nextLine text e).2 e cs
  | .readFull n :: cs =>
    .bytes (nextBytes text e n).1.1 (nextBytes text e n).1.2 :: nextResults (nextBytes text e n).2 e cs

/-- The reads of a call end where they may. -/
def CallWhole (lr : LineReader) (c : LineCall) : Prop := c = .readLine → lr.Whole

theorem call_whole {c : LineCall} (h : lr.CallWhole c) (cs : List LineCall) :
    nextResults lr.text lr.src.err (c :: cs) =
      (lr.call c).1 :: nextResults (lr.after c).text (lr.after c).src.err cs := by
  cases c with
  | readLine =>
    have hk : ∀ k, EndsAt lr k → Harmless ([] ++ lr.text) (([] : Bytes).length + k) := by
      intro k hk
      rw [List.nil_append, List.length_nil, Nat.zero_add]
      exact h rfl k hk
    obtain ⟨h₁, h₂, h₃⟩ := readLineFrom_whole lr [] (aside_nil lr) hk
    rw [List.nil_append] at h₁ h₂
    simp only [nextResults, call, after, readLine, h₁, h₂, h₃]
  | readFull n =>
    obtain ⟨h₁, h₂, h₃⟩ := readFull_eq lr n
    simp only [nextResults, call, after, h₁, h₂, h₃]

variable {cs : List LineCall}

/-- **Independence of read boundaries** over a run in which the reads of every `ReadLine` end where
they may. -/
theorem calls_agree (h : RunMeets after CallWhole lr cs) :
    results lr cs = nextResults lr.text lr.src.err cs := by
  induction cs generalizing lr with
  | nil => rfl
  | cons c cs ih => rw [call_whole h.1, results, ih h.2]

/-- A read that ends where it must not shows at once, or in the bytes that are left. -/
theorem calls_disagree (h : ¬ lr.Whole) :
    results lr [.readLine, .readFull lr.readLine.2.text.length] ≠
      nextResults lr.text lr.src.err [.readLine, .readFull lr.readLine.2.text.length] := by
  unfold Whole at h
  push Not at h
  obtain ⟨k, hk, hharm⟩ := h
  have hshow := readLineFrom_harmed lr [] (aside_nil lr) hk (by simpa using hharm)
  rw [List.nil_append] at hshow
  intro heq
  simp only [results, nextResults, call, after, List.cons.injEq, LineResult.line.injEq,
    LineResult.bytes.injEq, and_true] at heq
  obtain ⟨hline, hbytes, -⟩ := heq
  rcases hshow with hne | hlt
  · exact hne hline
  · rw [(readFull_eq _ _).1] at hbytes
    have hlen := congrArg List.length hbytes
    simp only [nextBytes, List.take_length, List.length_take] at hlen
    change _ < lr.readLine.2.text.length at hlt
    omega

theorem exists_disagree (h : ¬ RunMeets after CallWhole lr cs) :
    ∃ cs', results lr cs' ≠ nextResults lr.text lr.src.err cs' := by
  induction cs generalizing lr with
  | nil => exact absurd trivial h
  | cons c cs ih =>
    by_cases hc : lr.CallWhole c
    · obtain ⟨cs', hcs'⟩ := ih (fun hrest => h ⟨hc, hrest⟩)
      refine ⟨c :: cs', fun heq => hcs' ?_⟩
      rw [call_whole hc, results] at heq
      exact (List.cons.inj heq).2
    · have hw : ¬ lr.Whole := fun hw => hc fun _ => hw
      exact ⟨_, calls_disagree hw⟩

/-- **Independence of read boundaries**: for a stream and a way to split it, every sequence of calls
gives what it gives on the whole text, exactly when no `ReadLine` meets a read that ends between a CR
and its LF or inside a line behind its first 8 KiB. -/
theorem calls_agree_iff (stream : Bytes) (e : ReadErr) (cuts : List Cut) :
    (∀ cs, results (newLineReader (.start stream e cuts)) cs = nextResults stream e cs) ↔
      ∀ cs, RunMeets after CallWhole (newLineReader (.start stream e cuts)) cs := by
  constructor
  · intro h cs
    by_contra hcs
    obtain ⟨cs', hne⟩ := exists_disagree hcs
    exact hne (h cs')
  · intro h cs
    exact calls_agree (h cs)

/-- A read that ends between the CR and the LF of an empty line: the line is not empty. -/
theorem calls_agree_broken : ¬ ∀ (stream : Bytes) (e : ReadErr) (cuts cuts' : List Cut)
    (cs : List LineCall), results (newLineReader (.start stream e cuts)) cs =
      results (newLineReader (.start stream e cuts')) cs := by
  intro h
  have heq := h [cr, lf] .eof [⟨1, false⟩] [] [.readLine]
  have hsplit : (newLineReader (.start [cr, lf] .eof [⟨1, false⟩])).readLine.1 = .ok [cr] := by
    simp [readLine, readLineFrom, newLineReader, Source.start, refill, fill, Source.read,
      indexByte, stripCR, streamReadBufBytes, httpLineMaxBytes, cr_ne_lf, List.findIdx?_cons]
  have hwhole : (newLineReader (.start [cr, lf] .eof [])).readLine.1 = .ok [] := by
    simp [readLine, readLineFrom, newLineReader, Source.start, refill, fill, Source.read,
      indexByte, stripCR, streamReadBufBytes, httpLineMaxBytes, cr_ne_lf, List.findIdx?_cons]
  simp [results, call, hsplit, hwhole] at heq

end LineReader

end TamagoUefi.Net
