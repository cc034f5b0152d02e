import TamagoUefi.Net.StreamBodies

/-!
# TamagoUefi.Net.BufferedReader — `parseHTTPResponse` on a text

* `ends_joinLines`, `split_joinLines`: the empty line behind a head is found, and its lines are split.
* `decodeChunkedFrom_eq`: a chunked body.
* `HeaderBlock.parse`, `headerBlock_of_parse`: a text is accepted exactly with a header block in front.
-/

namespace TamagoUefi.Net

open Go Lib LineReader

variable {raw line rest : Bytes}

/-- A CRLF does not begin in a line without LF. -/
theorem ends_line {u s : Bytes} (h : lf ∉ line) (hu : Ends u (crlf ++ s))
    (hhead : (u ++ crlf).head? ≠ some lf) : Ends (line ++ u) (crlf ++ s) := by
  induction line with
  | nil => exact hu
  | cons c line ih =>
    refine ends_cons.mpr ⟨fun hpre => ?_, ih fun hmem => h (List.mem_cons_of_mem c hmem)⟩
    -- the LF would be the next byte
    obtain ⟨-, hlf⟩ := List.cons_prefix_cons.mp hpre
    cases line with
    | nil =>
      obtain ⟨t, ht⟩ := hlf
      refine hhead ?_
      cases u with
      | nil => exact absurd (List.cons.inj ht).1 cr_ne_lf.symm
      | cons d u => exact congrArg some (List.cons.inj ht).1.symm
    | cons d line =>
      obtain ⟨rfl, -⟩ := List.cons_prefix_cons.mp hlf
      simp at h

theorem ends_crlf (h : lf ∉ line) : Ends line crlf := by
  have := ends_line (s := []) h (ends_nil _) (by simp [crlf, cr_ne_lf])
  rwa [List.append_nil, List.append_nil] at this

theorem index_crlf_eq_none (h : lf ∉ line) : index line crlf = none := by
  cases hi : index line crlf with
  | none => rfl
  | some i =>
    rw [index_eq_some hi] at h
    simp [crlf] at h

/-- Lines with CRLF between them. -/
def joinLines : List Bytes → Bytes
  | [] => []
  | [l] => l
  | l :: m :: ls => l ++ crlf ++ joinLines (m :: ls)

theorem joinLines_eq : ∀ ls : List Bytes, joinLines ls = crlf.intercalate ls
  | [] => rfl
  | [_] => List.intercalate_singleton.symm
  | l :: m :: ls => by rw [joinLines, joinLines_eq (m :: ls), List.intercalate_cons_cons]

theorem split_joinLines (l : Bytes) (ls : List Bytes) (h : ∀ m ∈ l :: ls, lf ∉ m) :
    split (joinLines (l :: ls)) crlf = l :: ls := by
  rw [joinLines_eq]
  exact split_intercalate (by decide) l ls fun m hm => ⟨index_crlf_eq_none (h m hm), ends_crlf (h m hm)⟩

theorem flatMap_crlf (l : Bytes) (ls : List Bytes) :
    (l :: ls).flatMap (· ++ crlf) = joinLines (l :: ls) ++ crlf := by
  induction ls generalizing l with
  | nil => simp [joinLines]
  | cons m ls ih =>
    rw [List.flatMap_cons, ih m, joinLines, List.append_assoc (l ++ crlf)]

theorem joinLines_cons (l : Bytes) (ls : List Bytes) :
    ∃ t, joinLines (l :: ls) = l ++ t ∧ (t ++ crlf).head? = some cr := by
  cases ls with
  | nil => exact ⟨[], by simp [joinLines], rfl⟩
  | cons m ls => exact ⟨crlf ++ joinLines (m :: ls), by simp [joinLines], rfl⟩

/-- A block that does not begin with an empty line does not begin with CRLF. -/
theorem not_crlf_prefix {l : Bytes} (ls : List Bytes) (hlf : lf ∉ l) (hne : l ≠ []) (s : Bytes) :
    ¬ crlf <+: joinLines (l :: ls) ++ (crlf ++ s) := by
  obtain ⟨t, ht, hhead⟩ := joinLines_cons l ls
  rw [ht]
  intro hpre
  cases l with
  | nil => exact hne rfl
  | cons c l =>
    obtain ⟨-, hpre⟩ := List.cons_prefix_cons.mp hpre
    cases l with
    | nil =>
      cases t with
      | nil => exact cr_ne_lf (List.cons_prefix_cons.mp hpre).1.symm
      | cons d t =>
        obtain ⟨rfl, -⟩ := List.cons_prefix_cons.mp hpre
        exact cr_ne_lf (Option.some.inj hhead).symm
    | cons d l =>
      obtain ⟨rfl, -⟩ := List.cons_prefix_cons.mp hpre
      simp at hlf

/-- **The empty line is found** behind lines that are not empty. -/
theorem ends_joinLines (l : Bytes) (ls : List Bytes) (hlf : ∀ m ∈ l :: ls, lf ∉ m)
    (hne : ∀ m ∈ ls, m ≠ []) : Ends (joinLines (l :: ls)) (crlf ++ crlf) := by
  induction ls generalizing l with
  | nil =>
    have := ends_line (s := crlf) (hlf l (by simp)) (ends_nil _) (by simp [crlf, cr_ne_lf])
    rwa [List.append_nil] at this
  | cons m ls ih =>
    have hm := not_crlf_prefix ls (hlf m (by simp)) (hne m (by simp)) crlf
    have hends := ih m (fun k hk => hlf k (by simp [List.mem_cons.mp hk])) fun k hk => hne k (by simp [hk])
    rw [joinLines, List.append_assoc]
    refine ends_line (hlf l (by simp)) ?_ (by simp [crlf, cr_ne_lf])
    refine ends_cons.mpr ⟨fun hpre => ?_, ends_cons.mpr ⟨fun hpre => ?_, hends⟩⟩
    · exact hm (List.cons_prefix_cons.mp (List.cons_prefix_cons.mp hpre).2).2
    · exact cr_ne_lf (List.cons_prefix_cons.mp hpre).1

theorem chunkSize_of_lt {n : ℕ} (h : chunkSize 64 line = some n) (hn : n < 2 ^ 32) :
    chunkSize 32 line = some n := by
  unfold chunkSize parseUintHex at *
  simp only at h ⊢
  split_ifs at h ⊢ with hempty
  rw [Option.filter_eq_some_iff] at h ⊢
  exact ⟨h.1, by simpa using hn⟩

theorem decodeChunkedFrom_line (hline : Ends line crlf) (out : Bytes) :
    decodeChunkedFrom (line ++ crlf ++ rest) out =
      match chunkSize 32 line with
      | none => .error .badChunk
      | some size =>
        if size = 0 then .ok out
        else if rest.length < size + 2 then .error .badChunk
        else decodeChunkedFrom (rest.drop (size + 2)) (out ++ rest.take size) := by
  have hrest : (line ++ crlf ++ rest).drop (line.length + 2) = rest := List.drop_left' (by simp [crlf])
  have htake : (line ++ crlf ++ rest).take line.length = line := by
    rw [List.append_assoc, List.take_left]
  rw [decodeChunkedFrom, hline.index_append]
  simp only
  rw [htake]
  cases chunkSize 32 line with
  | none => rfl
  | some size =>
    simp only [hrest, dite_eq_ite, Nat.add_assoc (line.length + 2), ← List.drop_drop (i := size + 2)]

theorem decodeChunkedFrom_last (hline : Ends line crlf) (hsize : chunkSize 32 line = some 0)
    (behind out : Bytes) : decodeChunkedFrom (line ++ crlf ++ behind) out = .ok out := by
  rw [decodeChunkedFrom_line hline, hsize]
  exact if_pos rfl

theorem decodeChunkedFrom_chunk {data eol : Bytes} (hline : Ends line crlf)
    (hsize : chunkSize 32 line = some data.length) (hne : data ≠ []) (heol : eol.length = 2)
    (text out : Bytes) :
    decodeChunkedFrom (line ++ crlf ++ (data ++ (eol ++ text))) out = decodeChunkedFrom text (out ++ data) := by
  have hnext : (data ++ (eol ++ text)).drop (data.length + 2) = text := by
    rw [← List.append_assoc]
    exact List.drop_left' (by rw [List.length_append, heol])
  have hpos := List.length_pos_iff.mpr hne
  have hroom : ¬ (data ++ (eol ++ text)).length < data.length + 2 := by
    rw [List.length_append, List.length_append, heol]
    omega
  rw [decodeChunkedFrom_line hline, hsize]
  simp only
  rw [if_neg hpos.ne', if_neg hroom, hnext, List.take_left]

/-- **A chunked body**, by the buffered reader. -/
theorem decodeChunkedFrom_eq {text body : Bytes} (hc : Chunks text body) (hlen : text.length < 2 ^ 32)
    (out : Bytes) : decodeChunkedFrom text out = .ok (out ++ body) := by
  induction hc generalizing out with
  | @last line trailer hline hshort hsize =>
    rw [decodeChunkedFrom_last (ends_crlf hline) (chunkSize_of_lt hsize (by decide)), List.append_nil]
  | @chunk line data text body hline hshort hsize hne more ih =>
    simp only [List.length_append, crlf, List.length_cons, List.length_nil] at hlen
    rw [decodeChunkedFrom_chunk (ends_crlf hline) (chunkSize_of_lt hsize (by omega)) hne rfl, ih (by omega),
      List.append_assoc]

/-! ## Header blocks -/

/-- A whole header block: a status line and fields, up to the first empty line. -/
def HeaderBlock (raw : Bytes) (code : ℤ) (first : Bytes) (headers : Bytes → Option Bytes) (rest : Bytes) :
    Prop :=
  ∃ block lines, Ends block (crlf ++ crlf) ∧ raw = block ++ (crlf ++ crlf) ++ rest ∧
    split block crlf = first :: lines ∧ statusCode first = some code ∧
    lines.foldlM addHeader (fun _ => none) = .ok headers

variable {headers : Bytes → Option Bytes}

theorem HeaderBlock.unique {first first' rest' : Bytes} {code code' : ℤ} {headers' : Bytes → Option Bytes}
    (h : HeaderBlock raw code first headers rest)
    (h' : HeaderBlock raw code' first' headers' rest') : headers = headers' ∧ rest = rest' := by
  obtain ⟨block, lines, hends, rfl, hsplit, -, hfold⟩ := h
  obtain ⟨block', lines', hends', hraw, hsplit', -, hfold'⟩ := h'
  have hidx := hends.index_append rest
  rw [hraw, hends'.index_append rest'] at hidx
  have hraw : block ++ (crlf ++ crlf ++ rest) = block' ++ (crlf ++ crlf ++ rest') := by
    rw [← List.append_assoc, hraw, List.append_assoc]
  obtain ⟨rfl, hbehind⟩ := List.append_inj hraw (Option.some.inj hidx).symm
  obtain ⟨-, rfl⟩ := List.cons_eq_cons.mp (hsplit.symm.trans hsplit')
  exact ⟨Except.ok.inj (hfold.symm.trans hfold'), List.append_cancel_left hbehind⟩

/-- **The buffered reader** behind a header block. -/
theorem HeaderBlock.parse {first body : Bytes} {code : ℤ} (h : HeaderBlock raw code first headers rest)
    (hbody : decodeBody headers rest = .ok body) :
    parseHTTPResponse raw = .ok ⟨code, first, headers, body⟩ := by
  obtain ⟨block, lines, hends, rfl, hsplit, hcode, hfold⟩ := h
  have hhead : (block ++ (crlf ++ crlf) ++ rest).take block.length = block := by
    rw [List.append_assoc, List.take_left]
  have hrest : (block ++ (crlf ++ crlf) ++ rest).drop (block.length + 4) = rest :=
    List.drop_left' (by simp [crlf])
  have hfirst : ¬ first.isEmpty = true := by
    intro hnil
    rw [List.isEmpty_iff.mp hnil] at hcode
    cases hcode
  unfold parseHTTPResponse
  rw [hends.index_append]
  simp only
  rw [hhead, hsplit, hrest]
  simp only
  rw [if_neg hfirst, hcode]
  simp only
  rw [hfold, except_bind_eq_ok]
  refine ⟨headers, rfl, ?_⟩
  rw [hbody]
  rfl

theorem headerBlock_of_parse {resp : HTTPResponse} (h : parseHTTPResponse raw = .ok resp) :
    ∃ rest, HeaderBlock raw resp.statusCode resp.statusLine resp.headers rest ∧
      decodeBody resp.headers rest = .ok resp.body := by
  unfold parseHTTPResponse at h
  cases hidx : index raw (crlf ++ crlf) with
  | none =>
    rw [hidx] at h
    cases h
  | some idx =>
    rw [hidx] at h
    simp only at h
    cases hsplit : split (raw.take idx) crlf with
    | nil =>
      rw [hsplit] at h
      cases h
    | cons first lines =>
      rw [hsplit] at h
      simp only at h
      split_ifs at h with hempty
      cases hcode : statusCode first with
      | none =>
        rw [hcode] at h
        cases h
      | some code =>
        rw [hcode] at h
        obtain ⟨headers, hfold, h⟩ := except_bind_eq_ok.mp h
        obtain ⟨body, hbody, h⟩ := except_bind_eq_ok.mp h
        obtain rfl := Except.ok.inj h
        exact ⟨_, ⟨_, lines, ends_take_index hidx, index_eq_some hidx, hsplit, hcode, hfold⟩, hbody⟩

end TamagoUefi.Net
