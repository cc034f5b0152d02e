import TamagoUefi.Net.HttpAgree

/-!
# TamagoUefi.Net.ChunkedCode — chunked bodies, written and read back (`http.go`)

`encode` writes a list of chunks down, with extensions on the size lines and lines behind the last chunk.

* `decodeChunkedFrom_encode`: what `decodeChunked` makes of it; a size has 32 bits there.
* `chunkText_encode`: it is a text of chunks, for `streamChunkedBody_spec`.
* `chunked_roundtrip`: when both give the chunks back.
-/

namespace TamagoUefi.Net

open Go Lib LineReader Response

/-! ## Writing -/

/-- `strconv.FormatUint(n, 16)`. -/
def formatHex (n : ℕ) : Bytes := (Nat.toDigits 16 n).map fun c => UInt8.ofNat c.toNat

theorem hexVal_digitChar : ∀ d < 16, hexVal (UInt8.ofNat (Nat.digitChar d).toNat) = some d := by decide

theorem foldlM_formatHex (n : ℕ) : (formatHex n).foldlM (fun n c => (hexVal c).map (n * 16 + ·)) 0 = some n :=
  foldlM_toDigits (by decide) hexVal_digitChar n

theorem formatHex_ne_nil (n : ℕ) : formatHex n ≠ [] := by
  intro h
  exact Nat.toDigits_ne_nil (List.map_eq_nil_iff.mp h)

theorem parseUintHex_formatHex (n bits : ℕ) :
    parseUintHex (formatHex n) bits = if n < 2 ^ bits then some n else none := by
  unfold parseUintHex
  rw [if_neg (by simpa using formatHex_ne_nil n), foldlM_formatHex, Option.filter_some]
  simp

theorem hexVal_of_mem_formatHex (n : ℕ) : ∀ c ∈ formatHex n, hexVal c ≠ none := by
  have hparse : parseUintHex (formatHex n) n = some n := by
    rw [parseUintHex_formatHex, if_pos Nat.lt_two_pow_self]
  exact hexVal_of_parse hparse

theorem lf_notMem_formatHex (n : ℕ) : lf ∉ formatHex n := fun h => hexVal_of_mem_formatHex n lf h (by decide)

structure Chunk where
  data : Bytes
  /-- What stands behind the size on its line. -/
  ext : Bytes
  nonempty : data ≠ []
  extension : Extension ext
  oneLine : lf ∉ ext

/-- The chunk of size zero, and lines behind it. -/
structure LastChunk where
  ext : Bytes
  trailer : List Bytes
  extension : Extension ext
  oneLine : lf ∉ ext

def Chunk.line (c : Chunk) : Bytes := formatHex c.data.length ++ c.ext

def LastChunk.line (e : LastChunk) : Bytes := formatHex 0 ++ e.ext

def LastChunk.behind (e : LastChunk) : Bytes := e.trailer.flatMap (· ++ crlf) ++ crlf

/-- The chunked text of a list of chunks. -/
def encode (e : LastChunk) : List Chunk → Bytes
  | [] => e.line ++ crlf ++ e.behind
  | c :: cs => c.line ++ crlf ++ (c.data ++ (crlf ++ encode e cs))

/-- The size lines, each with what is behind it. -/
def sizeLines (e : LastChunk) : List Chunk → List (Bytes × Bytes)
  | [] => [(e.line, e.behind)]
  | c :: cs => (c.line, c.data ++ (crlf ++ encode e cs)) :: sizeLines e cs

theorem Chunk.lf_notMem_line (c : Chunk) : lf ∉ c.line := by
  simp [Chunk.line, lf_notMem_formatHex, c.oneLine]

theorem LastChunk.lf_notMem_line (e : LastChunk) : lf ∉ e.line := by
  simp [LastChunk.line, lf_notMem_formatHex, e.oneLine]

theorem Chunk.chunkSize_line (c : Chunk) (bits : ℕ) :
    chunkSize bits c.line = if c.data.length < 2 ^ bits then some c.data.length else none := by
  rw [Chunk.line, chunkSize_hex (hexVal_of_mem_formatHex _) c.extension, parseUintHex_formatHex]

theorem LastChunk.chunkSize_line (e : LastChunk) (bits : ℕ) : chunkSize bits e.line = some 0 := by
  rw [LastChunk.line, chunkSize_hex (hexVal_of_mem_formatHex _) e.extension, parseUintHex_formatHex,
    if_pos (Nat.two_pow_pos bits)]

/-! ## Reading all at once -/

/-- **`decodeChunked`** gives the chunks back, if their sizes have 32 bits. -/
theorem decodeChunkedFrom_encode (e : LastChunk) (cs : List Chunk) (out : Bytes) :
    decodeChunkedFrom (encode e cs) out =
      if ∀ c ∈ cs, c.data.length < 2 ^ 32 then .ok (out ++ cs.flatMap Chunk.data) else .error .badChunk := by
  induction cs generalizing out with
  | nil =>
    rw [encode, decodeChunkedFrom_last (ends_crlf e.lf_notMem_line) (e.chunkSize_line 32)]
    simp
  | cons c cs ih =>
    have hsize := c.chunkSize_line 32
    rw [encode]
    by_cases hc : c.data.length < 2 ^ 32
    · rw [if_pos hc] at hsize
      rw [decodeChunkedFrom_chunk (ends_crlf c.lf_notMem_line) hsize c.nonempty rfl, ih, List.append_assoc]
      simp only [List.forall_mem_cons, hc, true_and, List.flatMap_cons]
    · rw [if_neg hc] at hsize
      rw [decodeChunkedFrom_line (ends_crlf c.lf_notMem_line), hsize]
      simp only [List.forall_mem_cons, hc, false_and, if_false]

/-! ## Reading line by line -/

theorem chunkText_encode (e : LastChunk) (cs : List Chunk) (hlen : (encode e cs).length < 2 ^ 63) :
    ChunkText (sizeLines e cs) (encode e cs) (cs.flatMap Chunk.data) := by
  induction cs with
  | nil => exact .last e.lf_notMem_line (e.chunkSize_line 64)
  | cons c cs ih =>
    simp only [encode, List.length_append] at hlen
    have hsize : chunkSize 64 c.line = some c.data.length := by
      rw [c.chunkSize_line, if_pos (by omega)]
    rw [List.flatMap_cons]
    exact .chunk c.lf_notMem_line hsize c.nonempty (ih (by omega))

/-! ## The result -/

/-- **Round trip**: `decodeChunked` gives the chunks back exactly when each of them has less than 2^32 bytes;
`streamChunkedBody` gives them back, for a split of the text, exactly when `ReadLine` takes the size lines. -/
theorem chunked_roundtrip {σ : Type} (w : Sink σ) (contents : σ → Bytes) (hw : Takes w contents)
    (e : LastChunk) (cs : List Chunk) (hlen : (encode e cs).length < 2 ^ 63) :
    (decodeChunked (encode e cs) = .ok (cs.flatMap Chunk.data) ↔ ∀ c ∈ cs, c.data.length < 2 ^ 32) ∧
    ∀ (err : ReadErr) (cuts : List Cut) (dst : σ),
      ((streamChunkedBody w (newLineReader (.start (encode e cs) err cuts)) dst 0).err = none ∧
        (streamChunkedBody w (newLineReader (.start (encode e cs) err cuts)) dst 0).written =
          (cs.flatMap Chunk.data).length ∧
        contents (streamChunkedBody w (newLineReader (.start (encode e cs) err cuts)) dst 0).dst =
          contents dst ++ cs.flatMap Chunk.data) ↔
      ∀ p ∈ sizeLines e cs, Fits
        (streamChunkedBody w (newLineReader (.start (encode e cs) err cuts)) dst 0).lr.src.ends p.1 p.2 := by
  constructor
  · rw [decodeChunked, decodeChunkedFrom_encode, List.nil_append]
    split_ifs with h
    · exact ⟨fun _ => h, fun _ => rfl⟩
    · exact ⟨False.elim, fun hno => absurd hno h⟩
  · intro err cuts dst
    have hstream := streamChunkedBody_spec hw (chunkText_encode e cs hlen) hlen (before_start _ err cuts) dst 0
    rw [Nat.zero_add] at hstream
    split_ifs at hstream with h
    · exact ⟨fun _ => h, fun _ => hstream⟩
    · refine ⟨fun hok => ?_, fun hno => absurd hno h⟩
      rw [hstream] at hok
      cases hok.1

/-- `hi` as one chunk with an extension, and a trailer. -/
def hiChunk : Chunk := ⟨str "hi", str ";a=b", by decide, .inr ⟨[], str "a=b", rfl, by simp⟩, by decide⟩

def hiLast : LastChunk := ⟨[], [str "X: y"], .inl rfl, by decide⟩

/-- A text of one chunk comes back, also when it is read byte by byte. -/
theorem chunked_roundtrip_hi : (encode hiLast [hiChunk]).length < 2 ^ 63 ∧
    decodeChunked (encode hiLast [hiChunk]) = .ok (str "hi") ∧
    (streamChunkedBody buffer (newLineReader (.start (encode hiLast [hiChunk]) .eof
      (List.replicate 30 ⟨1, false⟩))) [] 0).dst = str "hi" := by
  have hlen : (encode hiLast [hiChunk]).length < 2 ^ 63 := by decide
  obtain ⟨hdecode, hstream⟩ := chunked_roundtrip buffer id takes_buffer hiLast [hiChunk] hlen
  refine ⟨hlen, hdecode.mpr (by decide), ((hstream _ _ _).mpr ?_).2.2⟩
  have hshort : ∀ p ∈ sizeLines hiLast [hiChunk], p.1.length < httpLineMaxBytes := by decide
  exact fun p hp => fits_of_lt _ _ (hshort p hp)

/-- A chunk whose size line has more than 8 KiB. -/
def longChunk : Chunk where
  data := str "hi"
  ext := ';'.toUInt8 :: List.replicate httpLineMaxBytes 'a'.toUInt8
  nonempty := by decide
  extension := .inr ⟨[], _, rfl, by simp⟩
  oneLine := by
    intro h
    rcases List.mem_cons.mp h with h | h
    · exact absurd h (by decide)
    · exact absurd (List.eq_of_mem_replicate h) (by decide)

/-- It is not taken. -/
theorem chunked_roundtrip_long :
    (streamChunkedBody buffer (newLineReader (.start (encode hiLast [longChunk]) .eof [])) [] 0).err =
      some (.read .lineTooLong) := by
  have hlen : (encode hiLast [longChunk]).length < 2 ^ 63 := by decide +kernel
  have hstream := streamChunkedBody_spec takes_buffer (chunkText_encode hiLast [longChunk] hlen) hlen
    (before_start _ .eof []) [] 0
  have hlong : ∀ ends behind, ¬ Fits ends longChunk.line behind := by
    intro ends behind hfits
    obtain ⟨t, -, heq⟩ := lineAs_eq ends longChunk.line behind
    rw [Fits, heq] at hfits
    simp only [longChunk, Chunk.line, List.length_append, List.length_cons, List.length_replicate] at hfits
    omega
  rwa [if_neg fun h => hlong _ _ (h _ (List.mem_cons_self ..))] at hstream

end TamagoUefi.Net
