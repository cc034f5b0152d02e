import TamagoUefi.Net.LineReader

/-!
# TamagoUefi.Net.HttpResponse — the two readers of responses (`http.go`)

`parseHTTPResponse` works on the bytes of a whole response: it searches for the empty line, splits
what is before it into lines and decodes what is behind it.  `streamHTTPResponseHeaders` takes one
line after the other off a `lineReader` and copies the body to a writer while it comes in.

Both know three framings of a body, in this order: chunked, `Content-Length`, until the peer closes.
-/

namespace TamagoUefi.Net

open Go Lib LineReader

def httpMaxResponseBytes : ℕ := 2 ^ 20

def crlf : Bytes := [cr, lf]

inductive RespErr
  | badStatusLine
  | badHeader
  | badChunk
  | unexpectedEOF
  /-- An error of the reader. -/
  | read (e : ReadErr)
  /-- An error of the writer. -/
  | write (text : Bytes)
  deriving DecidableEq

/-! ## Lines -/

/-- The status code of `HTTP/x code reason`. -/
def statusCode (line : Bytes) : Option ℤ :=
  match splitN line ' '.toUInt8 3 with
  | proto :: code :: _ => if hasPrefix proto (str "HTTP/") then parseInt64 code else none
  | _ => none

/-- Name and value of a header line. -/
def headerField (line : Bytes) : Option (Bytes × Bytes) :=
  (indexByte line ':'.toUInt8).map fun i =>
    (toLower (trimSpace (line.take i)), trimSpace (line.drop (i + 1)))

/-- The size that a line in front of a chunk gives. -/
def chunkSize (bits : ℕ) (line : Bytes) : Option ℕ :=
  let size :=
    match indexByte line ';'.toUInt8 with
    | some i => line.take i
    | none => line
  parseUintHex (trimSpace size) bits

/-! ## The buffered reader -/

structure HTTPResponse where
  statusCode : ℤ
  statusLine : Bytes
  headers : Bytes → Option Bytes
  body : Bytes

/-- Values of one name are joined. -/
def addHeader (headers : Bytes → Option Bytes) (line : Bytes) : Except RespErr (Bytes → Option Bytes) :=
  if line.isEmpty then .ok headers
  else
    match headerField line with
    | none => .error .badHeader
    | some (k, v) =>
      match headers k with
      | some existing => .ok (Function.update headers k (some (existing ++ str ", " ++ v)))
      | none => .ok (Function.update headers k (some v))

theorem length_drop_chunk {raw : Bytes} {eol size : ℕ} (h : ¬ (raw.drop (eol + 2)).length < size + 2) :
    (raw.drop (eol + 2 + size + 2)).length < raw.length := by
  simp only [List.length_drop] at *
  omega

/-- `raw` is what has not been decoded, `out` what has. -/
def decodeChunkedFrom (raw out : Bytes) : Except RespErr Bytes :=
  match index raw crlf with
  | none => .error .badChunk
  | some eol =>
    match chunkSize 32 (raw.take eol) with
    | none => .error .badChunk
    | some size =>
      if size = 0 then .ok out
      else if hlen : (raw.drop (eol + 2)).length < size + 2 then .error .badChunk
      else
        have := length_drop_chunk hlen
        -- the two bytes behind the data are not looked at
        decodeChunkedFrom (raw.drop (eol + 2 + size + 2)) (out ++ (raw.drop (eol + 2)).take size)
termination_by raw.length

def decodeChunked (raw : Bytes) : Except RespErr Bytes := decodeChunkedFrom raw []

/-- The body of a response with these headers, from what came behind them. -/
def decodeBody (headers : Bytes → Option Bytes) (body : Bytes) : Except RespErr Bytes :=
  if (headers (str "transfer-encoding")).any (equalFold · (str "chunked")) then decodeChunked body
  else
    match headers (str "content-length") with
    | none => .ok body
    | some cl =>
      match parseInt64 cl with
      | none => .error .badHeader
      | some n => if n < 0 then .error .badHeader else .ok (body.take n.toNat)

def parseHTTPResponse (raw : Bytes) : Except RespErr HTTPResponse :=
  match index raw (crlf ++ crlf) with
  | none => .error .badStatusLine
  | some idx =>
    match split (raw.take idx) crlf with
    | [] => .error .badStatusLine
    | first :: lines =>
      if first.isEmpty then .error .badStatusLine
      else
        match statusCode first with
        | none => .error .badStatusLine
        | some code => do
          let headers ← lines.foldlM addHeader fun _ => none
          let body ← decodeBody headers (raw.drop (idx + 4))
          pure ⟨code, first, headers, body⟩

/-! ## The streaming reader -/

/-- `io.Writer`: how many bytes were taken, and an error. -/
structure Sink (σ : Type) where
  write : σ → Bytes → ℕ × Option Bytes × σ

/-- `io.Discard` in the place of a sink with states `σ`. -/
def discard (σ : Type) : Sink σ := ⟨fun dst b => (b.length, none, dst)⟩

/-- One round of a copy: a read, and a write of what was read, unless that is nothing. -/
structure Round (σ : Type) where
  got : Bytes
  rerr : Option ReadErr
  wrote : ℕ
  werr : Option Bytes
  dst : σ
  lr : LineReader

def copyRound {σ : Type} (w : Sink σ) (lr : LineReader) (dst : σ) (want : ℕ) : Round σ :=
  let (got, rerr, lr') := lr.read want
  let (n, werr, dst') := if got = [] then (0, none, dst) else w.write dst got
  ⟨got, rerr, n, werr, dst', lr'⟩

theorem copyRound_read {σ : Type} (w : Sink σ) (lr : LineReader) (dst : σ) (want : ℕ) :
    lr.read want = ((copyRound w lr dst want).got, (copyRound w lr dst want).rerr,
      (copyRound w lr dst want).lr) := rfl

/-- The peer closed the connection, or the stream is over. -/
def ReadErr.closed (e : ReadErr) : Bool := e = .peerClosed ∨ e = .eof

/-- What the copy of a body gives. -/
structure Copied (σ : Type) where
  written : ℕ
  err : Option RespErr
  dst : σ
  lr : LineReader

section
variable {σ : Type} (w : Sink σ)

theorem copyRound_progress {lr : LineReader} {dst : σ} {want : ℕ} (hwant : 0 < want)
    (h : (copyRound w lr dst want).rerr = none) : (copyRound w lr dst want).lr.fuel < lr.fuel := by
  have hread := copyRound_read w lr dst want
  rw [h] at hread
  exact read_progress hwant hread

theorem room_pos {n : ℕ} (h : 0 < n) : 0 < min n streamReadBufBytes :=
  Nat.lt_min.mpr ⟨h, by decide⟩

def streamBoundedBody (total : ℕ) (lr : LineReader) (dst : σ) (written : ℕ) : Copied σ :=
  if htotal : written < total then
    let r := copyRound w lr dst (min (total - written) streamReadBufBytes)
    let written' := written + r.wrote
    match r.werr with
    | some e => ⟨written', some (.write e), r.dst, r.lr⟩
    | none =>
      match h : r.rerr with
      | some e =>
        if e.closed then
          ⟨written', if written' < total then some .unexpectedEOF else none, r.dst, r.lr⟩
        else ⟨written', some (.read e), r.dst, r.lr⟩
      | none =>
        have := copyRound_progress w (room_pos (Nat.sub_pos_of_lt htotal)) h
        streamBoundedBody total r.lr r.dst written'
  else ⟨written, none, dst, lr⟩
termination_by lr.fuel

def streamIdentityBody (lr : LineReader) (dst : σ) (written : ℕ) : Copied σ :=
  let r := copyRound w lr dst streamReadBufBytes
  let written' := written + r.wrote
  match r.werr with
  | some e => ⟨written', some (.write e), r.dst, r.lr⟩
  | none =>
    match h : r.rerr with
    | some e => ⟨written', if e.closed then none else some (.read e), r.dst, r.lr⟩
    | none =>
      have := copyRound_progress w (by decide) h
      streamIdentityBody r.lr r.dst written'
termination_by lr.fuel

/-- The inner loop of `streamChunkedBody`: the data of one chunk. -/
def streamChunkData (remaining : ℕ) (lr : LineReader) (dst : σ) (written : ℕ) : Copied σ :=
  if hrem : 0 < remaining then
    let r := copyRound w lr dst (min remaining streamReadBufBytes)
    let written' := written + r.wrote
    match r.werr with
    | some e => ⟨written', some (.write e), r.dst, r.lr⟩
    | none =>
      match h : r.rerr with
      | some e => ⟨written', some (if e.closed then .badChunk else .read e), r.dst, r.lr⟩
      | none =>
        have := copyRound_progress w (room_pos hrem) h
        streamChunkData (remaining - r.got.length) r.lr r.dst written'
  else ⟨written, none, dst, lr⟩
termination_by lr.fuel

theorem streamChunkData_fuel (remaining : ℕ) (lr : LineReader) (dst : σ) (written : ℕ) :
    (streamChunkData w remaining lr dst written).lr.fuel ≤ lr.fuel := by
  fun_induction streamChunkData w remaining lr dst written with
  | case1 remaining lr dst written hrem r _ e =>
    exact read_fuel (copyRound_read w lr dst _)
  | case2 remaining lr dst written hrem r _ _ e =>
    exact read_fuel (copyRound_read w lr dst _)
  | case3 remaining lr dst written hrem r _ _ _ hlt ih => exact ih.trans hlt.le
  | case4 remaining lr dst written hrem => exact le_rfl

/-- The bound of the loop over a chunk, `int64(size)`: a size of 2^63 and more is negative there. -/
def chunkBound (size : ℕ) : ℕ := (Int.bmod size (2 ^ 64)).toNat

/-- The lines behind the last chunk, up to an empty one. -/
def drainTrailer (lr : LineReader) : LineReader :=
  match h : lr.readLine with
  | (.error _, lr') => lr'
  | (.ok line, lr') =>
    if line = [] then lr'
    else
      have := readLine_progress h
      drainTrailer lr'
termination_by lr.fuel

def streamChunkedBody (lr : LineReader) (dst : σ) (written : ℕ) : Copied σ :=
  match h : lr.readLine with
  | (.error e, lr') => ⟨written, some (.read e), dst, lr'⟩
  | (.ok line, lr') =>
    match chunkSize 64 line with
    | none => ⟨written, some .badChunk, dst, lr'⟩
    | some size =>
      if size = 0 then ⟨written, none, dst, drainTrailer lr'⟩
      else
        let c := streamChunkData w (chunkBound size) lr' dst written
        match c.err with
        | some e => ⟨c.written, some e, c.dst, c.lr⟩
        | none =>
          match hend : c.lr.readLine with
          | (.error e, lr'') => ⟨c.written, some (.read e), c.dst, lr''⟩
          | (.ok _, lr'') =>
            have : lr''.fuel < lr.fuel :=
              (readLine_progress hend).trans_le (streamChunkData_fuel w _ _ _ _) |>.trans
                (readLine_progress h)
            streamChunkedBody lr'' c.dst c.written
termination_by lr.fuel

end

/-- What the loop over the header lines keeps. -/
structure Head where
  contentLength : ℤ
  chunked : Bool
  headers : Bytes → Option Bytes

/-- One header line; `none` is `ErrHTTPBadHeader`. -/
def streamField (hd : Head) (line : Bytes) : Option Head :=
  (headerField line).bind fun (k, v) =>
    if k = str "content-length" then
      (parseInt64 v).bind fun n =>
        if n < 0 then none
        else some { hd with contentLength := n, headers := Function.update hd.headers k (some v) }
    else if k = str "transfer-encoding" then
      some { hd with
        chunked := hd.chunked || equalFold v (str "chunked")
        headers := Function.update hd.headers k (some v) }
    else if k = str "content-type" ∨ k = str "location" then
      some { hd with headers := Function.update hd.headers k (some v) }
    else some hd

def streamFields (lr : LineReader) (hd : Head) : Head × Option RespErr × LineReader :=
  match h : lr.readLine with
  | (.error e, lr') => (hd, some (.read e), lr')
  | (.ok line, lr') =>
    if line = [] then (hd, none, lr')
    else
      match streamField hd line with
      | none => (hd, some .badHeader, lr')
      | some hd' =>
        have := readLine_progress h
        streamFields lr' hd'
termination_by lr.fuel

structure Streamed (σ : Type) where
  status : ℤ
  written : ℕ
  headers : Bytes → Option Bytes
  err : Option RespErr
  dst : σ
  lr : LineReader

def streamBody {σ : Type} (w : Sink σ) (hd : Head) (lr : LineReader) (dst : σ) : Copied σ :=
  if hd.chunked then streamChunkedBody w lr dst 0
  else if 0 ≤ hd.contentLength then streamBoundedBody w hd.contentLength.toNat lr dst 0
  else streamIdentityBody w lr dst 0

def streamHTTPResponseHeaders {σ : Type} (w : Sink σ) (lr : LineReader) (dst : σ) : Streamed σ :=
  match lr.readLine with
  | (.error e, lr) => ⟨0, 0, fun _ => none, some (.read e), dst, lr⟩
  | (.ok line, lr) =>
    match statusCode line with
    | none => ⟨0, 0, fun _ => none, some .badStatusLine, dst, lr⟩
    | some status =>
      match streamFields lr ⟨-1, false, fun _ => none⟩ with
      | (hd, some e, lr) => ⟨0, 0, hd.headers, some e, dst, lr⟩
      | (hd, none, lr) =>
        -- the body of a redirect is dropped, and not counted
        if 300 ≤ status ∧ status < 400 then
          let c := streamBody (discard σ) hd lr dst
          ⟨status, 0, hd.headers, c.err, c.dst, c.lr⟩
        else
          let c := streamBody w hd lr dst
          ⟨status, c.written, hd.headers, c.err, c.dst, c.lr⟩

/-! ## What the functions do to the stream -/

theorem later_copyRound {σ : Type} (w : Sink σ) (lr : LineReader) (dst : σ) (want : ℕ) :
    lr.src.Later (copyRound w lr dst want).lr.src := later_read (copyRound_read w lr dst want)

theorem later_drainTrailer (lr : LineReader) : lr.src.Later (drainTrailer lr).src := by
  fun_induction drainTrailer lr with
  | case1 lr e lr' h => exact later_readLine h
  | case2 lr lr' h => exact later_readLine h
  | case3 lr line lr' h _ _ ih => exact (later_readLine h).trans ih

end TamagoUefi.Net
