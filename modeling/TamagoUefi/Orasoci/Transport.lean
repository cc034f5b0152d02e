import TamagoUefi.Net.LineSplits

/-!
# TamagoUefi.Orasoci.Transport — the answer to a request of `net/http` (`orasoci/transport.go`)

`RoundTrip` reads status line and headers off a `LineReader` and leaves the body to a goroutine that
copies it into an `io.Pipe`, whose other end is the `Body` of the response.  The copy is by chunks, by
`Content-Length`, or until the stream ends; the three loops are versions of those in `http.go`.  They
know `io.EOF` only: the error with which a `TCP4Conn` reports that the peer closed is an error to them.

What is read does not depend on the request: neither its method nor the status is looked at.
-/

namespace TamagoUefi.Orasoci

open Go Lib Net LineReader

inductive TransportErr
  /-- `malformed HTTP status line` -/
  | badStatusLine
  /-- `malformed HTTP status code` -/
  | badStatusCode
  /-- `malformed HTTP header` -/
  | badHeader
  /-- `bad Content-Length` -/
  | badContentLength
  /-- `malformed chunked size` -/
  | badChunkSize
  /-- `io.ErrUnexpectedEOF` -/
  | unexpectedEOF
  /-- An error of the connection. -/
  | read (e : ReadErr)
  /-- An error of the writer. -/
  | write (text : Bytes)
  deriving DecidableEq

abbrev Headers : Type := Bytes → Option Bytes

/-! ## Status line and headers -/

/-- The loop over the header lines. -/
def readHeaders (br : LineReader) (headers : Headers) : Except TransportErr Headers × LineReader :=
  match h : br.readLine with
  | (.error e, br') => (.error (.read e), br')
  | (.ok line, br') =>
    if line = [] then (.ok headers, br')
    else
      match addHeader headers line with
      | .error _ => (.error .badHeader, br')
      | .ok headers' =>
        have := readLine_progress h
        readHeaders br' headers'
termination_by br.fuel

def readStatusAndHeaders (br : LineReader) : Except TransportErr (ℤ × Headers) × LineReader :=
  match br.readLine with
  | (.error e, br) => (.error (.read e), br)
  | (.ok line, br) =>
    match splitN line ' '.toUInt8 3 with
    | proto :: code :: _ =>
      if hasPrefix proto (str "HTTP/") then
        match parseInt64 code with
        | none => (.error .badStatusCode, br)
        | some status =>
          match readHeaders br fun _ => none with
          | (.error e, br) => (.error e, br)
          | (.ok headers, br) => (.ok (status, headers), br)
      else (.error .badStatusLine, br)
    | _ => (.error .badStatusLine, br)

/-! ## The body -/

/-- `len(buf)` -/
def bufBytes : ℕ := 8 * 1024

/-- What a copy gives. -/
structure Copy (σ : Type) where
  written : ℕ
  err : Option TransportErr
  dst : σ
  br : LineReader

section
variable {σ : Type} (w : Sink σ)

theorem want_pos {n : ℕ} (h : 0 < n) : 0 < min n bufBytes := Nat.lt_min.mpr ⟨h, by decide⟩

def streamBounded (n : ℕ) (br : LineReader) (dst : σ) (written : ℕ) : Copy σ :=
  if hn : written < n then
    let r := copyRound w br dst (min (n - written) bufBytes)
    let written' := written + r.wrote
    match r.werr with
    | some e => ⟨written', some (.write e), r.dst, r.lr⟩
    | none =>
      match h : r.rerr with
      | some e =>
        if e = .eof then
          ⟨written', if written' < n then some .unexpectedEOF else none, r.dst, r.lr⟩
        else ⟨written', some (.read e), r.dst, r.lr⟩
      | none =>
        have := copyRound_progress w (want_pos (Nat.sub_pos_of_lt hn)) h
        streamBounded n r.lr r.dst written'
  else ⟨written, none, dst, br⟩
termination_by br.fuel

def streamIdentity (br : LineReader) (dst : σ) (written : ℕ) : Copy σ :=
  let r := copyRound w br dst bufBytes
  let written' := written + r.wrote
  match r.werr with
  | some e => ⟨written', some (.write e), r.dst, r.lr⟩
  | none =>
    match h : r.rerr with
    | some e => ⟨written', if e = .eof then none else some (.read e), r.dst, r.lr⟩
    | none =>
      have := copyRound_progress w (by decide) h
      streamIdentity r.lr r.dst written'
termination_by br.fuel

/-- The inner loop of `streamChunked`: the data of one chunk. -/
def copyChunk (remaining : ℕ) (br : LineReader) (dst : σ) (written : ℕ) : Copy σ :=
  if hrem : 0 < remaining then
    let r := copyRound w br dst (min remaining bufBytes)
    let written' := written + r.wrote
    match r.werr with
    | some e => ⟨written', some (.write e), r.dst, r.lr⟩
    | none =>
      match h : r.rerr with
      | some e => ⟨written', some (if e = .eof then .unexpectedEOF else .read e), r.dst, r.lr⟩
      | none =>
        have := copyRound_progress w (want_pos hrem) h
        copyChunk (remaining - r.got.length) r.lr r.dst written'
  else ⟨written, none, dst, br⟩
termination_by br.fuel

theorem copyChunk_fuel (remaining : ℕ) (br : LineReader) (dst : σ) (written : ℕ) :
    (copyChunk w remaining br dst written).br.fuel ≤ br.fuel := by
  fun_induction copyChunk w remaining br dst written with
  | case1 remaining br dst => exact read_fuel (copyRound_read w br dst _)
  | case2 remaining br dst => exact read_fuel (copyRound_read w br dst _)
  | case3 remaining br dst written hrem r _ _ _ hlt ih => exact ih.trans hlt.le
  | case4 => exact le_rfl

def streamChunked (br : LineReader) (dst : σ) (written : ℕ) : Copy σ :=
  match h : br.readLine with
  | (.error e, br') => ⟨written, some (.read e), dst, br'⟩
  | (.ok sizeLine, br') =>
    match chunkSize 64 sizeLine with
    | none => ⟨written, some .badChunkSize, dst, br'⟩
    | some size =>
      if size = 0 then ⟨written, none, dst, drainTrailer br'⟩
      else
        let c := copyChunk w (chunkBound size) br' dst written
        match c.err with
        | some e => ⟨c.written, some e, c.dst, c.br⟩
        | none =>
          match hend : c.br.readLine with
          | (.error e, br'') => ⟨c.written, some (.read e), c.dst, br''⟩
          | (.ok _, br'') =>
            have : br''.fuel < br.fuel :=
              (readLine_progress hend).trans_le (copyChunk_fuel w _ _ _ _) |>.trans
                (readLine_progress h)
            streamChunked br'' c.dst c.written
termination_by br.fuel

def streamBodyOnly (br : LineReader) (dst : σ) (headers : Headers) : Copy σ :=
  if (headers (str "transfer-encoding")).any (equalFold · (str "chunked")) then streamChunked w br dst 0
  else
    match headers (str "content-length") with
    | some cl =>
      match parseInt64 cl with
      | none => ⟨0, some .badContentLength, dst, br⟩
      | some n =>
        if n < 0 then ⟨0, some .badContentLength, dst, br⟩ else streamBounded w n.toNat br dst 0
    | none => streamIdentity w br dst 0

end

/-! ## `RoundTrip` -/

inductive Scheme
  | http
  | https
  deriving DecidableEq

/-- What the connection reports when the peer has closed: a `TCP4Conn` its own error, a `tls.Conn`
`io.EOF`. -/
def Scheme.closed : Scheme → ReadErr
  | .http => .peerClosed
  | .https => .eof

structure Request where
  scheme : Scheme
  method : Bytes

/-- What a reader of an `io.Pipe` sees behind the last byte. -/
inductive PipeEnd
  | eof
  | err (e : TransportErr)
  deriving DecidableEq

/-- `Close` and `CloseWithError` of the writing end. -/
def closeWith : Option TransportErr → PipeEnd
  | none => .eof
  | some (.read .eof) => .eof
  | some e => .err e

/-- The writing end of an `io.Pipe` that is read to its end. -/
def pipe : Sink Bytes := ⟨fun dst b => (b.length, none, dst ++ b)⟩

/-- The fields of `http.Response` that come off the wire. -/
structure Reply where
  statusCode : ℤ
  headers : Headers
  contentLength : ℤ
  transferEncoding : List Bytes
  /-- What `Body` gives, and how it ends. -/
  body : Bytes
  bodyEnd : PipeEnd
  request : Request

def contentLengthField (headers : Headers) : ℤ :=
  match headers (str "content-length") with
  | some cl => (parseInt64 cl).getD 0
  | none => -1

/-- `RoundTrip` from where the request is written, and `conn` is to be read. -/
def roundTrip (req : Request) (conn : Source UInt8 ReadErr) : Except TransportErr Reply × LineReader :=
  match readStatusAndHeaders (newLineReader conn) with
  | (.error e, br) => (.error e, br)
  | (.ok (status, headers), br) =>
    let c := streamBodyOnly pipe br [] headers
    (.ok {
      statusCode := status
      headers := headers
      contentLength := contentLengthField headers
      transferEncoding :=
        if (headers (str "transfer-encoding")).any (equalFold · (str "chunked")) then [str "chunked"]
        else []
      body := c.dst
      bodyEnd := closeWith c.err
      request := req }, c.br)

/-! ## What the functions do to the stream -/

theorem later_readHeaders (br : LineReader) (headers : Headers) :
    br.src.Later (readHeaders br headers).2.src := by
  fun_induction readHeaders br headers with
  | case1 br headers e br' h => exact later_readLine h
  | case2 br headers br' h => exact later_readLine h
  | case3 br headers line br' h => exact later_readLine h
  | case4 br headers line br' h _ headers' _ _ ih => exact (later_readLine h).trans ih

theorem later_readStatusAndHeaders (br : LineReader) : br.src.Later (readStatusAndHeaders br).2.src := by
  unfold readStatusAndHeaders
  split
  · rename_i h
    exact later_readLine h
  · rename_i line br' h
    have hline := later_readLine h
    split
    · split
      · split
        · exact hline
        · have hlater := hline.trans (later_readHeaders br' fun _ => none)
          split
          · rename_i hread
            rwa [hread] at hlater
          · rename_i hread
            rwa [hread] at hlater
      · exact hline
    · exact hline

section
variable {σ : Type} (w : Sink σ)

theorem later_streamBounded (n : ℕ) (br : LineReader) (dst : σ) (written : ℕ) :
    br.src.Later (streamBounded w n br dst written).br.src := by
  fun_induction streamBounded w n br dst written with
  | case1 br dst => exact later_copyRound w br dst _
  | case2 br dst => exact later_copyRound w br dst _
  | case3 br dst => exact later_copyRound w br dst _
  | case4 br dst written hn r _ _ _ _ ih => exact (later_copyRound w br dst _).trans ih
  | case5 => exact .refl _

theorem later_streamIdentity (br : LineReader) (dst : σ) (written : ℕ) :
    br.src.Later (streamIdentity w br dst written).br.src := by
  fun_induction streamIdentity w br dst written with
  | case1 br dst => exact later_copyRound w br dst _
  | case2 br dst => exact later_copyRound w br dst _
  | case3 br dst written r _ _ _ _ ih => exact (later_copyRound w br dst _).trans ih

end

end TamagoUefi.Orasoci
