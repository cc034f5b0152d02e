import TamagoUefi.Net.HttpAgree

/-!
# TamagoUefi.Net.FailedReads — responses that end in an error of the connection (`http.go`, `https.go`)

`readHTTPResponse` and `readHTTPSResponse` read until the connection reports an error, and parse what they
have.  An error that does not say that the peer has closed is returned only if nothing was read.

* `readResponse_eq`: what the loop gives, under any split of the stream.
* `Received`: the responses that a text holds (`parse_iff`).
* `Whole`: the text holds a response that is complete without the end of the connection.
* `failed_read`: what the two functions return after an error.
-/

namespace TamagoUefi.Net

open Go Lib

/-! ## The loop -/

inductive ResponseErr
  /-- `ErrHTTPResponseTooBig` -/
  | tooBig
  /-- An error of the connection. -/
  | conn (e : ReadErr)
  | parse (e : RespErr)
  deriving DecidableEq

def responseChunkBytes : ℕ := 4096

def parseAll (all : Bytes) : Except ResponseErr HTTPResponse := (parseHTTPResponse all).mapError .parse

/-- The loop of `readHTTPResponse` and `readHTTPSResponse`; `closing` is the error of a connection that the
peer has closed. -/
def readResponse (closing : ReadErr) (src : Source UInt8 ReadErr) (all : Bytes) :
    Except ResponseErr HTTPResponse :=
  let r := src.read responseChunkBytes
  if r.got ≠ [] ∧ httpMaxResponseBytes < all.length + r.got.length then .error .tooBig
  else
    let all' := all ++ r.got
    match h : r.err with
    | some e =>
      if e = closing then parseAll all'
      else if all' = [] then .error (.conn e)
      else parseAll all'
    | none =>
      have : r.src.fuel < src.fuel := src.read_progress (by decide) (.inl h)
      readResponse closing r.src all'
termination_by src.fuel

def readHTTPResponse (conn : Source UInt8 ReadErr) : Except ResponseErr HTTPResponse :=
  readResponse .peerClosed conn []

def readHTTPSResponse (conn : Source UInt8 ReadErr) : Except ResponseErr HTTPResponse :=
  readResponse .eof conn []

/-- What comes of a stream and its error. -/
def responseOf (closing : ReadErr) (stream : Bytes) (e : ReadErr) : Except ResponseErr HTTPResponse :=
  if httpMaxResponseBytes < stream.length then .error .tooBig
  else if e ≠ closing ∧ stream = [] then .error (.conn e)
  else parseAll stream

theorem length_le_of_room {all got : Bytes} (hall : all.length ≤ httpMaxResponseBytes)
    (h : ¬ (got ≠ [] ∧ httpMaxResponseBytes < all.length + got.length)) :
    (all ++ got).length ≤ httpMaxResponseBytes := by
  by_cases hgot : got = []
  · rwa [hgot, List.append_nil]
  · rw [List.length_append]
    exact not_lt.mp fun hlt => h ⟨hgot, hlt⟩

/-- **The loop**, under any split. -/
theorem readResponse_eq (closing : ReadErr) (src : Source UInt8 ReadErr) (all : Bytes)
    (hall : all.length ≤ httpMaxResponseBytes) :
    readResponse closing src all = responseOf closing (all ++ src.ahead) src.err := by
  fun_induction readResponse closing src all with
  | case1 src all r hbig =>
    rw [responseOf, if_pos]
    rw [(src.read_spec _).ahead, ← List.append_assoc, List.length_append, List.length_append]
    exact hbig.2.trans_le (Nat.le_add_right _ _)
  | case2 src all r hbig all' hend =>
    obtain ⟨hahead, herr⟩ := Source.read_last hend
    rw [responseOf, hahead, herr, if_neg (length_le_of_room hall hbig).not_gt, if_neg fun h => h.1 rfl]
  | case3 src all r hbig all' e hend hne hnil =>
    obtain ⟨hahead, herr⟩ := Source.read_last hend
    rw [responseOf, hahead, herr, if_neg (length_le_of_room hall hbig).not_gt, if_pos ⟨hne, hnil⟩]
  | case4 src all r hbig all' e hend hne hnil =>
    obtain ⟨hahead, herr⟩ := Source.read_last hend
    rw [responseOf, hahead, herr, if_neg (length_le_of_room hall hbig).not_gt, if_neg fun h => hnil h.2]
  | case5 src all r hbig all' hnone hlt ih =>
    have hs := src.read_spec responseChunkBytes
    rw [ih (length_le_of_room hall hbig), hs.err, List.append_assoc, ← hs.ahead]

/-! ## What a text holds -/

def SaysChunked (headers : Bytes → Option Bytes) : Prop :=
  (headers (str "transfer-encoding")).any (equalFold · (str "chunked")) = true

/-- A body that is closed by its chunk of size zero, and what it carries; two bytes stand behind the data of a
chunk. -/
inductive ClosedBody : Bytes → Bytes → Prop
  | last {line behind : Bytes} (hline : Ends line crlf) (hsize : chunkSize 32 line = some 0) :
      ClosedBody (line ++ crlf ++ behind) []
  | chunk {line data eol text body : Bytes} (hline : Ends line crlf)
      (hsize : chunkSize 32 line = some data.length) (hne : data ≠ []) (heol : eol.length = 2)
      (more : ClosedBody text body) : ClosedBody (line ++ crlf ++ (data ++ (eol ++ text))) (data ++ body)

/-- The body that the headers give to what came behind them.  A length may ask for more than came. -/
inductive Framed (headers : Bytes → Option Bytes) (rest : Bytes) : Bytes → Prop
  | chunked {body : Bytes} (h : SaysChunked headers) (hbody : ClosedBody rest body) : Framed headers rest body
  | length {v : Bytes} {n : ℕ} (h : ¬ SaysChunked headers) (hv : headers (str "content-length") = some v)
      (hn : lengthOf v = some n) : Framed headers rest (rest.take n)
  | unframed (h : ¬ SaysChunked headers) (hv : headers (str "content-length") = none) : Framed headers rest rest

/-- The text holds the header block of a response, and its body is what came of it. -/
def Received (raw : Bytes) (resp : HTTPResponse) : Prop :=
  ∃ rest, HeaderBlock raw resp.statusCode resp.statusLine resp.headers rest ∧
    Framed resp.headers rest resp.body

/-- The text holds a complete response: behind the header block there are as many bytes as `Content-Length`
says, or a body that is closed by its chunk of size zero. -/
def Whole (raw : Bytes) : Prop :=
  ∃ code first headers rest, HeaderBlock raw code first headers rest ∧
    (SaysChunked headers ∧ (∃ body, ClosedBody rest body) ∨
      ¬ SaysChunked headers ∧ ∃ v n, headers (str "content-length") = some v ∧ lengthOf v = some n ∧
        n ≤ rest.length)

variable {raw : Bytes}

theorem decodeChunkedFrom_of_closed {body : Bytes} (h : ClosedBody raw body) (out : Bytes) :
    decodeChunkedFrom raw out = .ok (out ++ body) := by
  induction h generalizing out with
  | last hline hsize => rw [decodeChunkedFrom_last hline hsize, List.append_nil]
  | chunk hline hsize hne heol more ih =>
    rw [decodeChunkedFrom_chunk hline hsize hne heol, ih, List.append_assoc]

theorem closed_of_decodeChunkedFrom (raw out res : Bytes) (h : decodeChunkedFrom raw out = .ok res) :
    ∃ body, res = out ++ body ∧ ClosedBody raw body := by
  fun_induction decodeChunkedFrom raw out with
  | case1 => cases h
  | case2 => cases h
  | case3 raw out eol heol hsize =>
    obtain rfl := Except.ok.inj h
    rw [index_eq_some heol]
    exact ⟨[], (List.append_nil _).symm, .last (ends_take_index heol) hsize⟩
  | case4 => cases h
  | case5 raw out eol heol size hsize hne hlen hlt ih =>
    obtain ⟨body, rfl, hbody⟩ := ih h
    refine ⟨_, List.append_assoc _ _ _, ?_⟩
    have hraw : raw = raw.take eol ++ crlf ++ raw.drop (eol + 2) := index_eq_some heol
    generalize hrest : raw.drop (eol + 2) = rest at hlen hraw ⊢
    have hlen : size + 2 ≤ rest.length := not_lt.mp hlen
    have hdata : (rest.take size).length = size := List.length_take_of_le (by omega)
    have htwo : ((rest.drop size).take 2).length = 2 := List.length_take_of_le (by rw [List.length_drop]; omega)
    have hbehind : raw.drop (eol + 2 + size + 2) = (rest.drop size).drop 2 := by
      rw [← hrest, List.drop_drop, List.drop_drop]
      rfl
    rw [hbehind] at hbody
    have hchunk := ClosedBody.chunk (ends_take_index heol) (hsize.trans (congrArg some hdata.symm))
      (List.length_pos_iff.mp (by omega)) htwo hbody
    rw [List.take_append_drop, List.take_append_drop] at hchunk
    rwa [hraw]

theorem decodeChunked_iff {body : Bytes} : decodeChunked raw = .ok body ↔ ClosedBody raw body := by
  constructor
  · intro h
    obtain ⟨body', rfl, hbody⟩ := closed_of_decodeChunkedFrom raw [] body h
    exact hbody
  · exact fun h => decodeChunkedFrom_of_closed h []

section
variable {headers : Bytes → Option Bytes} {rest body : Bytes}

theorem decodeBody_chunked (h : SaysChunked headers) : decodeBody headers rest = decodeChunked rest := if_pos h

theorem decodeBody_unframed (h : ¬ SaysChunked headers) (hv : headers (str "content-length") = none) :
    decodeBody headers rest = .ok rest := by
  unfold SaysChunked at h
  rw [decodeBody, if_neg h, hv]

theorem decodeBody_length (h : ¬ SaysChunked headers) {v : Bytes}
    (hv : headers (str "content-length") = some v) :
    decodeBody headers rest = .ok body ↔ ∃ n, lengthOf v = some n ∧ rest.take n = body := by
  unfold SaysChunked at h
  rw [decodeBody, if_neg h, hv, lengthOf]
  simp only
  cases parseInt64 v with
  | none => simp
  | some n =>
    simp only [Option.bind_some]
    split_ifs with hneg
    · simp
    · simp

theorem decodeBody_iff : decodeBody headers rest = .ok body ↔ Framed headers rest body := by
  constructor
  · intro hbody
    by_cases h : SaysChunked headers
    · rw [decodeBody_chunked h] at hbody
      exact .chunked h (decodeChunked_iff.mp hbody)
    · cases hv : headers (str "content-length") with
      | none =>
        rw [decodeBody_unframed h hv] at hbody
        obtain rfl := Except.ok.inj hbody
        exact .unframed h hv
      | some v =>
        obtain ⟨n, hn, rfl⟩ := (decodeBody_length h hv).mp hbody
        exact .length h hv hn
  · intro hbody
    cases hbody with
    | chunked h hbody => rw [decodeBody_chunked h, decodeChunked_iff.mpr hbody]
    | length h hv hn => exact (decodeBody_length h hv).mpr ⟨_, hn, rfl⟩
    | unframed h hv => exact decodeBody_unframed h hv

end

variable {resp : HTTPResponse}

theorem parse_iff : parseHTTPResponse raw = .ok resp ↔ Received raw resp := by
  constructor
  · intro h
    obtain ⟨rest, hblock, hbody⟩ := headerBlock_of_parse h
    exact ⟨rest, hblock, decodeBody_iff.mp hbody⟩
  · rintro ⟨rest, hblock, hbody⟩
    exact hblock.parse (decodeBody_iff.mpr hbody)

/-! ## After an error -/

theorem parseAll_iff {all : Bytes} : parseAll all = .ok resp ↔ Received all resp := by
  rw [← parse_iff, parseAll]
  cases parseHTTPResponse all with
  | error e => simp [Except.mapError]
  | ok resp' => simp [Except.mapError]

theorem Received.ne_nil (h : Received raw resp) : raw ≠ [] := by
  obtain ⟨rest, ⟨block, lines, -, rfl, -⟩, -⟩ := h
  simp [crlf]

variable {closing e : ReadErr}

/-- **A response**: the text is not too long and holds it. -/
theorem responseOf_iff {stream : Bytes} :
    responseOf closing stream e = .ok resp ↔
      stream.length ≤ httpMaxResponseBytes ∧ Received stream resp := by
  unfold responseOf
  split_ifs with hbig hnil
  · simp [hbig]
  · constructor
    · intro h
      cases h
    · exact fun h => absurd hnil.2 h.2.ne_nil
  · rw [parseAll_iff]
    exact ⟨fun h => ⟨not_lt.mp hbig, h⟩, fun h => h.2⟩

theorem responseOf_nil (h : e ≠ closing) : responseOf closing [] e = .error (.conn e) := by
  rw [responseOf, if_neg (by decide), if_pos ⟨h, rfl⟩]

theorem readHTTPResponse_start (stream : Bytes) (e : ReadErr) (cuts : List Cut) :
    readHTTPResponse (.start stream e cuts) = responseOf .peerClosed stream e :=
  readResponse_eq .peerClosed (.start stream e cuts) [] (Nat.zero_le _)

theorem readHTTPSResponse_start (stream : Bytes) (e : ReadErr) (cuts : List Cut) :
    readHTTPSResponse (.start stream e cuts) = responseOf .eof stream e :=
  readResponse_eq .eof (.start stream e cuts) [] (Nat.zero_le _)

/-- A complete response can be parsed. -/
theorem Whole.received (h : Whole raw) : ∃ resp, Received raw resp := by
  obtain ⟨code, first, headers, rest, hblock, ⟨hch, body, hbody⟩ | ⟨hch, v, n, hv, hn, -⟩⟩ := h
  · exact ⟨⟨code, first, headers, body⟩, rest, hblock, .chunked hch hbody⟩
  · exact ⟨⟨code, first, headers, rest.take n⟩, rest, hblock, .length hch hv hn⟩

/-- **A read that fails**: with nothing received its error is returned, and a response only from a whole header
block, with a chunked body that is closed or with at most as many bytes as it has; if the text holds a complete
response, one is returned.  `readHTTPSResponse` takes the error for the end of the stream. -/
theorem failed_read (stream : Bytes) (e : ReadErr) (he : e.closed = false) (cuts : List Cut) :
    (stream = [] → readHTTPResponse (.start stream e cuts) = .error (.conn e) ∧
      readHTTPSResponse (.start stream e cuts) = .error (.conn e)) ∧
    (∀ resp, readHTTPResponse (.start stream e cuts) = .ok resp → Received stream resp) ∧
    (Whole stream → stream.length ≤ httpMaxResponseBytes →
      ∃ resp, readHTTPResponse (.start stream e cuts) = .ok resp) ∧
    ∀ resp, readHTTPSResponse (.start stream e cuts) = .ok resp ↔
      stream.length ≤ httpMaxResponseBytes ∧ Received stream resp := by
  have hne : e ≠ .peerClosed ∧ e ≠ .eof := by simpa [ReadErr.closed] using he
  rw [readHTTPResponse_start, readHTTPSResponse_start]
  refine ⟨?_, ?_, ?_, fun resp => responseOf_iff⟩
  · rintro rfl
    exact ⟨responseOf_nil hne.1, responseOf_nil hne.2⟩
  · exact fun resp h => (responseOf_iff.mp h).2
  · intro hwhole hlen
    obtain ⟨resp, hresp⟩ := hwhole.received
    exact ⟨resp, responseOf_iff.mpr ⟨hlen, hresp⟩⟩

/-- Two of five bytes. -/
def short : Bytes := str "HTTP/1.1 200 OK\r\nContent-Length: 5\r\n\r\nhi"

def shortResponse : HTTPResponse where
  statusCode := 200
  statusLine := str "HTTP/1.1 200 OK"
  headers := Function.update (fun _ => none) (str "content-length") (some (str "5"))
  body := str "hi"

theorem short_headerBlock : HeaderBlock short shortResponse.statusCode shortResponse.statusLine
    shortResponse.headers (str "hi") := by
  have hfield : headerField (str "Content-Length: 5") = some (str "content-length", str "5") := by decide +kernel
  refine ⟨str "HTTP/1.1 200 OK\r\nContent-Length: 5", [str "Content-Length: 5"], ?_, ?_, ?_, ?_, ?_⟩
  · decide +kernel
  · decide +kernel
  · decide +kernel
  · decide +kernel
  · rw [List.foldlM_cons, addHeader, if_neg (by decide), hfield]
    rfl

theorem short_length : ¬ SaysChunked shortResponse.headers ∧
    shortResponse.headers (str "content-length") = some (str "5") ∧ lengthOf (str "5") = some 5 := by
  unfold SaysChunked
  decide +kernel

theorem short_received : Received short shortResponse :=
  ⟨str "hi", short_headerBlock, .length short_length.1 short_length.2.1 short_length.2.2⟩

theorem failed_read_timeout : ReadErr.closed (.other (str "timeout")) = false ∧
    (short = [] →
      readHTTPResponse (.start short (.other (str "timeout")) []) = .error (.conn (.other (str "timeout"))) ∧
      readHTTPSResponse (.start short (.other (str "timeout")) []) = .error (.conn (.other (str "timeout")))) ∧
    (∀ resp, readHTTPResponse (.start short (.other (str "timeout")) []) = .ok resp → Received short resp) ∧
    (Whole short → short.length ≤ httpMaxResponseBytes →
      ∃ resp, readHTTPResponse (.start short (.other (str "timeout")) []) = .ok resp) ∧
    ∀ resp, readHTTPSResponse (.start short (.other (str "timeout")) []) = .ok resp ↔
      short.length ≤ httpMaxResponseBytes ∧ Received short resp :=
  ⟨by decide, failed_read short (.other (str "timeout")) (by decide) []⟩

/-- The error of a record is dropped, and two bytes are returned as the body. -/
theorem failed_read_short :
    readHTTPSResponse (.start short (.other (str "tls: bad record MAC")) []) = .ok shortResponse ∧
      ¬ Whole short := by
  rw [readHTTPSResponse_start]
  refine ⟨responseOf_iff.mpr ⟨by decide, short_received⟩, ?_⟩
  obtain ⟨hch, hcl, hfive⟩ := short_length
  rintro ⟨code, first, headers, rest, hblock, hrest⟩
  obtain ⟨rfl, rfl⟩ := hblock.unique short_headerBlock
  rcases hrest with ⟨hch', -⟩ | ⟨-, v, n, hv, hn, hle⟩
  · exact hch hch'
  · obtain rfl := Option.some.inj (hcl.symm.trans hv)
    obtain rfl := Option.some.inj (hfive.symm.trans hn)
    exact absurd hle (by decide)

end TamagoUefi.Net
