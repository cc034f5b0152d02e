import TamagoUefi.Go.Strings
import TamagoUefi.Lib.Run
import TamagoUefi.Lib.Serial

/-!
# TamagoUefi.Net.Tcp4 — the TCP connection (`tcp4.go`)

The control block `TCP4Conn` and the steps the code takes under its mutex.  Sequence numbers are
`BitVec 32`; a step returns the connection and the segments handed to `sendSegment`.

* `deliverSegment` with its parts `acceptSegmentLocked` and `drainReassemblyLocked`: what an inbound
  segment does.
* `readEnter`, `readPoll`: the check before the loop of `Read`, and one round of it.
* `beginSend`, `awaitPoll`: the locked steps of `sendAndAwaitAck`.
* `beginClose`, `endClose`: the locked steps of `Close`.
* `Delivered`, `AfterStep`: what a segment, and any step, leaves of the connection.

Every other call only waits or transmits.  The ports and the checksum are checked before a segment
gets here; deadlines end a call without touching the connection.
-/

namespace TamagoUefi.Net

open Go Lib

/-! ## Data -/

/-- Sequence numbers. -/
abbrev Seq : Type := BitVec 32

def tcp4DefaultWindow : BitVec 16 := 32768
def tcp4DefaultMSS : ℕ := 1460
def tcp4ReassemblyDepth : ℕ := 8

def tcpFlagFIN : UInt8 := 0x01
def tcpFlagSYN : UInt8 := 0x02
def tcpFlagRST : UInt8 := 0x04
def tcpFlagPSH : UInt8 := 0x08
def tcpFlagACK : UInt8 := 0x10

inductive Tcp4State
  | closed
  | synSent
  | established
  | finWait1
  | finWait2
  | closeWait
  | closing
  | lastAck
  | timeWait
  deriving DecidableEq

/-- The states in which inbound data is taken. -/
def Tcp4State.carriesData : Tcp4State → Bool
  | .established | .finWait1 | .finWait2 | .closeWait => true
  | _ => false

/-- The fields of a header that `deliverSegment` reads. -/
structure TCP4Header where
  seq : Seq
  ack : Seq
  flags : UInt8
  window : BitVec 16
  deriving DecidableEq

namespace TCP4Header

/-- `h.Flags & flag != 0`. -/
def has (h : TCP4Header) (flag : UInt8) : Bool := h.flags &&& flag ≠ 0

def fin (h : TCP4Header) : Bool := h.has tcpFlagFIN

end TCP4Header

structure ReassemblyEntry where
  seq : Seq
  payload : Bytes
  fin : Bool
  deriving DecidableEq

/-- The receive half of the control block. -/
structure RecvSide where
  rcvNxt : Seq
  rcvWnd : BitVec 16
  rxQueue : Bytes
  reassembly : List ReassemblyEntry
  peerFinSeen : Bool
  deriving DecidableEq

structure TCP4Conn extends RecvSide where
  state : Tcp4State
  sndUna : Seq
  sndNxt : Seq
  sndWnd : BitVec 16
  closed : Bool
  deriving DecidableEq

/-- A segment handed to `sendSegment`, with the window it advertises. -/
structure Segment where
  flags : UInt8
  seq : Seq
  ack : Seq
  window : BitVec 16
  payload : Bytes
  deriving DecidableEq

/-- The ways a round of `Read` can end. -/
inductive ReadResult
  | data (b : Bytes)
  /-- `errTCP4PeerClosed` -/
  | peerClosed
  /-- `ErrTCP4ConnClosed` -/
  | connClosed
  /-- Nothing yet: pump the link and go round again. -/
  | again
  deriving DecidableEq

/-- The ways a round of the waiting loop of `sendAndAwaitAck` can end. -/
inductive AwaitResult
  | acked
  | connClosed
  | again
  deriving DecidableEq

def seqLT (a b : Seq) : Bool := serialLT a b

def seqGT (a b : Seq) : Bool := serialGT a b

/-! ## Inbound segments -/

namespace RecvSide

/-- Take a segment that starts at `rcvNxt` into the stream. -/
def absorb (r : RecvSide) (payload : Bytes) (fin : Bool) : RecvSide :=
  { r with
    rxQueue := r.rxQueue ++ payload
    rcvNxt := r.rcvNxt + BitVec.ofNat 32 (payload.length + fin.toNat)
    peerFinSeen := r.peerFinSeen || fin }

/-- Is this entry the next one to promote? -/
def isNext (r : RecvSide) (e : ReassemblyEntry) : Bool := e.seq = r.rcvNxt

/-- Remove the first entry that is next. -/
def unpark (r : RecvSide) : RecvSide := { r with reassembly := r.reassembly.eraseP r.isNext }

/-- The loop of `drainReassemblyLocked`, for at most `n` promotions. -/
def drain : ℕ → RecvSide → RecvSide
  | 0, r => r
  | n + 1, r =>
    match r.reassembly.find? r.isNext with
    | none => r
    | some e => drain n (r.unpark.absorb e.payload e.fin)

theorem next_of_find {r : RecvSide} {e : ReassemblyEntry} (h : r.reassembly.find? r.isNext = some e) :
    e ∈ r.reassembly ∧ e.seq = r.rcvNxt :=
  ⟨List.mem_of_find?_eq_some h, by simpa [isNext] using List.find?_some h⟩

/-- What a promotion keeps, the loop keeps. -/
theorem drain_rule {P : RecvSide → Prop} (step : ∀ {r : RecvSide} {e : ReassemblyEntry},
    r.reassembly.find? r.isNext = some e → P r → P (r.unpark.absorb e.payload e.fin)) :
    ∀ (n : ℕ) {r : RecvSide}, P r → P (drain n r)
  | 0, _, h => h
  | n + 1, r, h => by
    rw [drain]
    cases hf : r.reassembly.find? r.isNext with
    | none => exact h
    | some e => exact drain_rule step n (step hf h)

/-- Each promotion removes an entry, so the loop ends after as many rounds as there are entries. -/
def drainReassemblyLocked (r : RecvSide) : RecvSide := drain r.reassembly.length r

/-- Park a segment that is ahead of `rcvNxt`. -/
def park (r : RecvSide) (e : ReassemblyEntry) : RecvSide :=
  { r with reassembly := r.reassembly ++ [e] }

/-- The three cases of `acceptSegmentLocked`: next, ahead with room to park, neither. -/
def accept (r : RecvSide) (seq : Seq) (payload : Bytes) (fin : Bool) : RecvSide :=
  if seq = r.rcvNxt then (r.absorb payload fin).drainReassemblyLocked
  else if seqGT seq r.rcvNxt ∧ r.reassembly.length < tcp4ReassemblyDepth then
    r.park ⟨seq, payload, fin⟩
  else r

end RecvSide

namespace TCP4Conn

/-- The bare acknowledgement of what has been received. -/
def ackSegment (c : TCP4Conn) : Segment := ⟨tcpFlagACK, c.sndNxt, c.rcvNxt, c.rcvWnd, []⟩

/-- Every case ends in an acknowledgement. -/
def acceptSegmentLocked (c : TCP4Conn) (seq : Seq) (payload : Bytes) (fin : Bool) :
    TCP4Conn × List Segment :=
  let c := { c with toRecvSide := c.accept seq payload fin }
  (c, [c.ackSegment])

/-- Advance `sndUna` on an acknowledgement that compares greater. -/
def advanceUna (c : TCP4Conn) (ack : Seq) : TCP4Conn :=
  if seqGT ack c.sndUna then { c with sndUna := ack } else c

/-- The state after a data segment with this acknowledgement. -/
def nextState (c : TCP4Conn) (ack : Seq) : Tcp4State :=
  let st := if c.state = .finWait1 ∧ ack = c.sndNxt then .finWait2 else c.state
  if c.peerFinSeen then
    match st with
    | .established => .closeWait
    | .finWait1 => if ack = c.sndNxt then .timeWait else .closing
    | .finWait2 => .timeWait
    | st => st
  else st

/-- Payload and FIN of a segment, if it has either. -/
def acceptData (c : TCP4Conn) (h : TCP4Header) (payload : Bytes) : TCP4Conn × List Segment :=
  if payload ≠ [] ∨ h.fin then c.acceptSegmentLocked h.seq payload h.fin else (c, [])

/-- The arm of `deliverSegment` for ESTABLISHED, FIN_WAIT_1, FIN_WAIT_2 and CLOSE_WAIT. -/
def dataArm (c : TCP4Conn) (h : TCP4Header) (payload : Bytes) : TCP4Conn × List Segment :=
  if h.has tcpFlagACK then
    let (c, sent) := (c.advanceUna h.ack).acceptData h payload
    ({ c with state := c.nextState h.ack }, sent)
  else (c, [])

/-- Does a segment get as far as the acknowledgement of `dataArm`? -/
def takesAck (c : TCP4Conn) (h : TCP4Header) : Bool :=
  c.closed = false ∧ h.has tcpFlagRST = false ∧ c.state.carriesData = true ∧
    h.has tcpFlagACK = true

/-- Does a segment get as far as `acceptSegmentLocked`? -/
def takesData (c : TCP4Conn) (h : TCP4Header) (payload : Bytes) : Bool :=
  c.takesAck h ∧ (payload ≠ [] ∨ h.fin = true)

/-- The arm for SYN_SENT. -/
def synArm (c : TCP4Conn) (h : TCP4Header) : TCP4Conn × List Segment :=
  if h.has tcpFlagSYN ∧ h.has tcpFlagACK ∧ h.ack = c.sndNxt then
    let c := { c with rcvNxt := h.seq + 1, sndUna := h.ack, state := .established }
    (c, [c.ackSegment])
  else (c, [])

/-- The arms for LAST_ACK and CLOSING: the acknowledgement of our FIN moves on to `next`. -/
def finAckArm (c : TCP4Conn) (h : TCP4Header) (next : Tcp4State) : TCP4Conn × List Segment :=
  if h.has tcpFlagACK ∧ h.ack = c.sndNxt then ({ c with state := next }, []) else (c, [])

/-- The switch of `deliverSegment`. -/
def stateArm (c : TCP4Conn) (h : TCP4Header) (payload : Bytes) : TCP4Conn × List Segment :=
  match c.state with
  | .synSent => c.synArm h
  | .established | .finWait1 | .finWait2 | .closeWait => c.dataArm h payload
  | .lastAck => c.finAckArm h .closed
  | .closing => c.finAckArm h .timeWait
  | .timeWait | .closed => (c, [])

def deliverSegment (c : TCP4Conn) (h : TCP4Header) (payload : Bytes) : TCP4Conn × List Segment :=
  if c.closed then (c, [])
  else if h.has tcpFlagRST then ({ c with state := .closed, closed := true }, [])
  else { c with sndWnd := h.window }.stateArm h payload

/-! ## Read -/

/-- What `Read` looks at before its loop. -/
def readEnter (c : TCP4Conn) : Option ReadResult := if c.closed then some .connClosed else none

/-- A round of the loop of `Read`, for a buffer of `n` bytes. -/
def readPoll (c : TCP4Conn) (n : ℕ) : TCP4Conn × ReadResult :=
  if c.rxQueue ≠ [] then
    ({ c with rxQueue := c.rxQueue.drop n }, .data (c.rxQueue.take n))
  else if c.peerFinSeen then (c, .peerClosed)
  else if c.closed then (c, .connClosed)
  else (c, .again)

/-! ## Write and Close -/

/-- The first locked step of `sendAndAwaitAck`: the segment to transmit, and the acknowledgement to
wait for. -/
def beginSend (c : TCP4Conn) (segment : Bytes) : TCP4Conn × Segment × Seq :=
  let wantAck := c.sndNxt + BitVec.ofNat 32 segment.length
  ({ c with sndNxt := wantAck },
    ⟨tcpFlagACK ||| tcpFlagPSH, c.sndNxt, c.rcvNxt, c.rcvWnd, segment⟩, wantAck)

def awaitPoll (c : TCP4Conn) (wantAck : Seq) : AwaitResult :=
  if c.closed then .connClosed
  else if seqLT c.sndUna wantAck then .again
  else .acked

/-- The first locked step of `Close`: our FIN takes a sequence number. -/
def beginClose (c : TCP4Conn) : TCP4Conn × List Segment :=
  let finSegment : Segment := ⟨tcpFlagFIN ||| tcpFlagACK, c.sndNxt, c.rcvNxt, c.rcvWnd, []⟩
  if c.closed then (c, [])
  else
    match c.state with
    | .established => ({ c with sndNxt := c.sndNxt + 1, state := .finWait1 }, [finSegment])
    | .closeWait => ({ c with sndNxt := c.sndNxt + 1, state := .lastAck }, [finSegment])
    | _ => (c, [])

/-- The last locked step of `Close`. -/
def endClose (c : TCP4Conn) : TCP4Conn := { c with closed := true, state := .closed }

/-! ## Runs -/

/-- The connection `dialTCP4Once` starts with, for the initial sequence number `iss`. -/
def dialed (iss : Seq) : TCP4Conn where
  rcvNxt := 0
  rcvWnd := tcp4DefaultWindow
  rxQueue := []
  reassembly := []
  peerFinSeen := false
  state := .synSent
  sndUna := iss
  sndNxt := iss + 1
  sndWnd := 0
  closed := false

end TCP4Conn

/-- The steps that change a connection. -/
inductive ConnEvent
  | deliver (h : TCP4Header) (payload : Bytes)
  | readPoll (n : ℕ)
  | beginSend (segment : Bytes)
  | beginClose
  | endClose

namespace TCP4Conn

def after (c : TCP4Conn) : ConnEvent → TCP4Conn
  | .deliver h payload => (c.deliverSegment h payload).1
  | .readPoll n => (c.readPoll n).1
  | .beginSend segment => (c.beginSend segment).1
  | .beginClose => c.beginClose.1
  | .endClose => c.endClose

/-! ## What an inbound segment does -/

@[simp] theorem advanceUna_recv (c : TCP4Conn) (ack : Seq) :
    (c.advanceUna ack).toRecvSide = c.toRecvSide := by
  unfold advanceUna
  split_ifs <;> rfl

@[simp] theorem advanceUna_sndNxt (c : TCP4Conn) (ack : Seq) : (c.advanceUna ack).sndNxt = c.sndNxt := by
  unfold advanceUna
  split_ifs <;> rfl

@[simp] theorem advanceUna_state (c : TCP4Conn) (ack : Seq) : (c.advanceUna ack).state = c.state := by
  unfold advanceUna
  split_ifs <;> rfl

variable {c : TCP4Conn}

theorem nextState_ne_synSent {ack : Seq} (h : c.state ≠ .synSent) : c.nextState ack ≠ .synSent := by
  unfold nextState
  cases hs : c.state <;> dsimp only <;> split_ifs <;> simp_all

/-- What the receive half can do on an inbound segment. -/
inductive RecvStep (c : TCP4Conn) (h : TCP4Header) (payload : Bytes) :
    TCP4Conn → List Segment → Prop
  /-- Nothing. -/
  | idle {c' : TCP4Conn} (hr : c'.toRecvSide = c.toRecvSide)
      (hs : c'.state = .synSent → c.state = .synSent) : RecvStep c h payload c' []
  /-- The handshake. -/
  | handshake {c' : TCP4Conn} (hs : c.state = .synSent) (hs' : c'.state = .established)
      (hr : c'.toRecvSide = { c.toRecvSide with rcvNxt := h.seq + 1 }) :
      RecvStep c h payload c' [c'.ackSegment]
  /-- Data or FIN, outside SYN_SENT. -/
  | data {c' : TCP4Conn} (hs : c.state ≠ .synSent) (hs' : c'.state ≠ .synSent)
      (ht : c.takesData h payload = true)
      (hr : c'.toRecvSide = c.toRecvSide.accept h.seq payload h.fin) :
      RecvStep c h payload c' [c'.ackSegment]

/-- What an inbound segment can do to `sndUna`: nothing, acknowledge all that was sent, or move it
to an acknowledgement that compares greater. -/
inductive UnaStep (c : TCP4Conn) (h : TCP4Header) : Seq → Prop
  | same : UnaStep c h c.sndUna
  | all (ha : h.ack = c.sndNxt) : UnaStep c h h.ack
  | advance (ht : c.takesAck h = true) (hgt : seqGT h.ack c.sndUna = true) : UnaStep c h h.ack

/-- What an inbound segment can do to a connection. -/
structure Delivered (c : TCP4Conn) (h : TCP4Header) (payload : Bytes) (c' : TCP4Conn)
    (sent : List Segment) : Prop where
  recv : RecvStep c h payload c' sent
  nxt : c'.sndNxt = c.sndNxt
  una : UnaStep c h c'.sndUna

variable {h : TCP4Header} {payload : Bytes}

theorem advanceUna_una (ht : c.takesAck h = true) : UnaStep c h (c.advanceUna h.ack).sndUna := by
  unfold advanceUna
  split_ifs with hgt
  · exact .advance ht hgt
  · exact .same

@[simp] theorem acceptData_state (c : TCP4Conn) (h : TCP4Header) (payload : Bytes) :
    (c.acceptData h payload).1.state = c.state := by
  unfold acceptData
  split_ifs <;> rfl

theorem dataArm_delivered (hc : c.closed = false) (hr : h.has tcpFlagRST = false)
    (hd : c.state.carriesData = true) :
    Delivered c h payload (c.dataArm h payload).1 (c.dataArm h payload).2 := by
  have hs : c.state ≠ .synSent := by
    intro h'
    rw [h'] at hd
    cases hd
  unfold dataArm
  split_ifs with hack
  · have ht : c.takesAck h = true := by simp [takesAck, hc, hr, hd, hack]
    have hnext : ((c.advanceUna h.ack).acceptData h payload).1.nextState h.ack ≠ .synSent :=
      nextState_ne_synSent (by simpa using hs)
    have huna := advanceUna_una ht
    dsimp only
    unfold acceptData at hnext ⊢
    split_ifs at hnext ⊢ with hp
    · exact ⟨.data hs hnext (by simp [takesData, ht, hp]) (by simp [acceptSegmentLocked]),
        by simp [acceptSegmentLocked], huna⟩
    · exact ⟨.idle (by simp) (fun h' => absurd h' hnext), by simp, huna⟩
  · exact ⟨.idle rfl id, rfl, .same⟩

theorem stateArm_delivered (hc : c.closed = false) (hr : h.has tcpFlagRST = false) :
    Delivered c h payload (c.stateArm h payload).1 (c.stateArm h payload).2 := by
  unfold stateArm
  split
  case h_1 hs =>
    unfold synArm
    split_ifs with hsyn
    · exact ⟨.handshake hs rfl rfl, rfl, .all hsyn.2.2⟩
    · exact ⟨.idle rfl id, rfl, .same⟩
  case h_2 hs | h_3 hs | h_4 hs | h_5 hs =>
    exact dataArm_delivered hc hr (by simp [hs, Tcp4State.carriesData])
  case h_6 hs | h_7 hs =>
    unfold finAckArm
    split_ifs with hfa
    · exact ⟨.idle rfl (fun h' => by cases h'), rfl, .same⟩
    · exact ⟨.idle rfl id, rfl, .same⟩
  case h_8 | h_9 => exact ⟨.idle rfl id, rfl, .same⟩

/-- The window of the peer plays no part in it. -/
theorem Delivered.of_window {c' : TCP4Conn} {w : BitVec 16} {sent : List Segment}
    (hstep : Delivered { c with sndWnd := w } h payload c' sent) : Delivered c h payload c' sent := by
  obtain ⟨hrecv, hnxt, huna⟩ := hstep
  refine ⟨?_, hnxt, ?_⟩
  · cases hrecv with
    | idle hr hs => exact .idle hr hs
    | handshake hs hs' hr => exact .handshake hs hs' hr
    | data hs hs' ht hr => exact .data hs hs' ht hr
  · generalize c'.sndUna = u at huna
    cases huna with
    | same => exact .same
    | all ha => exact .all ha
    | advance ht hgt => exact .advance ht hgt

/-- **`deliverSegment`.** -/
theorem deliverSegment_delivered (c : TCP4Conn) (h : TCP4Header) (payload : Bytes) :
    Delivered c h payload (c.deliverSegment h payload).1 (c.deliverSegment h payload).2 := by
  unfold deliverSegment
  split_ifs with hc hr
  · exact ⟨.idle rfl id, rfl, .same⟩
  · exact ⟨.idle rfl (fun h' => by cases h'), rfl, .same⟩
  · exact (stateArm_delivered (by simpa using hc) (by simpa using hr)).of_window

/-- What a step can do to the receive half. -/
inductive AfterStep (c : TCP4Conn) : ConnEvent → TCP4Conn → Prop
  | deliver {h : TCP4Header} {payload : Bytes} {c' : TCP4Conn} {sent : List Segment}
      (hstep : RecvStep c h payload c' sent) : AfterStep c (.deliver h payload) c'
  | read {n k : ℕ} {c' : TCP4Conn} (hr : c'.toRecvSide = { c.toRecvSide with rxQueue := c.rxQueue.drop k })
      (hs : c'.state = c.state) : AfterStep c (.readPoll n) c'
  | send {e : ConnEvent} {c' : TCP4Conn} (hr : c'.toRecvSide = c.toRecvSide)
      (hs : c'.state = .synSent → c.state = .synSent) : AfterStep c e c'

theorem after_step (c : TCP4Conn) (e : ConnEvent) : AfterStep c e (c.after e) := by
  cases e with
  | deliver h payload => exact .deliver (c.deliverSegment_delivered h payload).recv
  | readPoll n =>
    simp only [after, readPoll]
    split_ifs
    · exact .read rfl rfl
    all_goals exact .read (k := 0) rfl rfl
  | beginSend segment => exact .send rfl id
  | beginClose =>
    simp only [after, beginClose]
    split_ifs with hc
    · exact .send rfl id
    · split
      · exact .send rfl nofun
      · exact .send rfl nofun
      · exact .send rfl id
  | endClose => exact .send rfl nofun

/-- The handshake does not come back. -/
theorem deliverSegment_ne_synSent (hs : c.state ≠ .synSent) (h : TCP4Header) (payload : Bytes) :
    (c.deliverSegment h payload).1.state ≠ .synSent := by
  have hstep := (c.deliverSegment_delivered h payload).recv
  generalize c.deliverSegment h payload = res at hstep
  obtain ⟨c', sent⟩ := res
  dsimp only at hstep ⊢
  cases hstep with
  | idle _ hs' => exact fun h' => hs (hs' h')
  | handshake hsyn _ _ => exact absurd hsyn hs
  | data _ hs' _ _ => exact hs'

theorem deliverSegment_takesData (ht : c.takesData h payload = true) :
    (c.deliverSegment h payload).1.toRecvSide = c.accept h.seq payload h.fin := by
  simp only [takesData, takesAck, decide_eq_true_eq] at ht
  obtain ⟨⟨hc, hr, hd, hack⟩, hp⟩ := ht
  unfold deliverSegment
  rw [if_neg (by simp [hc]), if_neg (by simp [hr])]
  have harm : ({ c with sndWnd := h.window } : TCP4Conn).stateArm h payload =
      ({ c with sndWnd := h.window } : TCP4Conn).dataArm h payload := by
    unfold stateArm
    cases hs : c.state <;> rw [hs] at hd <;> cases hd
  rw [harm, dataArm, if_pos hack, acceptData, if_pos hp]
  simp [acceptSegmentLocked]

end TCP4Conn

end TamagoUefi.Net
