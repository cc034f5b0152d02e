import Mathlib.Data.List.ReduceOption
import TamagoUefi.Net.Tcp4

/-!
# TamagoUefi.Net.Tcp4Threads — Write and Close as threads (`tcp4.go`)

`Write` takes the mutex of the connection for one step at a time and gives it up in between, so other
calls and inbound segments come between its steps.  `Threads` is a connection with one `Write` at a
time, any number of `Close` calls, and the segments they handed to the link; `Threads.after` is one
step of one of them.

Two fields are not in the program: `stream` says what each sequence number used so far stands for (a
byte, or the FIN), and `calls` how each `Write` ended and how much of its argument it took.

* `sendSegment`: the ways a segment can fail to reach the link.
* `Placed`: the segments sent, and those under way, carry the stream at their sequence numbers.
* `placed_run`: so in every state of every run.
-/

namespace TamagoUefi.Net

open Go Lib

/-! ## Sending a segment -/

def tcp4MaxRetransmits : ℕ := 3

inductive SendErr
  /-- `MarshalIPv4` -/
  | packet (text : Bytes)
  /-- `ErrStackClosed` -/
  | stackClosed
  | route (text : Bytes)
  | arp (text : Bytes)
  /-- `MarshalEthernet` -/
  | frame (text : Bytes)
  | link (text : Bytes)
  deriving DecidableEq

/-- What a segment meets on its way to the link: the error of each stage, if it has one. -/
structure Egress where
  packet : Option Bytes
  closed : Bool
  lookup : Option Bytes
  resolve : Option Bytes
  frame : Option Bytes
  sendFrame : Option Bytes
  deriving DecidableEq

/-- Nothing in the way. -/
def Egress.clear : Egress := ⟨none, false, none, none, none, none⟩

/-- The first error on the way; none when the frame was handed to the link. -/
def sendIPv4Frame (g : Egress) : Option SendErr :=
  if g.closed then some .stackClosed
  else
    match g.lookup, g.resolve, g.frame with
    | some e, _, _ => some (.route e)
    | none, some e, _ => some (.arp e)
    | none, none, some e => some (.frame e)
    | none, none, none => g.sendFrame.map .link

/-- `MarshalTCP4` never fails. -/
def sendSegment (g : Egress) : Option SendErr :=
  match g.packet with
  | some e => some (.packet e)
  | none => sendIPv4Frame g

/-! ## Threads -/

inductive Tcp4Err
  | connClosed
  | timeout
  | send (e : SendErr)
  deriving DecidableEq

/-- A segment that has its sequence number; `place` is its place in the stream. -/
structure Flight where
  place : ℕ
  seq : Seq
  ack : Seq
  segment : Bytes
  deriving DecidableEq

/-- A segment handed to the link. -/
structure Sent where
  place : ℕ
  segment : Segment
  deriving DecidableEq

namespace Flight

def wantAck (f : Flight) : Seq := f.seq + BitVec.ofNat 32 f.segment.length

/-- `sendSegmentExt` reads the window when it sends. -/
def sent (f : Flight) (flags : UInt8) (rcvWnd : BitVec 16) : Sent :=
  ⟨f.place, ⟨flags, f.seq, f.ack, rcvWnd, f.segment⟩⟩

end Flight

/-- Where `sendAndAwaitAck` stands. -/
inductive Stage
  /-- The segment has its number and is not sent yet. -/
  | begun
  /-- At the head of the waiting loop. -/
  | check (retransmits : ℕ)
  /-- The acknowledgement has not come: retransmit or pump the link. -/
  | pump (retransmits : ℕ)
  deriving DecidableEq

inductive Writer
  | idle
  /-- At the head of the loop of `Write p`. -/
  | loop (p : Bytes) (written : ℕ)
  /-- In `sendAndAwaitAck`. -/
  | flying (p : Bytes) (written : ℕ) (f : Flight) (stage : Stage)
  deriving DecidableEq

/-- A `Write` that has returned `(written, err)`, `begun` bytes of its argument having been given
sequence numbers. -/
structure WriteCall where
  arg : Bytes
  begun : ℕ
  written : ℕ
  err : Option Tcp4Err
  deriving DecidableEq

inductive Closer
  | idle
  /-- The FIN has its number and is not sent yet. -/
  | begun (f : Flight)
  /-- Waiting for the handshake to complete. -/
  | pump
  | done
  deriving DecidableEq

structure Threads where
  conn : TCP4Conn
  writer : Writer
  closers : ℕ → Closer
  sent : List Sent
  stream : List (Option UInt8)
  calls : List WriteCall

open Threads

/-- The bytes of a finished `Write` that have sequence numbers. -/
def WriteCall.part (w : WriteCall) : Bytes := w.arg.take w.begun

/-- Those of the `Write` under way. -/
def Writer.part : Writer → Bytes
  | .idle => []
  | .loop p written => p.take written
  | .flying p written f _ => p.take (written + f.segment.length)

namespace Threads

def start (c : TCP4Conn) : Threads := ⟨c, .idle, fun _ => .idle, [], [], []⟩

/-- `Write` returns. -/
def ret (t : Threads) (p : Bytes) (begun written : ℕ) (err : Option Tcp4Err) : Threads :=
  { t with writer := .idle, calls := t.calls ++ [⟨p, begun, written, err⟩] }

/-- `sendAndAwaitAck` returns an error, and `Write` with it. -/
def fail (t : Threads) (p : Bytes) (written : ℕ) (f : Flight) (err : Tcp4Err) : Threads :=
  t.ret p (written + f.segment.length) written (some err)

/-- The check `Write` starts with. -/
def write (t : Threads) (p : Bytes) : Threads :=
  match t.writer with
  | .idle =>
    if t.conn.closed ∨ (t.conn.state ≠ .established ∧ t.conn.state ≠ .closeWait) then
      t.ret p 0 0 (some .connClosed)
    else { t with writer := .loop p 0 }
  | _ => t

/-- The head of the loop of `Write`, and the first locked step of `sendAndAwaitAck`. -/
def nextSegment (t : Threads) : Threads :=
  match t.writer with
  | .loop p written =>
    if written < p.length then
      let segment := (p.drop written).take tcp4DefaultMSS
      let (c, s, _) := t.conn.beginSend segment
      { t with
        conn := c
        writer := .flying p written ⟨t.stream.length, s.seq, s.ack, segment⟩ .begun
        stream := t.stream ++ segment.map some }
    else t.ret p written written none
  | _ => t

def dataFlags : UInt8 := tcpFlagACK ||| tcpFlagPSH
def finFlags : UInt8 := tcpFlagFIN ||| tcpFlagACK

/-- Hand the segment to the link and go to `stage`, or return the error. -/
def sendData (t : Threads) (g : Egress) (p : Bytes) (written : ℕ) (f : Flight) (stage : Stage) :
    Threads :=
  match sendSegment g with
  | some e => t.fail p written f (.send e)
  | none =>
    { t with
      writer := .flying p written f stage
      sent := t.sent ++ [f.sent dataFlags t.conn.rcvWnd] }

/-- The first transmission. -/
def transmit (t : Threads) (g : Egress) : Threads :=
  match t.writer with
  | .flying p written f .begun => t.sendData g p written f (.check 0)
  | _ => t

/-- The locked check of the waiting loop. -/
def poll (t : Threads) : Threads :=
  match t.writer with
  | .flying p written f (.check n) =>
    match t.conn.awaitPoll f.wantAck with
    | .connClosed => t.fail p written f .connClosed
    | .acked => { t with writer := .loop p (written + f.segment.length) }
    | .again => { t with writer := .flying p written f (.pump n) }
  | _ => t

/-- The budget of the whole segment is used up. -/
def expire (t : Threads) : Threads :=
  match t.writer with
  | .flying p written f (.check _) => t.fail p written f .timeout
  | _ => t

/-- The timer of this attempt has expired. -/
def retransmit (t : Threads) (g : Egress) : Threads :=
  match t.writer with
  | .flying p written f (.pump n) =>
    if tcp4MaxRetransmits < n + 1 then t.fail p written f .timeout
    else t.sendData g p written f (.check (n + 1))
  | _ => t

/-- The timer has not expired: pump the link and go round again. -/
def goRound (t : Threads) : Threads :=
  match t.writer with
  | .flying p written f (.pump n) => { t with writer := .flying p written f (.check n) }
  | _ => t

def setCloser (t : Threads) (i : ℕ) (c : Closer) : Threads :=
  { t with closers := Function.update t.closers i c }

/-- The first locked step of `Close`. -/
def close (t : Threads) (i : ℕ) : Threads :=
  match t.closers i with
  | .idle =>
    if t.conn.closed then t.setCloser i .done
    else
      match t.conn.beginClose with
      | (_, []) => t.setCloser i .pump
      | (c, s :: _) =>
        { t.setCloser i (.begun ⟨t.stream.length, s.seq, s.ack, []⟩) with
          conn := c
          stream := t.stream ++ [none] }
  | _ => t

/-- `_ = c.sendSegmentExt(TCPFlagFIN|TCPFlagACK, seq, ack, nil)`. -/
def sendFin (t : Threads) (i : ℕ) (g : Egress) : Threads :=
  match t.closers i with
  | .begun f =>
    match sendSegment g with
    | some _ => t.setCloser i .pump
    | none => { t.setCloser i .pump with sent := t.sent ++ [f.sent finFlags t.conn.rcvWnd] }
  | _ => t

/-- The last locked step of `Close`. -/
def finish (t : Threads) (i : ℕ) : Threads :=
  match t.closers i with
  | .pump => { t.setCloser i .done with conn := t.conn.endClose }
  | _ => t

end Threads

inductive ThreadEvent
  | deliver (h : TCP4Header) (payload : Bytes)
  | readPoll (n : ℕ)
  | write (p : Bytes)
  | nextSegment
  | transmit (g : Egress)
  | poll
  | expire
  | retransmit (g : Egress)
  | goRound
  | close (i : ℕ)
  | sendFin (i : ℕ) (g : Egress)
  | finish (i : ℕ)

namespace Threads

def after (t : Threads) : ThreadEvent → Threads
  | .deliver h payload => { t with conn := (t.conn.deliverSegment h payload).1 }
  | .readPoll n => { t with conn := (t.conn.readPoll n).1 }
  | .write p => t.write p
  | .nextSegment => t.nextSegment
  | .transmit g => t.transmit g
  | .poll => t.poll
  | .expire => t.expire
  | .retransmit g => t.retransmit g
  | .goRound => t.goRound
  | .close i => t.close i
  | .sendFin i g => t.sendFin i g
  | .finish i => t.finish i

end Threads

/-! ## What a step can do -/

/-- The states a connection can be in once our FIN has its number. -/
def Tcp4State.pastFin : Tcp4State → Bool
  | .finWait1 | .finWait2 | .closing | .timeWait | .lastAck | .closed => true
  | .synSent | .established | .closeWait => false

/-- Is the writer between numbering a segment and its first transmission? -/
def Writer.unsent : Writer → Bool
  | .flying _ _ _ .begun => true
  | _ => false

/-- The changes a step can make. -/
inductive Effect (t : Threads) : ThreadEvent → Threads → Prop
  | same {e : ThreadEvent} : Effect t e t
  /-- The connection moves, its send half apart. -/
  | conn {e : ThreadEvent} {c : TCP4Conn} (hn : c.sndNxt = t.conn.sndNxt)
      (hs : t.conn.state.pastFin = true → c.state.pastFin = true) :
      Effect t e { t with conn := c }
  | enter {e : ThreadEvent} {p : Bytes} (hw : t.writer = .idle) :
      Effect t e { t with writer := .loop p 0 }
  | ret {e : ThreadEvent} {w : WriteCall} (hpart : w.part = t.writer.part)
      (hwhole : w.err = none → w.arg.length ≤ w.begun)
      (hunsent : t.writer.unsent = true → ∃ g, e = .transmit g ∧ sendSegment g ≠ none) :
      Effect t e { t with writer := .idle, calls := t.calls ++ [w] }
  | begin {p segment : Bytes} {written : ℕ} {f : Flight} {c : TCP4Conn}
      (hw : t.writer = .loop p written) (hne : segment ≠ [])
      (hpart : p.take (written + segment.length) = p.take written ++ segment)
      (hf : f.place = t.stream.length ∧ f.seq = t.conn.sndNxt ∧ f.segment = segment)
      (hn : c.sndNxt = t.conn.sndNxt + BitVec.ofNat 32 segment.length)
      (hs : c.state = t.conn.state) :
      Effect t .nextSegment
        { t with conn := c, writer := .flying p written f .begun,
                 stream := t.stream ++ segment.map some }
  /-- A transmission: the first one, or a retransmission. -/
  | send {e : ThreadEvent} {p : Bytes} {written n : ℕ} {f : Flight} {stage : Stage}
      (hw : t.writer = .flying p written f stage)
      (hfirst : stage = .begun → ∃ g, e = .transmit g ∧ sendSegment g = none) :
      Effect t e
        { t with writer := .flying p written f (.check n),
                 sent := t.sent ++ [f.sent dataFlags t.conn.rcvWnd] }
  /-- The writer goes on waiting. -/
  | wait {e : ThreadEvent} {p : Bytes} {written : ℕ} {f : Flight} {stage stage' : Stage}
      (hw : t.writer = .flying p written f stage) (hst : stage ≠ .begun) (hst' : stage' ≠ .begun) :
      Effect t e { t with writer := .flying p written f stage' }
  | acked {e : ThreadEvent} {p : Bytes} {written : ℕ} {f : Flight} {stage : Stage}
      (hw : t.writer = .flying p written f stage) (hst : stage ≠ .begun) :
      Effect t e { t with writer := .loop p (written + f.segment.length) }
  /-- Our FIN gets its number. -/
  | fin {i : ℕ} {f : Flight} {c : TCP4Conn}
      (hf : f.place = t.stream.length ∧ f.seq = t.conn.sndNxt ∧ f.segment = [])
      (hn : c.sndNxt = t.conn.sndNxt + 1) (hs : t.conn.state.pastFin = false)
      (hs' : c.state.pastFin = true) :
      Effect t (.close i) { t.setCloser i (.begun f) with conn := c, stream := t.stream ++ [none] }
  | finSent {i : ℕ} {g : Egress} {f : Flight} (hc : t.closers i = .begun f) :
      Effect t (.sendFin i g)
        { t.setCloser i .pump with sent := t.sent ++ [f.sent finFlags t.conn.rcvWnd] }
  /-- A `Close` moves on without sending. -/
  | closer {e : ThreadEvent} {i : ℕ} {k : Closer} (hk : ∀ f, k ≠ .begun f) :
      Effect t e (t.setCloser i k)
  | finish {e : ThreadEvent} {i : ℕ} :
      Effect t e { t.setCloser i .done with conn := t.conn.endClose }

namespace TCP4Conn

theorem nextState_pastFin {c : TCP4Conn} {ack : Seq} (h : c.state.pastFin = true) :
    (c.nextState ack).pastFin = true := by
  unfold nextState
  cases hs : c.state <;> rw [hs] at h <;> dsimp only <;> split_ifs <;> first | rfl | cases h

/-- Once our FIN has its number no segment brings back a state in which it can be sent. -/
theorem deliverSegment_pastFin {c : TCP4Conn} (h : TCP4Header) (payload : Bytes)
    (hp : c.state.pastFin = true) : (c.deliverSegment h payload).1.state.pastFin = true := by
  unfold deliverSegment
  split_ifs with hc hr
  · exact hp
  · rfl
  unfold stateArm
  split
  case h_1 hs | h_2 hs | h_5 hs =>
    rw [show c.state = _ from hs] at hp
    cases hp
  case h_3 hs | h_4 hs =>
    unfold dataArm
    split_ifs with hack
    · exact nextState_pastFin (by simpa using hp)
    · exact hp
  case h_6 hs | h_7 hs =>
    unfold finAckArm
    split_ifs with hfa
    · rfl
    · exact hp
  case h_8 | h_9 => exact hp

end TCP4Conn

namespace Threads

section
variable {t : Threads} {e : ThreadEvent} {p : Bytes} {written : ℕ} {f : Flight} {stage : Stage}

/-- A failing `sendAndAwaitAck`; before the first transmission only that transmission can fail. -/
theorem effect_fail {err : Tcp4Err} (hw : t.writer = .flying p written f stage)
    (hfirst : stage = .begun → ∃ g, e = .transmit g ∧ sendSegment g ≠ none) :
    Effect t e (t.fail p written f err) := by
  refine .ret ?_ ?_ ?_
  · rw [hw]
    rfl
  · intro herr
    cases herr
  · intro hu
    rw [hw] at hu
    cases stage with
    | begun => exact hfirst rfl
    | check n => cases hu
    | pump n => cases hu

theorem effect_transmit (hw : t.writer = .flying p written f .begun) (g : Egress) (n : ℕ) :
    Effect t (.transmit g) (t.sendData g p written f (.check n)) := by
  unfold sendData
  cases hg : sendSegment g with
  | some err => exact effect_fail hw (fun _ => ⟨g, rfl, by simp [hg]⟩)
  | none => exact .send hw (fun _ => ⟨g, rfl, hg⟩)

theorem effect_resend (hw : t.writer = .flying p written f stage) (hst : stage ≠ .begun)
    (g : Egress) (n : ℕ) : Effect t e (t.sendData g p written f (.check n)) := by
  unfold sendData
  cases hg : sendSegment g with
  | some err => exact effect_fail hw (fun h => absurd h hst)
  | none => exact .send hw (fun h => absurd h hst)

theorem effect_write : Effect t e (t.write p) := by
  unfold write
  cases hw : t.writer with
  | loop p' n => exact .same
  | flying p' n f st => exact .same
  | idle =>
    dsimp only
    split_ifs with hc
    · refine .ret ?_ ?_ ?_
      · rw [hw]
        rfl
      · intro herr
        cases herr
      · intro hu
        rw [hw] at hu
        cases hu
    · exact .enter hw

theorem take_add_length_take_drop (p : Bytes) (n m : ℕ) :
    p.take (n + ((p.drop n).take m).length) = p.take n ++ (p.drop n).take m := by
  rw [List.take_add, List.length_take, ← List.take_eq_take_min]

theorem effect_nextSegment : Effect t .nextSegment t.nextSegment := by
  unfold nextSegment
  cases hw : t.writer with
  | idle => exact .same
  | flying p n f st => exact .same
  | loop p n =>
    dsimp only
    split_ifs with hlt
    · have hne : (p.drop n).take tcp4DefaultMSS ≠ [] := by
        intro h
        have := congrArg List.length h
        simp only [List.length_take, List.length_drop, List.length_nil, tcp4DefaultMSS] at this
        omega
      exact .begin hw hne (take_add_length_take_drop p n _) ⟨rfl, rfl, rfl⟩ rfl rfl
    · refine .ret ?_ ?_ ?_
      · rw [hw]
        rfl
      · intro _
        exact Nat.le_of_not_lt hlt
      · intro hu
        rw [hw] at hu
        cases hu

theorem effect_poll : Effect t e t.poll := by
  unfold poll
  split
  case h_1 p n f k hw =>
    split
    · exact effect_fail hw (fun h => by cases h)
    · exact .acked hw (fun h => by cases h)
    · exact .wait hw (fun h => by cases h) (fun h => by cases h)
  case h_2 => exact .same

theorem effect_expire : Effect t e t.expire := by
  unfold expire
  split
  case h_1 p n f k hw => exact effect_fail hw (fun h => by cases h)
  case h_2 => exact .same

theorem effect_retransmit (g : Egress) : Effect t e (t.retransmit g) := by
  unfold retransmit
  split
  case h_1 p n f k hw =>
    split_ifs
    · exact effect_fail hw (fun h => by cases h)
    · exact effect_resend hw (fun h => by cases h) g _
  case h_2 => exact .same

theorem effect_goRound : Effect t e t.goRound := by
  unfold goRound
  split
  case h_1 p n f k hw => exact .wait hw (fun h => by cases h) (fun h => by cases h)
  case h_2 => exact .same

end

theorem effect_close (t : Threads) (i : ℕ) : Effect t (.close i) (t.close i) := by
  unfold close
  split
  case h_2 => exact .same
  split_ifs with hc
  · exact .closer (fun f h => by cases h)
  · unfold TCP4Conn.beginClose
    rw [if_neg hc]
    cases hs : t.conn.state
    case established | closeWait =>
      exact .fin ⟨rfl, rfl, rfl⟩ rfl (by rw [hs]; rfl) rfl
    all_goals exact .closer (fun f h => by cases h)

theorem effect_sendFin (t : Threads) (i : ℕ) (g : Egress) : Effect t (.sendFin i g) (t.sendFin i g) := by
  unfold sendFin
  split
  case h_1 f hc =>
    split
    · exact .closer (fun f h => by cases h)
    · exact .finSent hc
  case h_2 => exact .same

theorem effect_finish (t : Threads) (e : ThreadEvent) (i : ℕ) : Effect t e (t.finish i) := by
  unfold finish
  split
  case h_1 => exact .finish
  case h_2 => exact .same

/-- **Every step** is one of these changes. -/
theorem after_effect (t : Threads) (e : ThreadEvent) : Effect t e (t.after e) := by
  cases e with
  | deliver h payload =>
    exact .conn (t.conn.deliverSegment_delivered h payload).nxt
      (TCP4Conn.deliverSegment_pastFin h payload)
  | readPoll n =>
    refine .conn ?_ ?_
    all_goals
      unfold TCP4Conn.readPoll
      split_ifs
    all_goals first | rfl | exact id
  | write p => exact effect_write
  | nextSegment => exact effect_nextSegment
  | transmit g =>
    change Effect t (.transmit g) (t.transmit g)
    unfold transmit
    split
    case h_1 p n f hw => exact effect_transmit hw g 0
    case h_2 => exact .same
  | poll => exact effect_poll
  | expire => exact effect_expire
  | retransmit g => exact effect_retransmit g
  | goRound => exact effect_goRound
  | close i => exact effect_close t i
  | sendFin i g => exact effect_sendFin t i g
  | finish i => exact effect_finish t _ i

end Threads

/-! ## Places -/

/-- `content` stands in the stream at `place`. -/
def Carries (stream : List (Option UInt8)) (place : ℕ) (content : List (Option UInt8)) : Prop :=
  ∃ pre post, stream = pre ++ content ++ post ∧ pre.length = place

section
variable {stream content more : List (Option UInt8)} {place : ℕ}

theorem Carries.append (h : Carries stream place content) : Carries (stream ++ more) place content := by
  obtain ⟨pre, post, rfl, hpre⟩ := h
  exact ⟨pre, post ++ more, by simp, hpre⟩

theorem carries_new (stream content : List (Option UInt8)) :
    Carries (stream ++ content) stream.length content :=
  ⟨stream, [], by simp, rfl⟩

theorem Carries.le_length (h : Carries stream place content) : place + content.length ≤ stream.length := by
  obtain ⟨pre, post, rfl, hpre⟩ := h
  simp only [List.length_append]
  omega

theorem Carries.getElem (h : Carries stream place content) (i : ℕ) (hi : i < content.length) :
    stream[place + i]? = content[i]? := by
  obtain ⟨pre, post, rfl, rfl⟩ := h
  rw [List.append_assoc, List.getElem?_append_right (Nat.le_add_right _ _), Nat.add_sub_cancel_left,
    List.getElem?_append_left hi]

end

namespace Flight

/-- A data segment with the number of its place, and the stream there as payload. -/
structure Data (base : Seq) (stream : List (Option UInt8)) (f : Flight) : Prop where
  seq : f.seq = pos base f.place
  nonempty : f.segment ≠ []
  carries : Carries stream f.place (f.segment.map some)

/-- A FIN with the number of its place. -/
structure Fin (base : Seq) (stream : List (Option UInt8)) (f : Flight) : Prop where
  seq : f.seq = pos base f.place
  empty : f.segment = []
  carries : Carries stream f.place [none]

variable {base : Seq} {stream : List (Option UInt8)} {f : Flight}

theorem Data.append (h : f.Data base stream) (more : List (Option UInt8)) : f.Data base (stream ++ more) :=
  ⟨h.seq, h.nonempty, h.carries.append⟩

theorem Fin.append (h : f.Fin base stream) (more : List (Option UInt8)) : f.Fin base (stream ++ more) :=
  ⟨h.seq, h.empty, h.carries.append⟩

theorem Data.le_length (h : f.Data base stream) : f.place + f.segment.length ≤ stream.length := by
  simpa using h.carries.le_length

end Flight

/-- A segment that was sent is a data segment or a FIN, with the number of its place. -/
inductive Sent.Right (base : Seq) (stream : List (Option UInt8)) : Sent → Prop
  | data {f : Flight} {rcvWnd : BitVec 16} (h : f.Data base stream) :
      Right base stream (f.sent dataFlags rcvWnd)
  | fin {f : Flight} {rcvWnd : BitVec 16} (h : f.Fin base stream) :
      Right base stream (f.sent finFlags rcvWnd)

theorem Sent.Right.append {base : Seq} {stream : List (Option UInt8)} {s : Sent}
    (h : s.Right base stream) (more : List (Option UInt8)) : s.Right base (stream ++ more) := by
  cases h with
  | data hf => exact .data (hf.append more)
  | fin hf => exact .fin (hf.append more)

/-- The numbers given out follow the stream, and the segments carry it. -/
structure Placed (base : Seq) (t : Threads) : Prop where
  next : t.conn.sndNxt = pos base t.stream.length
  bytes : t.stream.reduceOption = (t.calls.map WriteCall.part).flatten ++ t.writer.part
  whole : ∀ w ∈ t.calls, w.err = none → w.part = w.arg
  sent : ∀ s ∈ t.sent, s.Right base t.stream
  flying : ∀ {p written f stage}, t.writer = .flying p written f stage → f.Data base t.stream
  closing : ∀ {i f}, t.closers i = .begun f → f.Fin base t.stream

theorem placed_start (c : TCP4Conn) : Placed c.sndNxt (.start c) where
  next := (pos_zero _).symm
  bytes := rfl
  whole := by simp [start]
  sent := by simp [start]
  flying h := by cases h
  closing h := by cases h

/-- Which `Close` is about to send its FIN, after one of them has moved. -/
theorem Threads.setCloser_begun {t : Threads} {i j : ℕ} {k : Closer} {f : Flight}
    (h : (t.setCloser i k).closers j = .begun f) : j = i ∧ k = .begun f ∨ j ≠ i ∧ t.closers j = .begun f := by
  rw [setCloser] at h
  by_cases hj : j = i
  · subst hj
    exact .inl ⟨rfl, by simpa using h⟩
  · exact .inr ⟨hj, by simpa [hj] using h⟩

/-- None is, because of a `Close` that moves past its FIN. -/
theorem Threads.begun_of_setCloser {t : Threads} {i j : ℕ} {k : Closer} {f : Flight}
    (hk : ∀ f, k ≠ .begun f) (h : (t.setCloser i k).closers j = .begun f) : t.closers j = .begun f := by
  rcases setCloser_begun h with ⟨-, hf⟩ | ⟨-, hf⟩
  · exact absurd hf (hk f)
  · exact hf

/-- **A step** keeps the numbers and the stream together. -/
theorem placed_step {base : Seq} {t t' : Threads} {e : ThreadEvent} (h : Placed base t)
    (he : Effect t e t') : Placed base t' := by
  cases he with
  | same => exact h
  | conn hn _ => exact { h with next := hn.trans h.next }
  | enter hw =>
    refine { h with bytes := ?_, flying := fun hf => by cases hf }
    rw [h.bytes, hw]
    rfl
  | @ret _ w hpart hwhole _ =>
    refine { h with bytes := ?_, whole := ?_, flying := fun hf => by cases hf }
    · rw [h.bytes, ← hpart, List.map_append, List.flatten_append]
      simp [Writer.part]
    · intro w' hw' herr
      rcases List.mem_append.mp hw' with hold | hnew
      · exact h.whole w' hold herr
      · rw [List.mem_singleton.mp hnew] at herr ⊢
        exact List.take_of_length_le (hwhole herr)
  | @begin p segment written f c hw hne hpart hf hn _ =>
    obtain ⟨hplace, hseq, hsegment⟩ := hf
    have hdata : f.Data base (t.stream ++ segment.map some) := by
      refine ⟨?_, by rwa [hsegment], ?_⟩
      · rw [hseq, h.next, hplace]
      · rw [hplace, hsegment]
        exact carries_new _ _
    constructor
    · change c.sndNxt = _
      rw [hn, h.next, pos_add, List.length_append, List.length_map]
    · change (t.stream ++ segment.map some).reduceOption = _ ++ p.take (written + f.segment.length)
      rw [List.reduceOption_append, h.bytes, hw, hsegment, hpart]
      simp [Writer.part, List.reduceOption]
    · exact h.whole
    · exact fun s hs => (h.sent s hs).append _
    · rintro _ _ _ _ ⟨⟩
      exact hdata
    · exact fun hc => (h.closing hc).append _
  | @send _ p written n f stage hw _ =>
    refine { h with bytes := ?_, sent := ?_, flying := ?_ }
    · rw [h.bytes, hw]
      rfl
    · exact List.forall_mem_append.mpr ⟨h.sent, List.forall_mem_singleton.mpr (.data (h.flying hw))⟩
    · rintro _ _ _ _ ⟨⟩
      exact h.flying hw
  | wait hw _ _ =>
    refine { h with bytes := ?_, flying := ?_ }
    · rw [h.bytes, hw]
      rfl
    · rintro _ _ _ _ ⟨⟩
      exact h.flying hw
  | acked hw _ =>
    refine { h with bytes := ?_, flying := fun hf => by cases hf }
    rw [h.bytes, hw]
    rfl
  | @fin i f c hf hn _ _ =>
    obtain ⟨hplace, hseq, hsegment⟩ := hf
    have hfin : f.Fin base (t.stream ++ [none]) := by
      refine ⟨?_, hsegment, ?_⟩
      · rw [hseq, h.next, hplace]
      · rw [hplace]
        exact carries_new _ _
    constructor
    · change c.sndNxt = _
      rw [hn, h.next, List.length_append]
      exact pos_add base _ 1
    · change (t.stream ++ [none]).reduceOption = _
      rw [List.reduceOption_append, h.bytes]
      simp [List.reduceOption, setCloser]
    · exact h.whole
    · exact fun s hs => (h.sent s hs).append _
    · exact fun hw => (h.flying hw).append _
    · intro j g hj
      rcases setCloser_begun hj with ⟨-, hg⟩ | ⟨-, hg⟩
      · cases hg
        exact hfin
      · exact (h.closing hg).append _
  | @finSent i _ f hc =>
    refine { h with sent := ?_, closing := ?_ }
    · exact List.forall_mem_append.mpr ⟨h.sent, List.forall_mem_singleton.mpr (.fin (h.closing hc))⟩
    · exact fun hj => h.closing (begun_of_setCloser (fun _ hk => by cases hk) hj)
  | closer hk =>
    exact { h with closing := fun hj => h.closing (begun_of_setCloser hk hj) }
  | finish =>
    refine { h with closing := ?_ }
    exact fun hj => h.closing (begun_of_setCloser (fun _ hk => by cases hk) hj)

/-- **Every state of every run** is placed. -/
theorem placed_run (c : TCP4Conn) (es : List ThreadEvent) :
    Placed c.sndNxt (runFrom Threads.after (.start c) es) :=
  run_invariant (fun t e h => placed_step h (t.after_effect e)) (placed_start c) es

end TamagoUefi.Net
