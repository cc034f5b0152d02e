import TamagoUefi.Net.Wire

/-!
# TamagoUefi.Net.Stack — what an Ethernet frame does to the stack (`stack.go`, `ethernet.go`, `arp.go`)

`dispatch` parses a frame and hands it to one of the handlers.  A handler changes the stack and has
effects: a datagram is queued, a segment is delivered, a waiting ping is woken, a frame is sent.

The link is in the state: the answers of `RecvFrame` to the polls to come, and the error that
`SendFrame` gives for a frame.  How many rounds a deadline allows is a number.
-/

namespace TamagoUefi.Net

open Go Lib

/-! ## Ethernet -/

def etherTypeIPv4 : UInt16 := 0x0800
def etherTypeARP : UInt16 := 0x0806
def ethernetHeaderLen : ℕ := 14
def maxFrameLen : ℕ := 1514
def broadcastMAC : Bytes := [0xFF, 0xFF, 0xFF, 0xFF, 0xFF, 0xFF]

structure EthernetFrame where
  dst : Bytes
  src : Bytes
  etherType : UInt16
  payload : Bytes

def parseEthernet (frame : Bytes) : Except NetErr EthernetFrame :=
  if frame.length < ethernetHeaderLen then .error .frameTooShort
  else .ok ⟨frame.take 6, (frame.drop 6).take 6, u16 frame 12, frame.drop ethernetHeaderLen⟩

def marshalEthernet (dst src : Bytes) (etherType : UInt16) (payload : Bytes) : Except NetErr Bytes :=
  if dst.length ≠ 6 ∨ src.length ≠ 6 then .error .invalidMAC
  else if maxFrameLen < ethernetHeaderLen + payload.length then .error .frameTooLong
  else .ok (dst ++ src ++ putU16 etherType ++ payload)

/-! ## The stack -/

structure UDP4Datagram where
  src : Bytes
  port : UInt16
  payload : Bytes
  deriving DecidableEq

def udp4QueueDepth : ℕ := 16

structure UDP4Conn where
  closed : Bool
  queue : List UDP4Datagram
  deriving DecidableEq

/-- A connection in the table, with its addresses. -/
structure TCP4Entry where
  localIP : Bytes
  localPort : UInt16
  remoteIP : Bytes
  remotePort : UInt16
  conn : TCP4Conn
  deriving DecidableEq

/-- The channel of a waiting ping, with room for one message. -/
structure PingWaiter where
  ch : Option ICMPEcho
  deriving DecidableEq

inductive StackEffect
  | queued (port : UInt16) (dg : UDP4Datagram)
  | delivered (port : UInt16) (h : ParsedTCP4) (payload : Bytes)
  | woken (key : UInt32) (msg : ICMPEcho)
  | sent (frame : Bytes)
  deriving DecidableEq

structure Stack where
  closed : Bool
  mac : Bytes
  route : RouteTable
  /-- An entry is pending or resolved. -/
  arpCache : Bytes → Option (Option Bytes)
  pings : UInt32 → Option PingWaiter
  udp4Conns : UInt16 → Option UDP4Conn
  tcp4Conns : UInt16 → Option TCP4Entry
  ipID : UInt16
  /-- The rounds that the deadline of `resolveARP` allows. -/
  arpRounds : ℕ
  polls : List (Option Bytes)
  sendErr : Bytes → Option Bytes

/-- Two things that are not in the program, noted where they happen. -/
inductive Receipt
  /-- `RecvFrame` returned the frame to the loop of `resolveARP`. -/
  | inARP (frame : Bytes)
  /-- `handleIPv4` was called with the packet. -/
  | handled (pkt : Bytes)
  deriving DecidableEq

/-- A stack after a call, the effects of the call, what it returned and its notes. -/
structure Outcome (α : Type) where
  stack : Stack
  effects : List StackEffect
  result : Except NetErr α
  receipts : List Receipt

namespace Outcome

variable {α β : Type}

def note (r : Receipt) (o : Outcome α) : Outcome α := { o with receipts := r :: o.receipts }

/-- A call, and another however the first ended. -/
def follow (o : Outcome α) (o' : Outcome β) : Outcome β :=
  ⟨o'.stack, o.effects ++ o'.effects, o'.result, o.receipts ++ o'.receipts⟩

/-- A call followed by another, unless it failed. -/
def andThen (o : Outcome α) (f : Stack → α → Outcome β) : Outcome β :=
  match o.result with
  | .error e => ⟨o.stack, o.effects, .error e, o.receipts⟩
  | .ok a => o.follow (f o.stack a)

end Outcome

namespace Stack

/-- Nothing happens but a result. -/
def give {α : Type} (st : Stack) (r : Except NetErr α) : Outcome α := ⟨st, [], r, []⟩

def done (st : Stack) : Outcome Unit := st.give (.ok ())

def sendFrame (st : Stack) (frame : Bytes) : Outcome Unit :=
  match st.sendErr frame with
  | some e => st.give (.error (.link e))
  | none => ⟨st, [.sent frame], .ok (), []⟩

/-- `link.RecvFrame`; `none` is an error, mostly that there is no frame. -/
def recvFrame (st : Stack) : Option Bytes × Stack :=
  match st.polls with
  | [] => (none, st)
  | r :: rest => (r, { st with polls := rest })

/-! ## ARP -/

/-- `net.IP.Equal`. -/
def ipEqual (a b : Bytes) : Bool := a = b || ((to4 a).isSome && to4 a = to4 b)

def buildARPPacket (op : UInt16) (sha spa tha tpa : Bytes) : Except NetErr Bytes :=
  if sha.length ≠ 6 ∨ tha.length ≠ 6 then .error .invalidMAC
  else
    match to4 spa, to4 tpa with
    | some spa4, some tpa4 =>
      .ok (putU16 1 ++ putU16 0x0800 ++ [6, 4] ++ putU16 op ++ sha ++ spa4 ++ tha ++ tpa4)
    | _, _ => .error .ipv4InvalidIP

structure ARPPacket where
  op : UInt16
  sha : Bytes
  spa : Bytes
  tha : Bytes
  tpa : Bytes

def parseARP (buf : Bytes) : Except NetErr ARPPacket :=
  if buf.length < 28 ∨ u16 buf 0 ≠ 1 ∨ u16 buf 2 ≠ 0x0800 ∨ buf.getD 4 0 ≠ 6 ∨ buf.getD 5 0 ≠ 4 then
    .error .arpInvalidPacket
  else
    .ok ⟨u16 buf 6, (buf.drop 8).take 6, (buf.drop 14).take 4, (buf.drop 18).take 6,
      (buf.drop 24).take 4⟩

/-- The sender is always learned; a request for our address is answered. -/
def handleARPFrame (st : Stack) (payload : Bytes) : Outcome Unit :=
  (st.give (parseARP payload)).andThen fun st a =>
    let st := { st with arpCache := Function.update st.arpCache a.spa (some (some a.sha)) }
    match st.route.localIP with
    | none => st.done
    | some ourIP =>
      if a.op = 1 ∧ ipEqual a.tpa ourIP then
        (st.give (buildARPPacket 2 st.mac ourIP a.sha a.spa)).andThen fun st reply =>
          (st.give (marshalEthernet a.sha st.mac etherTypeARP reply)).andThen sendFrame
      else st.done

/-- The rounds of the loop of `resolveARP`; frames that are not ARP are dropped. -/
def awaitARP (target : Bytes) : ℕ → Stack → Outcome Bytes
  | 0, st => st.give (.error .arpTimeout)
  | n + 1, st =>
    match st.arpCache target with
    | some (some mac) => st.give (.ok mac)
    | _ =>
      match st.recvFrame with
      | (none, st) => awaitARP target n st
      | (some rx, st) =>
        .note (.inARP rx) <|
          match parseEthernet rx with
          | .error _ => awaitARP target n st
          | .ok eth =>
            if eth.etherType = etherTypeARP then
              let o := st.handleARPFrame eth.payload
              o.follow (awaitARP target n o.stack)
            else awaitARP target n st

def resolveARP (st : Stack) (target : Bytes) : Outcome Bytes :=
  match to4 target with
  | none => st.give (.error .ipv4InvalidIP)
  | some t4 =>
    match st.arpCache t4 with
    | some (some mac) => st.give (.ok mac)
    | _ =>
      let st := { st with arpCache := Function.update st.arpCache t4 (some none) }
      -- without a local address the request cannot be built
      let request := buildARPPacket 1 st.mac (st.route.localIP.getD []) [0, 0, 0, 0, 0, 0] t4
      ((st.give request).andThen fun st pkt =>
        (st.give (marshalEthernet broadcastMAC st.mac etherTypeARP pkt)).andThen sendFrame).andThen
          fun st _ => awaitARP t4 st.arpRounds st

/-! ## Sending -/

def nextIPID (st : Stack) : UInt16 × Stack := (st.ipID, { st with ipID := st.ipID + 1 })

def sendIPv4Frame (st : Stack) (finalDst ipPkt : Bytes) : Outcome Unit :=
  if st.closed then st.give (.error .stackClosed)
  else
    (st.give (st.route.lookup finalDst)).andThen fun st nextHop =>
      (st.resolveARP nextHop).andThen fun st mac =>
        (st.give (marshalEthernet mac st.mac etherTypeIPv4 ipPkt)).andThen sendFrame

/-- `TCP4Conn.sendSegment` of a connection in the table. -/
def sendSegment (st : Stack) (c : TCP4Entry) (seg : Segment) : Outcome Unit :=
  let tcp := marshalTCP4 c.localIP c.remoteIP c.localPort c.remotePort seg.seq seg.ack seg.flags
    seg.window seg.payload
  let (id, st) := st.nextIPID
  (st.give (marshalIPv4 c.localIP c.remoteIP ipProtoTCP id tcp)).andThen fun st pkt =>
    st.sendIPv4Frame c.remoteIP pkt

/-! ## Handlers -/

def pingKey (id seq : UInt16) : UInt32 := id.toUInt32 <<< 16 ||| seq.toUInt32

def buildEchoReplyPacket (src dst : Bytes) (ipID icmpID icmpSeq : UInt16) (payload : Bytes) :
    Except NetErr Bytes :=
  marshalIPv4 src dst ipProtoICMP ipID (marshalICMPEcho icmpTypeEchoReply icmpID icmpSeq payload)

/-- A reply is matched with the waiting pings, a request is answered. -/
def handleEcho (st : Stack) (h : IPv4Header) (msg : ICMPEcho) : Outcome Unit :=
  if msg.type = icmpTypeEchoReply then
    let key := pingKey msg.identifier msg.sequence
    match st.pings key with
    | none => st.done
    | some w =>
      let st := { st with pings := Function.update st.pings key none }
      match w.ch with
      | some _ => st.done
      | none => ⟨st, [.woken key msg], .ok (), []⟩
  else if msg.type = icmpTypeEchoRequest then
    let (id, st) := st.nextIPID
    (st.give (buildEchoReplyPacket h.dst h.src id msg.identifier msg.sequence msg.payload)).andThen
      fun st reply => st.sendIPv4Frame h.src reply
  else st.done

def handleICMP (st : Stack) (h : IPv4Header) (body : Bytes) : Outcome Unit :=
  (st.give (parseICMPEcho body)).andThen fun st msg => st.handleEcho h msg

/-- `UDP4Conn.deliver`: the oldest datagram makes room. -/
def deliver (st : Stack) (port : UInt16) (conn : UDP4Conn) (dg : UDP4Datagram) : Outcome Unit :=
  if conn.closed then st.done
  else
    let queue := if conn.queue.length < udp4QueueDepth then conn.queue else conn.queue.tail
    ⟨{ st with udp4Conns := Function.update st.udp4Conns port (some { conn with queue := queue ++ [dg] }) },
      [.queued port dg], .ok (), []⟩

def handleUDP4 (st : Stack) (h : IPv4Header) (body : Bytes) : Outcome Unit :=
  (st.give (parseUDP4 h.src h.dst body)).andThen fun st r =>
    match st.udp4Conns r.1.dstPort with
    | none => st.done
    | some conn => st.deliver r.1.dstPort conn ⟨h.src, r.1.srcPort, r.2⟩

/-- The segments that a delivery makes the connection send, errors ignored. -/
def sendAll (st : Stack) (c : TCP4Entry) : List Segment → Outcome Unit
  | [] => st.done
  | seg :: segs =>
    let o := st.sendSegment c seg
    o.follow (sendAll o.stack c segs)

def deliverSegment (st : Stack) (c : TCP4Entry) (th : ParsedTCP4) (payload : Bytes) : Outcome Unit :=
  let (conn, segs) := c.conn.deliverSegment th.toTCP4Header payload
  let st := { st with
    tcp4Conns := Function.update st.tcp4Conns th.dstPort (some { c with conn := conn }) }
  let o := st.sendAll c segs
  { o with effects := .delivered th.dstPort th payload :: o.effects }

/-- A segment goes to the connection that has its port and its sender. -/
def acceptSegment (st : Stack) (h : IPv4Header) (th : ParsedTCP4) (payload : Bytes) : Outcome Unit :=
  match st.tcp4Conns th.dstPort with
  | none => st.done
  | some c =>
    if ipEqual c.remoteIP h.src = false ∨ c.remotePort ≠ th.srcPort then st.done
    else st.deliverSegment c th payload

/-- The body is cut to the length that the IPv4 header gives. -/
def handleTCP4 (st : Stack) (h : IPv4Header) (body : Bytes) : Outcome Unit :=
  if h.totalLen.toNat < ipv4HeaderLen then st.done
  else
    let tcpLen := h.totalLen.toNat - ipv4HeaderLen
    if body.length < tcpLen then st.done
    else
      (st.give (parseTCP4 h.src h.dst (body.take tcpLen))).andThen fun st r => st.acceptSegment h r.1 r.2

def handleProtocol (st : Stack) (h : IPv4Header) (body : Bytes) : Outcome Unit :=
  if h.protocol = ipProtoICMP then st.handleICMP h body
  else if h.protocol = ipProtoUDP then st.handleUDP4 h body
  else if h.protocol = ipProtoTCP then st.handleTCP4 h body
  else st.done

/-- The body of `handleIPv4`. -/
def handlePacket (st : Stack) (payload : Bytes) : Outcome Unit :=
  (st.give (parseIPv4 payload)).andThen fun st r => st.handleProtocol r.1 r.2

def handleIPv4 (st : Stack) (payload : Bytes) : Outcome Unit :=
  .note (.handled payload) (st.handlePacket payload)

def dispatch (st : Stack) (frame : Bytes) : Outcome Unit :=
  (st.give (parseEthernet frame)).andThen fun st eth =>
    if eth.etherType = etherTypeARP then st.handleARPFrame eth.payload
    else if eth.etherType = etherTypeIPv4 then st.handleIPv4 eth.payload
    else st.done

end Stack

end TamagoUefi.Net
