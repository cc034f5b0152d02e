import Mathlib.Data.List.ReduceOption
import TamagoUefi.Lib.Run
import TamagoUefi.Lib.Within
import TamagoUefi.Net.Foreign
import TamagoUefi.Net.Tcp4Dial

/-!
# TamagoUefi.Net.Pumps — who receives a frame, and what becomes of it

Frames are received in the waiting loops of the calls: dial, `Read`, `Write`, `Close`, `ReadFrom`,
`ResolveA`, `PingOnce` (`tcp4.go`, `udp4.go`, `dns.go`, `stack.go`), and, below all that send, in the
loop of `resolveARP` (`arp.go`).  The former dispatch what they receive; the latter handles ARP and
drops the rest.

* `CallM` is a call: it changes a `Host`, that is a stack with the channels of its pings, and ends in
  a result or an error.  `pump` is the loop that the calls share.
* The fields `sent` and `log` are not in the program: the frames handed to the link, and the notes of
  the calls into the stack.

How many rounds a deadline allows is a number, as in `Net.Stack`; whether the retransmission timer
of `Write` has run out in a round is an argument too.
-/

namespace TamagoUefi.Net

open Go Lib
open Function (update)

/-! ## Hosts -/

structure Host where
  stack : Stack
  tcp4PortRover : UInt16
  /-- The channels of the pings. -/
  pingCh : UInt32 → Option ICMPEcho
  /-- The frames that were handed to the link. -/
  sent : List Bytes
  log : List Receipt

inductive CallErr
  | net (e : NetErr)
  | dns (e : DnsErr)
  | udp4InvalidAddr
  | udp4PortInUse
  | udp4ConnClosed
  | udp4ReadTimeout
  | tcp4InvalidAddr
  | tcp4NoLocalAddr
  | tcp4PortInUse
  | tcp4ConnRefused
  | tcp4ConnClosed
  | tcp4PeerClosed
  | tcp4Timeout
  | noLocalAddr
  | pingTimeout
  deriving DecidableEq

abbrev CallM (α : Type) : Type := ExceptT CallErr (StateM Host) α

/-- The messages of an outcome reach the channels of their pings. -/
def wake (ch : UInt32 → Option ICMPEcho) : StackEffect → UInt32 → Option ICMPEcho
  | .woken key msg => update ch key (some msg)
  | _ => ch

/-- A call into the stack. -/
def Host.enter {α : Type} (h : Host) (o : Outcome α) : Host :=
  { h with
    stack := o.stack
    pingCh := o.effects.foldl wake h.pingCh
    sent := h.sent ++ frames o.effects
    log := h.log ++ o.receipts }

def onStack {α : Type} (f : Stack → Outcome α) : CallM α := do
  let h ← get
  set (h.enter (f h.stack))
  match (f h.stack).result with
  | .ok a => pure a
  | .error e => throw (.net e)

/-! ## The pump -/

/-- `RecvFrame` and `dispatch`, whose error is ignored. -/
def recvRound (h : Host) : Host :=
  match h.stack.recvFrame with
  | (none, st) => { h with stack := st }
  | (some rx, st) => { h with stack := st }.enter (st.dispatch rx)

/-- The loop of a call: look, and if there is nothing yet, receive a frame. -/
def pump {σ β : Type} (look : σ → CallM (σ ⊕ β)) : ℕ → σ → CallM (Option β)
  | 0, _ => pure none
  | n + 1, s => do
    match ← look s with
    | .inr b => pure (some b)
    | .inl s => do
      modify recvRound
      pump look n s

/-! ## UDP -/

/-- What `ResolveA` reads of the stack. -/
def Stack.udp (st : Stack) : UdpStack := ⟨st.closed, st.mac, fun p => (st.udp4Conns p).isSome⟩

/-- The limited broadcast goes out without address resolution. -/
def Stack.sendUDP4 (st : Stack) (srcPort dstPort : UInt16) (dst payload : Bytes) : Outcome Unit :=
  match to4 dst with
  | none => st.give (.error .ipv4InvalidIP)
  | some d4 =>
    if st.closed then st.give (.error .stackClosed)
    else
      let src := st.route.localIP.getD [0, 0, 0, 0]
      (st.give (marshalUDP4 src d4 srcPort dstPort payload)).andThen fun st udp =>
        (st.nextIPID.2.give (marshalIPv4 src d4 ipProtoUDP st.nextIPID.1 udp)).andThen fun st pkt =>
          if d4 = [0xFF, 0xFF, 0xFF, 0xFF] then
            (st.give (marshalEthernet broadcastMAC st.mac etherTypeIPv4 pkt)).andThen sendFrame
          else st.sendIPv4Frame d4 pkt

namespace Call

def setUDP4 (port : UInt16) (c : Option UDP4Conn) : CallM Unit :=
  modify fun h =>
    { h with stack := { h.stack with udp4Conns := update h.stack.udp4Conns port c } }

def openUDP4 (port : UInt16) : CallM Unit := do
  let h ← get
  if h.stack.closed then throw (.net .stackClosed)
  else if (h.stack.udp4Conns port).isSome then throw .udp4PortInUse
  else setUDP4 port (some ⟨false, []⟩)

/-- A closed socket is gone from the table; its calls fail like those of none. -/
def closeUDP4 (port : UInt16) : CallM Unit := setUDP4 port none

def writeTo (port : UInt16) (dst : Bytes) (dstPort : UInt16) (payload : Bytes) : CallM Unit :=
  match to4 dst with
  | none => throw .udp4InvalidAddr
  | some d4 => do
    let h ← get
    match h.stack.udp4Conns port with
    | none => throw .udp4ConnClosed
    | some c =>
      if c.closed then throw .udp4ConnClosed
      else onStack fun st => st.sendUDP4 port dstPort d4 payload

/-- What `ReadFrom` looks at: the queue of the socket, for a buffer of `n` bytes. -/
def takeDatagram (port : UInt16) (n : ℕ) : CallM (Unit ⊕ UDP4Datagram) := do
  let h ← get
  match h.stack.udp4Conns port with
  | none => throw .udp4ConnClosed
  | some c =>
    match c.queue with
    | [] => pure (.inl ())
    | dg :: rest => do
      setUDP4 port (some { c with queue := rest })
      pure (.inr { dg with payload := dg.payload.take n })

def readFrom (port : UInt16) (n rounds : ℕ) : CallM UDP4Datagram := do
  let h ← get
  match h.stack.udp4Conns port with
  | none => throw .udp4ConnClosed
  | some c =>
    if c.closed then throw .udp4ConnClosed
    else do
      match ← pump (fun _ => takeDatagram port n) rounds () with
      | some dg => pure dg
      | none => throw .udp4ReadTimeout

/-! ## ResolveA -/

/-- The loop of `ResolveA`; each `ReadFrom` has its own deadline. -/
def awaitAnswer (port id : UInt16) (reads : ℕ) : ℕ → CallM Bytes
  | 0 => throw (.dns .timeout)
  | n + 1 => do
    let dg ← tryCatch (readFrom port dnsBufLen reads) fun e =>
      throw (if e = .udp4ReadTimeout then .dns .timeout else e)
    match parseDNSAnswerForA dg.payload id with
    | .ok ip => pure ip
    | .error .badFormat => awaitAnswer port id reads n
    | .error e => throw (.dns e)

/-- The part of `ResolveA` that has a socket. -/
def askOn (port : UInt16) (mac name d4 : Bytes) (rounds reads : ℕ) : CallM Bytes :=
  let id := dnsIDFromMAC mac dnsQueryRoot port
  match buildDNSQuery id name with
  | .error e => throw (.dns e)
  | .ok query => do
    writeTo port d4 53 query
    awaitAnswer port id reads rounds

/-- The socket is closed on every way out. -/
def resolveA (name dnsServer : Bytes) (rounds reads : ℕ) : CallM Bytes :=
  match to4 dnsServer with
  | none => throw (.dns .invalidServer)
  | some d4 => do
    let h ← get
    if h.stack.closed then throw (.net .stackClosed)
    else
      match freePort h.stack.udp.bound 1024 dnsClientPortLow with
      | .error _ => throw .udp4PortInUse
      | .ok port => do
        openUDP4 port
        let ip ← tryCatch (askOn port h.stack.mac name d4 rounds reads) fun e => do
          closeUDP4 port
          throw e
        closeUDP4 port
        pure ip

/-! ## PingOnce -/

def pingIdent : UInt16 := 0x4D53

def setPing (key : UInt32) (w : Option PingWaiter) : CallM Unit :=
  modify fun h => { h with stack := { h.stack with pings := update h.stack.pings key w } }

/-- Two identifications are used, the first as the sequence number; the channel is new. -/
def registerPing (key : UInt32) : CallM Unit :=
  modify fun h =>
    { h with
      stack := { h.stack with
        pings := update h.stack.pings key (some ⟨none⟩)
        ipID := h.stack.ipID + 2 }
      pingCh := update h.pingCh key none }

/-- What `PingOnce` looks at. -/
def awaitPing (key : UInt32) : CallM (Unit ⊕ Unit) := do
  let h ← get
  if (h.pingCh key).isSome then pure (.inr ())
  else if h.stack.closed then throw (.net .stackClosed)
  else pure (.inl ())

/-- The part of `PingOnce` that is registered. -/
def pingRegistered (key : UInt32) (dst4 : Bytes) (pkt : Except NetErr Bytes) (rounds : ℕ) :
    CallM Unit := do
  onStack fun st => (st.give pkt).andThen fun st pkt => st.sendIPv4Frame dst4 pkt
  match ← pump (fun _ => awaitPing key) rounds () with
  | some () => pure ()
  | none => throw .pingTimeout

def pingOnce (dst payload : Bytes) (rounds : ℕ) : CallM Unit :=
  match to4 dst with
  | none => throw (.net .ipv4InvalidIP)
  | some dst4 => do
    let h ← get
    if h.stack.closed then throw (.net .stackClosed)
    else
      match h.stack.route.localIP with
      | none => throw .noLocalAddr
      | some src => do
        let seq := h.stack.ipID
        let key := Stack.pingKey pingIdent seq
        registerPing key
        let pkt := marshalIPv4 src dst4 ipProtoICMP (seq + 1)
          (marshalICMPEcho icmpTypeEchoRequest pingIdent seq payload)
        tryCatch (pingRegistered key dst4 pkt rounds) fun e => do
          setPing key none
          throw e

/-! ## TCP -/

def setTCP4 (port : UInt16) (c : Option TCP4Entry) : CallM Unit :=
  modify fun h =>
    { h with stack := { h.stack with tcp4Conns := update h.stack.tcp4Conns port c } }

/-- `allocTCP4Port` on the table of the host. -/
def allocTCP4Port : CallM UInt16 := do
  let h ← get
  let demux : Demux :=
    ⟨h.stack.closed, fun p => (h.stack.tcp4Conns p).map fun _ => 0, h.tcp4PortRover⟩
  match Demux.allocTCP4Port demux with
  | .error .stackClosed => throw (.net .stackClosed)
  | .error _ => throw .tcp4PortInUse
  | .ok (p, demux) => do
    modify fun h => { h with tcp4PortRover := demux.tcp4PortRover }
    pure p

/-- What `dialTCP4Once` looks at. -/
def awaitSynAck (port : UInt16) : CallM (Unit ⊕ Unit) := do
  let h ← get
  match h.stack.tcp4Conns port with
  | none => throw .tcp4ConnRefused
  | some c =>
    if c.conn.state = .established then pure (.inr ())
    else if c.conn.closed then throw .tcp4ConnRefused
    else pure (.inl ())

/-- The part of a dial that is registered. -/
def dialRegistered (c : TCP4Entry) (iss : Seq) (rounds : ℕ) : CallM Unit := do
  onStack fun st => st.sendSegment c ⟨tcpFlagSYN, iss, 0, c.conn.rcvWnd, []⟩
  match ← pump (fun _ => awaitSynAck c.localPort) rounds () with
  | some () => pure ()
  | none => throw .tcp4Timeout

/-- Every failure behind the registration gives the port back. -/
def dialTCP4Once (dst : Bytes) (port : UInt16) (rounds : ℕ) : CallM UInt16 :=
  match to4 dst with
  | none => throw .tcp4InvalidAddr
  | some d4 => do
    let h ← get
    if h.stack.closed then throw (.net .stackClosed)
    else
      match h.stack.route.localIP with
      | none => throw .tcp4NoLocalAddr
      | some localIP => do
        let localPort ← allocTCP4Port
        let iss := tcp4InitialSeq h.stack.mac localPort
        let c : TCP4Entry := ⟨localIP, localPort, d4, port, .dialed iss⟩
        setTCP4 localPort (some c)
        tryCatch (dialRegistered c iss rounds) fun e => do
          setTCP4 localPort none
          throw e
        pure localPort

/-- What `Read` looks at, for a buffer of `n` bytes. -/
def readLook (port : UInt16) (n : ℕ) : CallM (Unit ⊕ Bytes) := do
  let h ← get
  match h.stack.tcp4Conns port with
  | none => throw .tcp4ConnClosed
  | some c => do
    setTCP4 port (some { c with conn := (c.conn.readPoll n).1 })
    match (c.conn.readPoll n).2 with
    | .data b => pure (.inr b)
    | .peerClosed => throw .tcp4PeerClosed
    | .connClosed => throw .tcp4ConnClosed
    | .again => pure (.inl ())

def read (port : UInt16) (n rounds : ℕ) : CallM Bytes := do
  let h ← get
  match h.stack.tcp4Conns port with
  | none => throw .tcp4ConnClosed
  | some c =>
    if c.conn.closed then throw .tcp4ConnClosed
    else do
      match ← pump (fun _ => readLook port n) rounds () with
      | some b => pure b
      | none => throw .tcp4Timeout

/-- What the waiting loop of `sendAndAwaitAck` does before it receives.  The state is the number of
retransmissions, and whether the timer has run out in this round and the next ones. -/
def awaitAck (port : UInt16) (seg : Segment) (wantAck : Seq) :
    ℕ × List Bool → CallM ((ℕ × List Bool) ⊕ Unit)
  | (retransmits, expired) => do
    let h ← get
    match h.stack.tcp4Conns port with
    | none => throw .tcp4ConnClosed
    | some c =>
      match c.conn.awaitPoll wantAck with
      | .connClosed => throw .tcp4ConnClosed
      | .acked => pure (.inr ())
      | .again =>
        if expired.headD false then
          if tcp4MaxRetransmits < retransmits + 1 then throw .tcp4Timeout
          else do
            onStack fun st => st.sendSegment c { seg with window := c.conn.rcvWnd }
            pure (.inl (retransmits + 1, expired.tail))
        else pure (.inl (retransmits, expired.tail))

/-- `expired` has an element for each round that the deadline allows. -/
def sendAndAwaitAck (port : UInt16) (segment : Bytes) (expired : List Bool) : CallM Unit := do
  let h ← get
  match h.stack.tcp4Conns port with
  | none => throw .tcp4ConnClosed
  | some c => do
    let (conn, seg, wantAck) := c.conn.beginSend segment
    setTCP4 port (some { c with conn := conn })
    onStack fun st => st.sendSegment c seg
    match ← pump (awaitAck port seg wantAck) expired.length (0, expired) with
    | some () => pure ()
    | none => throw .tcp4Timeout

/-- The loop of `Write` over the rest of its argument; the result is how much was not written, with
the error. -/
def writeSegments (port : UInt16) (expired : ℕ → List Bool) : ℕ → Bytes → CallM (ℕ × Option CallErr)
  | 0, p => pure (p.length, none)
  | n + 1, p =>
    if p = [] then pure (0, none)
    else do
      let err ← tryCatch
        (do sendAndAwaitAck port (p.take tcp4DefaultMSS) (expired n); pure none)
        fun e => pure (some e)
      match err with
      | some e => pure (p.length, some e)
      | none => writeSegments port expired n (p.drop tcp4DefaultMSS)

/-- The number of bytes written, with the error. -/
def write (port : UInt16) (p : Bytes) (expired : ℕ → List Bool) :
    CallM (ℕ × Option CallErr) := do
  let h ← get
  match h.stack.tcp4Conns port with
  | none => pure (0, some .tcp4ConnClosed)
  | some c =>
    if c.conn.closed ∨ (c.conn.state ≠ .established ∧ c.conn.state ≠ .closeWait) then
      pure (0, some .tcp4ConnClosed)
    else do
      let (left, err) ← writeSegments port expired p.length p
      pure (p.length - left, err)

/-- What the loop of `Close` looks at. -/
def awaitFin (port : UInt16) : CallM (Unit ⊕ Unit) := do
  let h ← get
  match h.stack.tcp4Conns port with
  | none => pure (.inr ())
  | some c =>
    if c.conn.state = .closed ∨ c.conn.state = .timeWait then pure (.inr ()) else pure (.inl ())

/-- The segments of `Close`, their errors ignored. -/
def sendQuietly (c : TCP4Entry) : List Segment → CallM Unit
  | [] => pure ()
  | seg :: segs => do
    tryCatch (onStack fun st => st.sendSegment c seg) fun _ => pure ()
    sendQuietly c segs

def close (port : UInt16) (rounds : ℕ) : CallM Unit := do
  let h ← get
  match h.stack.tcp4Conns port with
  | none => pure ()
  | some c =>
    if c.conn.closed then pure ()
    else do
      setTCP4 port (some { c with conn := c.conn.beginClose.1 })
      sendQuietly c c.conn.beginClose.2
      let _ ← pump (fun _ => awaitFin port) rounds ()
      setTCP4 port none

end Call

/-! ## The datagrams of `ResolveA`

`Net.Dns` has `ResolveA` over the datagrams that its reads return, without the stack that they come
from.
-/

namespace Call

/-- What the reads of the loop return. -/
def heard (port : UInt16) (reads : ℕ) : ℕ → Host → List Datagram
  | 0, _ => []
  | n + 1, h =>
    match (readFrom port dnsBufLen reads).run h with
    | (.ok dg, h') => ⟨dg.src, dg.port.toNat, dg.payload⟩ :: heard port reads n h'
    | (.error _, _) => []

/-- Errors that are not the resolver's. -/
def Outside (e : CallErr) : Prop := ∀ e', e ≠ .dns e'

theorem ends_pump {σ β : Type} {E : CallErr → Prop} {Q : β → Prop} {look : σ → CallM (σ ⊕ β)}
    (hlook : ∀ s, EndsIn E (fun r => ∀ b, r = .inr b → Q b) (look s)) : ∀ (n : ℕ) (s : σ),
    EndsIn E (fun r => ∀ b, r = some b → Q b) (pump look n s)
  | 0, _ => ends_pure nofun
  | n + 1, s => by
    refine (hlook s).bind fun r hr => ?_
    rcases r with s' | b
    · exact fun h => ends_pump hlook n s' (recvRound h)
    · exact ends_pure fun b' hb => hr b' (by cases hb; rfl)

theorem ends_readFrom (port : UInt16) (n rounds : ℕ) :
    EndsIn Outside (fun dg => dg.payload.length ≤ n) (readFrom port n rounds) := by
  have hlook : EndsIn Outside (fun r => ∀ dg, r = .inr dg → dg.payload.length ≤ n)
      (takeDatagram port n) := by
    refine ends_get fun h => ?_
    split
    · exact ends_throw nofun
    · split
      · exact ends_pure nofun
      · refine fun h => ?_
        rintro dg ⟨⟩
        exact List.length_take_le _ _
  refine ends_get fun h => ?_
  split
  · exact ends_throw nofun
  · split_ifs
    · exact ends_throw nofun
    · refine (ends_pump (fun _ => hlook) rounds ()).bind fun r hr => ?_
      split
      · exact ends_pure (hr _ rfl)
      · exact ends_throw nofun

theorem Outside.ne {e : CallErr} (h : Outside e) : ∀ {r : Except DnsErr Bytes},
    Except.error e ≠ r.mapError .dns
  | .error e', hr => h e' (Except.error.inj hr)

theorem mapError_dns_inj : ∀ {x y : Except DnsErr Bytes},
    x.mapError CallErr.dns = y.mapError CallErr.dns → x = y
  | .ok _, .ok _, h => by cases h; rfl
  | .error _, .error _, h => by cases h; rfl

/-- The loop over the datagrams that it reads. -/
theorem awaitAnswer_heard (port id : UInt16) (reads : ℕ) : ∀ (n : ℕ) (h : Host)
    {r : Except DnsErr Bytes}, ((awaitAnswer port id reads n).run h).1 = r.mapError .dns →
    awaitReply id (heard port reads n h) = r
  | 0, _, _, hr => mapError_dns_inj (x := .error .timeout) hr
  | n + 1, h, r, hr => by
    have hends := ends_readFrom port dnsBufLen reads h
    rw [awaitAnswer, run_bind_eq, run_tryCatch_eq] at hr
    rw [heard]
    rcases hread : (readFrom port dnsBufLen reads).run h with ⟨e | dg, h'⟩
    · rw [hread] at hr hends
      change Except.error (if e = .udp4ReadTimeout then CallErr.dns .timeout else e) = _ at hr
      split_ifs at hr
      · exact mapError_dns_inj (x := .error .timeout) hr
      · exact absurd hr (Outside.ne hends)
    · rw [hread] at hr hends
      have hverdict : verdict id ⟨dg.src, dg.port.toNat, dg.payload⟩ = parseDNSAnswerForA dg.payload id := by
        rw [verdict, List.take_of_length_le hends]
      dsimp only at hr ⊢
      rw [awaitReply, hverdict]
      cases hp : parseDNSAnswerForA dg.payload id with
      | ok ip =>
        rw [hp] at hr
        exact mapError_dns_inj (x := .ok ip) hr
      | error e =>
        rw [hp] at hr
        cases e with
        | badFormat => exact awaitAnswer_heard port id reads n h' hr
        | _ => exact mapError_dns_inj (x := .error _) hr

theorem ends_openUDP4 (port : UInt16) : EndsIn Outside (fun _ => True) (openUDP4 port) := by
  refine ends_get fun h => ?_
  split_ifs
  · exact ends_throw nofun
  · exact ends_throw nofun
  · exact fun _ => trivial

theorem ends_writeTo (port : UInt16) (dst : Bytes) (dstPort : UInt16) (payload : Bytes) :
    EndsIn Outside (fun _ => True) (writeTo port dst dstPort payload) := by
  unfold writeTo
  split
  · exact ends_throw nofun
  next d4 _ =>
    refine ends_get fun h => ?_
    split
    · exact ends_throw nofun
    · split_ifs
      · exact ends_throw nofun
      · refine ends_get fun h s => ?_
        dsimp only
        cases (h.stack.sendUDP4 port dstPort d4 payload).result with
        | ok => trivial
        | error => nofun

/-- The part of `ResolveA` that has a socket. -/
theorem askOn_heard {port : UInt16} {mac name d4 : Bytes} {rounds reads : ℕ} {h : Host}
    {r : Except DnsErr Bytes} (hr : ((askOn port mac name d4 rounds reads).run h).1 = r.mapError .dns) :
    ∃ h', (buildDNSQuery (dnsIDFromMAC mac dnsQueryRoot port) name >>= fun _ =>
      awaitReply (dnsIDFromMAC mac dnsQueryRoot port) (heard port reads rounds h')) = r := by
  unfold askOn at hr
  dsimp only at hr
  cases hquery : buildDNSQuery (dnsIDFromMAC mac dnsQueryRoot port) name with
  | error e =>
    rw [hquery] at hr
    exact ⟨h, mapError_dns_inj hr⟩
  | ok query =>
    have hends := ends_writeTo port d4 53 query h
    rw [hquery] at hr
    dsimp only at hr
    rw [run_bind_eq] at hr
    rcases hwrite : (writeTo port d4 53 query).run h with ⟨e | _, h'⟩
    · rw [hwrite] at hr hends
      exact absurd hr (Outside.ne hends)
    · rw [hwrite] at hr
      exact ⟨h', awaitAnswer_heard _ _ _ _ _ hr⟩

/-- **The two models of `ResolveA`**: what the call returns, if it is an address or an error of the
resolver, is what `Net.resolveA` makes of the datagrams that were read. -/
theorem resolveA_heard (h : Host) (name dnsServer : Bytes) (rounds reads : ℕ) {r : Except DnsErr Bytes}
    (hr : ((resolveA name dnsServer rounds reads).run h).1 = r.mapError .dns) :
    ∃ port h', Net.resolveA h.stack.udp name dnsServer none (heard port reads rounds h') = r := by
  unfold resolveA at hr
  unfold Net.resolveA sendQuery
  cases hto4 : to4 dnsServer with
  | none =>
    rw [hto4] at hr
    exact ⟨0, h, mapError_dns_inj hr⟩
  | some d4 =>
    rw [hto4] at hr
    change ((if h.stack.closed then _ else _ : CallM Bytes).run h).1 = _ at hr
    split_ifs at hr with hclosed
    · exact absurd hr (Outside.ne (e := .net .stackClosed) nofun)
    cases hport : freePort h.stack.udp.bound 1024 dnsClientPortLow with
    | error e =>
      rw [hport] at hr
      exact absurd hr (Outside.ne (e := .udp4PortInUse) nofun)
    | ok port =>
      rw [hport] at hr
      dsimp only at hr
      rw [run_bind_eq] at hr
      rcases hopen : (openUDP4 port).run h with ⟨e | _, h₁⟩
      · have hends := ends_openUDP4 port h
        rw [hopen] at hr hends
        exact absurd hr (Outside.ne hends)
      · rw [hopen] at hr
        dsimp only at hr
        rw [run_bind_eq, run_tryCatch_eq] at hr
        -- the socket is closed on either way out
        have hask : ((askOn port h.stack.mac name d4 rounds reads).run h₁).1 = r.mapError .dns := by
          rcases hrun : (askOn port h.stack.mac name d4 rounds reads).run h₁ with ⟨e | ip, h₂⟩
          all_goals
            rw [hrun] at hr
            exact hr
        obtain ⟨h', hh'⟩ := askOn_heard hask
        refine ⟨port, h', ?_⟩
        dsimp only
        rw [if_neg (show ¬ h.stack.udp.closed = true from hclosed), ← hh']
        change ((buildDNSQuery (dnsIDFromMAC h.stack.mac dnsQueryRoot port) name >>= _) >>= _) = _
        cases buildDNSQuery (dnsIDFromMAC h.stack.mac dnsQueryRoot port) name <;> rfl

end Call

/-! ## Sequences of calls -/

inductive ApiCall
  | openUDP4 (port : UInt16)
  | closeUDP4 (port : UInt16)
  | writeTo (port : UInt16) (dst : Bytes) (dstPort : UInt16) (payload : Bytes)
  | readFrom (port : UInt16) (n rounds : ℕ)
  | resolveA (name dnsServer : Bytes) (rounds reads : ℕ)
  | pingOnce (dst payload : Bytes) (rounds : ℕ)
  | dial (dst : Bytes) (port : UInt16) (rounds : ℕ)
  | read (port : UInt16) (n rounds : ℕ)
  | write (port : UInt16) (p : Bytes) (expired : ℕ → List Bool)
  | close (port : UInt16) (rounds : ℕ)

/-- The host after a call. -/
def Host.after (h : Host) : ApiCall → Host
  | .openUDP4 port => ((Call.openUDP4 port).run h).2
  | .closeUDP4 port => ((Call.closeUDP4 port).run h).2
  | .writeTo port dst dstPort payload => ((Call.writeTo port dst dstPort payload).run h).2
  | .readFrom port n rounds => ((Call.readFrom port n rounds).run h).2
  | .resolveA name dnsServer rounds reads => ((Call.resolveA name dnsServer rounds reads).run h).2
  | .pingOnce dst payload rounds => ((Call.pingOnce dst payload rounds).run h).2
  | .dial dst port rounds => ((Call.dialTCP4Once dst port rounds).run h).2
  | .read port n rounds => ((Call.read port n rounds).run h).2
  | .write port p expired => ((Call.write port p expired).run h).2
  | .close port rounds => ((Call.close port rounds).run h).2

/-- A host that has received nothing yet. -/
def Host.start (st : Stack) (rover : UInt16) : Host := ⟨st, rover, fun _ => none, [], []⟩

end TamagoUefi.Net
