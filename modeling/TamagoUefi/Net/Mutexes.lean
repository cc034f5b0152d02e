import TamagoUefi.Lib.Locks
import TamagoUefi.Net.Tcp4

/-!
# TamagoUefi.Net.Mutexes — the mutexes of a stack (`stack.go`, `arp.go`, `tcp4.go`, `udp4.go`, `dns.go`)

A stack has a mutex and so has every connection.  Segments go out with the mutex of their connection held,
and what sends them takes the one of the stack several times; a frame that comes in is handled with no mutex
held, except for ARP frames that `resolveARP` receives while it waits.

The functions are written down with their calls of `Lock` and `Unlock` and the branches in between.  What the
branches depend on is a test (`Cond`) or another operation whose result is anything; a change of fields is
`set`.  A loop that a deadline ends runs for a number of rounds that the operation `deadline` gives.
-/

namespace TamagoUefi.Net

open Lib Locking

/-- The mutex of the stack, and those of the connections. -/
inductive Mutex
  | stack
  | tcp4 (conn : ℕ)
  | udp4 (conn : ℕ)
  deriving DecidableEq

def Mutex.rank : Mutex → Fin 2
  | stack => 1
  | tcp4 _ => 0
  | udp4 _ => 0

/-- What the functions test. -/
inductive Cond
  /-- `To4` is not nil. -/
  | isIPv4
  /-- A marshaller or builder returned no error. -/
  | built
  /-- A parser returned no error. -/
  | parsed
  | stackClosed
  /-- `s.stopCh` is closed. -/
  | stopped
  | localSet
  | routeFound
  | arpResolved
  | arpRequestForUs
  | limitedBroadcast
  | portInUse
  | portFound
  | pingPending
  | pingAnswered
  | tcpLenInBody
  | peerMatches
  | connClosed
  | rstSet
  | synAckSet
  | ackSet
  | ackIsSndNxt
  | ackAdvances
  /-- The segment has a payload or a FIN. -/
  | carriesStream
  | seqIsRcvNxt
  | seqAheadWithRoom
  | rxQueued
  | peerFinSeen
  /-- The state allows a `Write`. -/
  | writable
  | acked
  | attemptExpired
  | retransmitsSpent
  | datagramQueued
  | queueClosed
  | isUDPAddr
  | dnsBadFormat
  | dnsAnswered
  | retryable
  | lastAttempt
  | hostGiven
  | hostIsIP
  | dnsServerGiven

inductive LinkCall
  | mac
  | sendFrame
  | recvFrame

inductive FrameKind
  | arp
  | ipv4
  | other

inductive PacketKind
  | icmp
  | udp
  | tcp
  | other

inductive EchoKind
  | reply
  | request
  | other

/-- What the TLS library does with a connection next during a handshake. -/
inductive TLSMove
  | read
  | write
  | done (ok : Bool)

inductive MutexOp
  | test (c : Cond)
  | link (c : LinkCall)
  | parseEthernet
  | parseIPv4
  | parseICMPEcho
  /-- A look into `udp4Conns` or `tcp4Conns`. -/
  | lookup
  | newConn
  | tcpState
  /-- The fields that a mutex guards, or a channel without blocking. -/
  | set
  | sleep
  | deadline
  | tlsNext

/-- The results; of a call of the link, whether the error is nil. -/
def MutexOp.Res : MutexOp → Type
  | test _ => Bool
  | link _ => Bool
  | parseEthernet => Option FrameKind
  | parseIPv4 => Option PacketKind
  | parseICMPEcho => Option EchoKind
  | lookup => Option ℕ
  | newConn => ℕ
  | tcpState => Tcp4State
  | set => Unit
  | sleep => Unit
  | deadline => ℕ
  | tlsNext => TLSMove

abbrev Routine := Locking Mutex MutexOp.Res

namespace Routine

def test (c : Cond) : Routine Bool := run (MutexOp.test c)
def link (c : LinkCall) : Routine Bool := run (MutexOp.link c)
def set : Routine Unit := run MutexOp.set
def deadline : Routine ℕ := run MutexOp.deadline
def tcpState : Routine Tcp4State := run MutexOp.tcpState
def lookup : Routine (Option ℕ) := run MutexOp.lookup
def newConn : Routine ℕ := run MutexOp.newConn

/-! ## Sending (`arp.go`, `stack.go`) -/

def nextIPID : Routine Unit := locked .stack set

def handleARPFrame : Routine Unit := do
  if !(← test .parsed) then return
  locked .stack set
  if !(← test .arpRequestForUs) then return
  if !(← test .built) then return
  if !(← test .built) then return
  let _ ← link .sendFrame

/-- A round of the wait for the ARP reply. -/
def awaitARP : Routine (Option Bool) := do
  take .stack
  if ← test .arpResolved then
    release .stack
    return some true
  release .stack
  if !(← link .recvFrame) then return none
  match ← run MutexOp.parseEthernet with
  | some .arp =>
    handleARPFrame
    return none
  | _ => return none

def resolveARP : Routine Bool := do
  if !(← test .isIPv4) then return false
  take .stack
  if ← test .arpResolved then
    release .stack
    return true
  set
  release .stack
  if !(← test .built) then return false
  if !(← test .built) then return false
  if !(← link .sendFrame) then return false
  let r ← rounds awaitARP (← deadline)
  return r.getD false

def sendIPv4Frame : Routine Bool := do
  take .stack
  if ← test .stackClosed then
    release .stack
    return false
  let found ← test .routeFound
  let _ ← link .mac
  release .stack
  if !found then return false
  if !(← resolveARP) then return false
  if !(← test .built) then return false
  link .sendFrame

def sendUDP4 : Routine Bool := do
  if !(← test .isIPv4) then return false
  take .stack
  if ← test .stackClosed then
    release .stack
    return false
  let _ ← test .localSet
  let _ ← link .mac
  release .stack
  if !(← test .built) then return false
  nextIPID
  if !(← test .built) then return false
  if ← test .limitedBroadcast then
    if !(← test .built) then return false
    link .sendFrame
  else
    sendIPv4Frame

/-! ## Receiving (`stack.go`, `tcp4.go`, `udp4.go`) -/

def sendSegment : Routine Bool := do
  if !(← test .built) then return false
  nextIPID
  if !(← test .built) then return false
  sendIPv4Frame

def acceptSegmentLocked : Routine Unit := do
  if ← test .seqIsRcvNxt then
    set
    let _ ← sendSegment
  else if ← test .seqAheadWithRoom then
    set
    let _ ← sendSegment
  else
    let _ ← sendSegment

/-- The arm of `deliverSegment` for the states that carry data. -/
def deliverData : Routine Unit := do
  if !(← test .ackSet) then return
  if ← test .ackAdvances then
    set
  if ← test .carriesStream then
    acceptSegmentLocked
  set

/-- The body of `deliverSegment`, with the mutex of the connection held. -/
def deliverSegmentLocked : Routine Unit := do
  if ← test .connClosed then return
  if ← test .rstSet then
    set
    return
  set
  match ← tcpState with
  | .synSent =>
    if !(← test .synAckSet) then return
    if !(← test .ackIsSndNxt) then return
    set
    let _ ← sendSegment
  | .established => deliverData
  | .finWait1 => deliverData
  | .finWait2 => deliverData
  | .closeWait => deliverData
  | .lastAck =>
    if ← test .ackIsSndNxt then
      set
  | .closing =>
    if ← test .ackIsSndNxt then
      set
  | .timeWait => return
  | .closed => return

def deliverSegment (c : ℕ) : Routine Unit := locked (.tcp4 c) deliverSegmentLocked

def handleTCP4 : Routine Unit := do
  if !(← test .tcpLenInBody) then return
  if !(← test .parsed) then return
  match ← locked .stack lookup with
  | none => return
  | some c =>
    if !(← test .peerMatches) then return
    deliverSegment c

def deliver (c : ℕ) : Routine Unit := do
  take (.udp4 c)
  if ← test .connClosed then
    release (.udp4 c)
    return
  release (.udp4 c)
  set

def handleUDP4 : Routine Unit := do
  if !(← test .parsed) then return
  match ← locked .stack lookup with
  | none => return
  | some c => deliver c

def handleICMP : Routine Unit := do
  match ← run MutexOp.parseICMPEcho with
  | some .reply =>
    if ← locked .stack (test .pingPending) then
      set
  | some .request =>
    nextIPID
    if !(← test .built) then return
    let _ ← sendIPv4Frame
  | _ => return

def handleIPv4 : Routine Unit := do
  match ← run MutexOp.parseIPv4 with
  | some .icmp => handleICMP
  | some .udp => handleUDP4
  | some .tcp => handleTCP4
  | _ => return

def handleARP : Routine Unit := do
  let _ ← locked .stack (test .localSet)
  let _ ← link .mac
  handleARPFrame

def dispatch : Routine Unit := do
  match ← run MutexOp.parseEthernet with
  | some .arp => handleARP
  | some .ipv4 => handleIPv4
  | _ => return

/-- The end of a round of the loops that wait: a frame from the link. -/
def pumpOne {α : Type} : Routine (Option α) := do
  if !(← link .recvFrame) then return none
  dispatch
  return none

def rxRound : Routine (Option Unit) := do
  if ← test .stopped then return some ()
  if !(← link .recvFrame) then
    run MutexOp.sleep
    return none
  dispatch
  return none

def rxLoop : Routine Unit := do
  let _ ← rounds rxRound (← deadline)

/-! ## TCP (`tcp4.go`) -/

def sendSegmentExt (c : ℕ) : Routine Bool := locked (.tcp4 c) sendSegment

/-- `SetDeadline`, `SetReadDeadline` and `SetWriteDeadline`. -/
def setDeadline (c : ℕ) : Routine Unit := locked (.tcp4 c) set

def readRound (c : ℕ) : Routine (Option Unit) := do
  take (.tcp4 c)
  if ← test .rxQueued then
    set
    release (.tcp4 c)
    return some ()
  if ← test .peerFinSeen then
    release (.tcp4 c)
    return some ()
  if ← test .connClosed then
    release (.tcp4 c)
    return some ()
  release (.tcp4 c)
  pumpOne

def read (c : ℕ) : Routine Unit := do
  take (.tcp4 c)
  if ← test .connClosed then
    release (.tcp4 c)
    return
  release (.tcp4 c)
  let _ ← rounds (readRound c) (← deadline)

def awaitAck (c : ℕ) : Routine (Option Bool) := do
  take (.tcp4 c)
  if ← test .connClosed then
    release (.tcp4 c)
    return some false
  if ← test .acked then
    release (.tcp4 c)
    return some true
  release (.tcp4 c)
  if ← test .attemptExpired then
    if ← test .retransmitsSpent then return some false
    if !(← sendSegmentExt c) then return some false
    pumpOne
  else
    pumpOne

def sendAndAwaitAck (c : ℕ) : Routine Bool := do
  locked (.tcp4 c) set
  if !(← sendSegmentExt c) then return false
  let r ← rounds (awaitAck c) (← deadline)
  return r.getD false

def writeRound (c : ℕ) : Routine (Option Unit) := do
  if ← sendAndAwaitAck c then return none
  return some ()

/-- The number of segments is a `deadline`, too. -/
def write (c : ℕ) : Routine Unit := do
  take (.tcp4 c)
  if !(← test .writable) then
    release (.tcp4 c)
    return
  release (.tcp4 c)
  let _ ← rounds (writeRound c) (← deadline)

def releaseTCP4 : Routine Unit := locked .stack set

def closeRound (c : ℕ) : Routine (Option Unit) := do
  match ← locked (.tcp4 c) tcpState with
  | .closed => return some ()
  | .timeWait => return some ()
  | _ => pumpOne

/-- The part of `Close` behind the FIN. -/
def closeTail (c : ℕ) : Routine Unit := do
  let _ ← rounds (closeRound c) (← deadline)
  locked (.tcp4 c) set
  releaseTCP4

def close (c : ℕ) : Routine Unit := do
  take (.tcp4 c)
  if ← test .connClosed then
    release (.tcp4 c)
    return
  match ← tcpState with
  | .established =>
    set
    release (.tcp4 c)
    let _ ← sendSegmentExt c
    closeTail c
  | .closeWait =>
    set
    release (.tcp4 c)
    let _ ← sendSegmentExt c
    closeTail c
  | _ =>
    release (.tcp4 c)
    closeTail c

def allocTCP4Port : Routine Bool := locked .stack do
  if ← test .stackClosed then return false
  if !(← test .portFound) then return false
  set
  return true

def registerTCP4 : Routine Unit := locked .stack set

def awaitSynAck (c : ℕ) : Routine (Option (Option ℕ)) := do
  let (st, closed) ← locked (.tcp4 c) do
    let st ← tcpState
    let closed ← test .connClosed
    return (st, closed)
  if st = .established then return some (some c)
  if closed then
    releaseTCP4
    return some none
  pumpOne

def dialTCP4Once : Routine (Option ℕ) := do
  if !(← test .isIPv4) then return none
  take .stack
  if ← test .stackClosed then
    release .stack
    return none
  if !(← test .localSet) then
    release .stack
    return none
  let _ ← link .mac
  release .stack
  if !(← allocTCP4Port) then return none
  let c ← newConn
  registerTCP4
  if !(← sendSegmentExt c) then
    releaseTCP4
    return none
  match ← rounds (awaitSynAck c) (← deadline) with
  | some r => return r
  | none =>
    releaseTCP4
    return none

/-- A round of the retry loops. -/
def retryRound (once : Routine (Option ℕ)) : Routine (Option (Option ℕ)) := do
  match ← once with
  | some c => return some (some c)
  | none =>
    if !(← test .retryable) then return some none
    if ← test .lastAttempt then return some none
    run MutexOp.sleep
    return none

def withRetry (once : Routine (Option ℕ)) : Routine (Option ℕ) := do
  let r ← rounds (retryRound once) (← deadline)
  return r.getD none

def dialTCP4 : Routine (Option ℕ) := withRetry dialTCP4Once

/-! ## UDP and DNS (`udp4.go`, `dns.go`) -/

/-- The connection, or whether the port was in use. -/
def openUDP4 : Routine (Except Bool ℕ) := locked .stack do
  if ← test .stackClosed then return .error false
  if ← test .portInUse then return .error true
  let c ← newConn
  set
  return .ok c

def setReadDeadline (c : ℕ) : Routine Unit := locked (.udp4 c) set

def readFromRound : Routine (Option Bool) := do
  if ← test .queueClosed then return some false
  if ← test .datagramQueued then return some true
  pumpOne

/-- Whether there was a datagram. -/
def readFrom (c : ℕ) : Routine Bool := do
  take (.udp4 c)
  if ← test .connClosed then
    release (.udp4 c)
    return false
  release (.udp4 c)
  let r ← rounds readFromRound (← deadline)
  return r.getD false

def writeTo (c : ℕ) : Routine Bool := do
  if !(← test .isUDPAddr) then return false
  if !(← test .isIPv4) then return false
  take (.udp4 c)
  if ← test .connClosed then
    release (.udp4 c)
    return false
  release (.udp4 c)
  sendUDP4

def releaseUDP4 : Routine Unit := locked .stack set

def closeUDP4 (c : ℕ) : Routine Unit := do
  take (.udp4 c)
  if ← test .connClosed then
    release (.udp4 c)
    return
  set
  release (.udp4 c)
  releaseUDP4
  set

def openRound : Routine (Option (Option ℕ)) := do
  match ← openUDP4 with
  | .ok c => return some (some c)
  | .error true => return none
  | .error false => return some none

def answerRound (c : ℕ) : Routine (Option Bool) := do
  setReadDeadline c
  if !(← readFrom c) then return some false
  if ← test .dnsBadFormat then return none
  let ok ← test .dnsAnswered
  return some ok

/-- The part of `ResolveA` with the connection open. -/
def query (c : ℕ) : Routine Bool := do
  if !(← test .built) then return false
  if !(← writeTo c) then return false
  let r ← rounds (answerRound c) (← deadline)
  return r.getD false

def resolveA : Routine Bool := do
  if !(← test .isIPv4) then return false
  take .stack
  if ← test .stackClosed then
    release .stack
    return false
  let _ ← link .mac
  release .stack
  match ← rounds openRound 1024 with
  | some (some c) =>
    let ok ← query c
    closeUDP4 c
    return ok
  | _ => return false

/-! ## Ping and TLS (`stack.go`, `tls.go`) -/

def cleanup : Routine Unit := locked .stack set

def pingRound : Routine (Option Unit) := do
  if ← test .pingAnswered then return some ()
  if ← test .stopped then
    cleanup
    return some ()
  pumpOne

def pingOnce : Routine Unit := do
  if !(← test .isIPv4) then return
  take .stack
  if ← test .stackClosed then
    release .stack
    return
  if !(← test .localSet) then
    release .stack
    return
  set
  release .stack
  if !(← test .built) then
    cleanup
    return
  if !(← sendIPv4Frame) then
    cleanup
    return
  match ← rounds pingRound (← deadline) with
  | some () => return
  | none => cleanup

def handshakeRound (c : ℕ) : Routine (Option Bool) := do
  match ← run MutexOp.tlsNext with
  | .read =>
    read c
    return none
  | .write =>
    write c
    return none
  | .done ok => return some ok

def handshake (c : ℕ) : Routine Bool := do
  let r ← rounds (handshakeRound c) (← deadline)
  return r.getD false

/-- Whether the host has an address. -/
def resolveHost : Routine Bool := do
  if ← test .hostIsIP then
    test .isIPv4
  else if !(← test .dnsServerGiven) then
    return false
  else
    resolveA

def dialTLSOnce : Routine (Option ℕ) := do
  if !(← test .hostGiven) then return none
  if !(← resolveHost) then return none
  match ← dialTCP4 with
  | none => return none
  | some c =>
    if !(← test .built) then
      close c
      return none
    setDeadline c
    if !(← handshake c) then
      close c
      return none
    setDeadline c
    return some c

def dialTLS : Routine (Option ℕ) := withRetry dialTLSOnce

end Routine

/-! ## Goroutines -/

inductive StackCall
  | rxLoop
  | dialTCP4
  | dialTLS
  | read (c : ℕ)
  | write (c : ℕ)
  | close (c : ℕ)
  | setDeadline (c : ℕ)
  | openUDP4
  | readFrom (c : ℕ)
  | writeTo (c : ℕ)
  | closeUDP4 (c : ℕ)
  | setReadDeadline (c : ℕ)
  | resolveA
  | pingOnce

def StackCall.routine : StackCall → Routine Unit
  | rxLoop => Routine.rxLoop
  | dialTCP4 => do let _ ← Routine.dialTCP4
  | dialTLS => do let _ ← Routine.dialTLS
  | read c => Routine.read c
  | write c => Routine.write c
  | close c => Routine.close c
  | setDeadline c => Routine.setDeadline c
  | openUDP4 => do let _ ← Routine.openUDP4
  | readFrom c => do let _ ← Routine.readFrom c
  | writeTo c => do let _ ← Routine.writeTo c
  | closeUDP4 c => Routine.closeUDP4 c
  | setReadDeadline c => Routine.setReadDeadline c
  | resolveA => do let _ ← Routine.resolveA
  | pingOnce => Routine.pingOnce

/-- A goroutine makes one call after the other. -/
def goroutine : List StackCall → Routine Unit
  | [] => return
  | c :: cs => do
    c.routine
    goroutine cs

end TamagoUefi.Net
