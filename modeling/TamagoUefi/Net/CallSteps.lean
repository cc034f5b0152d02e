import Mathlib.Logic.Relation
import TamagoUefi.Net.Pumps

/-!
# TamagoUefi.Net.CallSteps — what a call can do (`tcp4.go`, `udp4.go`, `dns.go`, `stack.go`)

Whatever a call of the API does to a host, it does in a few kinds of steps: it receives a frame, sends
a packet, or changes an entry of a table.

* `Host.Step`: the steps, each with what the call knows then about the local address and about the
  connections in the table.
* `Host.steps_after`, `Host.steps_run`: every call is a sequence of them.  A relation that the steps
  are in holds between the hosts before and after any calls.
-/

namespace TamagoUefi.Net

open Go Lib Relation

/-- The addresses of a connection. -/
structure Endpoints where
  localIP : Bytes
  localPort : UInt16
  remoteIP : Bytes
  remotePort : UInt16
  deriving DecidableEq

def TCP4Entry.endpoints (c : TCP4Entry) : Endpoints :=
  ⟨c.localIP, c.localPort, c.remoteIP, c.remotePort⟩

/-- The packet of `PingOnce`, from the address `src`. -/
def Stack.sendEcho (st : Stack) (src dst4 payload : Bytes) (id seq : UInt16) : Outcome Unit :=
  (st.give (marshalIPv4 src dst4 ipProtoICMP id
    (marshalICMPEcho icmpTypeEchoRequest Call.pingIdent seq payload))).andThen
      fun st pkt => st.sendIPv4Frame dst4 pkt

section
variable {S : Bytes → Prop} {w : Prop} {st : Stack}

theorem Stack.does_sendUDP4 (hw : w) (hsrc : S (st.route.localIP.getD [0, 0, 0, 0]))
    (srcPort dstPort : UInt16) (dst payload : Bytes) :
    Does S w st (st.sendUDP4 srcPort dstPort dst payload) := by
  unfold sendUDP4
  split
  · exact does_give _
  · split
    · exact does_give _
    · refine does_give_andThen fun udp _ => Move.before (.nextIPID hw) ?_
      refine does_give_andThen fun pkt hpkt => ?_
      split
      · exact does_transmit hsrc hpkt _
      · exact does_sendIPv4Frame hsrc hpkt _

theorem Stack.does_sendEcho {src : Bytes} (hsrc : S src) (dst4 payload : Bytes) (id seq : UInt16) :
    Does S w st (st.sendEcho src dst4 payload id seq) := does_sendPacket hsrc dst4

end

def Stack.setTCP4 (st : Stack) (port : UInt16) (c : Option TCP4Entry) : Stack :=
  { st with tcp4Conns := Function.update st.tcp4Conns port c }

namespace Host

/-- The table has a connection with these addresses. -/
def Has (h : Host) (e : Endpoints) : Prop :=
  ∃ port c, h.stack.tcp4Conns port = some c ∧ c.endpoints = e

/-- One step of a call. -/
inductive Step : Host → Host → Prop
  | receive (h : Host) : Step h (recvRound h)
  | sendUDP4 (h : Host) (srcPort dstPort : UInt16) (dst payload : Bytes) :
    Step h (h.enter (h.stack.sendUDP4 srcPort dstPort dst payload))
  | sendEcho (h : Host) {src : Bytes} (dst4 payload : Bytes) (id seq : UInt16)
    (hsrc : h.stack.route.localIP = some src) :
    Step h (h.enter (h.stack.sendEcho src dst4 payload id seq))
  | sendSegment (h : Host) (c : TCP4Entry) (seg : Segment) (hc : h.Has c.endpoints) :
    Step h (h.enter (h.stack.sendSegment c seg))
  | register (h : Host) (c : TCP4Entry) (hc : h.stack.route.localIP = some c.localIP) :
    Step h { h with stack := h.stack.setTCP4 c.localPort (some c) }
  | update (h : Host) (port : UInt16) {c : TCP4Entry} (conn : TCP4Conn)
    (hc : h.stack.tcp4Conns port = some c) :
    Step h { h with stack := h.stack.setTCP4 port (some { c with conn := conn }) }
  | release (h : Host) (port : UInt16) : Step h { h with stack := h.stack.setTCP4 port none }
  | setUDP4 (h : Host) (port : UInt16) (c : Option UDP4Conn) :
    Step h { h with stack := { h.stack with udp4Conns := Function.update h.stack.udp4Conns port c } }
  | setPing (h : Host) (key : UInt32) (w : Option PingWaiter) :
    Step h { h with stack := { h.stack with pings := Function.update h.stack.pings key w } }
  | registerPing (h : Host) (key : UInt32) :
    Step h { h with
      stack := { h.stack with
        pings := Function.update h.stack.pings key (some ⟨none⟩)
        ipID := h.stack.ipID + 2 }
      pingCh := Function.update h.pingCh key none }
  | setRover (h : Host) (rover : UInt16) : Step h { h with tcp4PortRover := rover }

abbrev Steps : Host → Host → Prop := ReflTransGen Step

section
variable {α β σ : Type} {h : Host}

theorem run_onStack (f : Stack → Outcome α) (h : Host) : ((onStack f).run h).2 = h.enter (f h.stack) := by
  refine (within_get fun h => ?_ : Within (fun h h' => h' = h.enter (f h.stack)) (onStack f)) h
  cases (f h.stack).result <;> rfl

theorem steps_onStack {f : Stack → Outcome α} (hf : Step h (h.enter (f h.stack))) :
    Steps h ((onStack f).run h).2 := by
  rw [run_onStack]
  exact .single hf

theorem steps_pump {look : σ → CallM (σ ⊕ β)} (hlook : ∀ s, Within Steps (look s)) :
    ∀ (n : ℕ) (s : σ), Within Steps (pump look n s)
  | 0, _ => within_pure _
  | n + 1, s => by
    unfold pump
    refine (hlook s).bind fun r => ?_
    rcases r with s' | b
    · exact (within_modify fun h => .single (.receive h)).bind fun _ => steps_pump hlook n s'
    · exact within_pure _

end

end Host

namespace Call

open Host

variable (port : UInt16)

/-! ## UDP -/

theorem steps_setUDP4 (c : Option UDP4Conn) : Within Steps (setUDP4 port c) :=
  within_modify fun h => .single (.setUDP4 h port c)

theorem steps_openUDP4 : Within Steps (openUDP4 port) := by
  unfold openUDP4
  refine within_get fun h => ?_
  split_ifs
  · exact within_throw _ h
  · exact within_throw _ h
  · exact steps_setUDP4 _ _ h

theorem steps_writeTo (dst : Bytes) (dstPort : UInt16) (payload : Bytes) :
    Within Steps (writeTo port dst dstPort payload) := by
  unfold writeTo
  split
  · exact within_throw _
  · refine within_get fun h => ?_
    split
    · exact within_throw _ h
    · split_ifs
      · exact within_throw _ h
      · exact steps_onStack (.sendUDP4 h ..)

theorem steps_takeDatagram (n : ℕ) : Within Steps (takeDatagram port n) := by
  unfold takeDatagram
  refine within_get fun h => ?_
  split
  · exact within_throw _ h
  · split
    · exact within_pure _ h
    · exact (steps_setUDP4 _ _).bind (fun _ => within_pure _) h

theorem steps_readFrom (n rounds : ℕ) : Within Steps (readFrom port n rounds) := by
  unfold readFrom
  refine within_get fun h => ?_
  split
  · exact within_throw _ h
  · split_ifs
    · exact within_throw _ h
    · refine (steps_pump (fun _ => steps_takeDatagram port n) rounds ()).bind (fun r => ?_) h
      split
      · exact within_pure _
      · exact within_throw _

theorem steps_awaitAnswer (id : UInt16) (reads : ℕ) : ∀ n, Within Steps (awaitAnswer port id reads n)
  | 0 => within_throw _
  | n + 1 => by
    unfold awaitAnswer
    refine ((steps_readFrom _ _ _).tryCatch fun _ => within_throw _).bind fun dg => ?_
    split
    · exact within_pure _
    · exact steps_awaitAnswer id reads n
    · exact within_throw _

theorem steps_askOn (mac name d4 : Bytes) (rounds reads : ℕ) :
    Within Steps (askOn port mac name d4 rounds reads) := by
  unfold askOn
  dsimp only
  split
  · exact within_throw _
  · exact (steps_writeTo _ _ _ _).bind fun _ => steps_awaitAnswer _ _ _ _

theorem steps_resolveA (name dnsServer : Bytes) (rounds reads : ℕ) :
    Within Steps (resolveA name dnsServer rounds reads) := by
  unfold resolveA
  split
  · exact within_throw _
  next d4 _ =>
    refine within_get fun h => ?_
    split_ifs
    · exact within_throw _ h
    · split
      · exact within_throw _ h
      next port hport =>
        have hclose : Within Steps (closeUDP4 port) := steps_setUDP4 _ _
        refine (steps_openUDP4 port).bind (fun _ => ?_) h
        have hask := steps_askOn port h.stack.mac name d4 rounds reads
        refine (hask.tryCatch fun _ => hclose.bind fun _ => within_throw _).bind fun ip => ?_
        exact hclose.bind fun _ => within_pure ip

/-! ## Pings -/

theorem steps_awaitPing (key : UInt32) : Within Steps (awaitPing key) := by
  unfold awaitPing
  refine within_get fun h => ?_
  split_ifs
  · exact within_pure _ h
  · exact within_throw _ h
  · exact within_pure _ h

/-- The packet is from the local address, which nothing has changed since it was read. -/
theorem steps_pingRegistered {h : Host} {src : Bytes} (hsrc : h.stack.route.localIP = some src)
    (key : UInt32) (dst4 payload : Bytes) (id seq : UInt16) (rounds : ℕ) :
    Steps h ((pingRegistered key dst4 (marshalIPv4 src dst4 ipProtoICMP id
      (marshalICMPEcho icmpTypeEchoRequest pingIdent seq payload)) rounds).run h).2 := by
  unfold pingRegistered
  refine rel_bind (steps_onStack (.sendEcho h dst4 payload id seq hsrc)) fun _ h' _ => ?_
  refine (steps_pump (fun _ => steps_awaitPing key) rounds ()).bind (fun r => ?_) h'
  split
  · exact within_pure _
  · exact within_throw _

theorem steps_pingOnce (dst payload : Bytes) (rounds : ℕ) : Within Steps (pingOnce dst payload rounds) := by
  have hset : ∀ key w, Within Steps (setPing key w) := fun key w =>
    within_modify fun h => .single (.setPing h key w)
  unfold pingOnce
  split
  · exact within_throw _
  · refine within_get fun h => ?_
    split_ifs
    · exact within_throw _ h
    · split
      · exact within_throw _ h
      next src hsrc =>
        refine rel_modify_bind (.single (.registerPing h _)) ?_
        refine rel_tryCatch ?_ fun e => (hset _ _).bind fun _ => within_throw e
        refine steps_pingRegistered ?_ _ _ _ _ _ _
        exact hsrc

/-! ## TCP -/

theorem steps_release : Within Steps (setTCP4 port none) :=
  within_modify fun h => .single (.release h port)

theorem steps_awaitSynAck : Within Steps (awaitSynAck port) := by
  unfold awaitSynAck
  refine within_get fun h => ?_
  split
  · exact within_throw _ h
  · split_ifs
    · exact within_pure _ h
    · exact within_throw _ h
    · exact within_pure _ h

theorem steps_dialRegistered {h : Host} {c : TCP4Entry} (hc : h.Has c.endpoints) (iss : Seq)
    (rounds : ℕ) : Steps h ((dialRegistered c iss rounds).run h).2 := by
  unfold dialRegistered
  refine rel_bind (steps_onStack (.sendSegment h c _ hc)) fun _ h' _ => ?_
  refine (steps_pump (fun _ => steps_awaitSynAck _) rounds ()).bind (fun r => ?_) h'
  split
  · exact within_pure _
  · exact within_throw _

/-- The port rover is all that the search for a port changes. -/
theorem run_allocTCP4Port (h : Host) :
    ∃ rover, (allocTCP4Port.run h).2 = { h with tcp4PortRover := rover } := by
  refine (within_get fun h => ?_ :
    Within (fun h h' => ∃ rover, h' = { h with tcp4PortRover := rover }) allocTCP4Port) h
  dsimp only
  split
  · exact ⟨_, rfl⟩
  · exact ⟨_, rfl⟩
  · exact ⟨_, rfl⟩

theorem has_sendSegment {h : Host} {e : Endpoints} (he : h.Has e) (c : TCP4Entry) (seg : Segment) :
    (h.enter (h.stack.sendSegment c seg)).Has e := by
  have hsend : Stack.Does (fun _ => True) False h.stack.nextIPID.2 (h.stack.sendSegment c seg) :=
    Stack.does_sendPacket trivial c.remoteIP
  have htable : (h.stack.sendSegment c seg).stack.tcp4Conns = h.stack.tcp4Conns := by
    rw [Stack.Moves.rest hsend]
    rfl
  obtain ⟨port, c', hc', hend⟩ := he
  exact ⟨port, c', (congrFun htable port).trans hc', hend⟩

theorem has_setTCP4 (h : Host) (port : UInt16) (c : TCP4Entry) :
    Has { h with stack := h.stack.setTCP4 port (some c) } c.endpoints :=
  ⟨port, c, Function.update_self _ _ _, rfl⟩

theorem steps_dialTCP4Once (dst : Bytes) (port : UInt16) (rounds : ℕ) :
    Within Steps (dialTCP4Once dst port rounds) := by
  unfold dialTCP4Once
  split
  · exact within_throw _
  · refine within_get fun h => ?_
    split_ifs
    · exact within_throw _ h
    · split
      · exact within_throw _ h
      next localIP hlocal =>
        obtain ⟨rover, hrover⟩ := run_allocTCP4Port h
        refine rel_bind (hrover ▸ .single (.setRover h rover)) fun localPort h' hrun => ?_
        -- the local address is still the one that was read
        have hsame : h' = { h with tcp4PortRover := rover } := by
          rw [hrun] at hrover
          exact hrover
        have hlocal' : h'.stack.route.localIP = some localIP := by
          rw [hsame]
          exact hlocal
        refine rel_modify_bind (.single (.register h' ⟨localIP, _, _, _, _⟩ hlocal')) ?_
        refine rel_bind ?_ fun _ h'' _ => within_pure _ h''
        refine rel_tryCatch (steps_dialRegistered (has_setTCP4 h' _ _) _ _) fun e => ?_
        exact (steps_release _).bind fun _ => within_throw e

theorem steps_readLook (n : ℕ) : Within Steps (readLook port n) := by
  unfold readLook
  refine within_get fun h => ?_
  split
  · exact within_throw _ h
  next c hc =>
    refine rel_modify_bind (.single (.update h port _ hc)) ?_
    split
    · exact within_pure _ _
    · exact within_throw _ _
    · exact within_throw _ _
    · exact within_pure _ _

theorem steps_read (n rounds : ℕ) : Within Steps (read port n rounds) := by
  unfold read
  refine within_get fun h => ?_
  split
  · exact within_throw _ h
  · split_ifs
    · exact within_throw _ h
    · refine (steps_pump (fun _ => steps_readLook port n) rounds ()).bind (fun r => ?_) h
      split
      · exact within_pure _
      · exact within_throw _

theorem steps_awaitAck (seg : Segment) (wantAck : Seq) (s : ℕ × List Bool) :
    Within Steps (awaitAck port seg wantAck s) := by
  unfold awaitAck
  refine within_get fun h => ?_
  split
  · exact within_throw _ h
  next c hc =>
    split
    · exact within_throw _ h
    · exact within_pure _ h
    · split_ifs
      · exact within_throw _ h
      · refine rel_bind (steps_onStack (.sendSegment h c _ ⟨port, c, hc, rfl⟩)) fun _ h' _ => ?_
        exact within_pure _ h'
      · exact within_pure _ h

theorem steps_sendAndAwaitAck (segment : Bytes) (expired : List Bool) :
    Within Steps (sendAndAwaitAck port segment expired) := by
  unfold sendAndAwaitAck
  refine within_get fun h => ?_
  split
  · exact within_throw _ h
  next c hc =>
    refine rel_modify_bind (.single (.update h port _ hc)) ?_
    refine rel_bind (steps_onStack (.sendSegment _ c _ (has_setTCP4 h port _))) fun _ h' _ => ?_
    refine (steps_pump (steps_awaitAck _ _ _) _ _).bind (fun r => ?_) h'
    split
    · exact within_pure _
    · exact within_throw _

theorem steps_writeSegments (expired : ℕ → List Bool) :
    ∀ (n : ℕ) (p : Bytes), Within Steps (writeSegments port expired n p)
  | 0, _ => within_pure _
  | n + 1, p => by
    unfold writeSegments
    split_ifs
    · exact within_pure _
    · have hsend : Within Steps (do
          sendAndAwaitAck port (p.take tcp4DefaultMSS) (expired n)
          pure none : CallM (Option CallErr)) :=
        (steps_sendAndAwaitAck _ _ _).bind fun _ => within_pure _
      refine (hsend.tryCatch fun _ => within_pure _).bind fun err => ?_
      split
      · exact within_pure _
      · exact steps_writeSegments expired n _

theorem steps_write (p : Bytes) (expired : ℕ → List Bool) : Within Steps (write port p expired) := by
  unfold write
  refine within_get fun h => ?_
  split
  · exact within_pure _ h
  · split_ifs
    · exact within_pure _ h
    · exact (steps_writeSegments port expired _ _).bind (fun r => within_pure _) h

theorem steps_awaitFin : Within Steps (awaitFin port) := by
  unfold awaitFin
  refine within_get fun h => ?_
  split
  · exact within_pure _ h
  · split_ifs <;> exact within_pure _ h

/-- Sending a segment leaves the table as it is, so the next one has its connection there too. -/
theorem steps_sendQuietly {c : TCP4Entry} : ∀ (segs : List Segment) {h : Host}, h.Has c.endpoints →
    Steps h ((sendQuietly c segs).run h).2
  | [], h, _ => within_pure _ h
  | seg :: segs, h, hc => by
    have hstate : ((tryCatch (onStack fun st => st.sendSegment c seg) fun _ => pure () :
        CallM Unit).run h).2 = h.enter (h.stack.sendSegment c seg) :=
      (run_tryCatch_pure _ _ h).trans (run_onStack _ h)
    unfold sendQuietly
    refine rel_bind ?_ fun _ h' hrun => steps_sendQuietly segs ?_
    · rw [hstate]
      exact .single (.sendSegment h c seg hc)
    · rw [hrun] at hstate
      rw [show h' = _ from hstate]
      exact has_sendSegment hc c seg

theorem steps_close (rounds : ℕ) : Within Steps (close port rounds) := by
  unfold close
  refine within_get fun h => ?_
  split
  · exact within_pure _ h
  next c hc =>
    split_ifs
    · exact within_pure _ h
    · refine rel_modify_bind (.single (.update h port _ hc)) ?_
      refine rel_bind (steps_sendQuietly _ (has_setTCP4 h port _)) fun _ h' _ => ?_
      exact (steps_pump (fun _ => steps_awaitFin port) rounds ()).bind (fun _ => steps_release _) h'

end Call

/-- **Every call** is a sequence of steps. -/
theorem Host.steps_after (h : Host) : ∀ c : ApiCall, Steps h (h.after c)
  | .openUDP4 .. => Call.steps_openUDP4 _ h
  | .closeUDP4 .. => Call.steps_setUDP4 _ _ h
  | .writeTo .. => Call.steps_writeTo _ _ _ _ h
  | .readFrom .. => Call.steps_readFrom _ _ _ h
  | .resolveA .. => Call.steps_resolveA _ _ _ _ h
  | .pingOnce .. => Call.steps_pingOnce _ _ _ h
  | .dial .. => Call.steps_dialTCP4Once _ _ _ h
  | .read .. => Call.steps_read _ _ _ h
  | .write .. => Call.steps_write _ _ _ h
  | .close .. => Call.steps_close _ _ h

theorem Host.steps_run (h : Host) : ∀ calls : List ApiCall, Steps h (runFrom Host.after h calls)
  | [] => .refl
  | c :: calls => (h.steps_after c).trans (Host.steps_run _ calls)

end TamagoUefi.Net
