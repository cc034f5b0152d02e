import TamagoUefi.Net.Stack

/-!
# TamagoUefi.Net.StackMoves — what a call into the stack does, one move at a time

Sending resolves an address first, which receives frames, which may be answered, so that one call
sends and takes several frames.  What it does is a sequence of a few kinds of moves.

* `Stack.Move`: the moves.  A frame that is sent is an ARP packet with the stack's own addresses, or
  an IPv4 packet with a source in `S`.
* `Stack.Does`: the effects, the receipts and the new stack of a call come from a sequence of moves,
  with a rule for each function of `stack.go` and `arp.go`.  What every move keeps, every call keeps.
-/

namespace TamagoUefi.Net

open Go Lib

def sentFrame : StackEffect → Option Bytes
  | .sent frame => some frame
  | _ => none

/-- The frames that are handed to the link. -/
def frames (es : List StackEffect) : List Bytes := es.filterMap sentFrame

namespace Stack

/-- One move.  Those that change more than the ARP cache and the link are allowed if `w` holds. -/
inductive Move (S : Bytes → Prop) (w : Prop) (st : Stack) :
    Stack → List StackEffect → List Receipt → Prop
  | learn (cache : Bytes → Option (Option Bytes)) : Move S w st { st with arpCache := cache } [] []
  | take {r : Option Bytes} {rest : List (Option Bytes)} (hpolls : st.polls = r :: rest) :
    Move S w st { st with polls := rest } [] (r.toList.map .inARP)
  | sendARP {op : UInt16} {dst tha tpa pkt frame : Bytes}
    (hpkt : buildARPPacket op st.mac (st.route.localIP.getD []) tha tpa = .ok pkt)
    (hframe : marshalEthernet dst st.mac etherTypeARP pkt = .ok frame) :
    Move S w st st [.sent frame] []
  | sendIPv4 {src dst payload mac pkt frame : Bytes} {protocol : UInt8} {id : UInt16} (hsrc : S src)
    (hpkt : marshalIPv4 src dst protocol id payload = .ok pkt)
    (hframe : marshalEthernet mac st.mac etherTypeIPv4 pkt = .ok frame) :
    Move S w st st [.sent frame] []
  | nextIPID (hw : w) : Move S w st st.nextIPID.2 [] []
  | tell (hw : w) {e : StackEffect} (he : sentFrame e = none) : Move S w st st [e] []
  | tables (hw : w) (pings : UInt32 → Option PingWaiter) (udp4Conns : UInt16 → Option UDP4Conn) :
    Move S w st { st with pings := pings, udp4Conns := udp4Conns } [] []
  | update (hw : w) {port : UInt16} {c : TCP4Entry} (hc : st.tcp4Conns port = some c)
    (conn : TCP4Conn) :
    Move S w st { st with
      tcp4Conns := Function.update st.tcp4Conns port (some { c with conn := conn }) } [] []

inductive Moves (S : Bytes → Prop) (w : Prop) :
    Stack → Stack → List StackEffect → List Receipt → Prop
  | refl (st : Stack) : Moves S w st st [] []
  | cons {st st₁ st₂ : Stack} {es es' : List StackEffect} {rs rs' : List Receipt}
    (hmove : Move S w st st₁ es rs) (hmoves : Moves S w st₁ st₂ es' rs') :
    Moves S w st st₂ (es ++ es') (rs ++ rs')

/-- The outcome is that of a sequence of moves. -/
def Does {α : Type} (S : Bytes → Prop) (w : Prop) (st : Stack) (o : Outcome α) : Prop :=
  Moves S w st o.stack o.effects o.receipts

section
variable {α β : Type} {S : Bytes → Prop} {w : Prop} {st : Stack}

variable {es : List StackEffect} {rs : List Receipt}

theorem Moves.trans {st₁ st₂ : Stack} {es' : List StackEffect} {rs' : List Receipt}
    (h : Moves S w st st₁ es rs) (h' : Moves S w st₁ st₂ es' rs') :
    Moves S w st st₂ (es ++ es') (rs ++ rs') := by
  induction h with
  | refl => exact h'
  | cons hmove _ ih =>
    rw [List.append_assoc, List.append_assoc]
    exact .cons hmove (ih h')

theorem does_give (r : Except NetErr α) : Does S w st (st.give r) := .refl st

variable {o : Outcome α}

theorem Does.follow {o' : Outcome β} (h : Does S w st o) (h' : Does S w o.stack o') :
    Does S w st (o.follow o') := h.trans h'

variable {f : Stack → α → Outcome β}

theorem Does.andThen (h : Does S w st o) (hf : ∀ a, o.result = .ok a → Does S w o.stack (f o.stack a)) :
    Does S w st (o.andThen f) := by
  unfold Outcome.andThen
  split
  · exact h
  next a ha => exact h.follow (hf a ha)

theorem does_give_andThen {r : Except NetErr α} (hf : ∀ a, r = .ok a → Does S w st (f st a)) :
    Does S w st ((st.give r).andThen f) :=
  (does_give r).andThen hf

variable {st' : Stack}

/-- A move that nobody hears of, before a call. -/
theorem Move.before (h : Move S w st st' [] []) (ho : Does S w st' o) : Does S w st o := .cons h ho

theorem does_sendFrame {frame : Bytes} (h : Move S w st st [.sent frame] []) :
    Does S w st (st.sendFrame frame) := by
  unfold sendFrame
  split
  · exact does_give _
  · exact .cons h (.refl st)

/-! ## ARP -/

theorem does_sendARP (op : UInt16) (dst tha tpa : Bytes) :
    Does S w st ((st.give (buildARPPacket op st.mac (st.route.localIP.getD []) tha tpa)).andThen
      fun st pkt => (st.give (marshalEthernet dst st.mac etherTypeARP pkt)).andThen sendFrame) :=
  does_give_andThen fun _ hpkt => does_give_andThen fun _ hframe =>
    does_sendFrame (.sendARP hpkt hframe)

theorem does_handleARPFrame (st : Stack) (payload : Bytes) : Does S w st (st.handleARPFrame payload) := by
  refine does_give_andThen fun a _ => ?_
  refine Move.before (.learn (Function.update st.arpCache a.spa (some (some a.sha)))) ?_
  dsimp only
  split
  · exact does_give _
  next ourIP hip =>
    split_ifs
    · rw [show ourIP = st.route.localIP.getD [] by rw [hip]; rfl]
      exact does_sendARP _ _ _ _
    · exact does_give _

theorem Does.received {r : Option Bytes} (h : Does S w st' o) (hrecv : st.recvFrame = (r, st')) :
    Does S w st { o with receipts := r.toList.map .inARP ++ o.receipts } := by
  unfold recvFrame at hrecv
  split at hrecv
  · cases hrecv
    exact h
  next hpolls =>
    cases hrecv
    exact .cons (.take hpolls) h

theorem does_awaitARP (target : Bytes) : ∀ (rounds : ℕ) (st : Stack), Does S w st (awaitARP target rounds st)
  | 0, st => does_give _
  | rounds + 1, st => by
    have ih : ∀ st, Does S w st (awaitARP target rounds st) := does_awaitARP target rounds
    unfold awaitARP
    split
    · exact does_give _
    · split
      next st' hrecv => exact (ih st').received hrecv
      next rx st' hrecv =>
        refine Does.received ?_ hrecv
        split
        · exact ih st'
        · split_ifs
          · exact (does_handleARPFrame st' _).follow (ih _)
          · exact ih st'

theorem does_resolveARP (st : Stack) (target : Bytes) : Does S w st (st.resolveARP target) := by
  unfold resolveARP
  split
  · exact does_give _
  · split
    · exact does_give _
    next t4 _ _ _ =>
      refine Move.before (.learn (Function.update st.arpCache t4 (some none))) ?_
      exact (does_sendARP _ _ _ _).andThen fun _ _ => does_awaitARP _ _ _

/-! ## Sending -/

section
variable {src dst payload pkt : Bytes} {protocol : UInt8} {id : UInt16}

theorem does_transmit (hsrc : S src) (hpkt : marshalIPv4 src dst protocol id payload = .ok pkt)
    (mac : Bytes) :
    Does S w st ((st.give (marshalEthernet mac st.mac etherTypeIPv4 pkt)).andThen sendFrame) :=
  does_give_andThen fun _ hframe => does_sendFrame (.sendIPv4 hsrc hpkt hframe)

theorem does_sendIPv4Frame (hsrc : S src)
    (hpkt : marshalIPv4 src dst protocol id payload = .ok pkt) (finalDst : Bytes) :
    Does S w st (st.sendIPv4Frame finalDst pkt) := by
  unfold sendIPv4Frame
  split_ifs
  · exact does_give _
  · refine does_give_andThen fun nextHop _ => ?_
    exact (does_resolveARP st nextHop).andThen fun mac _ => does_transmit hsrc hpkt mac

theorem does_sendPacket (hsrc : S src) (finalDst : Bytes) :
    Does S w st ((st.give (marshalIPv4 src dst protocol id payload)).andThen fun st pkt =>
      st.sendIPv4Frame finalDst pkt) :=
  does_give_andThen fun _ hpkt => does_sendIPv4Frame hsrc hpkt finalDst

end

variable {c : TCP4Entry}

theorem does_sendSegment (hw : w) (hc : S c.localIP) (st : Stack) (seg : Segment) :
    Does S w st (st.sendSegment c seg) :=
  Move.before (.nextIPID hw) (does_sendPacket hc c.remoteIP)

theorem does_sendAll (hw : w) (hc : S c.localIP) :
    ∀ (segs : List Segment) (st : Stack), Does S w st (st.sendAll c segs)
  | [], _ => does_give _
  | seg :: segs, st => (does_sendSegment hw hc st seg).follow (does_sendAll hw hc segs _)

/-! ## Receiving -/

/-- An echo request is answered from the address that it was sent to. -/
theorem does_handleEcho (hw : w) {h : IPv4Header} {msg : ICMPEcho}
    (hdst : msg.type = icmpTypeEchoRequest → S h.dst) : Does S w st (st.handleEcho h msg) := by
  unfold handleEcho
  split_ifs with hreply hrequest
  · dsimp only
    split
    · exact does_give _
    · split
      · exact Move.before (.tables hw _ st.udp4Conns) (does_give (.ok ()))
      · exact Move.before (.tables hw _ st.udp4Conns) (.cons (.tell hw (by rfl)) (.refl _))
  · exact Move.before (.nextIPID hw) (does_sendPacket (hdst hrequest) h.src)
  · exact does_give _

theorem does_handleUDP4 (hw : w) (h : IPv4Header) (body : Bytes) : Does S w st (st.handleUDP4 h body) := by
  refine does_give_andThen fun r _ => ?_
  split
  · exact does_give _
  · unfold deliver
    split
    · exact does_give _
    · exact Move.before (.tables hw st.pings _) (.cons (.tell hw (by rfl)) (.refl _))

theorem does_handleTCP4 (hw : w) (hconn : ∀ port c, st.tcp4Conns port = some c → S c.localIP)
    (h : IPv4Header) (body : Bytes) : Does S w st (st.handleTCP4 h body) := by
  unfold handleTCP4
  split_ifs
  · exact does_give _
  · dsimp only
    split_ifs
    · exact does_give _
    · refine does_give_andThen fun r _ => ?_
      unfold acceptSegment
      split
      · exact does_give _
      next c hc =>
        split_ifs
        · exact does_give _
        · refine .cons (.tell hw (by rfl)) (.cons
            (.update hw hc (c.conn.deliverSegment r.1.toTCP4Header r.2).1) ?_)
          exact does_sendAll hw (hconn _ c hc) _ _

/-- **A packet** that `handleIPv4` is called with. -/
theorem does_handlePacket (hw : w) (hconn : ∀ port c, st.tcp4Conns port = some c → S c.localIP)
    {pkt : Bytes} (hecho : ∀ r msg, parseIPv4 pkt = .ok r → r.1.protocol = ipProtoICMP →
      parseICMPEcho r.2 = .ok msg → msg.type = icmpTypeEchoRequest → S r.1.dst) :
    Does S w st (st.handlePacket pkt) := by
  refine does_give_andThen fun r hr => ?_
  unfold handleProtocol
  split_ifs with hicmp
  · exact does_give_andThen fun msg hmsg => does_handleEcho hw (hecho r msg hr hicmp hmsg)
  · exact does_handleUDP4 hw _ _
  · exact does_handleTCP4 hw hconn _ _
  · exact does_give _

/-! ## What sending changes -/

/-- Addresses may have been learned and frames taken off the link; the rest is as before. -/
theorem Moves.rest (h : Moves S False st st' es rs) :
    st' = { st with arpCache := st'.arpCache, polls := st'.polls } := by
  induction h with
  | refl => rfl
  | cons hmove _ ih =>
    cases hmove with
    | learn | take | sendARP | sendIPv4 => exact ih
    | nextIPID hw | tell hw | tables hw | update hw => exact hw.elim

end

end Stack

end TamagoUefi.Net
