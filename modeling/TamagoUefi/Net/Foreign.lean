import TamagoUefi.Net.Padding
import TamagoUefi.Net.StackMoves

/-!
# TamagoUefi.Net.Foreign — packets addressed to other hosts

The comment of `handleIPv4` says that broadcasts and packets addressed to us are accepted.  No
handler reads the destination, except for the checksums: a packet is taken by whoever waits for its
port, its connection or its identifier, and an echo request is answered under the address it was
sent to.

* `Takes` says who takes a packet.
* `untouched_dispatch_iff`: a frame leaves the stack alone exactly when nobody takes it.
* `foreign_untouched_iff` is that for the frames that should have been ignored.
-/

namespace TamagoUefi.Net

open Go Lib

namespace Stack

/-- Nothing changed and nothing happened. -/
structure Untouched (st : Stack) (o : Outcome Unit) : Prop where
  stack : o.stack = st
  effects : o.effects = []

theorem untouched_done (st : Stack) : st.Untouched st.done := ⟨rfl, rfl⟩

/-- A call that needs the result of a parser does nothing if there is none. -/
theorem untouched_give_iff {α : Type} (st : Stack) {r : Except NetErr α} {f : Stack → α → Outcome Unit} :
    st.Untouched ((st.give r).andThen f) ↔ ∀ a, r = .ok a → st.Untouched (f st a) := by
  cases r with
  | error e => exact ⟨nofun, fun _ => ⟨rfl, rfl⟩⟩
  | ok a =>
    rw [andThen_ok]
    constructor
    · rintro h a' ha
      obtain rfl := Except.ok.inj ha
      exact h
    · intro h
      exact h a rfl

/-! ## Who takes a packet -/

/-- A request is answered, a reply is matched with the waiting pings. -/
def TakesEcho (st : Stack) (m : ICMPEcho) : Prop :=
  m.type = icmpTypeEchoRequest ∨
    (m.type = icmpTypeEchoReply ∧ (st.pings (pingKey m.identifier m.sequence)).isSome)

/-- An open socket is bound to the port. -/
def TakesDatagram (st : Stack) (h : UDP4Header) : Prop :=
  ∃ c, st.udp4Conns h.dstPort = some c ∧ c.closed = false

/-- A connection has the port, and the sender is its peer. -/
def TakesSegment (st : Stack) (src : Bytes) (th : ParsedTCP4) : Prop :=
  ∃ c, st.tcp4Conns th.dstPort = some c ∧ ipEqual c.remoteIP src = true ∧ c.remotePort = th.srcPort

/-- Somebody takes the packet. -/
def Takes (st : Stack) (h : IPv4Header) (body : Bytes) : Prop :=
  (h.protocol = ipProtoICMP ∧ ∃ m, parseICMPEcho body = .ok m ∧ st.TakesEcho m) ∨
    (h.protocol = ipProtoUDP ∧ ∃ r, parseUDP4 h.src h.dst body = .ok r ∧ st.TakesDatagram r.1) ∨
    (h.protocol = ipProtoTCP ∧ ipv4HeaderLen ≤ h.totalLen.toNat ∧
      h.totalLen.toNat - ipv4HeaderLen ≤ body.length ∧
      ∃ r, parseTCP4 h.src h.dst (body.take (h.totalLen.toNat - ipv4HeaderLen)) = .ok r ∧
        st.TakesSegment h.src r.1)

section
variable (st : Stack)

/-- The waiter of a reply leaves the table, whether there was room in its channel or not. -/
theorem untouched_reply_iff (h : IPv4Header) {m : ICMPEcho} (hreply : m.type = icmpTypeEchoReply) :
    st.Untouched (st.handleEcho h m) ↔ st.pings (pingKey m.identifier m.sequence) = none := by
  unfold handleEcho
  rw [if_pos hreply]
  dsimp only
  cases hping : st.pings (pingKey m.identifier m.sequence) with
  | none => exact ⟨fun _ => rfl, fun _ => st.untouched_done⟩
  | some w =>
    refine ⟨fun hun => ?_, nofun⟩
    dsimp only at hun
    cases hch : w.ch with
    | some m' =>
      rw [hch] at hun
      have htable := congrFun (congrArg Stack.pings hun.stack) (pingKey m.identifier m.sequence)
      rw [← hping, ← htable]
      exact Function.update_self ..
    | none =>
      rw [hch] at hun
      cases hun.effects

/-- An answer uses up an identification, even one that cannot be sent. -/
theorem touched_request (h : IPv4Header) {m : ICMPEcho} (hreq : m.type = icmpTypeEchoRequest) :
    ¬ st.Untouched (st.handleEcho h m) := by
  have hne : ¬ m.type = icmpTypeEchoReply := by
    rw [hreq]
    decide
  have hnext : (st.handleEcho h m).stack.ipID = st.ipID + 1 := by
    unfold handleEcho
    rw [if_neg hne, if_pos hreq]
    exact congrArg Stack.ipID (Moves.rest (does_sendPacket (S := fun _ => True) trivial h.src))
  intro hun
  rw [hun.stack] at hnext
  exact absurd hnext (by simp)

theorem untouched_handleEcho_iff (h : IPv4Header) (m : ICMPEcho) :
    st.Untouched (st.handleEcho h m) ↔ ¬ st.TakesEcho m := by
  unfold TakesEcho
  by_cases hreply : m.type = icmpTypeEchoReply
  · have hne : icmpTypeEchoReply ≠ icmpTypeEchoRequest := by decide
    rw [untouched_reply_iff st h hreply]
    simp [hreply, hne]
  · by_cases hreq : m.type = icmpTypeEchoRequest
    · exact ⟨fun hun => absurd hun (st.touched_request h hreq), fun hno => absurd (.inl hreq) hno⟩
    · unfold handleEcho
      rw [if_neg hreply, if_neg hreq]
      refine ⟨fun _ => ?_, fun _ => st.untouched_done⟩
      rintro (h' | ⟨h', -⟩)
      · exact hreq h'
      · exact hreply h'

theorem untouched_handleICMP_iff (h : IPv4Header) (body : Bytes) :
    st.Untouched (st.handleICMP h body) ↔ ∀ m, parseICMPEcho body = .ok m → ¬ st.TakesEcho m := by
  unfold handleICMP
  rw [untouched_give_iff]
  simp only [untouched_handleEcho_iff]

theorem untouched_handleUDP4_iff (h : IPv4Header) (body : Bytes) :
    st.Untouched (st.handleUDP4 h body) ↔
      ∀ r, parseUDP4 h.src h.dst body = .ok r → ¬ st.TakesDatagram r.1 := by
  unfold handleUDP4
  rw [untouched_give_iff]
  refine forall₂_congr fun r _ => ?_
  rw [TakesDatagram]
  cases hconn : st.udp4Conns r.1.dstPort with
  | none =>
    refine ⟨fun _ => ?_, fun _ => st.untouched_done⟩
    rintro ⟨c, hc, -⟩
    cases hc
  | some c =>
    simp only [deliver]
    cases hclosed : c.closed with
    | true =>
      refine ⟨fun _ => ?_, fun _ => st.untouched_done⟩
      rintro ⟨c', hc', hopen⟩
      obtain rfl := Option.some.inj hc'
      rw [hclosed] at hopen
      cases hopen
    | false =>
      refine ⟨fun hun => ?_, fun hno => absurd ⟨c, rfl, hclosed⟩ hno⟩
      have heffects := hun.effects
      cases heffects

theorem untouched_acceptSegment_iff (h : IPv4Header) (th : ParsedTCP4) (payload : Bytes) :
    st.Untouched (st.acceptSegment h th payload) ↔ ¬ st.TakesSegment h.src th := by
  unfold acceptSegment
  rw [TakesSegment]
  cases hconn : st.tcp4Conns th.dstPort with
  | none =>
    refine ⟨fun _ => ?_, fun _ => st.untouched_done⟩
    rintro ⟨c, hc, -⟩
    cases hc
  | some c =>
    dsimp only
    split_ifs with hpeer
    · refine ⟨fun _ => ?_, fun _ => st.untouched_done⟩
      rintro ⟨c', hc', hip, hport⟩
      obtain rfl := Option.some.inj hc'
      rcases hpeer with hfalse | hne
      · rw [hip] at hfalse
        cases hfalse
      · exact hne hport
    · push Not at hpeer
      refine ⟨fun hun => ?_, fun hno => absurd ⟨c, rfl, by simpa using hpeer.1, hpeer.2⟩ hno⟩
      have heffects := hun.effects
      cases heffects

theorem untouched_handleTCP4_iff (h : IPv4Header) (body : Bytes) :
    st.Untouched (st.handleTCP4 h body) ↔
      ¬ (ipv4HeaderLen ≤ h.totalLen.toNat ∧ h.totalLen.toNat - ipv4HeaderLen ≤ body.length ∧
        ∃ r, parseTCP4 h.src h.dst (body.take (h.totalLen.toNat - ipv4HeaderLen)) = .ok r ∧
          st.TakesSegment h.src r.1) := by
  unfold handleTCP4
  split_ifs with hshort
  · exact ⟨fun _ hrest => by omega, fun _ => st.untouched_done⟩
  · dsimp only
    split_ifs with hcut
    · exact ⟨fun _ hrest => by omega, fun _ => st.untouched_done⟩
    · rw [untouched_give_iff]
      simp only [untouched_acceptSegment_iff]
      constructor
      · rintro hun ⟨-, -, r, hr, htakes⟩
        exact hun r hr htakes
      · intro hno r hr htakes
        exact hno ⟨Nat.le_of_not_lt hshort, Nat.le_of_not_lt hcut, r, hr, htakes⟩

theorem protos_ne : ipProtoUDP ≠ ipProtoICMP ∧ ipProtoTCP ≠ ipProtoICMP ∧ ipProtoTCP ≠ ipProtoUDP := by decide

theorem untouched_handleProtocol_iff (h : IPv4Header) (body : Bytes) :
    st.Untouched (st.handleProtocol h body) ↔ ¬ st.Takes h body := by
  obtain ⟨hudp, htcp, htcp'⟩ := protos_ne
  unfold handleProtocol Takes
  split_ifs with h₁ h₂ h₃
  · rw [untouched_handleICMP_iff, h₁]
    simp [hudp.symm, htcp.symm]
  · rw [untouched_handleUDP4_iff, h₂]
    simp [hudp, htcp'.symm]
  · rw [untouched_handleTCP4_iff, h₃]
    simp [htcp, htcp']
  · simp [h₁, h₂, h₃, untouched_done]

/-- Somebody takes the packet in these bytes. -/
def TakesPacket (pkt : Bytes) : Prop :=
  ∃ h body, parseIPv4 pkt = .ok (h, body) ∧ st.Takes h body

theorem untouched_handlePacket_iff (pkt : Bytes) :
    st.Untouched (st.handlePacket pkt) ↔ ¬ st.TakesPacket pkt := by
  unfold handlePacket
  rw [untouched_give_iff]
  simp only [untouched_handleProtocol_iff, TakesPacket, not_exists, not_and, Prod.forall]

end

theorem untouched_dispatch_iff (st : Stack) {frame : Bytes} {eth : EthernetFrame}
    (heth : parseEthernet frame = .ok eth) (htype : eth.etherType = etherTypeIPv4) :
    st.Untouched (st.dispatch frame) ↔ ¬ st.TakesPacket eth.payload := by
  rw [st.dispatch_ipv4 heth htype, ← untouched_handlePacket_iff]
  exact ⟨fun h => ⟨h.stack, h.effects⟩, fun h => ⟨h.stack, h.effects⟩⟩

/-! ## Frames for other hosts -/

/-- The broadcast address of a subnet. -/
def subnetBroadcast (ip mask : Bytes) : Bytes := List.zipWith (fun a m => a ||| ~~~ m) ip mask

/-- The stack has an address and a mask, and the packet in the frame is neither for this address
nor a broadcast. -/
structure Foreign (st : Stack) (frame : Bytes) (eth : EthernetFrame) (ip mask : Bytes) : Prop where
  parsed : parseEthernet frame = .ok eth
  ipv4 : eth.etherType = etherTypeIPv4
  hasIP : st.route.localIP = some ip ∧ ip.length = 4
  hasMask : st.route.mask = some mask ∧ mask.length = 4
  not_us : (ipv4Fields eth.payload).dst ≠ ip
  not_limited : (ipv4Fields eth.payload).dst ≠ [255, 255, 255, 255]
  not_subnet : (ipv4Fields eth.payload).dst ≠ subnetBroadcast ip mask

/-- **Traffic for other hosts** leaves the stack alone exactly when nobody takes it. -/
theorem foreign_untouched_iff (st : Stack) {frame ip mask : Bytes} {eth : EthernetFrame}
    (h : st.Foreign frame eth ip mask) : st.Untouched (st.dispatch frame) ↔ ¬ st.TakesPacket eth.payload :=
  untouched_dispatch_iff st h.parsed h.ipv4

/-- A stack at 10.0.2.20/24 on which nobody waits for anything. -/
def bystander : Stack where
  closed := false
  mac := List.replicate 6 0
  route := ⟨some [10, 0, 2, 20], some [255, 255, 255, 0], none⟩
  arpCache _ := none
  pings _ := none
  udp4Conns _ := none
  tcp4Conns _ := none
  ipID := 0
  arpRounds := 0
  polls := []
  sendErr _ := none

theorem foreign_bystander {p : Bytes} (h : (ipv4Fields p).dst = [10, 0, 2, 15]) :
    bystander.Foreign (etherFrame broadcastMAC broadcastMAC p)
      ⟨broadcastMAC, broadcastMAC, etherTypeIPv4, p⟩ [10, 0, 2, 20] [255, 255, 255, 0] where
  parsed := parseEthernet_etherFrame rfl rfl p
  ipv4 := rfl
  hasIP := ⟨rfl, rfl⟩
  hasMask := ⟨rfl, rfl⟩
  not_us := by rw [h]; decide
  not_limited := by rw [h]; decide
  not_subnet := by rw [h]; decide

/-- A datagram from 10.0.2.2 to 10.0.2.15 leaves it alone. -/
theorem foreign_untouched_datagram :
    bystander.Untouched (bystander.dispatch (etherFrame broadcastMAC broadcastMAC datagram)) := by
  refine (foreign_untouched_iff _ (foreign_bystander rfl)).mpr ?_
  rintro ⟨h, body, hparse, ⟨hproto, -⟩ | ⟨-, r, -, c, hc, -⟩ | ⟨-, -, -, r, -, c, hc, -⟩⟩
  · obtain rfl := header_of_parseIPv4 hparse
    exact absurd hproto (by decide)
  · cases hc
  · cases hc

/-- An echo request to 10.0.2.15 does not. -/
theorem foreign_request_touches :
    bystander.Foreign (etherFrame broadcastMAC broadcastMAC echoRequest)
        ⟨broadcastMAC, broadcastMAC, etherTypeIPv4, echoRequest⟩ [10, 0, 2, 20] [255, 255, 255, 0] ∧
      ¬ bystander.Untouched
        (bystander.dispatch (etherFrame broadcastMAC broadcastMAC echoRequest)) := by
  have hforeign := foreign_bystander (p := echoRequest) rfl
  refine ⟨hforeign, fun hun => ?_⟩
  refine (untouched_dispatch_iff _ hforeign.parsed hforeign.ipv4).mp hun ?_
  have hcksum : internetChecksum (zeroAt (echoRequest.drop ipv4HeaderLen) 2) =
      u16 (echoRequest.drop ipv4HeaderLen) 2 := by
    rw [internetChecksum_eq]
    decide
  refine ⟨_, _, parseIPv4_eq_ok.mpr ⟨by decide, echoRequest_headerOK, by decide, rfl⟩, .inl ?_⟩
  exact ⟨by decide, _, parseICMPEcho_eq_ok.mpr ⟨by decide, hcksum, rfl⟩, .inl (by decide)⟩

end Stack

end TamagoUefi.Net
