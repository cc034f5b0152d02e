import TamagoUefi.Net.Foreign

/-!
# TamagoUefi.Net.Fragments — fragments of packets

The stack does not reassemble, so a fragment is no packet: its payload is a piece of somebody's data,
and begins with a header of its own in the first one only.  `ParseIPv4` reads the flags and the offset,
and nobody looks at them: what a fragment carries is handed to the handlers as if it were whole.

* `firstFrame`: what goes to the link first when a packet is sent, the packet or an ARP request.
* `ActsOn` says when a packet has an effect; `quiet_dispatch_iff`: exactly then.
* `fragment_ignored_iff` is that for fragments.
-/

namespace TamagoUefi.Net

open Go Lib

namespace Stack

/-! ## When something is sent -/

/-- Nothing was queued, delivered, woken or sent. -/
def Quiet {α : Type} (o : Outcome α) : Prop := o.effects = []

theorem quiet_done (st : Stack) : Quiet st.done := rfl

variable {α β : Type} {f : Stack → α → Outcome β} {o : Outcome α}

theorem quiet_andThen_iff : Quiet (o.andThen f) ↔ Quiet o ∧ ∀ a, o.result = .ok a → Quiet (f o.stack a) := by
  unfold Quiet Outcome.andThen
  cases hres : o.result with
  | error e => simp
  | ok a => simp [Outcome.follow]

variable {r : Except NetErr α}

theorem quiet_give_iff (st : Stack) : Quiet ((st.give r).andThen f) ↔ ∀ a, r = .ok a → Quiet (f st a) :=
  quiet_andThen_iff.trans (and_iff_right rfl)

/-- A call that does not succeed without an effect. -/
def Loud {α : Type} (o : Outcome α) : Prop := Quiet o → ∀ a, o.result ≠ .ok a

theorem Loud.quiet_andThen_iff (h : Loud o) : Quiet (o.andThen f) ↔ Quiet o := by
  rw [Stack.quiet_andThen_iff]
  exact ⟨fun hq => hq.1, fun hq => ⟨hq, fun a ha => absurd ha (h hq a)⟩⟩

theorem Loud.andThen (h : Loud o) (f : Stack → α → Outcome β) : Loud (o.andThen f) := by
  intro hq b hb
  have hfail := h (h.quiet_andThen_iff.mp hq)
  unfold Outcome.andThen at hb
  cases hres : o.result with
  | error e =>
    rw [hres] at hb
    cases hb
  | ok a => exact hfail a hres

theorem loud_give (st : Stack) (h : ∀ a, Loud (f st a)) : Loud ((st.give r).andThen f) := by
  cases r with
  | error e => exact fun _ _ hb => by cases hb
  | ok a => exact h a

theorem loud_sendFrame (st : Stack) (frame : Bytes) : Loud (st.sendFrame frame) := by
  unfold sendFrame
  cases st.sendErr frame with
  | none => exact fun hq => by cases hq
  | some e => exact fun _ _ hb => by cases hb

/-- The link refuses the frame, or there is none. -/
def Refused (st : Stack) (frame : Except NetErr Bytes) : Prop :=
  ∀ f, frame = .ok f → st.sendErr f ≠ none

theorem quiet_sendFrame_iff (st : Stack) (frame : Except NetErr Bytes) :
    Quiet ((st.give frame).andThen sendFrame) ↔ st.Refused frame := by
  rw [quiet_give_iff]
  refine forall₂_congr fun f _ => ?_
  unfold sendFrame
  cases st.sendErr f with
  | none => simp [Quiet]
  | some e => simp [Quiet, give]

/-- The request for the address `t4`. -/
def arpRequest (st : Stack) (t4 : Bytes) : Except NetErr Bytes :=
  (buildARPPacket 1 st.mac (st.route.localIP.getD []) [0, 0, 0, 0, 0, 0] t4).bind
    (marshalEthernet broadcastMAC st.mac etherTypeARP)

/-- The frame that goes out first: the packet, or the request for the address of the next hop. -/
def firstFrame (st : Stack) (finalDst ipPkt : Bytes) : Except NetErr Bytes :=
  if st.closed then .error .stackClosed
  else
    (st.route.lookup finalDst).bind fun nextHop =>
      match to4 nextHop with
      | none => .error .ipv4InvalidIP
      | some t4 =>
        match st.arpCache t4 with
        | some (some mac) => marshalEthernet mac st.mac etherTypeIPv4 ipPkt
        | _ => st.arpRequest t4

/-- An address that is not in the cache: the first frame is the request. -/
theorem quiet_resolveARP_iff (st : Stack) {target t4 : Bytes} (ht4 : to4 target = some t4)
    (hmiss : ∀ mac, st.arpCache t4 ≠ some (some mac)) (f : Stack → Bytes → Outcome β) :
    Quiet ((st.resolveARP target).andThen f) ↔ st.Refused (st.arpRequest t4) := by
  have hrequest : ∀ st : Stack, Loud ((st.give (buildARPPacket 1 st.mac (st.route.localIP.getD [])
      [0, 0, 0, 0, 0, 0] t4)).andThen fun st pkt =>
        (st.give (marshalEthernet broadcastMAC st.mac etherTypeARP pkt)).andThen sendFrame) :=
    fun st => st.loud_give fun pkt => st.loud_give fun frame => st.loud_sendFrame frame
  unfold resolveARP
  rw [ht4]
  dsimp only
  split
  next mac hmac => exact absurd hmac (hmiss mac)
  next =>
    rw [((hrequest _).andThen _).quiet_andThen_iff, (hrequest _).quiet_andThen_iff, quiet_give_iff]
    simp only [quiet_sendFrame_iff]
    unfold arpRequest Refused
    cases buildARPPacket 1 st.mac (st.route.localIP.getD []) [0, 0, 0, 0, 0, 0] t4 with
    | error e => simp [Except.bind]
    | ok pkt => simp [Except.bind]

/-- **Sending has an effect** when the link takes the first frame. -/
theorem quiet_sendIPv4Frame_iff (st : Stack) (finalDst ipPkt : Bytes) :
    Quiet (st.sendIPv4Frame finalDst ipPkt) ↔ st.Refused (st.firstFrame finalDst ipPkt) := by
  have hnone : ∀ e, st.Refused (.error e) := fun e f hf => by cases hf
  unfold sendIPv4Frame firstFrame
  split_ifs with hclosed
  · exact ⟨fun _ => hnone _, fun _ => rfl⟩
  · cases st.route.lookup finalDst with
    | error e => exact ⟨fun _ => hnone _, fun _ => rfl⟩
    | ok nextHop =>
      rw [andThen_ok, Except.bind]
      cases ht4 : to4 nextHop with
      | none =>
        rw [resolveARP, ht4]
        exact ⟨fun _ => hnone _, fun _ => rfl⟩
      | some t4 =>
        dsimp only
        split
        next mac hmac =>
          rw [resolveARP, ht4]
          dsimp only
          rw [hmac]
          exact st.quiet_sendFrame_iff _
        next hmiss => exact st.quiet_resolveARP_iff ht4 (fun mac hmac => hmiss mac hmac) _

/-! ## Who acts on a packet -/

/-- A reply wakes the ping that waits for it, a request is answered. -/
def ActsOnEcho (st : Stack) (h : IPv4Header) (m : ICMPEcho) : Prop :=
  (m.type = icmpTypeEchoReply ∧ st.pings (pingKey m.identifier m.sequence) = some ⟨none⟩) ∨
    (m.type = icmpTypeEchoRequest ∧
      ∃ reply, buildEchoReplyPacket h.dst h.src st.ipID m.identifier m.sequence m.payload = .ok reply ∧
        ¬ st.nextIPID.2.Refused (st.nextIPID.2.firstFrame h.src reply))

/-- Somebody acts on the packet. -/
def Acts (st : Stack) (h : IPv4Header) (body : Bytes) : Prop :=
  (h.protocol = ipProtoICMP ∧ ∃ m, parseICMPEcho body = .ok m ∧ st.ActsOnEcho h m) ∨
    (h.protocol = ipProtoUDP ∧ ∃ r, parseUDP4 h.src h.dst body = .ok r ∧ st.TakesDatagram r.1) ∨
    (h.protocol = ipProtoTCP ∧ ipv4HeaderLen ≤ h.totalLen.toNat ∧
      h.totalLen.toNat - ipv4HeaderLen ≤ body.length ∧
      ∃ r, parseTCP4 h.src h.dst (body.take (h.totalLen.toNat - ipv4HeaderLen)) = .ok r ∧
        st.TakesSegment h.src r.1)

section
variable (st : Stack)

theorem quiet_handleEcho_iff (h : IPv4Header) (m : ICMPEcho) :
    Quiet (st.handleEcho h m) ↔ ¬ st.ActsOnEcho h m := by
  have hne : icmpTypeEchoReply ≠ icmpTypeEchoRequest := by decide
  unfold handleEcho ActsOnEcho
  split_ifs with hreply hreq
  · dsimp only
    cases hping : st.pings (pingKey m.identifier m.sequence) with
    | none => simp [hreply, hne, quiet_done]
    | some w =>
      obtain ⟨ch⟩ := w
      cases ch with
      | none => simp [hreply, Quiet]
      | some m' => simp [hreply, hne, quiet_done]
  · dsimp only
    rw [quiet_give_iff]
    simp only [hreq, hne.symm, false_and, false_or, true_and, not_exists, not_and, not_not]
    exact forall₂_congr fun reply _ => quiet_sendIPv4Frame_iff _ h.src reply
  · simp [hreply, hreq, quiet_done]

/-- A datagram that is taken is queued. -/
theorem quiet_handleUDP4_iff (h : IPv4Header) (body : Bytes) :
    Quiet (st.handleUDP4 h body) ↔ st.Untouched (st.handleUDP4 h body) := by
  unfold handleUDP4
  rw [quiet_give_iff, untouched_give_iff]
  refine forall₂_congr fun r _ => ⟨fun hq => ?_, fun hun => hun.effects⟩
  cases hconn : st.udp4Conns r.1.dstPort with
  | none => exact st.untouched_done
  | some c =>
    rw [hconn] at hq
    dsimp only [deliver] at hq ⊢
    split_ifs at hq ⊢ with hclosed
    · exact st.untouched_done
    all_goals cases hq

/-- A segment that is taken is delivered. -/
theorem quiet_acceptSegment_iff (h : IPv4Header) (th : ParsedTCP4) (payload : Bytes) :
    Quiet (st.acceptSegment h th payload) ↔ st.Untouched (st.acceptSegment h th payload) := by
  refine ⟨fun hq => ?_, fun hun => hun.effects⟩
  unfold acceptSegment at hq ⊢
  split at hq
  · exact st.untouched_done
  · split_ifs at hq ⊢ with hpeer
    · exact st.untouched_done
    · cases hq

theorem quiet_handleTCP4_iff (h : IPv4Header) (body : Bytes) :
    Quiet (st.handleTCP4 h body) ↔ st.Untouched (st.handleTCP4 h body) := by
  unfold handleTCP4
  split_ifs with hshort
  · exact ⟨fun _ => st.untouched_done, fun _ => rfl⟩
  · dsimp only
    split_ifs with hcut
    · exact ⟨fun _ => st.untouched_done, fun _ => rfl⟩
    · rw [quiet_give_iff, untouched_give_iff]
      exact forall₂_congr fun r _ => st.quiet_acceptSegment_iff h r.1 r.2

theorem quiet_handleProtocol_iff (h : IPv4Header) (body : Bytes) :
    Quiet (st.handleProtocol h body) ↔ ¬ st.Acts h body := by
  obtain ⟨hudp, htcp, htcp'⟩ := protos_ne
  unfold handleProtocol Acts
  split_ifs with h₁ h₂ h₃
  · rw [handleICMP, quiet_give_iff, h₁]
    simp [hudp.symm, htcp.symm, quiet_handleEcho_iff]
  · rw [quiet_handleUDP4_iff, untouched_handleUDP4_iff, h₂]
    simp [hudp, htcp'.symm]
  · rw [quiet_handleTCP4_iff, untouched_handleTCP4_iff, h₃]
    simp [htcp, htcp']
  · simp [h₁, h₂, h₃, quiet_done]

/-- Somebody acts on the packet in these bytes. -/
def ActsOn (pkt : Bytes) : Prop := ∃ h body, parseIPv4 pkt = .ok (h, body) ∧ st.Acts h body

theorem quiet_dispatch_iff {frame : Bytes} {eth : EthernetFrame} (heth : parseEthernet frame = .ok eth)
    (htype : eth.etherType = etherTypeIPv4) : Quiet (st.dispatch frame) ↔ ¬ st.ActsOn eth.payload := by
  rw [st.dispatch_ipv4 heth htype]
  change Quiet (st.handlePacket eth.payload) ↔ _
  unfold handlePacket ActsOn
  rw [quiet_give_iff]
  simp only [quiet_handleProtocol_iff, not_exists, not_and, Prod.forall]

end

/-! ## Fragments -/

/-- The frame carries an IPv4 packet with the flag for more fragments, or with an offset. -/
structure Fragment (frame : Bytes) (eth : EthernetFrame) : Prop where
  parsed : parseEthernet frame = .ok eth
  ipv4 : eth.etherType = etherTypeIPv4
  piece : (ipv4Fields eth.payload).flags &&& 1 ≠ 0 ∨ (ipv4Fields eth.payload).fragOff ≠ 0

/-- **Fragments** are ignored exactly when nobody acts on them. -/
theorem fragment_ignored_iff (st : Stack) {frame : Bytes} {eth : EthernetFrame} (h : Fragment frame eth) :
    Quiet (st.dispatch frame) ↔ ¬ st.ActsOn eth.payload :=
  st.quiet_dispatch_iff h.parsed h.ipv4

/-- A later fragment of a packet from 10.0.2.2 to 10.0.2.15: eight bytes at offset 1480. -/
def laterFragment : Bytes :=
  [0x45, 0, 0, 28, 0, 0, 0, 185, 64, 17, 0x62, 0x08, 10, 0, 2, 2, 10, 0, 2, 15,
    0, 53, 0xC0, 0, 0, 8, 0, 0]

theorem fragment_laterFragment : Fragment (etherFrame broadcastMAC broadcastMAC laterFragment)
    ⟨broadcastMAC, broadcastMAC, etherTypeIPv4, laterFragment⟩ :=
  ⟨parseEthernet_etherFrame rfl rfl _, rfl, .inr (by decide)⟩

/-- Where no socket is bound, it is ignored. -/
theorem fragment_ignored_bystander :
    Quiet (bystander.dispatch (etherFrame broadcastMAC broadcastMAC laterFragment)) := by
  refine (fragment_ignored_iff _ fragment_laterFragment).mpr ?_
  rintro ⟨h, body, hparse, ⟨hproto, -⟩ | ⟨-, r, -, c, hc, -⟩ | ⟨-, -, -, r, -, c, hc, -⟩⟩
  · obtain rfl := header_of_parseIPv4 hparse
    exact absurd hproto (by decide)
  · cases hc
  · cases hc

/-- A socket on port 49152. -/
def listener : Stack :=
  { bystander with udp4Conns := Function.update (fun _ => none) 49152 (some ⟨false, []⟩) }

/-- There it is queued as a datagram. -/
theorem fragment_queued :
    Fragment (etherFrame broadcastMAC broadcastMAC laterFragment)
        ⟨broadcastMAC, broadcastMAC, etherTypeIPv4, laterFragment⟩ ∧
      ¬ Quiet (listener.dispatch (etherFrame broadcastMAC broadcastMAC laterFragment)) := by
  refine ⟨fragment_laterFragment, fun hq => ?_⟩
  have hok : HeaderOK laterFragment := by
    refine ⟨by decide, by decide, ?_⟩
    rw [internetChecksum_eq]
    decide
  refine (listener.quiet_dispatch_iff fragment_laterFragment.parsed rfl).mp hq ?_
  refine ⟨_, _, parseIPv4_eq_ok.mpr ⟨by decide, hok, by decide, rfl⟩, .inr (.inl ⟨by decide, ?_⟩)⟩
  exact ⟨_, parseUDP4_eq_ok.mpr ⟨by decide, by decide, by decide, rfl⟩, ⟨false, []⟩, rfl, rfl⟩

end Stack

end TamagoUefi.Net
