import TamagoUefi.Lib.Buffer
import TamagoUefi.Net.CallSteps

/-!
# TamagoUefi.Net.Sources — from whom a frame is (`stack.go`, `arp.go`, `tcp4.go`)

A frame is handed to the link in four places: by `sendUDP4` when it is a broadcast, by `sendIPv4Frame`
for the other packets of UDP, ICMP and TCP, by `resolveARP` and by `handleARPFrame`.  Where its source
comes from differs: from the route table, from the connection, or from the packet that is answered.

* `Own`: a frame with the local address, and for ARP the link's MAC, in it.
* `Emits`: a call that sends own frames only; every move of the stack does (`emits_move`).
* `emits_dispatch`: a received frame is answered with own frames, unless it is an echo request for
  another address (`echoTarget`).
-/

namespace TamagoUefi.Net

open Go Lib

/-! ## Own frames -/

/-- A packet with the local address, if there is one, as its source. -/
def FromSelf (localIP : Option Bytes) (pkt : Bytes) : Prop :=
  ∀ ip ∈ localIP, (ipv4Fields pkt).src = ip

instance (localIP : Option Bytes) (pkt : Bytes) : Decidable (FromSelf localIP pkt) :=
  inferInstanceAs (Decidable (∀ ip ∈ localIP, _))

/-- **An own frame**: an IPv4 packet has the local address as its source, an ARP packet has the
link's MAC and the local address as its sender pair. -/
def Own (mac : Bytes) (localIP : Option Bytes) (frame : Bytes) : Prop :=
  (u16 frame 12 = etherTypeIPv4 → FromSelf localIP (frame.drop ethernetHeaderLen)) ∧
    (u16 frame 12 = etherTypeARP →
      readAt (frame.drop ethernetHeaderLen) 8 6 = mac ∧
        localIP = some (readAt (frame.drop ethernetHeaderLen) 14 4))

instance (mac : Bytes) (localIP : Option Bytes) (frame : Bytes) : Decidable (Own mac localIP frame) :=
  inferInstanceAs (Decidable (_ ∧ _))

section
variable {mac payload frame dst src pkt : Bytes} {localIP : Option Bytes}

theorem marshalEthernet_eq_ok {etherType : UInt16}
    (h : marshalEthernet dst src etherType payload = .ok frame) :
    u16 frame 12 = etherType ∧ frame.drop ethernetHeaderLen = payload := by
  unfold marshalEthernet at h
  split_ifs at h with hmac hlen
  rw [not_or, not_not, not_not] at hmac
  cases h
  have htwelve : (dst ++ src).length = 12 := by rw [List.length_append, hmac.1, hmac.2]
  constructor
  · rw [List.append_assoc, ← htwelve]
    exact (u16_append _ _ 0).trans (u16_putU16 _ _)
  · have hfourteen : (dst ++ src ++ putU16 etherType).length = ethernetHeaderLen := by
      rw [List.length_append, htwelve]
      rfl
    rw [← hfourteen, List.drop_left]

theorem own_ipv4 (h : marshalEthernet dst src etherTypeIPv4 pkt = .ok frame)
    (hpkt : FromSelf localIP pkt) : Own mac localIP frame := by
  obtain ⟨htype, hdrop⟩ := marshalEthernet_eq_ok h
  refine ⟨fun _ => hdrop ▸ hpkt, fun harp => ?_⟩
  rw [htype] at harp
  exact absurd harp (by decide)

theorem src_ipv4Packet {s4 : Bytes} (h : s4.length = 4) (d4 : Bytes) (protocol : UInt8) (id : UInt16)
    (payload : Bytes) (cksum : UInt16) :
    (ipv4Fields (ipv4Packet s4 d4 protocol id payload cksum)).src = s4 := by
  rw [ipv4Packet, List.append_assoc, List.append_assoc]
  have hmiddle := readAt_middle ([0x45, 0] ++ putU16 (UInt16.ofNat (ipv4HeaderLen + payload.length)) ++
    putU16 id ++ putU16 0x4000 ++ [ipv4DefaultTTL, protocol] ++ putU16 cksum) s4 (d4 ++ payload)
  rw [h] at hmiddle
  exact hmiddle

theorem fromSelf_marshalIPv4 {protocol : UInt8} {id : UInt16}
    (h : marshalIPv4 src dst protocol id payload = .ok pkt)
    (hsrc : ∀ ip ∈ localIP, to4 src = some ip) : FromSelf localIP pkt := by
  intro ip hip
  rw [marshalIPv4, hsrc ip hip] at h
  cases hd : to4 dst with
  | none =>
    rw [hd] at h
    cases h
  | some d4 =>
    rw [hd] at h
    dsimp only at h
    split_ifs at h with hmtu
    cases h
    exact src_ipv4Packet (to4_length (hsrc ip hip)) _ _ _ _ _

variable {ip tha tpa : Bytes} {op : UInt16}

theorem sender_buildARPPacket (h : Stack.buildARPPacket op mac ip tha tpa = .ok pkt) :
    readAt pkt 8 6 = mac ∧ to4 ip = some (readAt pkt 14 4) := by
  unfold Stack.buildARPPacket at h
  split_ifs at h with hmac
  rw [not_or, not_not, not_not] at hmac
  split at h
  next spa4 tpa4 hspa htpa =>
    cases h
    have hlen : spa4.length = 4 := to4_length hspa
    constructor
    · rw [List.append_assoc, List.append_assoc, List.append_assoc, ← hmac.1]
      exact readAt_middle _ mac _
    · have hhead : (putU16 1 ++ putU16 0x0800 ++ [6, 4] ++ putU16 op ++ mac).length = 14 := by
        rw [List.length_append, hmac.1]
        rfl
      rw [hspa, List.append_assoc _ tha, List.append_assoc _ spa4, ← hhead, ← hlen, readAt_middle]
  next => cases h

theorem own_arp (hpkt : Stack.buildARPPacket op mac ip tha tpa = .ok pkt)
    (h : marshalEthernet dst src etherTypeARP pkt = .ok frame)
    (hip : ∀ a, to4 ip = some a → localIP = some a) : Own mac localIP frame := by
  obtain ⟨htype, hdrop⟩ := marshalEthernet_eq_ok h
  obtain ⟨hmac, hspa⟩ := sender_buildARPPacket hpkt
  refine ⟨fun hipv4 => ?_, fun _ => ?_⟩
  · rw [htype] at hipv4
    exact absurd hipv4 (by decide)
  · rw [hdrop]
    exact ⟨hmac, hip _ hspa⟩

end

/-! ## What is sent -/

/-- What sending and receiving leave as it is: the MAC, the routes and the addresses of the
connections. -/
structure Kept (mac : Bytes) (route : RouteTable) (dialed : List Endpoints) (st : Stack) : Prop where
  mac : st.mac = mac
  route : st.route = route
  tcp4Conns : ∀ port c, st.tcp4Conns port = some c → c.endpoints ∈ dialed

variable {dialed : List Endpoints} {mac : Bytes} {route : RouteTable} {st st' : Stack}

theorem Kept.congr (h : Kept mac route dialed st) (hmac : st'.mac = st.mac) (hroute : st'.route = st.route)
    (htcp : st'.tcp4Conns = st.tcp4Conns) : Kept mac route dialed st' :=
  ⟨hmac.trans h.mac, hroute.trans h.route, htcp ▸ h.tcp4Conns⟩

/-- A call that keeps that and, if `q` holds, sends own frames only. -/
structure Emits {α : Type} (q : Prop) (mac : Bytes) (route : RouteTable) (dialed : List Endpoints)
    (o : Outcome α) : Prop where
  kept : Kept mac route dialed o.stack
  own : q → ∀ frame ∈ frames o.effects, Own mac route.localIP frame

/-- The local address is in its short form, and every connection was dialed from it. -/
structure Bound (route : RouteTable) (dialed : List Endpoints) : Prop where
  local_length : ∀ ip ∈ route.localIP, ip.length = 4
  dialed_from : ∀ e ∈ dialed, route.localIP = some e.localIP

namespace Stack

section
variable {α β : Type} {q : Prop} {mac : Bytes} {route : RouteTable} {dialed : List Endpoints}
  {st : Stack}

theorem kept_recvFrame (h : Kept mac route dialed st) : Kept mac route dialed st.recvFrame.2 := by
  unfold recvFrame
  split
  · exact h
  · exact h.congr rfl rfl rfl

theorem kept_setTCP4 (h : Kept mac route dialed st) {e : Option TCP4Entry}
    (he : ∀ c ∈ e, c.endpoints ∈ dialed) (port : UInt16) : Kept mac route dialed (st.setTCP4 port e) := by
  refine ⟨h.mac, h.route, fun p c hc => ?_⟩
  change Function.update st.tcp4Conns port e p = some c at hc
  by_cases hp : p = port
  · rw [hp, Function.update_self] at hc
    exact he c hc
  · rw [Function.update_of_ne hp] at hc
    exact h.tcp4Conns p c hc

variable {c : TCP4Entry}

theorem kept_setConn (h : Kept mac route dialed st) (hc : c.endpoints ∈ dialed) (port : UInt16)
    (conn : TCP4Conn) : Kept mac route dialed (st.setTCP4 port (some { c with conn := conn })) := by
  refine kept_setTCP4 h (fun c' hc' => ?_) port
  cases hc'
  exact hc

/-- If `q` holds, a source is the local address, if there is one. -/
def OwnSource (q : Prop) (localIP : Option Bytes) (src : Bytes) : Prop :=
  q → ∀ ip ∈ localIP, to4 src = some ip

variable {src : Bytes} (hb : Bound route dialed)
include hb

theorem ownSource_of_eq (h : q → ∀ ip ∈ route.localIP, src = ip) : OwnSource q route.localIP src := by
  intro hq ip hip
  rw [h hq ip hip]
  exact to4_of_length (hb.local_length ip hip)

/-- The sender of an ARP packet is the local address: without one, the packet is not built, as the
empty address has no short form. -/
theorem localIP_of_to4 {a : Bytes} (h : to4 (route.localIP.getD []) = some a) : route.localIP = some a := by
  cases hip : route.localIP with
  | none =>
    rw [hip] at h
    cases h
  | some ourIP =>
    rw [hip, Option.getD_some, to4_of_length (hb.local_length ourIP hip)] at h
    exact h

variable {es : List StackEffect} {rs : List Receipt}

theorem emits_move (hmove : Move (OwnSource q route.localIP) True st st' es rs)
    (h : Kept mac route dialed st) :
    Kept mac route dialed st' ∧ (q → ∀ frame ∈ frames es, Own mac route.localIP frame) := by
  cases hmove with
  | learn | take | nextIPID | tables =>
    exact ⟨h.congr rfl rfl rfl, fun _ _ hframe => absurd hframe List.not_mem_nil⟩
  | tell _ he => exact ⟨h, by simp [frames, he]⟩
  | update _ hc conn =>
    exact ⟨kept_setConn h (h.tcp4Conns _ _ hc) _ conn, fun _ _ hframe => absurd hframe List.not_mem_nil⟩
  | sendARP hpkt hframe =>
    rw [h.mac, h.route] at hpkt
    refine ⟨h, fun _ frame' hmem => ?_⟩
    rw [List.mem_singleton.mp hmem]
    exact own_arp hpkt hframe fun a => localIP_of_to4 hb
  | sendIPv4 hsrc hpkt hframe =>
    refine ⟨h, fun hq frame' hmem => ?_⟩
    rw [List.mem_singleton.mp hmem]
    exact own_ipv4 hframe (fromSelf_marshalIPv4 hpkt (hsrc hq))

theorem emits_moves (hmoves : Moves (OwnSource q route.localIP) True st st' es rs)
    (h : Kept mac route dialed st) :
    Kept mac route dialed st' ∧ (q → ∀ frame ∈ frames es, Own mac route.localIP frame) := by
  induction hmoves with
  | refl => exact ⟨h, fun _ _ hframe => absurd hframe List.not_mem_nil⟩
  | cons hmove _ ih =>
    obtain ⟨hkept, hown⟩ := emits_move hb hmove h
    obtain ⟨hkept', hown'⟩ := ih hkept
    refine ⟨hkept', fun hq frame hframe => ?_⟩
    rw [frames, List.filterMap_append, List.mem_append] at hframe
    exact hframe.elim (hown hq frame) (hown' hq frame)

/-- **A call** whose packets are from the local address. -/
theorem emits_of_does (h : Kept mac route dialed st) {o : Outcome α}
    (ho : Does (OwnSource q route.localIP) True st o) : Emits q mac route dialed o :=
  ⟨(emits_moves hb ho h).1, (emits_moves hb ho h).2⟩

theorem ownSource_conn (hc : c.endpoints ∈ dialed) : OwnSource q route.localIP c.localIP := by
  have hlocal : route.localIP = some c.localIP := hb.dialed_from _ hc
  exact ownSource_of_eq hb fun _ ip hip => Option.some.inj (hlocal.symm.trans hip)

theorem emits_sendUDP4 (h : Kept mac route dialed st) (srcPort dstPort : UInt16) (dst payload : Bytes) :
    Emits q mac route dialed (st.sendUDP4 srcPort dstPort dst payload) := by
  refine emits_of_does hb h (does_sendUDP4 trivial (ownSource_of_eq hb fun _ ip hip => ?_) _ _ _ _)
  rw [h.route, hip, Option.getD_some]

theorem emits_sendEcho (h : Kept mac route dialed st)
    (hsrc : route.localIP = some src) (dst4 payload : Bytes) (id seq : UInt16) :
    Emits q mac route dialed (st.sendEcho src dst4 payload id seq) := by
  refine emits_of_does hb h (does_sendEcho (ownSource_of_eq hb fun _ ip hip => ?_) _ _ _ _)
  exact Option.some.inj (hsrc.symm.trans hip)

end

end Stack

/-- The address to which a frame sends an echo request. -/
def echoTarget (frame : Bytes) : Option Bytes := do
  let eth ← (parseEthernet frame).toOption
  guard (eth.etherType = etherTypeIPv4)
  let (h, body) ← (parseIPv4 eth.payload).toOption
  guard (h.protocol = ipProtoICMP)
  let msg ← (parseICMPEcho body).toOption
  guard (msg.type = icmpTypeEchoRequest)
  pure h.dst

theorem echoTarget_eq {frame : Bytes} {eth : EthernetFrame} {r : IPv4Header × Bytes} {msg : ICMPEcho}
    (heth : parseEthernet frame = .ok eth) (htype : eth.etherType = etherTypeIPv4)
    (hr : parseIPv4 eth.payload = .ok r) (hprotocol : r.1.protocol = ipProtoICMP)
    (hmsg : parseICMPEcho r.2 = .ok msg) (hrequest : msg.type = icmpTypeEchoRequest) :
    echoTarget frame = some r.1.dst := by
  simp [echoTarget, heth, htype, hr, hprotocol, hmsg, hrequest, Except.toOption, guard]

namespace Stack

/-- **A received frame** is answered with own frames, unless it is an echo request for another
address. -/
theorem emits_dispatch (hb : Bound route dialed) (h : Kept mac route dialed st) (frame : Bytes) :
    Emits (∀ dst ∈ echoTarget frame, ∀ ip ∈ route.localIP, dst = ip) mac route dialed
      (st.dispatch frame) := by
  unfold dispatch
  cases heth : parseEthernet frame with
  | error e => exact emits_of_does hb h (does_give _)
  | ok eth =>
    rw [andThen_ok]
    split_ifs with harp hipv4
    · exact emits_of_does hb h (does_handleARPFrame st _)
    · have hpacket : Does (OwnSource (∀ dst ∈ echoTarget frame, ∀ ip ∈ route.localIP, dst = ip)
          route.localIP) True st (st.handlePacket eth.payload) := by
        refine does_handlePacket trivial (fun port c hc => ownSource_conn hb (h.tcp4Conns port c hc)) ?_
        intro r msg hr hicmp hmsg hrequest
        refine ownSource_of_eq hb fun hecho => ?_
        exact hecho _ (echoTarget_eq heth hipv4 hr hicmp hmsg hrequest)
      obtain ⟨hkept, hown⟩ := emits_moves hb hpacket h
      exact ⟨hkept, hown⟩
    · exact emits_of_does hb h (does_give _)

end Stack

end TamagoUefi.Net
