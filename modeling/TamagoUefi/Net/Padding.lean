import Mathlib.Data.List.GetD
import TamagoUefi.Net.Stack

/-!
# TamagoUefi.Net.Padding — frames with bytes behind the packet

A link pads short frames with zero bytes.  `ParseIPv4` hands on all that is behind the header, and
each handler has its own rule for what belongs to it: TCP cuts at `TotalLen`, UDP at its `Length`,
ICMP nowhere.

* `getD_pad`: the bytes that the parsers read one by one are the same with and without padding.
* `Exposed` says which padded packets do something else than the packet alone.
* `padding_iff`: those, and no others.
-/

namespace TamagoUefi.Net

open Go Lib Stack

/-! ## Reading a padded packet -/

/-- Zero bytes behind a packet. -/
def pad (p : Bytes) (n : ℕ) : Bytes := p ++ List.replicate n 0

theorem pad_zero (p : Bytes) : pad p 0 = p := List.append_nil p

theorem length_pad (p : Bytes) (n : ℕ) : (pad p n).length = p.length + n := by simp [pad]

theorem getD_pad (p : Bytes) (n k : ℕ) : (pad p n).getD k 0 = p.getD k 0 := by
  unfold pad
  rcases Nat.lt_or_ge k p.length with h | h
  · rw [List.getD_append _ _ _ _ h]
  · rw [List.getD_append_right _ _ _ _ h, List.getD_eq_default _ _ h, List.getD_eq_getElem?_getD,
      List.getElem?_replicate]
    split_ifs <;> rfl

theorem u16_pad (p : Bytes) (n k : ℕ) : u16 (pad p n) k = u16 p k := by
  simp only [u16, getD_pad]

variable {k : ℕ} {p : Bytes}

theorem drop_pad (h : k ≤ p.length) (n : ℕ) :
    (pad p n).drop k = pad (p.drop k) n := List.drop_append_of_le_length h

theorem drop_pad_of_le (h : p.length ≤ k) (n : ℕ) :
    (pad p n).drop k = List.replicate (n - (k - p.length)) 0 := by
  rw [pad, List.drop_append, List.drop_of_length_le h, List.drop_replicate, List.nil_append]

theorem take_pad (h : k ≤ p.length) (n : ℕ) : (pad p n).take k = p.take k :=
  List.take_append_of_le_length h

theorem zeroAt_pad (h : k + 2 ≤ p.length) (n : ℕ) : zeroAt (pad p n) k = pad (zeroAt p k) n := by
  unfold zeroAt pad
  rw [List.set_append_left _ _ (by omega), List.set_append_left _ _ (by rw [List.length_set]; omega)]

/-! ### IPv4 -/

/-- A header that is accepted if it is not longer than the packet. -/
structure HeaderOK (p : Bytes) : Prop where
  version : p.getD 0 0 >>> 4 = 4
  ihl : 5 ≤ ipv4IHL p
  checksum : internetChecksum (zeroAt (p.take ipv4HeaderLen) 10) = u16 p 10

theorem ipv4IHL_pad (p : Bytes) (n : ℕ) : ipv4IHL (pad p n) = ipv4IHL p := by
  simp only [ipv4IHL, getD_pad]

theorem headerOK_pad (h : ipv4HeaderLen ≤ p.length) (n : ℕ) : HeaderOK (pad p n) ↔ HeaderOK p := by
  constructor
  · rintro ⟨h₁, h₂, h₃⟩
    rw [getD_pad] at h₁
    rw [ipv4IHL_pad] at h₂
    rw [u16_pad, take_pad h] at h₃
    exact ⟨h₁, h₂, h₃⟩
  · rintro ⟨h₁, h₂, h₃⟩
    refine ⟨?_, ?_, ?_⟩
    · rwa [getD_pad]
    · rwa [ipv4IHL_pad]
    · rwa [u16_pad, take_pad h]

theorem ipv4Fields_pad (h : ipv4HeaderLen ≤ p.length) (n : ℕ) : ipv4Fields (pad p n) = ipv4Fields p := by
  have hlen : 20 ≤ p.length := h
  have hsrc : ((pad p n).drop 12).take 4 = (p.drop 12).take 4 := by
    rw [drop_pad (by omega), take_pad (by rw [List.length_drop]; omega)]
  have hdst : ((pad p n).drop 16).take 4 = (p.drop 16).take 4 := by
    rw [drop_pad (by omega), take_pad (by rw [List.length_drop]; omega)]
  simp only [ipv4Fields, getD_pad, u16_pad, hsrc, hdst]

/-- **What `ParseIPv4` accepts.** -/
theorem parseIPv4_eq_ok {r : IPv4Header × Bytes} :
    parseIPv4 p = .ok r ↔ ipv4HeaderLen ≤ p.length ∧ HeaderOK p ∧ ipv4IHL p * 4 ≤ p.length ∧
      r = (ipv4Fields p, p.drop ipv4HeaderLen) := by
  unfold parseIPv4
  constructor
  · intro h
    split_ifs at h with h₁ h₂ h₃ h₄ h₅
    exact ⟨Nat.le_of_not_lt h₁, ⟨not_not.mp h₂, Nat.le_of_not_lt h₃, not_not.mp h₅⟩,
      Nat.le_of_not_lt h₄, (Except.ok.inj h).symm⟩
  · rintro ⟨h₁, ⟨h₂, h₃, h₄⟩, h₅, rfl⟩
    rw [if_neg (Nat.not_lt.mpr h₁), if_neg (not_not.mpr h₂), if_neg (Nat.not_lt.mpr h₃),
      if_neg (Nat.not_lt.mpr h₅), if_neg (not_not.mpr h₄)]

variable {h : IPv4Header}

theorem header_of_parseIPv4 {body : Bytes} (hp : parseIPv4 p = .ok (h, body)) : h = ipv4Fields p := by
  obtain ⟨-, -, -, hres⟩ := parseIPv4_eq_ok.mp hp
  exact congrArg Prod.fst hres

/-! ### UDP and ICMP -/

variable {b : Bytes} {r : UDP4Header × Bytes} {dst src : Bytes}

theorem parseUDP4_eq_ok :
    parseUDP4 src dst b = .ok r ↔ udp4HeaderLen ≤ (u16 b 4).toNat ∧ (u16 b 4).toNat ≤ b.length ∧
      (u16 b 6 = 0 ∨ udp4Checksum src dst (zeroAt (b.take (u16 b 4).toNat) 6) = u16 b 6) ∧
      r = (⟨u16 b 0, u16 b 2, u16 b 4, u16 b 6⟩, (b.take (u16 b 4).toNat).drop udp4HeaderLen) := by
  unfold parseUDP4
  constructor
  · intro h
    simp only at h
    split_ifs at h with h₁ h₂ h₃
    push Not at h₂
    refine ⟨h₂.1, h₂.2, ?_, (Except.ok.inj h).symm⟩
    by_cases hc : u16 b 6 = 0
    · exact .inl hc
    · exact .inr (not_not.mp fun hne => h₃ ⟨hc, hne⟩)
  · rintro ⟨h₁, h₂, h₃, rfl⟩
    simp only
    rw [if_neg (by omega), if_neg (by omega), if_neg]
    rintro ⟨hc, hne⟩
    exact h₃.elim hc hne

/-- UDP cuts at its `Length`, so padding matters only to a `Length` beyond the packet. -/
theorem parseUDP4_pad (n : ℕ) (h : (u16 b 4).toNat ≤ b.length) :
    parseUDP4 src dst (pad b n) = .ok r ↔ parseUDP4 src dst b = .ok r := by
  rw [parseUDP4_eq_ok, parseUDP4_eq_ok]
  simp only [u16_pad, take_pad h, length_pad]
  have : (u16 b 4).toNat ≤ b.length + n ↔ (u16 b 4).toNat ≤ b.length :=
    ⟨fun _ => h, fun h => h.trans (Nat.le_add_right _ _)⟩
  rw [this]

variable {m : ICMPEcho}

theorem parseICMPEcho_eq_ok :
    parseICMPEcho b = .ok m ↔ icmpHeaderLen ≤ b.length ∧ internetChecksum (zeroAt b 2) = u16 b 2 ∧
      m = ⟨b.getD 0 0, b.getD 1 0, u16 b 2, u16 b 4, u16 b 6, b.drop icmpHeaderLen⟩ := by
  unfold parseICMPEcho
  constructor
  · intro h
    split_ifs at h with h₁ h₂
    exact ⟨Nat.le_of_not_lt h₁, not_not.mp h₂, (Except.ok.inj h).symm⟩
  · rintro ⟨h₁, h₂, rfl⟩
    rw [if_neg (Nat.not_lt.mpr h₁), if_neg (not_not.mpr h₂)]

/-- ICMP takes the padding for part of the message, and the checksum does not show it. -/
theorem parseICMPEcho_pad (n : ℕ) (h : icmpHeaderLen ≤ b.length) :
    parseICMPEcho (pad b n) = .ok m ↔
      ∃ m₀, parseICMPEcho b = .ok m₀ ∧ m = { m₀ with payload := pad m₀.payload n } := by
  have hlen : 8 ≤ b.length := h
  rw [parseICMPEcho_eq_ok]
  simp only [parseICMPEcho_eq_ok, u16_pad, getD_pad, length_pad, drop_pad h, zeroAt_pad (show 2 + 2 ≤ b.length by omega)]
  rw [pad, internetChecksum_append_zeros]
  constructor
  · rintro ⟨-, hck, rfl⟩
    exact ⟨_, ⟨h, hck, rfl⟩, rfl⟩
  · rintro ⟨m₀, ⟨-, hck, rfl⟩, rfl⟩
    exact ⟨by omega, hck, rfl⟩

theorem parseICMPEcho_zeros (n : ℕ) : ∀ m, parseICMPEcho (List.replicate n 0) ≠ .ok m := by
  intro m hm
  obtain ⟨-, hck, -⟩ := parseICMPEcho_eq_ok.mp hm
  have hzero : zeroAt (List.replicate n 0) 2 = List.replicate n 0 := by
    rw [zeroAt, List.set_replicate_self, List.set_replicate_self]
  have hfield : u16 (List.replicate n 0) 2 = 0 := u16_pad [] n 2
  rw [hzero, hfield, internetChecksum, wordSum_replicate_zero, foldCarry_eq (by decide)] at hck
  exact absurd hck (by decide)

theorem parseUDP4_zeros (src dst : Bytes) (n : ℕ) : ∀ r, parseUDP4 src dst (List.replicate n 0) ≠ .ok r := by
  intro r hr
  obtain ⟨hlen, -⟩ := parseUDP4_eq_ok.mp hr
  have hfield : u16 (List.replicate n 0) 4 = 0 := u16_pad [] n 4
  rw [hfield] at hlen
  exact absurd hlen (by decide)

/-! ## Effects -/

/-- The same effects, and the same stack but for the counter of identifications. -/
structure Same (o o' : Outcome Unit) : Prop where
  effects : o.effects = o'.effects
  stack : { o.stack with ipID := 0 } = { o'.stack with ipID := 0 }

theorem Same.refl (o : Outcome Unit) : Same o o := ⟨rfl, rfl⟩

/-- Notes do not count. -/
theorem same_note_iff {o o' : Outcome Unit} {r r' : Receipt} : Same (o.note r) (o'.note r') ↔ Same o o' :=
  ⟨fun h => ⟨h.effects, h.stack⟩, fun h => ⟨h.effects, h.stack⟩⟩

theorem Same.trans_symm {o o' s : Outcome Unit} (h : Same o s) (h' : Same o' s) : Same o o' :=
  ⟨h.effects.trans h'.effects.symm, h.stack.trans h'.stack.symm⟩

namespace Stack

/-- Nothing happens. -/
def Silent (st : Stack) (o : Outcome Unit) : Prop := Same o st.done

theorem silent_done (st : Stack) : st.Silent st.done := .refl _

variable {α : Type} {f : Stack → α → Outcome Unit}

theorem andThen_ok (st : Stack) (a : α) : (st.give (.ok a)).andThen f = f st a := rfl

theorem dispatch_ipv4 (st : Stack) {frame : Bytes} {eth : EthernetFrame}
    (heth : parseEthernet frame = .ok eth) (htype : eth.etherType = etherTypeIPv4) :
    st.dispatch frame = st.handleIPv4 eth.payload := by
  have hne : eth.etherType ≠ etherTypeARP := by
    rw [htype]
    decide
  rw [dispatch, heth, andThen_ok, if_neg hne, if_pos htype]

theorem silent_give (st : Stack) {r : Except NetErr α} (h : ∀ a, r = .ok a → st.Silent (f st a)) :
    st.Silent ((st.give r).andThen f) := by
  cases r with
  | error e => exact ⟨rfl, rfl⟩
  | ok a => exact h a rfl

theorem same_give {st : Stack} {r r' : Except NetErr α} (h : ∀ a, r = .ok a ↔ r' = .ok a) :
    Same ((st.give r).andThen f) ((st.give r').andThen f) := by
  cases r' with
  | ok a => rw [(h a).mpr rfl]; exact .refl _
  | error e =>
    have hsilent := silent_give (f := f) st fun a ha => nomatch (h a).mp ha
    exact ⟨hsilent.effects, hsilent.stack⟩

section
variable (src dst : Bytes) (ipID id seq : UInt16) {payload : Bytes}

theorem marshalICMPEcho_length (type : UInt8) :
    (marshalICMPEcho type id seq payload).length = 8 + payload.length := by
  simp [marshalICMPEcho, icmpPacket]
  omega

theorem buildEchoReplyPacket_long (h : ipv4MTU < 28 + payload.length) :
    ∀ pkt, buildEchoReplyPacket src dst ipID id seq payload ≠ .ok pkt := by
  intro pkt hpkt
  unfold buildEchoReplyPacket marshalIPv4 at hpkt
  rw [marshalICMPEcho_length] at hpkt
  split at hpkt
  · rw [if_pos (by unfold ipv4HeaderLen; omega)] at hpkt
    cases hpkt
  · cases hpkt

theorem buildEchoReplyPacket_short (hs : src.length = 4) (hd : dst.length = 4)
    (h : 28 + payload.length ≤ ipv4MTU) :
    ∃ pkt, buildEchoReplyPacket src dst ipID id seq payload = .ok pkt ∧
      pkt.length = 28 + payload.length := by
  unfold buildEchoReplyPacket marshalIPv4
  rw [to4_of_length hs, to4_of_length hd, marshalICMPEcho_length]
  simp only
  rw [if_neg (by unfold ipv4HeaderLen; omega)]
  refine ⟨_, rfl, ?_⟩
  simp [ipv4Packet, marshalICMPEcho_length, hs, hd]
  omega

end

/-- An echo that has no effect: neither reply nor request, or a request too long to answer. -/
theorem silent_handleEcho (st : Stack) (h : IPv4Header) (hreply : m.type ≠ icmpTypeEchoReply)
    (hrequest : m.type = icmpTypeEchoRequest → ipv4MTU < 28 + m.payload.length) :
    st.Silent (st.handleEcho h m) := by
  unfold handleEcho
  rw [if_neg hreply]
  split_ifs with hreq
  · -- the identification is used up all the same
    have hlong := buildEchoReplyPacket_long h.dst h.src st.ipID m.identifier m.sequence (hrequest hreq)
    have hsilent : Same _ st.nextIPID.2.done := silent_give (f := fun st reply => st.sendIPv4Frame h.src reply)
      st.nextIPID.2 fun reply hr => absurd hr (hlong reply)
    exact ⟨hsilent.effects, hsilent.stack⟩
  · exact st.silent_done

/-! ## A stack on which everything shows -/

/-- Every address is on the link and known, every port is bound and every ping awaited. -/
def attentive (id : UInt16) : Stack where
  closed := false
  mac := List.replicate 6 0
  route := ⟨some [0, 0, 0, 0], some [0, 0, 0, 0], none⟩
  arpCache _ := some (some (List.replicate 6 0))
  pings _ := some ⟨none⟩
  udp4Conns _ := some ⟨false, []⟩
  tcp4Conns _ := none
  ipID := id
  arpRounds := 0
  polls := []
  sendErr _ := none

theorem attentive_lookup (id : UInt16) (h : dst.length = 4) : (attentive id).route.lookup dst = .ok dst := by
  match dst, h with
  | [a, b, c, d], _ => simp [attentive, RouteTable.lookup, to4, subnetContains]

theorem attentive_sendIPv4Frame (id : UInt16) {pkt : Bytes} (h : dst.length = 4)
    (hpkt : pkt.length ≤ ipv4MTU) : ((attentive id).sendIPv4Frame dst pkt).effects =
      [.sent (List.replicate 6 0 ++ List.replicate 6 0 ++ putU16 etherTypeIPv4 ++ pkt)] := by
  have hopen : ¬ (attentive id).closed = true := Bool.false_ne_true
  have harp : (attentive id).resolveARP dst = (attentive id).give (.ok (List.replicate 6 0)) := by
    simp [resolveARP, to4_of_length h, attentive]
  have hmac : ¬ ((List.replicate 6 (0 : UInt8)).length ≠ 6 ∨ (attentive id).mac.length ≠ 6) := by
    simp [attentive]
  have hlong : ¬ maxFrameLen < ethernetHeaderLen + pkt.length := by
    simp only [maxFrameLen, ethernetHeaderLen, ipv4MTU] at *
    omega
  unfold sendIPv4Frame
  rw [if_neg hopen, attentive_lookup id h, andThen_ok, harp, andThen_ok, marshalEthernet, if_neg hmac,
    if_neg hlong, andThen_ok]
  rfl

theorem attentive_request (id : UInt16) (hsrc : h.src.length = 4) (hdst : h.dst.length = 4)
    (hm : m.type = icmpTypeEchoRequest) (hfit : 28 + m.payload.length ≤ ipv4MTU) :
    ∃ frame, ((attentive id).handleEcho h m).effects = [.sent frame] ∧
      frame.length = 42 + m.payload.length := by
  obtain ⟨pkt, hpkt, hlen⟩ := buildEchoReplyPacket_short _ _ id m.identifier m.sequence hdst hsrc hfit
  have hsent := attentive_sendIPv4Frame (id + 1) hsrc (hlen ▸ hfit)
  refine ⟨List.replicate 6 0 ++ List.replicate 6 0 ++ putU16 etherTypeIPv4 ++ pkt, ?_, ?_⟩
  · unfold handleEcho
    rw [if_neg (by rw [hm]; decide), if_pos hm]
    have hnext : (attentive id).nextIPID = (id, attentive (id + 1)) := rfl
    rw [hnext]
    simp only
    rw [hpkt, andThen_ok]
    exact hsent
  · simp [hlen]
    omega

theorem attentive_reply (id : UInt16) (h : IPv4Header) (hm : m.type = icmpTypeEchoReply) :
    ((attentive id).handleEcho h m).effects = [.woken (pingKey m.identifier m.sequence) m] := by
  unfold handleEcho
  rw [if_pos hm]
  rfl

end Stack

/-! ## What padding exposes -/

/-- The packet alone is not read as an ICMP message: its options are cut off, or the message is. -/
def Unread (p : Bytes) : Prop :=
  p.length < ipv4IHL p * 4 ∨ (p.drop ipv4HeaderLen).length < icmpHeaderLen

instance (p : Bytes) : Decidable (Unread p) := inferInstanceAs (Decidable (_ ∨ _))

/-- The padded body is an echo reply, or a request that is answered with or without padding. -/
def ExposedICMP (p : Bytes) (n : ℕ) : Prop :=
  0 < n ∧ ∃ m, parseICMPEcho (pad (p.drop ipv4HeaderLen) n) = .ok m ∧
    (m.type = icmpTypeEchoReply ∨
      m.type = icmpTypeEchoRequest ∧ (if Unread p then p.length + n else p.length) ≤ ipv4MTU)

/-- The padded body is a datagram, and the packet alone is cut off: its options, or the datagram. -/
def ExposedUDP (p : Bytes) (n : ℕ) : Prop :=
  (p.length < ipv4IHL p * 4 ∨
    (p.drop ipv4HeaderLen).length < (u16 (p.drop ipv4HeaderLen) 4).toNat) ∧
  ∃ r, parseUDP4 (ipv4Fields p).src (ipv4Fields p).dst (pad (p.drop ipv4HeaderLen) n) = .ok r

/-- The body is a segment, and the options of the packet alone are cut off. -/
def ExposedTCP (p : Bytes) : Prop :=
  p.length < ipv4IHL p * 4 ∧
    ∃ r, parseTCP4 (ipv4Fields p).src (ipv4Fields p).dst (p.drop ipv4HeaderLen) = .ok r

/-- The packets that padding makes something else. -/
structure Exposed (p : Bytes) (n : ℕ) : Prop where
  length : ipv4HeaderLen ≤ p.length
  header : HeaderOK p
  ihl : ipv4IHL p * 4 ≤ p.length + n
  body : (ipv4Fields p).protocol = ipProtoICMP ∧ ExposedICMP p n ∨
    (ipv4Fields p).protocol = ipProtoUDP ∧ ExposedUDP p n ∨
    (ipv4Fields p).protocol = ipProtoTCP ∧ ExposedTCP p

section
variable {p : Bytes} {n : ℕ}

theorem addr_length (h : ipv4HeaderLen ≤ p.length) :
    (ipv4Fields p).src.length = 4 ∧ (ipv4Fields p).dst.length = 4 := by
  have : 20 ≤ p.length := h
  simp only [ipv4Fields, List.length_take, List.length_drop]
  omega

theorem handlePacket_pad (st : Stack) (h : ipv4HeaderLen ≤ p.length) (hok : HeaderOK p)
    (hihl : ipv4IHL p * 4 ≤ p.length + n) :
    st.handlePacket (pad p n) = st.handleProtocol (ipv4Fields p) (pad (p.drop ipv4HeaderLen) n) := by
  have hparse : parseIPv4 (pad p n) = .ok (ipv4Fields p, pad (p.drop ipv4HeaderLen) n) := by
    rw [parseIPv4_eq_ok, length_pad, headerOK_pad h, ipv4IHL_pad, ipv4Fields_pad h, drop_pad h]
    exact ⟨by omega, hok, hihl, rfl⟩
  rw [handlePacket, hparse]
  rfl

theorem handlePacket_alone (st : Stack) (h : ipv4HeaderLen ≤ p.length) (hok : HeaderOK p)
    (hihl : ipv4IHL p * 4 ≤ p.length) :
    st.handlePacket p = st.handleProtocol (ipv4Fields p) (p.drop ipv4HeaderLen) := by
  have hpad := handlePacket_pad (n := 0) st h hok hihl
  rwa [pad_zero, pad_zero] at hpad

theorem silent_handlePacket (st : Stack) (h : ¬ (HeaderOK p ∧ ipv4IHL p * 4 ≤ p.length)) :
    st.Silent (st.handlePacket p) := by
  refine silent_give st fun r hr => absurd ?_ h
  obtain ⟨-, hok, hihl, -⟩ := parseIPv4_eq_ok.mp hr
  exact ⟨hok, hihl⟩

theorem silent_handleProtocol (st : Stack) (h : IPv4Header) (hicmp : ∀ m, parseICMPEcho b ≠ .ok m)
    (hudp : ∀ r, parseUDP4 h.src h.dst b ≠ .ok r)
    (htcp : h.totalLen.toNat < ipv4HeaderLen) : st.Silent (st.handleProtocol h b) := by
  unfold handleProtocol
  split_ifs
  · exact silent_give st fun m hm => absurd hm (hicmp m)
  · exact silent_give st fun r hr => absurd hr (hudp r)
  · unfold handleTCP4
    rw [if_pos htcp]
    exact st.silent_done
  · exact st.silent_done

/-- A packet that is shorter than its header can be completed by padding, but has no body. -/
theorem silent_short (st : Stack) (hp : (u16 p 2).toNat = p.length) (hshort : p.length < ipv4HeaderLen)
    (n : ℕ) : st.Silent (st.handlePacket (pad p n)) := by
  refine silent_give st fun r hr => ?_
  obtain ⟨-, -, -, rfl⟩ := parseIPv4_eq_ok.mp hr
  rw [drop_pad_of_le hshort.le]
  refine silent_handleProtocol st _ (parseICMPEcho_zeros _) (parseUDP4_zeros _ _ _) ?_
  change (u16 (pad p n) 2).toNat < _
  rwa [u16_pad, hp]

theorem handleProtocol_udp (st : Stack) (hproto : h.protocol = ipProtoUDP) (b : Bytes) :
    st.handleProtocol h b = st.handleUDP4 h b := by
  unfold handleProtocol
  rw [if_neg (by rw [hproto]; decide), if_pos hproto]

theorem handleProtocol_tcp (st : Stack) (hproto : h.protocol = ipProtoTCP) (b : Bytes) :
    st.handleProtocol h b = st.handleTCP4 h b := by
  unfold handleProtocol
  rw [if_neg (by rw [hproto]; decide), if_neg (by rw [hproto]; decide), if_pos hproto]

/-- TCP cuts at `TotalLen`. -/
theorem handleTCP4_pad (st : Stack) (hp : (u16 p 2).toNat = p.length) (hlen : ipv4HeaderLen ≤ p.length) :
    st.handleTCP4 (ipv4Fields p) (pad (p.drop ipv4HeaderLen) n) =
      (st.give (parseTCP4 (ipv4Fields p).src (ipv4Fields p).dst (p.drop ipv4HeaderLen))).andThen
        fun st r => st.acceptSegment (ipv4Fields p) r.1 r.2 := by
  have htotal : (ipv4Fields p).totalLen.toNat = p.length := hp
  have htake : (pad (p.drop ipv4HeaderLen) n).take (p.length - ipv4HeaderLen) = p.drop ipv4HeaderLen := by
    rw [← List.length_drop, take_pad (Nat.le_refl _), List.take_length]
  unfold handleTCP4
  simp only [htotal]
  rw [if_neg (Nat.not_lt.mpr hlen), if_neg (by rw [length_pad, List.length_drop]; omega), htake]

/-- The connection that a segment belongs to. -/
def Stack.connected (h : IPv4Header) (th : ParsedTCP4) : Stack :=
  { attentive 0 with tcp4Conns := fun _ => some ⟨h.dst, th.dstPort, h.src, th.srcPort, .dialed 0⟩ }

theorem connected_acceptSegment (h : IPv4Header) (th : ParsedTCP4) (payload : Bytes) :
    ((connected h th).acceptSegment h th payload).effects ≠ [] := by
  have hsame : ¬ (ipEqual h.src h.src = false ∨ th.srcPort ≠ th.srcPort) := by simp [ipEqual]
  simp only [acceptSegment, connected]
  rw [if_neg hsame]
  exact List.cons_ne_nil _ _

/-! ### ICMP -/

section
variable (hlen : ipv4HeaderLen ≤ p.length) (hok : HeaderOK p)
include hlen hok

theorem handlePacket_icmp (st : Stack) (hproto : (ipv4Fields p).protocol = ipProtoICMP)
    (hihl : ipv4IHL p * 4 ≤ p.length + n) : st.handlePacket (pad p n) =
      st.handleICMP (ipv4Fields p) (pad (p.drop ipv4HeaderLen) n) := by
  rw [handlePacket_pad st hlen hok hihl, handleProtocol, if_pos hproto]

theorem silent_unread (st : Stack) (hproto : (ipv4Fields p).protocol = ipProtoICMP) (h : Unread p) :
    st.Silent (st.handlePacket p) := by
  by_cases hihl : ipv4IHL p * 4 ≤ p.length
  · rw [handlePacket_alone st hlen hok hihl, handleProtocol, if_pos hproto]
    refine silent_give st fun m hm => ?_
    obtain ⟨hb, -⟩ := parseICMPEcho_eq_ok.mp hm
    exact absurd hb (Nat.not_le.mpr (h.resolve_left (Nat.not_lt.mpr hihl)))
  · exact silent_handlePacket st fun h => hihl h.2

theorem silent_cut (st : Stack) (hproto : (ipv4Fields p).protocol = ipProtoUDP) (hcut : p.length < ipv4IHL p * 4 ∨
      (p.drop ipv4HeaderLen).length < (u16 (p.drop ipv4HeaderLen) 4).toNat) :
    st.Silent (st.handlePacket p) := by
  by_cases hihl : ipv4IHL p * 4 ≤ p.length
  · rw [handlePacket_alone st hlen hok hihl, handleProtocol_udp st hproto]
    refine silent_give st fun r hr => ?_
    obtain ⟨-, hle, -⟩ := parseUDP4_eq_ok.mp hr
    exact absurd hle (Nat.not_le.mpr (hcut.resolve_left (Nat.not_lt.mpr hihl)))
  · exact silent_handlePacket st fun h => hihl h.2

theorem handlePacket_read (st : Stack) (hproto : (ipv4Fields p).protocol = ipProtoICMP) (h : ¬ Unread p) :
    st.handlePacket p = st.handleICMP (ipv4Fields p) (p.drop ipv4HeaderLen) := by
  have hihl : ipv4IHL p * 4 ≤ p.length := Nat.le_of_not_lt fun hlt => h (.inl hlt)
  rw [handlePacket_alone st hlen hok hihl, handleProtocol, if_pos hproto]

end

theorem payload_length (hlen : ipv4HeaderLen ≤ p.length)
    (hm : parseICMPEcho (pad (p.drop ipv4HeaderLen) n) = .ok m) : 28 + m.payload.length = p.length + n := by
  have h20 : 20 ≤ p.length := hlen
  obtain ⟨h8, -, rfl⟩ := parseICMPEcho_eq_ok.mp hm
  simp only [length_pad, List.length_drop, icmpHeaderLen, ipv4HeaderLen] at *
  omega

section
variable (hlen : ipv4HeaderLen ≤ p.length) (hok : HeaderOK p) (hihl : ipv4IHL p * 4 ≤ p.length + n)
include hlen hok hihl

theorem same_icmp (st : Stack) (hproto : (ipv4Fields p).protocol = ipProtoICMP) (hno : ¬ ExposedICMP p n) :
    Same (st.handlePacket (pad p n)) (st.handlePacket p) := by
  rcases Nat.eq_zero_or_pos n with rfl | hn
  · rw [pad_zero]
    exact .refl _
  -- nothing is answered, with padding and without it
  have hquiet : ∀ m, parseICMPEcho (pad (p.drop ipv4HeaderLen) n) = .ok m →
      m.type ≠ icmpTypeEchoReply ∧
        (m.type = icmpTypeEchoRequest → ipv4MTU < if Unread p then p.length + n else p.length) := by
    intro m hm
    refine ⟨fun hreply => hno ⟨hn, m, hm, .inl hreply⟩, fun hreq => Nat.lt_of_not_le fun hle => ?_⟩
    exact hno ⟨hn, m, hm, .inr ⟨hreq, hle⟩⟩
  have hpad : st.Silent (st.handlePacket (pad p n)) := by
    rw [handlePacket_icmp hlen hok st hproto hihl]
    refine silent_give st fun m hm => ?_
    obtain ⟨hreply, hreq⟩ := hquiet m hm
    refine silent_handleEcho st _ hreply fun h => ?_
    have hlong := hreq h
    rw [payload_length hlen hm]
    split_ifs at hlong
    · exact hlong
    · omega
  refine hpad.trans_symm ?_
  by_cases hun : Unread p
  · exact silent_unread hlen hok st hproto hun
  · rw [handlePacket_read hlen hok st hproto hun]
    have hb : icmpHeaderLen ≤ (p.drop ipv4HeaderLen).length := Nat.le_of_not_lt fun h => hun (.inr h)
    refine silent_give st fun m hm => ?_
    obtain ⟨hreply, hreq⟩ := hquiet _ ((parseICMPEcho_pad n hb).mpr ⟨m, hm, rfl⟩)
    refine silent_handleEcho st _ hreply fun h => ?_
    have hlong := hreq h
    rw [if_neg hun] at hlong
    have hpay := payload_length (n := 0) hlen ((parseICMPEcho_pad 0 hb).mpr ⟨m, hm, rfl⟩)
    simp only [length_pad, Nat.add_zero] at hpay
    omega

/-- An exposed message shows on the attentive stack. -/
theorem differs_icmp (hproto : (ipv4Fields p).protocol = ipProtoICMP) (hex : ExposedICMP p n) :
    ((attentive 0).handlePacket (pad p n)).effects ≠ ((attentive 0).handlePacket p).effects := by
  obtain ⟨hn, m, hm, hshown⟩ := hex
  obtain ⟨hsrc, hdst⟩ := addr_length hlen
  have hpay := payload_length hlen hm
  rw [handlePacket_icmp hlen hok _ hproto hihl, handleICMP, hm, andThen_ok]
  by_cases hun : Unread p
  · rw [(silent_unread hlen hok _ hproto hun).effects]
    rcases hshown with hreply | ⟨hreq, hfit⟩
    · rw [attentive_reply _ _ hreply]
      exact List.cons_ne_nil _ _
    · rw [if_pos hun, ← hpay] at hfit
      obtain ⟨frame, hframe, -⟩ := attentive_request 0 hsrc hdst hreq hfit
      rw [hframe]
      exact List.cons_ne_nil _ _
  · have hb : icmpHeaderLen ≤ (p.drop ipv4HeaderLen).length := Nat.le_of_not_lt fun h => hun (.inr h)
    obtain ⟨m₀, hm₀, heq⟩ := (parseICMPEcho_pad n hb).mp hm
    have htype : m₀.type = m.type := by rw [heq]
    have hgrown : m.payload.length = m₀.payload.length + n := by rw [heq, length_pad]
    rw [handlePacket_read hlen hok _ hproto hun, handleICMP, hm₀, andThen_ok]
    rcases hshown with hreply | ⟨hreq, hfit⟩
    · rw [attentive_reply _ _ hreply, attentive_reply _ _ (htype.trans hreply)]
      intro hwoken
      have hmsg : m = m₀ := (StackEffect.woken.inj (List.cons.inj hwoken).1).2
      rw [hmsg] at hgrown
      omega
    · rw [if_neg hun] at hfit
      obtain ⟨frame₀, hframe₀, hlen₀⟩ := attentive_request 0 hsrc hdst (htype.trans hreq) (by omega)
      rw [hframe₀]
      by_cases hlong : p.length + n ≤ ipv4MTU
      · obtain ⟨frame, hframe, hlen₁⟩ := attentive_request 0 hsrc hdst hreq (by omega)
        rw [hframe]
        intro hsent
        rw [StackEffect.sent.inj (List.cons.inj hsent).1] at hlen₁
        omega
      · -- with the padding the answer is too long for the link
        have hsilent := silent_handleEcho (attentive 0) (ipv4Fields p) (m := m)
          (by rw [hreq]; decide) (fun _ => by omega)
        rw [hsilent.effects]
        exact (List.cons_ne_nil _ _).symm

/-! ### UDP -/

theorem same_udp (st : Stack) (hproto : (ipv4Fields p).protocol = ipProtoUDP) (hno : ¬ ExposedUDP p n) :
    Same (st.handlePacket (pad p n)) (st.handlePacket p) := by
  rw [handlePacket_pad st hlen hok hihl, handleProtocol_udp st hproto]
  by_cases hcut : p.length < ipv4IHL p * 4 ∨
      (p.drop ipv4HeaderLen).length < (u16 (p.drop ipv4HeaderLen) 4).toNat
  · refine Same.trans_symm ?_ (silent_cut hlen hok st hproto hcut)
    exact silent_give st fun r hr => absurd ⟨hcut, r, hr⟩ hno
  · push Not at hcut
    rw [handlePacket_alone st hlen hok hcut.1, handleProtocol_udp st hproto]
    exact same_give fun r => parseUDP4_pad n hcut.2

theorem differs_udp (hproto : (ipv4Fields p).protocol = ipProtoUDP) (hex : ExposedUDP p n) :
    ((attentive 0).handlePacket (pad p n)).effects ≠ ((attentive 0).handlePacket p).effects := by
  obtain ⟨hcut, r, hr⟩ := hex
  rw [(silent_cut hlen hok _ hproto hcut).effects, handlePacket_pad _ hlen hok hihl,
    handleProtocol_udp _ hproto, handleUDP4, hr, andThen_ok]
  exact List.cons_ne_nil _ _

/-! ### TCP -/

theorem same_tcp (st : Stack) (hp : (u16 p 2).toNat = p.length)
    (hproto : (ipv4Fields p).protocol = ipProtoTCP) (hno : ¬ ExposedTCP p) :
    Same (st.handlePacket (pad p n)) (st.handlePacket p) := by
  rw [handlePacket_pad st hlen hok hihl, handleProtocol_tcp st hproto, handleTCP4_pad st hp hlen]
  by_cases hcut : p.length < ipv4IHL p * 4
  · refine Same.trans_symm ?_ (silent_handlePacket st fun h => absurd h.2 (Nat.not_le.mpr hcut))
    exact silent_give st fun r hr => absurd ⟨hcut, r, hr⟩ hno
  · rw [handlePacket_alone st hlen hok (Nat.le_of_not_lt hcut), handleProtocol_tcp st hproto,
      ← pad_zero (p.drop ipv4HeaderLen), handleTCP4_pad st hp hlen, pad_zero]
    exact .refl _

theorem differs_tcp (hp : (u16 p 2).toNat = p.length)
    (hproto : (ipv4Fields p).protocol = ipProtoTCP) (hex : ExposedTCP p) :
    ∃ st : Stack, (st.handlePacket (pad p n)).effects ≠ (st.handlePacket p).effects := by
  obtain ⟨hcut, r, hr⟩ := hex
  refine ⟨.connected (ipv4Fields p) r.1, ?_⟩
  have hsilent := silent_handlePacket (.connected (ipv4Fields p) r.1)
    (fun h : HeaderOK p ∧ _ => absurd h.2 (Nat.not_le.mpr hcut))
  rw [hsilent.effects, handlePacket_pad _ hlen hok hihl, handleProtocol_tcp _ hproto,
    handleTCP4_pad _ hp hlen, hr, andThen_ok]
  exact connected_acceptSegment _ _ _

end

end

/-! ## Frames -/

/-- The frame that carries a packet. -/
def etherFrame (dst src pkt : Bytes) : Bytes := dst ++ src ++ putU16 etherTypeIPv4 ++ pkt

theorem parseEthernet_etherFrame (hd : dst.length = 6) (hs : src.length = 6) (pkt : Bytes) :
    parseEthernet (etherFrame dst src pkt) = .ok ⟨dst, src, etherTypeIPv4, pkt⟩ := by
  have hhead : (dst ++ src).length = 12 := by rw [List.length_append, hd, hs]
  have htype : u16 (etherFrame dst src pkt) 12 = etherTypeIPv4 := by
    rw [etherFrame, List.append_assoc, ← hhead]
    exact (u16_append _ _ 0).trans (u16_putU16 _ _)
  have hpayload : (etherFrame dst src pkt).drop ethernetHeaderLen = pkt :=
    List.drop_left' (by rw [List.length_append, hhead]; rfl)
  have hlong : ¬ (etherFrame dst src pkt).length < ethernetHeaderLen := by
    rw [etherFrame, List.length_append, List.length_append, hhead]
    simp [ethernetHeaderLen]
  have hdst : (etherFrame dst src pkt).take 6 = dst := by
    rw [etherFrame, List.append_assoc, List.append_assoc]
    exact List.take_left' hd
  have hsrc : ((etherFrame dst src pkt).drop 6).take 6 = src := by
    rw [etherFrame, List.append_assoc, List.append_assoc, List.drop_left' hd]
    exact List.take_left' hs
  unfold parseEthernet
  rw [if_neg hlong, htype, hpayload, hdst, hsrc]

theorem dispatch_etherFrame (st : Stack) (hd : dst.length = 6) (hs : src.length = 6) (pkt : Bytes) :
    st.dispatch (etherFrame dst src pkt) = st.handleIPv4 pkt :=
  st.dispatch_ipv4 (parseEthernet_etherFrame hd hs pkt) rfl

/-- **What padding changes**: the packets of `Exposed`, and no others. -/
theorem padding_iff {p dst src : Bytes} (n : ℕ) (hp : (u16 p 2).toNat = p.length)
    (hd : dst.length = 6) (hs : src.length = 6) :
    (∀ st : Stack, Same (st.dispatch (etherFrame dst src (pad p n))) (st.dispatch (etherFrame dst src p))) ↔
      ¬ Exposed p n := by
  simp only [dispatch_etherFrame _ hd hs, handleIPv4, same_note_iff]
  constructor
  · rintro hsame ⟨hlen, hok, hihl, ⟨hproto, hex⟩ | ⟨hproto, hex⟩ | ⟨hproto, hex⟩⟩
    · exact differs_icmp hlen hok hihl hproto hex (hsame _).effects
    · exact differs_udp hlen hok hihl hproto hex (hsame _).effects
    · obtain ⟨st, hst⟩ := differs_tcp hlen hok hihl hp hproto hex
      exact hst (hsame st).effects
  · intro hno st
    rcases Nat.lt_or_ge p.length ipv4HeaderLen with hshort | hlen
    · refine (silent_short st hp hshort n).trans_symm (silent_give st fun r hr => ?_)
      exact absurd (parseIPv4_eq_ok.mp hr).1 (Nat.not_le.mpr hshort)
    by_cases hok : HeaderOK p ∧ ipv4IHL p * 4 ≤ p.length + n
    · obtain ⟨hok, hihl⟩ := hok
      by_cases hicmp : (ipv4Fields p).protocol = ipProtoICMP
      · exact same_icmp hlen hok hihl st hicmp fun h => hno ⟨hlen, hok, hihl, .inl ⟨hicmp, h⟩⟩
      by_cases hudp : (ipv4Fields p).protocol = ipProtoUDP
      · exact same_udp hlen hok hihl st hudp fun h => hno ⟨hlen, hok, hihl, .inr (.inl ⟨hudp, h⟩)⟩
      by_cases htcp : (ipv4Fields p).protocol = ipProtoTCP
      · exact same_tcp hlen hok hihl st hp htcp fun h => hno ⟨hlen, hok, hihl, .inr (.inr ⟨htcp, h⟩)⟩
      -- other protocols are ignored
      have hother : ∀ b, st.handleProtocol (ipv4Fields p) b = st.done := fun b => by
        rw [handleProtocol, if_neg hicmp, if_neg hudp, if_neg htcp]
      have hpad : st.Silent (st.handlePacket (pad p n)) := by
        rw [handlePacket_pad st hlen hok hihl, hother]
        exact st.silent_done
      refine hpad.trans_symm ?_
      by_cases hcut : ipv4IHL p * 4 ≤ p.length
      · rw [handlePacket_alone st hlen hok hcut, hother]
        exact st.silent_done
      · exact silent_handlePacket st fun h => hcut h.2
    · refine (silent_handlePacket st fun h => hok ?_).trans_symm
        (silent_handlePacket st fun h => hok ⟨h.1, h.2.trans (Nat.le_add_right _ _)⟩)
      rw [headerOK_pad hlen, ipv4IHL_pad, length_pad] at h
      exact h

/-- A datagram from 10.0.2.2, port 53, to 10.0.2.15, port 49152, without a UDP checksum. -/
def datagram : Bytes :=
  [0x45, 0, 0, 30, 0, 0, 0, 0, 64, 17, 0x62, 0xBF, 10, 0, 2, 2, 10, 0, 2, 15,
    0, 53, 0xC0, 0, 0, 10, 0, 0, 0x68, 0x69]

theorem padding_datagram : (u16 datagram 2).toNat = datagram.length ∧ ∀ st : Stack,
    Same (st.dispatch (etherFrame broadcastMAC broadcastMAC (pad datagram 16)))
      (st.dispatch (etherFrame broadcastMAC broadcastMAC datagram)) := by
  have htotal : (u16 datagram 2).toNat = datagram.length := by decide
  refine ⟨htotal, (padding_iff 16 htotal rfl rfl).mpr ?_⟩
  rintro ⟨-, -, -, ⟨hproto, -⟩ | ⟨-, hcut, -⟩ | ⟨hproto, -⟩⟩
  · exact absurd hproto (by decide)
  · exact absurd hcut (by decide)
  · exact absurd hproto (by decide)

/-- An echo request without data, from 10.0.2.2 to 10.0.2.15. -/
def echoRequest : Bytes :=
  [0x45, 0, 0, 28, 0, 0, 0, 0, 64, 1, 0x62, 0xD1, 10, 0, 2, 2, 10, 0, 2, 15,
    8, 0, 0xF7, 0xFF, 0, 0, 0, 0]

theorem echoRequest_headerOK : HeaderOK echoRequest where
  version := by decide
  ihl := by decide
  checksum := by
    rw [internetChecksum_eq]
    decide

/-- Padded to the shortest frame of an Ethernet, the request is answered with 18 bytes of data. -/
theorem padding_echoRequest : (u16 echoRequest 2).toNat = echoRequest.length ∧
    ¬ Same ((Stack.attentive 0).dispatch (etherFrame broadcastMAC broadcastMAC (pad echoRequest 18)))
      ((Stack.attentive 0).dispatch (etherFrame broadcastMAC broadcastMAC echoRequest)) := by
  refine ⟨by decide, fun hsame => ?_⟩
  rw [dispatch_etherFrame _ rfl rfl, dispatch_etherFrame _ rfl rfl] at hsame
  refine differs_icmp (by decide) echoRequest_headerOK (by decide) (by decide) ?_ hsame.effects
  refine ⟨by decide, _, parseICMPEcho_eq_ok.mpr ⟨by decide, ?_, rfl⟩, .inr ⟨by decide, by decide⟩⟩
  rw [internetChecksum_eq]
  decide

end TamagoUefi.Net
