import TamagoUefi.Net.Ipv4
import TamagoUefi.Net.Tcp4

/-!
# TamagoUefi.Net.Wire — TCP segments, UDP datagrams and ICMP echoes as bytes

The parts of `tcp4.go`, `udp4.go` and `icmp4.go` that write and read bytes.  Writers compute the
checksum over the bytes with a zero in its place; TCP and UDP then write `0xFFFF` for a computed 0.
Readers compute it again in the same way and compare.

* `parseTCP4_marshalTCP4`, `parseUDP4_marshalUDP4`: what a reader makes of what the writer wrote.  It is
  rejected exactly when the computed checksum is 0, that is, when the words that are summed add up to
  a multiple of 65535.
-/

namespace TamagoUefi.Net

open Go Lib

/-! ## The checksum of TCP and UDP -/

def pseudoHeader (s4 d4 : Bytes) (proto : UInt8) (len : ℕ) : Bytes :=
  s4 ++ d4 ++ [0, proto] ++ putU16 (UInt16.ofNat len)

/-- The checksum over a pseudo-header and the bytes of a segment. -/
def l4Checksum (proto : UInt8) (src dst seg : Bytes) : UInt16 :=
  match to4 src, to4 dst with
  | some s4, some d4 => internetChecksum (pseudoHeader s4 d4 proto seg.length ++ seg)
  | _, _ => 0

def tcp4Checksum (src dst tcp : Bytes) : UInt16 := l4Checksum ipProtoTCP src dst tcp

def udp4Checksum (src dst udp : Bytes) : UInt16 := l4Checksum ipProtoUDP src dst udp

/-- A computed checksum of 0 is written as all ones. -/
def wireChecksum (cksum : UInt16) : UInt16 := if cksum = 0 then 0xFFFF else cksum

/-- The reader compares with the computed checksum. -/
theorem wireChecksum_eq_iff (cksum : UInt16) : cksum = wireChecksum cksum ↔ cksum ≠ 0 := by
  unfold wireChecksum
  split_ifs with h
  · simp [h]
  · simp [h]

theorem pseudoHeader_length {s4 d4 : Bytes} (hs : s4.length = 4) (hd : d4.length = 4) (proto : UInt8)
    (len : ℕ) : (pseudoHeader s4 d4 proto len).length = 12 := by
  simp [pseudoHeader, hs, hd]

theorem wordSum_pseudoHeader {s4 d4 : Bytes} (hs : s4.length = 4) (hd : d4.length = 4) (proto : UInt8)
    {len : ℕ} (hlen : len < 65536) :
    wordSum (pseudoHeader s4 d4 proto len) = wordSum s4 + wordSum d4 + proto.toNat + len := by
  rw [pseudoHeader, wordSum_append _ (by simp [hs, hd]), wordSum_append _ (by simp [hs, hd]),
    wordSum_append _ (by simp [hs]), wordSum_putU16, UInt16.toNat_ofNat', Nat.mod_eq_of_lt hlen]
  simp [wordSum]

/-- **When the checksum of a segment is 0.** -/
theorem l4Checksum_eq_zero_iff {src dst s4 d4 : Bytes} (hs : to4 src = some s4) (hd : to4 dst = some d4)
    {proto : UInt8} (hproto : proto ≠ 0) {seg : Bytes} (hlen : seg.length < 65536) :
    l4Checksum proto src dst seg = 0 ↔
      65535 ∣ wordSum s4 + wordSum d4 + proto.toNat + seg.length + wordSum seg := by
  have hs4 := to4_length hs
  have hd4 := to4_length hd
  have hp : 0 < proto.toNat := Nat.pos_of_ne_zero fun h => hproto (UInt8.toNat.inj h)
  have hsum : wordSum (pseudoHeader s4 d4 proto seg.length ++ seg) =
      wordSum s4 + wordSum d4 + proto.toNat + seg.length + wordSum seg := by
    rw [wordSum_append _ (by rw [pseudoHeader_length hs4 hd4]), wordSum_pseudoHeader hs4 hd4 proto hlen]
  unfold l4Checksum
  rw [hs, hd]
  simp only
  rw [internetChecksum_eq_zero_iff (by rw [List.length_append, pseudoHeader_length hs4 hd4]; omega)
    (by omega), hsum]

/-! ## TCP -/

def tcp4HeaderLen : ℕ := 20

/-- All fields of a header. -/
structure ParsedTCP4 extends TCP4Header where
  srcPort : UInt16
  dstPort : UInt16
  dataOffset : UInt8
  checksum : UInt16
  urgent : UInt16
  deriving DecidableEq

def parseTCP4 (src dst pkt : Bytes) : Except NetErr (ParsedTCP4 × Bytes) :=
  if pkt.length < tcp4HeaderLen then .error .tcp4HeaderTooShort
  else
    let dataOff := pkt.getD 12 0 >>> 4
    let hdrLen := dataOff.toNat * 4
    if hdrLen < tcp4HeaderLen ∨ pkt.length < hdrLen then .error .tcp4HeaderTooShort
    else if tcp4Checksum src dst (zeroAt pkt 16) ≠ u16 pkt 16 then .error .tcp4BadChecksum
    else
      .ok (
        { seq := u32 pkt 4
          ack := u32 pkt 8
          flags := pkt.getD 13 0
          window := (u16 pkt 14).toBitVec
          srcPort := u16 pkt 0
          dstPort := u16 pkt 2
          dataOffset := dataOff
          checksum := u16 pkt 16
          urgent := u16 pkt 18 },
        pkt.drop hdrLen)

/-- A segment without options, with a checksum. -/
def tcp4Segment (srcPort dstPort : UInt16) (seq ack : Seq) (flags : UInt8) (window : BitVec 16)
    (payload : Bytes) (cksum : UInt16) : Bytes :=
  putU16 srcPort ++ (putU16 dstPort ++ (putU32 seq ++ (putU32 ack ++ ([0x50, flags] ++
    (putU16 (UInt16.ofBitVec window) ++ (putU16 cksum ++ (putU16 0 ++ payload)))))))

def marshalTCP4 (src dst : Bytes) (srcPort dstPort : UInt16) (seq ack : Seq) (flags : UInt8)
    (window : BitVec 16) (payload : Bytes) : Bytes :=
  let seg := tcp4Segment srcPort dstPort seq ack flags window payload
  seg (wireChecksum (tcp4Checksum src dst (seg 0)))

/-- The words of a segment and its pseudo-header, added up. -/
def tcp4WordSum (s4 d4 : Bytes) (srcPort dstPort : UInt16) (seq ack : Seq) (flags : UInt8)
    (window : BitVec 16) (payload : Bytes) : ℕ :=
  wordSum s4 + wordSum d4 + ipProtoTCP.toNat + (tcp4HeaderLen + payload.length) +
    (srcPort.toNat + dstPort.toNat + (seq.toNat / 65536 + seq.toNat % 65536) +
      (ack.toNat / 65536 + ack.toNat % 65536) + (0x5000 + flags.toNat) + window.toNat + wordSum payload)

section
variable (srcPort dstPort : UInt16) (seq ack : Seq) (flags : UInt8) (window : BitVec 16) (payload : Bytes)
  (cksum : UInt16)

theorem tcp4Segment_length :
    (tcp4Segment srcPort dstPort seq ack flags window payload cksum).length = 20 + payload.length := by
  simp [tcp4Segment, putU32]
  omega

theorem wordSum_tcp4Segment :
    wordSum (tcp4Segment srcPort dstPort seq ack flags window payload 0) =
      srcPort.toNat + dstPort.toNat + (seq.toNat / 65536 + seq.toNat % 65536) +
        (ack.toNat / 65536 + ack.toNat % 65536) + (0x5000 + flags.toNat) + window.toNat +
        wordSum payload := by
  have hflags : wordSum [0x50, flags] = 0x5000 + flags.toNat := rfl
  rw [tcp4Segment, wordSum_append _ (by simp), wordSum_append _ (by simp),
    wordSum_append _ (by simp [putU32]), wordSum_append _ (by simp [putU32]), wordSum_append _ (by simp),
    wordSum_append _ (by simp), wordSum_append _ (by simp), wordSum_append _ (by simp), hflags]
  simp only [wordSum_putU16, wordSum_putU32, UInt16.toNat_ofBitVec, UInt16.toNat_zero]
  omega

theorem zeroAt_tcp4Segment :
    zeroAt (tcp4Segment srcPort dstPort seq ack flags window payload cksum) 16 =
      tcp4Segment srcPort dstPort seq ack flags window payload 0 := rfl

/-- **Reading a segment** that has some checksum. -/
theorem parseTCP4_tcp4Segment (src dst : Bytes) :
    parseTCP4 src dst (tcp4Segment srcPort dstPort seq ack flags window payload cksum) =
      if tcp4Checksum src dst (tcp4Segment srcPort dstPort seq ack flags window payload 0) ≠ cksum then
        .error .tcp4BadChecksum
      else .ok (⟨⟨seq, ack, flags, window⟩, srcPort, dstPort, 5, cksum, 0⟩, payload) := by
  have hlen := tcp4Segment_length srcPort dstPort seq ack flags window payload cksum
  have hzero := zeroAt_tcp4Segment srcPort dstPort seq ack flags window payload cksum
  set seg := tcp4Segment srcPort dstPort seq ack flags window payload cksum
  have hoff : seg.getD 12 0 = 0x50 := rfl
  have hfive : (0x50 : UInt8) >>> 4 = 5 := by decide
  have hsrc : u16 seg 0 = srcPort := u16_putU16 srcPort []
  have hdst : u16 seg 2 = dstPort := u16_putU16 dstPort []
  have hseq : u32 seg 4 = seq := u32_putU32 seq []
  have hack : u32 seg 8 = ack := u32_putU32 ack []
  have hwindow : u16 seg 14 = UInt16.ofBitVec window := u16_putU16 _ []
  have hcksum : u16 seg 16 = cksum := u16_putU16 cksum []
  have hurgent : u16 seg 18 = 0 := u16_putU16 0 []
  unfold parseTCP4
  rw [if_neg (by rw [hlen, tcp4HeaderLen]; omega)]
  simp only [hoff, hfive]
  rw [if_neg (by rw [hlen]; simp [tcp4HeaderLen]), hzero, hcksum, hsrc, hdst, hseq, hack, hwindow, hurgent]
  rfl

/-- **Round trip of TCP segments.** -/
theorem parseTCP4_marshalTCP4 {src dst s4 d4 : Bytes} (hs : to4 src = some s4) (hd : to4 dst = some d4)
    (hlen : payload.length ≤ tcp4DefaultMSS) :
    parseTCP4 src dst (marshalTCP4 src dst srcPort dstPort seq ack flags window payload) =
      if 65535 ∣ tcp4WordSum s4 d4 srcPort dstPort seq ack flags window payload then
        .error .tcp4BadChecksum
      else
        .ok (⟨⟨seq, ack, flags, window⟩, srcPort, dstPort, 5,
          tcp4Checksum src dst (tcp4Segment srcPort dstPort seq ack flags window payload 0), 0⟩, payload) := by
  have hseg := tcp4Segment_length srcPort dstPort seq ack flags window payload 0
  have hsum := wordSum_tcp4Segment srcPort dstPort seq ack flags window payload
  rw [marshalTCP4, parseTCP4_tcp4Segment]
  set seg := tcp4Segment srcPort dstPort seq ack flags window payload 0
  have hzero : tcp4Checksum src dst seg = 0 ↔
      65535 ∣ tcp4WordSum s4 d4 srcPort dstPort seq ack flags window payload := by
    rw [tcp4Checksum, l4Checksum_eq_zero_iff hs hd (by decide)
      (by rw [hseg]; unfold tcp4DefaultMSS at hlen; omega), hseg, hsum]
    rfl
  by_cases h : tcp4Checksum src dst seg = 0
  · rw [if_pos (hzero.mp h), if_pos (fun heq => (wireChecksum_eq_iff _).mp heq h)]
  · rw [if_neg (fun hdvd => h (hzero.mpr hdvd)), if_neg (not_not.mpr ((wireChecksum_eq_iff _).mpr h)),
      wireChecksum, if_neg h]

end

/-- **The round trip holds** unless the words add up to a multiple of 65535. -/
theorem tcp4_roundTrip_iff (src dst s4 d4 : Bytes) (hs : to4 src = some s4) (hd : to4 dst = some d4)
    (srcPort dstPort : UInt16) (seq ack : Seq) (flags : UInt8) (window : BitVec 16) (payload : Bytes)
    (hlen : payload.length ≤ tcp4DefaultMSS) :
    (∃ cksum, parseTCP4 src dst (marshalTCP4 src dst srcPort dstPort seq ack flags window payload) =
      .ok (⟨⟨seq, ack, flags, window⟩, srcPort, dstPort, 5, cksum, 0⟩, payload)) ↔
      ¬ 65535 ∣ tcp4WordSum s4 d4 srcPort dstPort seq ack flags window payload := by
  rw [parseTCP4_marshalTCP4 srcPort dstPort seq ack flags window payload hs hd hlen]
  split_ifs with h
  · simp [h]
  · simp [h]

theorem tcp4_roundTrip_syn : ∃ cksum, parseTCP4 [10, 0, 2, 15] [10, 0, 2, 2]
      (marshalTCP4 [10, 0, 2, 15] [10, 0, 2, 2] 49152 80 0 0 tcpFlagSYN tcp4DefaultWindow []) =
      .ok (⟨⟨0, 0, tcpFlagSYN, tcp4DefaultWindow⟩, 49152, 80, 5, cksum, 0⟩, []) :=
  (tcp4_roundTrip_iff [10, 0, 2, 15] [10, 0, 2, 2] _ _ rfl rfl 49152 80 0 0 tcpFlagSYN
    tcp4DefaultWindow [] (by decide)).mpr (by decide)

/-- An acknowledgement whose words add up to 131070. -/
theorem tcp4_roundTrip_broken : ¬ ∀ (src dst s4 d4 : Bytes), to4 src = some s4 → to4 dst = some d4 →
    ∀ (srcPort dstPort : UInt16) (seq ack : Seq) (flags : UInt8) (window : BitVec 16) (payload : Bytes),
      payload.length ≤ tcp4DefaultMSS →
      ∃ cksum, parseTCP4 src dst (marshalTCP4 src dst srcPort dstPort seq ack flags window payload) =
        .ok (⟨⟨seq, ack, flags, window⟩, srcPort, dstPort, 5, cksum, 0⟩, payload) := by
  intro h
  obtain ⟨cksum, hparse⟩ := h [10, 0, 2, 15] [10, 0, 2, 2] _ _ rfl rfl 49152 80 1 22386 tcpFlagACK
    tcp4DefaultWindow [] (by decide)
  rw [parseTCP4_marshalTCP4 _ _ _ _ _ _ _ rfl rfl (by decide), if_pos (by decide)] at hparse
  cases hparse

/-! ## UDP -/

def udp4HeaderLen : ℕ := 8
def udp4MaxPayload : ℕ := ipv4MTU - ipv4HeaderLen - udp4HeaderLen

structure UDP4Header where
  srcPort : UInt16
  dstPort : UInt16
  length : UInt16
  checksum : UInt16
  deriving DecidableEq

def parseUDP4 (src dst pkt : Bytes) : Except NetErr (UDP4Header × Bytes) :=
  if pkt.length < udp4HeaderLen then .error .udp4HeaderTooShort
  else
    let h : UDP4Header := ⟨u16 pkt 0, u16 pkt 2, u16 pkt 4, u16 pkt 6⟩
    if h.length.toNat < udp4HeaderLen ∨ pkt.length < h.length.toNat then .error .udp4BadLength
    else if h.checksum ≠ 0 ∧
        udp4Checksum src dst (zeroAt (pkt.take h.length.toNat) 6) ≠ h.checksum then
      .error .udp4BadChecksum
    else .ok (h, (pkt.take h.length.toNat).drop udp4HeaderLen)

/-- A datagram with a checksum. -/
def udp4Packet (srcPort dstPort : UInt16) (payload : Bytes) (cksum : UInt16) : Bytes :=
  putU16 srcPort ++ (putU16 dstPort ++ (putU16 (UInt16.ofNat (udp4HeaderLen + payload.length)) ++
    (putU16 cksum ++ payload)))

def marshalUDP4 (src dst : Bytes) (srcPort dstPort : UInt16) (payload : Bytes) : Except NetErr Bytes :=
  if udp4MaxPayload < payload.length then .error .udp4PayloadTooLong
  else
    .ok (udp4Packet srcPort dstPort payload
      (wireChecksum (udp4Checksum src dst (udp4Packet srcPort dstPort payload 0))))

/-- The words of a datagram and its pseudo-header, added up. -/
def udp4WordSum (s4 d4 : Bytes) (srcPort dstPort : UInt16) (payload : Bytes) : ℕ :=
  wordSum s4 + wordSum d4 + ipProtoUDP.toNat + (udp4HeaderLen + payload.length) +
    (srcPort.toNat + dstPort.toNat + (udp4HeaderLen + payload.length) + wordSum payload)

section
variable (srcPort dstPort : UInt16) (payload : Bytes) (cksum : UInt16)

theorem udp4Packet_length : (udp4Packet srcPort dstPort payload cksum).length = 8 + payload.length := by
  simp [udp4Packet]
  omega

theorem toNat_udp4Length {payload : Bytes} (hlen : payload.length ≤ udp4MaxPayload) :
    (UInt16.ofNat (udp4HeaderLen + payload.length)).toNat = udp4HeaderLen + payload.length := by
  rw [UInt16.toNat_ofNat']
  refine Nat.mod_eq_of_lt ?_
  simp only [udp4MaxPayload, udp4HeaderLen, ipv4MTU, ipv4HeaderLen] at *
  omega

theorem wordSum_udp4Packet (hlen : payload.length ≤ udp4MaxPayload) :
    wordSum (udp4Packet srcPort dstPort payload 0) =
      srcPort.toNat + dstPort.toNat + (udp4HeaderLen + payload.length) + wordSum payload := by
  rw [udp4Packet, wordSum_append _ (by simp), wordSum_append _ (by simp), wordSum_append _ (by simp),
    wordSum_append _ (by simp)]
  simp only [wordSum_putU16, toNat_udp4Length hlen, UInt16.toNat_zero]
  omega

/-- **Reading a datagram** that has some checksum, with anything behind it. -/
theorem parseUDP4_udp4Packet (src dst extra : Bytes) (hlen : payload.length ≤ udp4MaxPayload) :
    parseUDP4 src dst (udp4Packet srcPort dstPort payload cksum ++ extra) =
      if cksum ≠ 0 ∧ udp4Checksum src dst (udp4Packet srcPort dstPort payload 0) ≠ cksum then
        .error .udp4BadChecksum
      else
        .ok (⟨srcPort, dstPort, UInt16.ofNat (udp4HeaderLen + payload.length), cksum⟩, payload) := by
  have hpkt := udp4Packet_length srcPort dstPort payload cksum
  have hsrc : u16 (udp4Packet srcPort dstPort payload cksum ++ extra) 0 = srcPort := u16_putU16 srcPort []
  have hdst : u16 (udp4Packet srcPort dstPort payload cksum ++ extra) 2 = dstPort := u16_putU16 dstPort []
  have hlength : u16 (udp4Packet srcPort dstPort payload cksum ++ extra) 4 =
      UInt16.ofNat (udp4HeaderLen + payload.length) := u16_putU16 _ []
  have hcksum : u16 (udp4Packet srcPort dstPort payload cksum ++ extra) 6 = cksum := u16_putU16 cksum []
  have hword := toNat_udp4Length hlen
  have htake : (udp4Packet srcPort dstPort payload cksum ++ extra).take (udp4HeaderLen + payload.length) =
      udp4Packet srcPort dstPort payload cksum := List.take_left' hpkt
  unfold parseUDP4
  rw [if_neg (by rw [List.length_append, hpkt, udp4HeaderLen]; omega)]
  simp only [hsrc, hdst, hlength, hcksum, hword, htake]
  rw [if_neg (by rw [List.length_append, hpkt, udp4HeaderLen]; omega)]
  rfl

/-- **Round trip of UDP datagrams.** -/
theorem parseUDP4_marshalUDP4 {src dst s4 d4 : Bytes} (hs : to4 src = some s4) (hd : to4 dst = some d4)
    (hlen : payload.length ≤ udp4MaxPayload) :
    ∃ pkt cksum, marshalUDP4 src dst srcPort dstPort payload = .ok pkt ∧
      ∀ extra, parseUDP4 src dst (pkt ++ extra) =
        if 65535 ∣ udp4WordSum s4 d4 srcPort dstPort payload then .error .udp4BadChecksum
        else .ok (⟨srcPort, dstPort, UInt16.ofNat (udp4HeaderLen + payload.length), cksum⟩, payload) := by
  have hpkt := udp4Packet_length srcPort dstPort payload 0
  have hzero : udp4Checksum src dst (udp4Packet srcPort dstPort payload 0) = 0 ↔
      65535 ∣ udp4WordSum s4 d4 srcPort dstPort payload := by
    rw [udp4Checksum, l4Checksum_eq_zero_iff hs hd (by decide)
      (by rw [hpkt]; simp only [udp4MaxPayload, udp4HeaderLen, ipv4MTU, ipv4HeaderLen] at hlen; omega),
      hpkt, wordSum_udp4Packet srcPort dstPort payload hlen]
    rfl
  refine ⟨_, wireChecksum (udp4Checksum src dst (udp4Packet srcPort dstPort payload 0)),
    if_neg (Nat.not_lt.mpr hlen), fun extra => ?_⟩
  rw [parseUDP4_udp4Packet srcPort dstPort payload _ src dst extra hlen]
  by_cases h : udp4Checksum src dst (udp4Packet srcPort dstPort payload 0) = 0
  · rw [if_pos (hzero.mp h), if_pos]
    rw [h]
    decide
  · rw [if_neg (fun hdvd => h (hzero.mpr hdvd)), if_neg]
    exact fun hne => hne.2 ((wireChecksum_eq_iff _).mpr h)

end

/-- **The round trip holds**, with anything behind the datagram, unless the words add up to a multiple
of 65535. -/
theorem udp4_roundTrip_iff (src dst s4 d4 : Bytes) (hs : to4 src = some s4) (hd : to4 dst = some d4)
    (srcPort dstPort : UInt16) (payload : Bytes) (hlen : payload.length ≤ udp4MaxPayload) :
    ∃ pkt, marshalUDP4 src dst srcPort dstPort payload = .ok pkt ∧
      ((∀ extra, ∃ h, parseUDP4 src dst (pkt ++ extra) = .ok (h, payload) ∧
        h.srcPort = srcPort ∧ h.dstPort = dstPort) ↔
      ¬ 65535 ∣ udp4WordSum s4 d4 srcPort dstPort payload) := by
  obtain ⟨pkt, cksum, hpkt, hparse⟩ := parseUDP4_marshalUDP4 srcPort dstPort payload hs hd hlen
  refine ⟨pkt, hpkt, ?_⟩
  by_cases h : 65535 ∣ udp4WordSum s4 d4 srcPort dstPort payload
  · simp [hparse, h]
  · simp [hparse, h]

theorem udp4_roundTrip_hi : ∃ pkt, marshalUDP4 [10, 0, 2, 15] [10, 0, 2, 3] 49152 53 (str "hi") = .ok pkt ∧
    ((∀ extra, ∃ h, parseUDP4 [10, 0, 2, 15] [10, 0, 2, 3] (pkt ++ extra) = .ok (h, str "hi") ∧
      h.srcPort = 49152 ∧ h.dstPort = 53) ↔
    ¬ 65535 ∣ udp4WordSum [10, 0, 2, 15] [10, 0, 2, 3] 49152 53 (str "hi")) :=
  udp4_roundTrip_iff [10, 0, 2, 15] [10, 0, 2, 3] _ _ rfl rfl 49152 53 (str "hi") (by decide)

/-- Two bytes that make the words add up to 65535. -/
theorem udp4_roundTrip_broken : ¬ ∀ (src dst s4 d4 : Bytes), to4 src = some s4 → to4 dst = some d4 →
    ∀ (srcPort dstPort : UInt16) (payload : Bytes), payload.length ≤ udp4MaxPayload →
      ∃ pkt, marshalUDP4 src dst srcPort dstPort payload = .ok pkt ∧
        ∀ extra, ∃ h, parseUDP4 src dst (pkt ++ extra) = .ok (h, payload) ∧
          h.srcPort = srcPort ∧ h.dstPort = dstPort := by
  intro h
  obtain ⟨pkt, hpkt, hparse⟩ := h [10, 0, 2, 15] [10, 0, 2, 3] _ _ rfl rfl 49152 53 [0x27, 0x93] (by decide)
  obtain ⟨pkt', cksum, hpkt', hbad⟩ :=
    @parseUDP4_marshalUDP4 49152 53 [0x27, 0x93] [10, 0, 2, 15] [10, 0, 2, 3] _ _ rfl rfl
      (by decide)
  obtain rfl : pkt = pkt' := by
    rw [hpkt] at hpkt'
    exact Except.ok.inj hpkt'
  obtain ⟨hdr, hok, -⟩ := hparse []
  rw [hbad, if_pos (by decide)] at hok
  cases hok

/-! ## ICMP -/

def icmpHeaderLen : ℕ := 8
def icmpTypeEchoReply : UInt8 := 0
def icmpTypeEchoRequest : UInt8 := 8

structure ICMPEcho where
  type : UInt8
  code : UInt8
  checksum : UInt16
  identifier : UInt16
  sequence : UInt16
  payload : Bytes
  deriving DecidableEq

/-- A message with a checksum. -/
def icmpPacket (type : UInt8) (id seq : UInt16) (payload : Bytes) (cksum : UInt16) : Bytes :=
  [type, 0] ++ putU16 cksum ++ putU16 id ++ putU16 seq ++ payload

def marshalICMPEcho (type : UInt8) (id seq : UInt16) (payload : Bytes) : Bytes :=
  icmpPacket type id seq payload (internetChecksum (icmpPacket type id seq payload 0))

def parseICMPEcho (buf : Bytes) : Except NetErr ICMPEcho :=
  if buf.length < icmpHeaderLen then .error .icmpTooShort
  else if internetChecksum (zeroAt buf 2) ≠ u16 buf 2 then .error .icmpBadChecksum
  else .ok ⟨buf.getD 0 0, buf.getD 1 0, u16 buf 2, u16 buf 4, u16 buf 6, buf.drop icmpHeaderLen⟩

end TamagoUefi.Net
