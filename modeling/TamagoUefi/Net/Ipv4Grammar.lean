import TamagoUefi.Net.Padding

/-!
# TamagoUefi.Net.Ipv4Grammar — what `ParseIPv4` accepts, and what it returns

`headerBytes` is the 20 bytes of a header without options.  Reading and writing them are inverse to
each other (`headerBytes_ipv4Fields`, `ipv4Fields_headerBytes`), so what `MarshalIPv4` writes is what
`ParseIPv4` returns.

The documentation promises that headers with options are rejected.  They are not: the length is
checked against the header with its options, the checksum is taken over 20 bytes, and the options
are handed on as payload.  `parseIPv4_grammar` says for which bytes that shows.
-/

namespace TamagoUefi.Net

open Go Lib

/-! ## Writing a header -/

/-- The fields of a header that fit their places. -/
structure IPv4Header.Fits (h : IPv4Header) : Prop where
  flags : h.flags.toNat < 8
  fragOff : h.fragOff.toNat < 8192
  src : h.src.length = 4
  dst : h.dst.length = 4

/-- A header without options on the wire. -/
def headerBytes (h : IPv4Header) : Bytes :=
  [0x45, h.tos] ++ putU16 h.totalLen ++ putU16 h.id ++
    putU16 (UInt16.ofNat (h.flags.toNat * 8192 + h.fragOff.toNat)) ++ [h.ttl, h.protocol] ++
    putU16 h.checksum ++ h.src ++ h.dst

/-- The bytes are those of this header and this payload. -/
structure Encodes (h : IPv4Header) (payload pkt : Bytes) : Prop where
  fits : h.Fits
  bytes : headerBytes h ++ payload = pkt

theorem toNat_flags (n : UInt16) : (n >>> 13).toUInt8.toNat = n.toNat / 8192 := by
  have := n.toNat_lt
  rw [UInt16.toNat_toUInt8, UInt16.toNat_shiftRight, Nat.shiftRight_eq_div_pow]
  simp
  omega

theorem toNat_fragOff (n : UInt16) : (n &&& 0x1FFF).toNat = n.toNat % 8192 := by
  rw [UInt16.toNat_and]
  exact Nat.and_two_pow_sub_one_eq_mod n.toNat 13

theorem flagsFrag_eq (n : UInt16) :
    UInt16.ofNat ((n >>> 13).toUInt8.toNat * 8192 + (n &&& 0x1FFF).toNat) = n := by
  rw [toNat_flags, toNat_fragOff, Nat.div_add_mod']
  exact UInt16.ofNat_toNat

theorem version_ihl {b : UInt8} (hv : b >>> 4 = 4) (hi : (b &&& 0x0F).toNat = 5) : b = 0x45 := by
  have hdiv : b.toNat / 16 = 4 := by
    have h := congrArg UInt8.toNat hv
    rw [UInt8.toNat_shiftRight, Nat.shiftRight_eq_div_pow] at h
    exact h
  have hmod : b.toNat % 16 = 5 := by
    rw [UInt8.toNat_and] at hi
    exact (Nat.and_two_pow_sub_one_eq_mod b.toNat 4).symm.trans hi
  apply UInt8.toNat.inj
  show b.toNat = 69
  omega

variable {p : Bytes}

theorem drop_two {k : ℕ} (h : k + 2 ≤ p.length) :
    p.drop k = [p.getD k 0, p.getD (k + 1) 0] ++ p.drop (k + 2) := by
  rw [List.drop_eq_getElem_cons (by omega), List.drop_eq_getElem_cons (by omega),
    List.getD_eq_getElem _ _ (by omega), List.getD_eq_getElem _ _ (by omega)]
  rfl

theorem putU16_u16 (p : Bytes) (k : ℕ) : putU16 (u16 p k) = [p.getD k 0, p.getD (k + 1) 0] := by
  have hhi := (p.getD k 0).toNat_lt
  have hlo := (p.getD (k + 1) 0).toNat_lt
  have h₁ : (u16 p k >>> 8).toUInt8 = p.getD k 0 := by
    apply UInt8.toNat.inj
    rw [toNat_hi, toNat_u16]
    omega
  have h₂ : (u16 p k).toUInt8 = p.getD (k + 1) 0 := by
    apply UInt8.toNat.inj
    rw [toNat_lo, toNat_u16]
    omega
  rw [putU16, h₁, h₂]

theorem drop_take_four (p : Bytes) (k : ℕ) : (p.drop k).take 4 ++ p.drop (k + 4) = p.drop k := by
  rw [← List.drop_drop, List.take_append_drop]

/-- **Write after read**: the fields that were read are those of the bytes. -/
theorem headerBytes_ipv4Fields (hlen : ipv4HeaderLen ≤ p.length)
    (hfirst : p.getD 0 0 = 0x45) : headerBytes (ipv4Fields p) ++ p.drop ipv4HeaderLen = p := by
  have hlen' : 20 ≤ p.length := hlen
  simp only [headerBytes, ipv4Fields, flagsFrag_eq, putU16_u16, ← hfirst, List.append_assoc]
  -- from the right, each field is the front of what is left
  rw [ipv4HeaderLen, drop_take_four p 16, drop_take_four p 12, ← drop_two (by omega),
    ← drop_two (by omega), ← drop_two (by omega), ← drop_two (by omega), ← drop_two (by omega),
    ← drop_two (by omega)]
  exact List.drop_zero

theorem ipv4Fields_fits (hlen : ipv4HeaderLen ≤ p.length) : (ipv4Fields p).Fits where
  flags := by
    have := (u16 p 6).toNat_lt
    show (u16 p 6 >>> 13).toUInt8.toNat < 8
    rw [toNat_flags]
    omega
  fragOff := by
    show (u16 p 6 &&& 0x1FFF).toNat < 8192
    rw [toNat_fragOff]
    omega
  src := (addr_length hlen).1
  dst := (addr_length hlen).2

/-! ## Reading one back -/

theorem u16_eq_of_getD {k : ℕ} {n : UInt16} (hhi : p.getD k 0 = (n >>> 8).toUInt8)
    (hlo : p.getD (k + 1) 0 = n.toUInt8) : u16 p k = n := by
  apply UInt16.toNat.inj
  rw [toNat_u16, hhi, hlo, toNat_hi, toNat_lo]
  omega

variable {h : IPv4Header}

theorem length_headerBytes (hfits : h.Fits) : (headerBytes h).length = ipv4HeaderLen := by
  simp [headerBytes, hfits.src, hfits.dst, ipv4HeaderLen]

/-- **Read after write.** -/
theorem ipv4Fields_headerBytes (hfits : h.Fits) (payload : Bytes) :
    ipv4Fields (headerBytes h ++ payload) = h := by
  obtain ⟨tos, totalLen, id, flags, fragOff, ttl, protocol, checksum, src, dst⟩ := h
  obtain ⟨hflags, hfrag, hsrc, hdst⟩ := hfits
  dsimp only at hflags hfrag hsrc hdst
  have hword : (UInt16.ofNat (flags.toNat * 8192 + fragOff.toNat)).toNat =
      flags.toNat * 8192 + fragOff.toNat := by
    rw [UInt16.toNat_ofNat']
    omega
  obtain ⟨a₁, a₂, a₃, a₄, rfl⟩ := List.length_eq_four.mp hsrc
  obtain ⟨d₁, d₂, d₃, d₄, rfl⟩ := List.length_eq_four.mp hdst
  generalize hp : headerBytes _ ++ payload = p
  have hbytes : ∀ k, p.getD k 0 = (headerBytes ⟨tos, totalLen, id, flags, fragOff, ttl, protocol,
      checksum, [a₁, a₂, a₃, a₄], [d₁, d₂, d₃, d₄]⟩ ++ payload).getD k 0 := fun k => by rw [hp]
  have hff : u16 p 6 = UInt16.ofNat (flags.toNat * 8192 + fragOff.toNat) :=
    u16_eq_of_getD (hbytes 6) (hbytes 7)
  have hflags' : (u16 p 6 >>> 13).toUInt8 = flags := by
    apply UInt8.toNat.inj
    rw [toNat_flags, hff, hword]
    omega
  have hfrag' : u16 p 6 &&& 0x1FFF = fragOff := by
    apply UInt16.toNat.inj
    rw [toNat_fragOff, hff, hword]
    omega
  have h₂ : u16 p 2 = totalLen := u16_eq_of_getD (hbytes 2) (hbytes 3)
  have h₄ : u16 p 4 = id := u16_eq_of_getD (hbytes 4) (hbytes 5)
  have h₁₀ : u16 p 10 = checksum := u16_eq_of_getD (hbytes 10) (hbytes 11)
  simp only [ipv4Fields, hflags', hfrag', h₂, h₄, h₁₀]
  subst hp
  rfl

theorem drop_headerBytes (hfits : h.Fits) (payload : Bytes) :
    (headerBytes h ++ payload).drop ipv4HeaderLen = payload := by
  rw [← length_headerBytes hfits, List.drop_left]

/-- The header that `MarshalIPv4` writes. -/
def marshalHeader (s4 d4 : Bytes) (protocol : UInt8) (id : UInt16) (len : ℕ) (cksum : UInt16) :
    IPv4Header :=
  ⟨0, UInt16.ofNat (ipv4HeaderLen + len), id, 2, 0, ipv4DefaultTTL, protocol, cksum, s4, d4⟩

theorem ipv4Packet_eq (s4 d4 : Bytes) (protocol : UInt8) (id : UInt16) (payload : Bytes)
    (cksum : UInt16) : ipv4Packet s4 d4 protocol id payload cksum =
      headerBytes (marshalHeader s4 d4 protocol id payload.length cksum) ++ payload := by
  have hflags : UInt16.ofNat ((2 : UInt8).toNat * 8192 + (0 : UInt16).toNat) = 0x4000 := by decide
  simp only [headerBytes, marshalHeader, hflags, ipv4Packet]

variable {s4 d4 : Bytes}

theorem marshalHeader_fits (hs : s4.length = 4) (hd : d4.length = 4) (protocol : UInt8) (id : UInt16) (len : ℕ)
    (cksum : UInt16) : (marshalHeader s4 d4 protocol id len cksum).Fits where
  flags := show (2 : UInt8).toNat < 8 by decide
  fragOff := show (0 : UInt16).toNat < 8192 by decide
  src := hs
  dst := hd

/-- The checksum is the one of the packet before it was written. -/
theorem zeroAt_ipv4Packet (hs : s4.length = 4) (hd : d4.length = 4) (protocol : UInt8) (id : UInt16)
    (payload : Bytes) (cksum : UInt16) :
    zeroAt ((ipv4Packet s4 d4 protocol id payload cksum).take ipv4HeaderLen) 10 =
      (ipv4Packet s4 d4 protocol id payload 0).take ipv4HeaderLen := by
  obtain ⟨a₁, a₂, a₃, a₄, rfl⟩ := List.length_eq_four.mp hs
  obtain ⟨d₁, d₂, d₃, d₄, rfl⟩ := List.length_eq_four.mp hd
  rfl

theorem parseIPv4_ipv4Packet (hs : s4.length = 4) (hd : d4.length = 4) (protocol : UInt8) (id : UInt16)
    (payload : Bytes) {cksum : UInt16}
    (hck : cksum = internetChecksum ((ipv4Packet s4 d4 protocol id payload 0).take ipv4HeaderLen)) :
    parseIPv4 (ipv4Packet s4 d4 protocol id payload cksum) =
      .ok (marshalHeader s4 d4 protocol id payload.length cksum, payload) := by
  have hfits := marshalHeader_fits hs hd protocol id payload.length cksum
  have hfields : ipv4Fields (ipv4Packet s4 d4 protocol id payload cksum) =
      marshalHeader s4 d4 protocol id payload.length cksum := by
    rw [ipv4Packet_eq, ipv4Fields_headerBytes hfits]
  have hlen : (ipv4Packet s4 d4 protocol id payload cksum).length =
      ipv4HeaderLen + payload.length := by
    rw [ipv4Packet_eq, List.length_append, length_headerBytes hfits]
  have hfirst : (ipv4Packet s4 d4 protocol id payload cksum).getD 0 0 = 0x45 := rfl
  have hihl : ipv4IHL (ipv4Packet s4 d4 protocol id payload cksum) = 5 := by
    rw [ipv4IHL, hfirst]
    decide
  refine parseIPv4_eq_ok.mpr ⟨by omega, ⟨?_, by omega, ?_⟩, ?_, ?_⟩
  · rw [hfirst]
    decide
  · have hu16 : u16 (ipv4Packet s4 d4 protocol id payload cksum) 10 = cksum :=
      congrArg IPv4Header.checksum hfields
    rw [hu16, zeroAt_ipv4Packet hs hd, ← hck]
  · rw [hihl, hlen, ipv4HeaderLen]
    omega
  · rw [hfields, ipv4Packet_eq, drop_headerBytes hfits]

/-! ## The grammar -/

/-- The packets that `ParseIPv4` documents. -/
structure Ipv4Grammar (pkt : Bytes) : Prop where
  header : ipv4HeaderLen ≤ pkt.length
  version : pkt.getD 0 0 >>> 4 = 4
  ihl : ipv4IHL pkt = 5
  checksum : internetChecksum (zeroAt (pkt.take ipv4HeaderLen) 10) = u16 pkt 10

/-- `ParseIPv4` accepts these bytes if and only if they are in the grammar, and what it returns are
their header and payload. -/
structure ParsesExactly (pkt : Bytes) : Prop where
  accepts : (∃ r, parseIPv4 pkt = .ok r) ↔ Ipv4Grammar pkt
  returns : ∀ h payload, parseIPv4 pkt = .ok (h, payload) → Encodes h payload pkt

/-- A header with options, all of it there, with the checksum of its first 20 bytes. -/
structure OptionsSlip (pkt : Bytes) : Prop where
  header : HeaderOK pkt
  options : 5 < ipv4IHL pkt
  complete : ipv4IHL pkt * 4 ≤ pkt.length

theorem parsesExactly_iff (pkt : Bytes) : ParsesExactly pkt ↔ ¬ OptionsSlip pkt := by
  constructor
  · rintro ⟨haccepts, -⟩ ⟨hheader, hoptions, hcomplete⟩
    have hlen : ipv4HeaderLen ≤ pkt.length := by
      rw [ipv4HeaderLen]
      omega
    have hgrammar := haccepts.mp ⟨_, parseIPv4_eq_ok.mpr ⟨hlen, hheader, hcomplete, rfl⟩⟩
    have hihl := hgrammar.ihl
    omega
  · intro hno
    -- what is accepted has no options
    have hfive : HeaderOK pkt → ipv4IHL pkt * 4 ≤ pkt.length → ipv4IHL pkt = 5 := by
      intro hheader hcomplete
      by_contra hne
      have hge := hheader.ihl
      exact hno ⟨hheader, by omega, hcomplete⟩
    refine ⟨⟨?_, ?_⟩, ?_⟩
    · rintro ⟨r, hr⟩
      obtain ⟨hlen, hheader, hcomplete, -⟩ := parseIPv4_eq_ok.mp hr
      exact ⟨hlen, hheader.version, hfive hheader hcomplete, hheader.checksum⟩
    · rintro ⟨hlen, hversion, hihl, hchecksum⟩
      refine ⟨_, parseIPv4_eq_ok.mpr ⟨hlen, ⟨hversion, hihl.ge, hchecksum⟩, ?_, rfl⟩⟩
      rw [hihl]
      exact hlen
    · intro h payload hr
      obtain ⟨hlen, hheader, hcomplete, hres⟩ := parseIPv4_eq_ok.mp hr
      obtain ⟨rfl, rfl⟩ := Prod.mk.inj hres
      have hfirst : pkt.getD 0 0 = 0x45 := version_ihl hheader.version (hfive hheader hcomplete)
      exact ⟨ipv4Fields_fits hlen, headerBytes_ipv4Fields hlen hfirst⟩

/-- **What `ParseIPv4` accepts.**  Its grammar, unless a header with options slips through; and
whatever `MarshalIPv4` writes comes back. -/
theorem parseIPv4_grammar (pkt : Bytes) :
    (ParsesExactly pkt ↔ ¬ OptionsSlip pkt) ∧
      ∀ src dst s4 d4 protocol id payload, to4 src = some s4 → to4 dst = some d4 →
        ipv4HeaderLen + payload.length ≤ ipv4MTU →
        ∃ out h, marshalIPv4 src dst protocol id payload = .ok out ∧
          parseIPv4 out = .ok (h, payload) ∧
          h.src = s4 ∧ h.dst = d4 ∧ h.protocol = protocol ∧ h.id = id := by
  refine ⟨parsesExactly_iff pkt, ?_⟩
  intro src dst s4 d4 protocol id payload hs hd hmtu
  refine ⟨_, _, ?_, parseIPv4_ipv4Packet (to4_length hs) (to4_length hd) protocol id payload rfl,
    rfl, rfl, rfl, rfl⟩
  rw [marshalIPv4, hs, hd]
  exact if_neg (Nat.not_lt.mpr hmtu)

/-- Two bytes from 10.0.2.15 to 10.0.2.2. -/
def twoBytes : Bytes :=
  [0x45, 0, 0, 22, 0, 7, 0x40, 0, 64, 17, 0x22, 0xC0, 10, 0, 2, 15, 10, 0, 2, 2, 0xCA, 0xFE]

theorem parseIPv4_grammar_twoBytes : ParsesExactly twoBytes ∧
    ∃ out h, marshalIPv4 [10, 0, 2, 15] [10, 0, 2, 2] ipProtoUDP 7 [0xCA, 0xFE] = .ok out ∧
      parseIPv4 out = .ok (h, [0xCA, 0xFE]) ∧
      h.src = [10, 0, 2, 15] ∧ h.dst = [10, 0, 2, 2] ∧ h.protocol = ipProtoUDP ∧ h.id = 7 := by
  obtain ⟨hexact, hback⟩ := parseIPv4_grammar twoBytes
  refine ⟨hexact.mpr ?_, hback _ _ _ _ _ _ _ rfl rfl (by decide)⟩
  intro hslip
  exact absurd hslip.options (by decide)

-- these are the bytes that are written
example : marshalIPv4 [10, 0, 2, 15] [10, 0, 2, 2] ipProtoUDP 7 [0xCA, 0xFE] = .ok twoBytes := by
  decide +kernel

/-- A header of six words: four bytes of options, the rest zero. -/
def optionsPacket : Bytes := [0x46, 0, 0, 0, 0, 0, 0, 0, 0, 0, 0xB9, 0xFF] ++ List.replicate 12 0

/-- It is accepted. -/
theorem options_slip_through : ¬ ParsesExactly optionsPacket := by
  intro hexact
  have hheader : HeaderOK optionsPacket := by
    refine ⟨by decide, by decide, ?_⟩
    rw [internetChecksum_eq]
    decide
  have haccepted := parseIPv4_eq_ok.mpr ⟨by decide, hheader, by decide, rfl⟩
  have hihl := (hexact.accepts.mp ⟨_, haccepted⟩).ihl
  exact absurd hihl (by decide)

end TamagoUefi.Net
