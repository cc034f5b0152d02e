import TamagoUefi.Lib.OnesComplement
import TamagoUefi.Net.Dns

/-!
# TamagoUefi.Net.Ipv4 — packets, checksum and routes (`ipv4.go`)

`InternetChecksum` is the complement of a one's complement sum of 16-bit words.  IPv4, ICMP, UDP and
TCP use it, each over bytes in which the checksum field is zero.

* `internetChecksum_eq_zero_iff`: which bytes have the checksum 0.
* `internetChecksum_append_zeros`: zero bytes at the end do not show in it.
-/

namespace TamagoUefi.Net

open Go Lib

inductive NetErr
  | frameTooShort
  | frameTooLong
  | invalidMAC
  | ipv4HeaderTooShort
  | ipv4NotV4
  | ipv4BadChecksum
  | ipv4PacketTooLong
  | ipv4InvalidIP
  | noRoute
  | arpTimeout
  | arpInvalidPacket
  | icmpTooShort
  | icmpBadChecksum
  | udp4HeaderTooShort
  | udp4BadLength
  | udp4BadChecksum
  | udp4PayloadTooLong
  | tcp4HeaderTooShort
  | tcp4BadChecksum
  | stackClosed
  /-- An error of the link. -/
  | link (text : Bytes)
  deriving DecidableEq

def ipv4HeaderLen : ℕ := 20
def ipv4MTU : ℕ := 1500
def ipv4DefaultTTL : UInt8 := 64
def ipProtoICMP : UInt8 := 1
def ipProtoTCP : UInt8 := 6
def ipProtoUDP : UInt8 := 17

/-! ## Words -/

/-- `binary.BigEndian.Uint32(pkt[off:off+4])`. -/
def u32 (pkt : Bytes) (off : ℕ) : BitVec 32 :=
  BitVec.ofNat 32 ((u16 pkt off).toNat * 65536 + (u16 pkt (off + 2)).toNat)

/-- `binary.BigEndian.PutUint32`. -/
def putU32 (n : BitVec 32) : Bytes :=
  putU16 (UInt16.ofNat (n.toNat / 65536)) ++ putU16 (UInt16.ofNat n.toNat)

/-- A field of two bytes set to zero. -/
def zeroAt (pkt : Bytes) (off : ℕ) : Bytes := (pkt.set off 0).set (off + 1) 0

theorem toNat_u16 (pkt : Bytes) (off : ℕ) :
    (u16 pkt off).toNat = (pkt.getD off 0).toNat * 256 + (pkt.getD (off + 1) 0).toNat := by
  have hhi := (pkt.getD off 0).toNat_lt
  have hlo := (pkt.getD (off + 1) 0).toNat_lt
  have hshift : ((pkt.getD off 0).toUInt16 <<< 8).toNat = (pkt.getD off 0).toNat <<< 8 := by
    rw [UInt16.toNat_shiftLeft, UInt8.toNat_toUInt16, Nat.shiftLeft_eq, Nat.shiftLeft_eq]
    exact Nat.mod_eq_of_lt (show (pkt.getD off 0).toNat * 2 ^ 8 < 2 ^ 16 by omega)
  rw [u16, UInt16.toNat_or, hshift, UInt8.toNat_toUInt16, ← Nat.shiftLeft_add_eq_or_of_lt hlo,
    Nat.shiftLeft_eq]

theorem toNat_hi (n : UInt16) : (n >>> 8).toUInt8.toNat = n.toNat / 256 := by
  have := n.toNat_lt
  rw [UInt16.toNat_toUInt8, UInt16.toNat_shiftRight, Nat.shiftRight_eq_div_pow]
  simp
  omega

theorem toNat_lo (n : UInt16) : n.toUInt8.toNat = n.toNat % 256 := UInt16.toNat_toUInt8 n

theorem u16_putU16 (n : UInt16) (rest : Bytes) : u16 (putU16 n ++ rest) 0 = n := by
  apply UInt16.toNat.inj
  rw [toNat_u16]
  simp only [putU16, List.cons_append, List.getD_cons_zero, List.getD_cons_succ]
  rw [toNat_hi, toNat_lo]
  omega

theorem u16_append (a b : Bytes) (k : ℕ) : u16 (a ++ b) (a.length + k) = u16 b k := by
  unfold u16
  simp only [List.getD_eq_getElem?_getD, Nat.add_assoc, List.getElem?_append_right (Nat.le_add_right _ _),
    Nat.add_sub_cancel_left]

theorem wordSum_putU16 (n : UInt16) : wordSum (putU16 n) = n.toNat := by
  simp only [putU16, wordSum]
  rw [toNat_hi, toNat_lo]
  omega

@[simp] theorem putU16_length (n : UInt16) : (putU16 n).length = 2 := rfl

theorem wordSum_putU32 (n : BitVec 32) : wordSum (putU32 n) = n.toNat / 65536 + n.toNat % 65536 := by
  have := n.isLt
  rw [putU32, wordSum_append _ (by simp), wordSum_putU16, wordSum_putU16, UInt16.toNat_ofNat', UInt16.toNat_ofNat']
  omega

theorem u32_putU32 (n : BitVec 32) (rest : Bytes) : u32 (putU32 n ++ rest) 0 = n := by
  have := n.isLt
  have hlo : u16 (putU32 n ++ rest) 2 = UInt16.ofNat n.toNat := by
    rw [putU32, List.append_assoc]
    exact (u16_append (putU16 (UInt16.ofNat (n.toNat / 65536))) _ 0).trans (u16_putU16 _ rest)
  have hhi : u16 (putU32 n ++ rest) 0 = UInt16.ofNat (n.toNat / 65536) := by
    rw [putU32, List.append_assoc]
    exact u16_putU16 _ _
  rw [u32, hhi, hlo, UInt16.toNat_ofNat', UInt16.toNat_ofNat']
  apply BitVec.eq_of_toNat_eq
  rw [BitVec.toNat_ofNat]
  omega

/-! ## The checksum -/

/-- The sum is a `uint32`. -/
def internetChecksum (data : Bytes) : UInt16 :=
  ~~~ UInt16.ofNat (foldCarry 65536 (wordSum data % 2 ^ 32))

theorem not_ofNat_eq_zero_iff {n : ℕ} (h : n < 65536) : ~~~ UInt16.ofNat n = 0 ↔ n = 65535 := by
  rw [← UInt16.toNat_inj, UInt16.toNat_not, UInt16.toNat_ofNat']
  change 65536 - 1 - n % 65536 = 0 ↔ _
  omega

theorem internetChecksum_eq (data : Bytes) :
    internetChecksum data = ~~~ UInt16.ofNat
      (if wordSum data % 2 ^ 32 = 0 then 0 else (wordSum data % 2 ^ 32 - 1) % 65535 + 1) := by
  rw [internetChecksum, foldCarry_eq (by decide)]

/-- **The bytes with checksum 0**: the sum of their words is a multiple of 65535. -/
theorem internetChecksum_eq_zero_iff {data : Bytes} (hlen : data.length < 131071)
    (hpos : 0 < wordSum data) : internetChecksum data = 0 ↔ 65535 ∣ wordSum data := by
  have hle := wordSum_le data
  unfold internetChecksum
  rw [Nat.mod_eq_of_lt (by omega), not_ofNat_eq_zero_iff (foldCarry_lt (by decide) _)]
  exact foldCarry_eq_max_iff (by decide) hpos

theorem internetChecksum_append_zeros (data : Bytes) (n : ℕ) :
    internetChecksum (data ++ List.replicate n 0) = internetChecksum data := by
  unfold internetChecksum
  rw [wordSum_append_zeros]

/-! ## Packets -/

structure IPv4Header where
  tos : UInt8
  totalLen : UInt16
  id : UInt16
  flags : UInt8
  fragOff : UInt16
  ttl : UInt8
  protocol : UInt8
  checksum : UInt16
  src : Bytes
  dst : Bytes
  deriving DecidableEq

/-- The number of words in the header, options included. -/
def ipv4IHL (pkt : Bytes) : ℕ := (pkt.getD 0 0 &&& 0x0F).toNat

def ipv4Fields (pkt : Bytes) : IPv4Header :=
  let flagsFrag := u16 pkt 6
  { tos := pkt.getD 1 0
    totalLen := u16 pkt 2
    id := u16 pkt 4
    flags := (flagsFrag >>> 13).toUInt8
    fragOff := flagsFrag &&& 0x1FFF
    ttl := pkt.getD 8 0
    protocol := pkt.getD 9 0
    checksum := u16 pkt 10
    src := (pkt.drop 12).take 4
    dst := (pkt.drop 16).take 4 }

def parseIPv4 (pkt : Bytes) : Except NetErr (IPv4Header × Bytes) :=
  if pkt.length < ipv4HeaderLen then .error .ipv4HeaderTooShort
  else if pkt.getD 0 0 >>> 4 ≠ 4 then .error .ipv4NotV4
  else if ipv4IHL pkt < 5 then .error .ipv4HeaderTooShort
  else if pkt.length < ipv4IHL pkt * 4 then .error .ipv4HeaderTooShort
  else if internetChecksum (zeroAt (pkt.take ipv4HeaderLen) 10) ≠ u16 pkt 10 then .error .ipv4BadChecksum
  else
    -- the payload begins behind 20 bytes, also when there are options
    .ok (ipv4Fields pkt, pkt.drop ipv4HeaderLen)

/-- A packet without options, with a checksum. -/
def ipv4Packet (s4 d4 : Bytes) (protocol : UInt8) (id : UInt16) (payload : Bytes) (cksum : UInt16) : Bytes :=
  [0x45, 0] ++ putU16 (UInt16.ofNat (ipv4HeaderLen + payload.length)) ++ putU16 id ++ putU16 0x4000 ++
    [ipv4DefaultTTL, protocol] ++ putU16 cksum ++ s4 ++ d4 ++ payload

def marshalIPv4 (src dst : Bytes) (protocol : UInt8) (id : UInt16) (payload : Bytes) :
    Except NetErr Bytes :=
  match to4 src, to4 dst with
  | some s4, some d4 =>
    if ipv4MTU < ipv4HeaderLen + payload.length then .error .ipv4PacketTooLong
    else
      .ok (ipv4Packet s4 d4 protocol id payload
        (internetChecksum ((ipv4Packet s4 d4 protocol id payload 0).take ipv4HeaderLen)))
  | _, _ => .error .ipv4InvalidIP

theorem to4_length {ip a : Bytes} (h : to4 ip = some a) : a.length = 4 := by
  unfold to4 at h
  split_ifs at h with h₁ h₂
  · cases h
    exact h₁
  · cases h
    rw [List.length_drop, h₂.1]

theorem to4_of_length {ip : Bytes} (h : ip.length = 4) : to4 ip = some ip := if_pos h

/-! ## Routes -/

structure RouteTable where
  localIP : Option Bytes
  mask : Option Bytes
  gateway : Option Bytes
  deriving DecidableEq

def subnetContains (localIP mask target : Bytes) : Bool :=
  localIP.length = 4 && mask.length = 4 && target.length = 4 &&
    (List.zipWith (· &&& ·) localIP mask = List.zipWith (· &&& ·) target mask)

def RouteTable.lookup (r : RouteTable) (dst : Bytes) : Except NetErr Bytes :=
  match to4 dst with
  | none => .error .ipv4InvalidIP
  | some d4 =>
    let onLink :=
      match r.localIP, r.mask with
      | some ip, some mask => subnetContains ip mask d4
      | _, _ => false
    if onLink then .ok d4
    else
      match r.gateway with
      | some gw => .ok gw
      | none => .error .noRoute

end TamagoUefi.Net
