import TamagoUefi.Go.Strings
import TamagoUefi.Lib.Buffer
import TamagoUefi.Lib.Ring
import TamagoUefi.Lib.Run

/-!
# TamagoUefi.Board.Blkprintk — the log that survives a halt (`blkprintk.go`, `blkprintk-recover`)

The probe's output goes to a ring of 32 752 bytes.  A flush writes the ring as a frame to a disk: the
number of flushes, the number of bytes and the bytes, oldest first.  `blkprintk-recover` reads the frame
back.

The counters are 64 bits wide and wrap.

* `decode_serialize`: a frame reads back as what was put into it.
* `payloadBytes_eq_iff`: whether that is the end of what was written.
* `recovered_iff`: after any calls it is, unless as many bytes as the ring holds have been written.
-/

namespace TamagoUefi.Board

open Go Lib

def blkRingCapacity : ℕ := 32 * 1024
def blkRingHeaderSize : ℕ := 16
def blkRingPayloadCapacity : ℕ := blkRingCapacity - blkRingHeaderSize

def blkPrintkScratchMagic : Bytes := str "cloudboot-M1.6" ++ [0, 0]

/-! ## The ring -/

structure BlkRingBuffer where
  /-- The payload and the position in it that is written next. -/
  ring : Ring UInt8 blkRingPayloadCapacity
  total : UInt64
  writeCount : UInt64

namespace BlkRingBuffer

def newBlkRingBuffer : BlkRingBuffer := ⟨.filled 0 (by decide), 0, 0⟩

def wrapped (r : BlkRingBuffer) : Bool := blkRingPayloadCapacity < r.total.toNat

/-- Go's `copy`: as many bytes as both slices have. -/
def copyTo (dst src : Bytes) : Bytes := src.take dst.length ++ dst.drop src.length

def payloadBytes (r : BlkRingBuffer) : Bytes :=
  let n := if blkRingPayloadCapacity < r.total.toNat then blkRingPayloadCapacity else r.total.toNat
  let out := List.replicate n 0
  if r.wrapped = false then copyTo out (r.ring.cells.take r.ring.head)
  else
    let first := blkRingPayloadCapacity - r.ring.head
    copyTo (out.take first) (r.ring.cells.drop r.ring.head) ++
      copyTo (out.drop first) (r.ring.cells.take r.ring.head)

def append (r : BlkRingBuffer) (b : UInt8) : BlkRingBuffer :=
  { r with ring := r.ring.push b, total := r.total + 1 }

def appendString (r : BlkRingBuffer) (s : Bytes) : BlkRingBuffer := s.foldl append r

def incrementWriteCount (r : BlkRingBuffer) : BlkRingBuffer := { r with writeCount := r.writeCount + 1 }

def serialize (r : BlkRingBuffer) : Bytes :=
  let out := List.replicate blkRingCapacity 0
  let out := writeAt out 0 (leBytes 8 r.writeCount.toNat)
  let payload := r.payloadBytes
  let out := writeAt out 8 (leBytes 8 payload.length)
  writeAt out blkRingHeaderSize payload

end BlkRingBuffer

/-! ## The frame -/

inductive BlkRingErr
  | tooShort
  | overCapacity
  | shorterThanDeclared
  deriving DecidableEq

/-- What the decoder returns; the write count is returned with an error too. -/
structure BlkRingFrame where
  writeCount : UInt64
  payload : Bytes
  err : Option BlkRingErr
  deriving DecidableEq

def leU64 (b : Bytes) : UInt64 := UInt64.ofNat (leNat b)

def decodeBlkRingFrame (frame : Bytes) : BlkRingFrame :=
  if frame.length < blkRingHeaderSize then ⟨0, [], some .tooShort⟩
  else
    let writeCount := leU64 (readAt frame 0 8)
    let n := leU64 (readAt frame 8 8)
    if blkRingPayloadCapacity < n.toNat then ⟨writeCount, [], some .overCapacity⟩
    else if frame.length < blkRingHeaderSize + n.toNat then ⟨writeCount, [], some .shorterThanDeclared⟩
    else ⟨writeCount, readAt frame blkRingHeaderSize n.toNat, none⟩

/-! ## `blkprintk-recover` -/

inductive RecoverErr
  /-- `io.ReadFull` of the file. -/
  | read
  | probeNotRun
  | decode (e : BlkRingErr)
  deriving DecidableEq

def magicAtOffset0 (frame : Bytes) : Bool := hasPrefix frame blkPrintkScratchMagic

/-- The first bytes of the disk image; what is printed to the standard output. -/
def runStreams (file : Bytes) : Except RecoverErr Bytes :=
  if file.length < blkRingCapacity then .error .read
  else
    let frame := file.take blkRingCapacity
    if magicAtOffset0 frame then .error .probeNotRun
    else
      let d := decodeBlkRingFrame frame
      match d.err with
      | some e => .error (.decode e)
      | none => .ok d.payload

/-! ## Reading back -/

namespace BlkRingBuffer

theorem copyTo_of_length {dst src : Bytes} (h : src.length = dst.length) : copyTo dst src = src := by
  rw [copyTo, List.take_of_length_le h.le, List.drop_eq_nil_of_le h.ge, List.append_nil]

/-- A ring that has wrapped is written in order. -/
theorem payloadBytes_of_wrapped {r : BlkRingBuffer} (h : blkRingPayloadCapacity < r.total.toNat) :
    r.payloadBytes = r.ring.inOrder := by
  have hlen := r.ring.length_cells
  have hlt := r.ring.head_lt
  have hdrop : (r.ring.cells.drop r.ring.head).length = blkRingPayloadCapacity - r.ring.head := by
    rw [List.length_drop, hlen]
  have htake : (r.ring.cells.take r.ring.head).length = r.ring.head := by
    rw [List.length_take, hlen]
    omega
  unfold payloadBytes
  rw [if_pos h, if_neg (by rw [wrapped, decide_eq_true h]; exact Bool.noConfusion)]
  dsimp only
  rw [copyTo_of_length, copyTo_of_length]
  · rfl
  · rw [htake, List.length_drop, List.length_replicate]
    omega
  · rw [hdrop, List.length_take, List.length_replicate]
    omega

/-- Before that, it is what is in front of the write position, and zeros up to the total. -/
theorem payloadBytes_of_not_wrapped {r : BlkRingBuffer} (h : r.total.toNat ≤ blkRingPayloadCapacity) :
    r.payloadBytes = (r.ring.inOrder.drop (blkRingPayloadCapacity - r.ring.head)).take r.total.toNat ++
      List.replicate (r.total.toNat - r.ring.head) 0 := by
  have htake : (r.ring.cells.take r.ring.head).length = r.ring.head := by
    have hlen := r.ring.length_cells
    have hlt := r.ring.head_lt
    rw [List.length_take, hlen]
    omega
  have hwrap : r.wrapped = false := decide_eq_false (Nat.not_lt.mpr h)
  unfold payloadBytes
  rw [if_neg (Nat.not_lt.mpr h), if_pos hwrap, copyTo, List.length_replicate, htake, List.drop_replicate,
    r.ring.take_head]

theorem length_payloadBytes (r : BlkRingBuffer) :
    r.payloadBytes.length = min r.total.toNat blkRingPayloadCapacity := by
  rcases Nat.lt_or_ge blkRingPayloadCapacity r.total.toNat with h | h
  · rw [payloadBytes_of_wrapped h, r.ring.length_inOrder]
    omega
  · have hlt := r.ring.head_lt
    rw [payloadBytes_of_not_wrapped h, List.length_append, List.length_take, List.length_drop,
      r.ring.length_inOrder, List.length_replicate]
    omega

/-- The writes that make a frame. -/
def frameWrites (r : BlkRingBuffer) : List (ℕ × Bytes) :=
  [(0, leBytes 8 r.writeCount.toNat), (8, leBytes 8 r.payloadBytes.length), (blkRingHeaderSize, r.payloadBytes)]

theorem serialize_eq (r : BlkRingBuffer) :
    r.serialize = writeAll (List.replicate blkRingCapacity 0) r.frameWrites := rfl

theorem placed_frameWrites (r : BlkRingBuffer) :
    Placed (List.replicate blkRingCapacity (0 : UInt8)).length (r.frameWrites.map extent) := by
  have hlen : r.payloadBytes.length ≤ blkRingPayloadCapacity := by
    rw [length_payloadBytes]
    exact Nat.min_le_right ..
  have hcap : blkRingHeaderSize + blkRingPayloadCapacity = blkRingCapacity := rfl
  have hextent : r.frameWrites.map extent = [(0, 8), (8, 8), (16, r.payloadBytes.length)] := by
    simp only [frameWrites, List.map_cons, List.map_nil, extent, length_leBytes]
    rfl
  rw [List.length_replicate, hextent]
  constructor
  · simp only [List.mem_cons, List.not_mem_nil, or_false, forall_eq_or_imp, forall_eq]
    refine ⟨by decide, by decide, ?_⟩
    exact (Nat.add_le_add_left hlen 16).trans hcap.le
  · simp [Apart]

theorem length_payloadBytes_le (r : BlkRingBuffer) : r.payloadBytes.length ≤ blkRingPayloadCapacity := by
  rw [length_payloadBytes]
  exact Nat.min_le_right ..

theorem readAt_serialize (r : BlkRingBuffer) :
    r.serialize.length = blkRingCapacity ∧ readAt r.serialize 0 8 = leBytes 8 r.writeCount.toNat ∧
    readAt r.serialize 8 8 = leBytes 8 r.payloadBytes.length ∧
    readAt r.serialize blkRingHeaderSize r.payloadBytes.length = r.payloadBytes := by
  have hplaced := r.placed_frameWrites
  refine ⟨?_, ?_, ?_, ?_⟩
  · rw [serialize_eq, length_writeAll hplaced.1, List.length_replicate]
  · conv_lhs => rw [← length_leBytes 8 r.writeCount.toNat]
    exact readAt_writeAll hplaced (w := (0, leBytes 8 r.writeCount.toNat)) (by simp [frameWrites])
  · conv_lhs => rw [← length_leBytes 8 r.payloadBytes.length]
    exact readAt_writeAll hplaced (w := (8, leBytes 8 r.payloadBytes.length)) (by simp [frameWrites])
  · exact readAt_writeAll hplaced (w := (blkRingHeaderSize, r.payloadBytes)) (by simp [frameWrites])

/-- **A frame reads back** as the counter and the payload that were put into it. -/
theorem decode_serialize (r : BlkRingBuffer) :
    decodeBlkRingFrame r.serialize = ⟨r.writeCount, r.payloadBytes, none⟩ := by
  obtain ⟨hframe, hcount, hsize, hpayload⟩ := r.readAt_serialize
  have hlen := r.length_payloadBytes_le
  have hcap : blkRingHeaderSize + blkRingPayloadCapacity = blkRingCapacity := rfl
  have hn : (leU64 (leBytes 8 r.payloadBytes.length)).toNat = r.payloadBytes.length := by
    have hsmall : blkRingPayloadCapacity < 2 ^ 64 := by decide
    rw [leU64, leNat_leBytes (by omega), UInt64.toNat_ofNat']
    exact Nat.mod_eq_of_lt (by omega)
  have hw : leU64 (leBytes 8 r.writeCount.toNat) = r.writeCount := by
    rw [leU64, leNat_leBytes r.writeCount.toNat_lt, UInt64.ofNat_toNat]
  unfold decodeBlkRingFrame
  rw [hframe, if_neg (by decide), hcount, hsize, hw]
  dsimp only
  rw [hn, if_neg (Nat.not_lt.mpr hlen), if_neg (by omega), hpayload]

/-- The number of bytes is too small for the second half of the magic. -/
theorem not_magic_serialize (r : BlkRingBuffer) : magicAtOffset0 r.serialize = false := by
  obtain ⟨-, -, hsize, -⟩ := r.readAt_serialize
  have hlen := r.length_payloadBytes_le
  have hsmall : blkRingPayloadCapacity < 2 ^ 32 := by decide
  by_contra h
  obtain ⟨t, ht⟩ := hasPrefix_iff.mp (Bool.eq_true_of_not_eq_false h)
  have hmagic : readAt r.serialize 8 8 = blkPrintkScratchMagic.drop 8 := by
    rw [← ht]
    rfl
  rw [hsize] at hmagic
  have hnum := congrArg leNat hmagic
  rw [leNat_leBytes (by omega), show leNat (blkPrintkScratchMagic.drop 8) = 0x362E314D2D74 from rfl] at hnum
  omega

/-- `blkprintk-recover` prints the payload of the frame at the start of the disk. -/
theorem runStreams_serialize (r : BlkRingBuffer) (rest : Bytes) :
    runStreams (r.serialize ++ rest) = .ok r.payloadBytes := by
  obtain ⟨hframe, -, -, -⟩ := r.readAt_serialize
  have hlen : ¬ (r.serialize ++ rest).length < blkRingCapacity := by
    rw [List.length_append, hframe]
    omega
  unfold runStreams
  rw [if_neg hlen, List.take_left' hframe]
  dsimp only
  rw [r.not_magic_serialize, if_neg Bool.noConfusion, r.decode_serialize]

end BlkRingBuffer

/-! ## Calls -/

inductive RingCall
  | append (b : UInt8)
  | appendString (s : Bytes)
  | incrementWriteCount

namespace RingCall

def apply (r : BlkRingBuffer) : RingCall → BlkRingBuffer
  | append b => r.append b
  | appendString s => r.appendString s
  | incrementWriteCount => r.incrementWriteCount

/-- The bytes that a call appends. -/
def bytes : RingCall → Bytes
  | append b => [b]
  | appendString s => s
  | incrementWriteCount => []

def increments : RingCall → ℕ
  | incrementWriteCount => 1
  | _ => 0

end RingCall

namespace BlkRingBuffer

theorem appendString_spec : ∀ (s : Bytes) (r : BlkRingBuffer),
    (r.appendString s).ring = r.ring.pushAll s ∧
    (r.appendString s).total = r.total + UInt64.ofNat s.length ∧
    (r.appendString s).writeCount = r.writeCount
  | [], r => ⟨rfl, (UInt64.add_zero r.total).symm, rfl⟩
  | b :: s, r => by
    obtain ⟨hring, htotal, hcount⟩ := appendString_spec s (r.append b)
    refine ⟨hring, ?_, hcount⟩
    refine htotal.trans ?_
    rw [List.length_cons, UInt64.ofNat_add, UInt64.add_comm (UInt64.ofNat s.length), ← UInt64.add_assoc]
    rfl

theorem run_spec : ∀ (calls : List RingCall) (r : BlkRingBuffer),
    (runFrom RingCall.apply r calls).ring = r.ring.pushAll (calls.flatMap RingCall.bytes) ∧
    (runFrom RingCall.apply r calls).total = r.total + UInt64.ofNat (calls.flatMap RingCall.bytes).length ∧
    (runFrom RingCall.apply r calls).writeCount =
      r.writeCount + UInt64.ofNat (calls.map RingCall.increments).sum
  | [], r => ⟨rfl, (UInt64.add_zero r.total).symm, (UInt64.add_zero r.writeCount).symm⟩
  | c :: calls, r => by
    obtain ⟨hring, htotal, hcount⟩ := run_spec calls (c.apply r)
    have hstep : (c.apply r).ring = r.ring.pushAll c.bytes ∧
        (c.apply r).total = r.total + UInt64.ofNat c.bytes.length ∧
        (c.apply r).writeCount = r.writeCount + UInt64.ofNat c.increments := by
      cases c with
      | append b => exact ⟨rfl, rfl, (UInt64.add_zero r.writeCount).symm⟩
      | appendString s =>
        obtain ⟨hring, htotal, hcount⟩ := appendString_spec s r
        exact ⟨hring, htotal, hcount.trans (UInt64.add_zero r.writeCount).symm⟩
      | incrementWriteCount => exact ⟨rfl, (UInt64.add_zero r.total).symm, rfl⟩
    rw [runFrom_cons, hring, htotal, hcount, hstep.1, hstep.2.1, hstep.2.2]
    refine ⟨?_, ?_, ?_⟩
    · rw [List.flatMap_cons]
      exact (List.foldl_append ..).symm
    · rw [List.flatMap_cons, List.length_append, UInt64.ofNat_add, UInt64.add_assoc]
    · rw [List.map_cons, List.sum_cons, UInt64.ofNat_add, UInt64.add_assoc]

end BlkRingBuffer

/-! ## The end of the log -/

open BlkRingBuffer

/-- The last `n` bytes, in order. -/
def lastBytes (n : ℕ) (bs : Bytes) : Bytes := bs.drop (bs.length - n)

/-- The total is above the capacity of the ring, or the log is below it.  If the total is the capacity,
zeros are not told apart from what was lost. -/
def Recoverable (bs : Bytes) : Prop :=
  blkRingPayloadCapacity < bs.length % 2 ^ 64 ∨ bs.length < blkRingPayloadCapacity ∨
    bs.length % 2 ^ 64 = blkRingPayloadCapacity ∧ ∀ b ∈ lastBytes blkRingPayloadCapacity bs, b = 0

section
variable {r : BlkRingBuffer} {bs : Bytes}
  (hring : r.ring = (Ring.filled 0 (by decide)).pushAll bs) (htotal : r.total.toNat = bs.length % 2 ^ 64)
include hring

theorem inOrder_eq_lastBytes (h : blkRingPayloadCapacity ≤ bs.length) :
    r.ring.inOrder = lastBytes blkRingPayloadCapacity bs := by
  rw [hring, Ring.inOrder_pushAll, Ring.inOrder_filled, List.drop_append, List.length_replicate,
    List.drop_replicate, Nat.sub_eq_zero_of_le h, List.replicate_zero, List.nil_append, lastBytes]

theorem head_eq : r.ring.head = bs.length % blkRingPayloadCapacity := by
  rw [hring, Ring.head_pushAll]
  exact congrArg (· % _) (Nat.zero_add _)

include htotal

/-- A ring that is not full has the log and nothing else. -/
theorem payloadBytes_of_lt (h : bs.length < blkRingPayloadCapacity) : r.payloadBytes = bs := by
  have hsmall : blkRingPayloadCapacity < 2 ^ 64 := by decide
  have hlen : r.total.toNat = bs.length := htotal.trans (Nat.mod_eq_of_lt (by omega))
  have hhead : r.ring.head = bs.length := (head_eq hring).trans (Nat.mod_eq_of_lt h)
  have horder : r.ring.inOrder = List.replicate (blkRingPayloadCapacity - bs.length) 0 ++ bs := by
    rw [hring, Ring.inOrder_pushAll, Ring.inOrder_filled, List.drop_append, List.length_replicate,
      List.drop_replicate, Nat.sub_eq_zero_of_le h.le, List.drop_zero]
  rw [payloadBytes_of_not_wrapped (by omega), horder, hhead, hlen, List.drop_left' List.length_replicate,
    List.take_length, Nat.sub_self, List.replicate_zero, List.append_nil]

/-- What goes wrong at the capacity: the ring counts as not wrapped, but its start is overwritten. -/
theorem payloadBytes_of_eq (h : blkRingPayloadCapacity ≤ bs.length)
    (htot : bs.length % 2 ^ 64 = blkRingPayloadCapacity) :
    r.payloadBytes = lastBytes blkRingPayloadCapacity bs ↔
      ∀ b ∈ lastBytes blkRingPayloadCapacity bs, b = 0 := by
  have hlt := r.ring.head_lt
  have horder := inOrder_eq_lastBytes hring h
  have hlength : (lastBytes blkRingPayloadCapacity bs).length = blkRingPayloadCapacity := by
    rw [← horder, r.ring.length_inOrder]
  have hpayload : r.payloadBytes =
      (lastBytes blkRingPayloadCapacity bs).drop (blkRingPayloadCapacity - r.ring.head) ++
        List.replicate (blkRingPayloadCapacity - r.ring.head) 0 := by
    rw [payloadBytes_of_not_wrapped (by omega), horder, htotal, htot, List.take_of_length_le]
    rw [List.length_drop, hlength]
    exact Nat.sub_le ..
  rw [hpayload]
  constructor
  · intro heq
    exact eq_of_shift (Nat.sub_pos_of_lt hlt) heq.symm
  · intro hzero
    have hsum : blkRingPayloadCapacity - (blkRingPayloadCapacity - r.ring.head) +
        (blkRingPayloadCapacity - r.ring.head) = blkRingPayloadCapacity := by omega
    rw [List.eq_replicate_of_mem hzero, hlength, List.drop_replicate, List.replicate_append_replicate, hsum]

theorem payloadBytes_eq_iff : r.payloadBytes = lastBytes blkRingPayloadCapacity bs ↔ Recoverable bs := by
  have hmod := Nat.mod_le bs.length (2 ^ 64)
  have hsmall : blkRingPayloadCapacity < 2 ^ 64 := by decide
  unfold Recoverable
  rcases Nat.lt_or_ge bs.length blkRingPayloadCapacity with hlt | hge
  · have hlast : lastBytes blkRingPayloadCapacity bs = bs := by
      rw [lastBytes, Nat.sub_eq_zero_of_le hlt.le, List.drop_zero]
    rw [payloadBytes_of_lt hring htotal hlt, hlast]
    exact iff_of_true rfl (.inr (.inl hlt))
  · rcases Nat.lt_trichotomy (bs.length % 2 ^ 64) blkRingPayloadCapacity with hless | heq | hmore
    · -- the total has wrapped, and too few bytes are written
      refine iff_of_false ?_ ?_
      · intro h
        have hlen := congrArg List.length h
        rw [length_payloadBytes, lastBytes, List.length_drop, htotal] at hlen
        omega
      · rintro (h | h | h)
        · omega
        · omega
        · omega
    · rw [payloadBytes_of_eq hring htotal hge heq]
      constructor
      · exact fun h => .inr (.inr ⟨heq, h⟩)
      · rintro (h | h | h)
        · omega
        · omega
        · exact h.2
    · rw [payloadBytes_of_wrapped (by omega), inOrder_eq_lastBytes hring hge]
      exact iff_of_true rfl (.inl hmore)

end

theorem run_new (calls : List RingCall) :
    (runFrom RingCall.apply newBlkRingBuffer calls).ring =
      (Ring.filled 0 (by decide)).pushAll (calls.flatMap RingCall.bytes) ∧
    (runFrom RingCall.apply newBlkRingBuffer calls).total.toNat =
      (calls.flatMap RingCall.bytes).length % 2 ^ 64 ∧
    (runFrom RingCall.apply newBlkRingBuffer calls).writeCount =
      UInt64.ofNat (calls.map RingCall.increments).sum := by
  obtain ⟨hring, htotal, hcount⟩ := run_spec calls newBlkRingBuffer
  refine ⟨hring, ?_, ?_⟩
  · rw [htotal]
    show (0 + UInt64.ofNat _).toNat = _
    rw [UInt64.zero_add, UInt64.toNat_ofNat']
  · rw [hcount]
    exact UInt64.zero_add _

/-- **The end of the log is recovered** after any calls exactly if the number of bytes appended is not
the capacity of the ring (nor, after the total has wrapped, that number or below).  At the capacity the
frame has zeros instead. -/
theorem recovered_iff (calls : List RingCall) :
    decodeBlkRingFrame (runFrom RingCall.apply newBlkRingBuffer calls).serialize =
        ⟨UInt64.ofNat (calls.map RingCall.increments).sum,
          lastBytes blkRingPayloadCapacity (calls.flatMap RingCall.bytes), none⟩ ↔
      Recoverable (calls.flatMap RingCall.bytes) := by
  obtain ⟨hring, htotal, hcount⟩ := run_new calls
  rw [decode_serialize, hcount, ← payloadBytes_eq_iff hring htotal, BlkRingFrame.mk.injEq]
  constructor
  · exact fun h => h.2.1
  · exact fun h => ⟨rfl, h, rfl⟩

/-- As many bytes as the ring holds: none of them comes back. -/
theorem full_ring_lost :
    decodeBlkRingFrame (runFrom RingCall.apply newBlkRingBuffer
        [.appendString (List.replicate blkRingPayloadCapacity 1)]).serialize ≠
      ⟨0, lastBytes blkRingPayloadCapacity (List.replicate blkRingPayloadCapacity 1), none⟩ := by
  obtain ⟨hring, htotal, -⟩ := run_new [.appendString (List.replicate blkRingPayloadCapacity 1)]
  have hbytes : [RingCall.appendString (List.replicate blkRingPayloadCapacity 1)].flatMap RingCall.bytes =
      List.replicate blkRingPayloadCapacity 1 := List.append_nil _
  rw [hbytes] at hring htotal
  rw [decode_serialize, Ne, BlkRingFrame.mk.injEq]
  rintro ⟨-, hpayload, -⟩
  have hsmall : blkRingPayloadCapacity % 2 ^ 64 = blkRingPayloadCapacity := by decide
  rw [payloadBytes_eq_iff hring htotal, Recoverable, List.length_replicate, hsmall] at hpayload
  rcases hpayload with hlt | hlt | ⟨-, hzero⟩
  · exact absurd hlt (Nat.lt_irrefl _)
  · exact absurd hlt (Nat.lt_irrefl _)
  · refine absurd (hzero 1 ?_) (by decide)
    rw [lastBytes, List.length_replicate, Nat.sub_self, List.drop_zero, List.mem_replicate]
    exact ⟨by decide, rfl⟩

end TamagoUefi.Board
