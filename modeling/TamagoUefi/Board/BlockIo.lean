import Mathlib.Data.BitVec
import Mathlib.Tactic.Push
import TamagoUefi.Lib.Memory
import TamagoUefi.Lib.Run
import TamagoUefi.Lib.Slots

/-!
# TamagoUefi.Board.BlockIo — a disk image that the firmware reads (`block_io_publish*.go`)

`PublishBlockIO` puts an image into a registry of four slots and installs a protocol for it;
`blockIOReadBlocksGo` is called back with the address of that protocol and copies blocks out of the
image, which is a slice of bytes in the same memory as the buffer of the caller.

* `BlockIO.WF`, `BlockIO.wf_run`: after any publications and withdrawals every published image is found
  under the address of its protocol, and a withdrawn one is not (`withdrawn_refused`).
* `readBlocks_eq`: what a read does.  The offset is a product that wraps.
* `readBlocks_exact_iff`: the reads that copy what they are asked for.
-/

namespace TamagoUefi.Board

open Lib
open Function (update update_apply update_of_ne update_self)

abbrev Uintptr := BitVec 64

abbrev Memory := Uintptr → UInt8

/-- A slice of bytes.  It does not go round the end of the memory. -/
structure Slice where
  addr : Uintptr
  len : ℕ
  len_lt : len < 2 ^ 63
  fits : addr.toNat + len ≤ 2 ^ 64

def blockIOLogicalBlockSize : Uintptr := 512
def blockIOPublishRegistrySize : ℕ := 4

def blockIOEFISuccess : Uintptr := 0
def blockIOEFIInvalidParameter : Uintptr := 0x8000000000000002
def blockIOEFIBadBufferSize : Uintptr := 0x8000000000000005
def blockIOEFIWriteProtected : Uintptr := 0x8000000000000008
def blockIOEFINotFound : Uintptr := 0x800000000000000E

/-! ## The registry -/

/-- A slot that is taken has a protocol. -/
structure BlockIOPublishEntry where
  proto : Uintptr
  media : Uintptr
  body : Uintptr
  size : Uintptr
  live : proto ≠ 0

abbrev Registry := List (Option BlockIOPublishEntry)

def blockIOLookup (reg : Registry) (this : Uintptr) : Option BlockIOPublishEntry :=
  Slots.find (·.proto) reg this

/-! ## Handlers -/

def blockIOReset (reg : Registry) (this _extended : Uintptr) : Uintptr :=
  match blockIOLookup reg this with
  | none => blockIOEFINotFound
  | some _ => blockIOEFISuccess

def blockIOReadBlocks (reg : Registry) (mem : Memory) (this _mediaID lba bufferSize buffer : Uintptr) :
    Uintptr × Memory :=
  match blockIOLookup reg this with
  | none => (blockIOEFINotFound, mem)
  | some ent =>
    if bufferSize = 0 then (blockIOEFISuccess, mem)
    else if bufferSize % blockIOLogicalBlockSize ≠ 0 then (blockIOEFIBadBufferSize, mem)
    else if buffer = 0 then (blockIOEFIInvalidParameter, mem)
    else
      let off := lba * blockIOLogicalBlockSize
      if ent.size < off then (blockIOEFIInvalidParameter, mem)
      else
        let stop := off + bufferSize
        if ent.size < stop ∨ stop < off then (blockIOEFIInvalidParameter, mem)
        else (blockIOEFISuccess, copyForward mem buffer (ent.body + off) bufferSize.toNat)

def blockIOWriteBlocks (reg : Registry) (this _mediaID _lba _bufferSize _buffer : Uintptr) : Uintptr :=
  match blockIOLookup reg this with
  | none => blockIOEFINotFound
  | some _ => blockIOEFIWriteProtected

def blockIOFlushBlocks (reg : Registry) (this : Uintptr) : Uintptr :=
  match blockIOLookup reg this with
  | none => blockIOEFINotFound
  | some _ => blockIOEFISuccess

/-! ## Publishing -/

inductive PublishErr
  | emptyBlockImage
  | blockIOImageNotAligned
  | noBootServices
  | blockIORegistryFull
  | blockIONotPublished
  | efi (status : Uintptr) (op : String)

/-- What `PublishBlockIO` remembers under the handle. -/
structure BlockIOPublishState where
  entry : BlockIOPublishEntry
  body : Slice
  slot : ℕ

/-- The package variables. -/
structure BlockIO where
  registry : Registry
  published : Uintptr → Option BlockIOPublishState

/-- The image, the addresses of the structures that are allocated for it, and the answer of the
firmware: a status and a handle. -/
structure PublishCall where
  image : Slice
  bootServices : Bool
  proto : Uintptr
  media : Uintptr
  proto_ne : proto ≠ 0
  status : Uintptr
  handle : Uintptr

def PublishCall.entry (c : PublishCall) : BlockIOPublishEntry :=
  ⟨c.proto, c.media, c.image.addr, BitVec.ofNat 64 c.image.len, c.proto_ne⟩

namespace BlockIO

def init : BlockIO := ⟨List.replicate blockIOPublishRegistrySize none, fun _ => none⟩

def publishBlockIO (b : BlockIO) (c : PublishCall) : BlockIO × Except PublishErr Uintptr :=
  if c.image.len = 0 then (b, .error .emptyBlockImage)
  else if c.image.len % 512 ≠ 0 then (b, .error .blockIOImageNotAligned)
  else if c.bootServices = false then (b, .error .noBootServices)
  else
    match Slots.freeSlot b.registry with
    | none => (b, .error .blockIORegistryFull)
    | some slot =>
      -- the slot is taken before the firmware is called
      let registry := b.registry.set slot (some c.entry)
      if c.status ≠ blockIOEFISuccess then
        (⟨registry.set slot none, b.published⟩,
          .error (.efi c.status "InstallMultipleProtocolInterfaces(BlockIO+DevicePath)"))
      else
        (⟨registry, update b.published c.handle (some ⟨c.entry, c.image, slot⟩)⟩, .ok c.handle)

def unpublishBlockIO (b : BlockIO) (handle : Uintptr) (bootServices : Bool) (status : Uintptr) :
    BlockIO × Except PublishErr Unit :=
  if handle = 0 then (b, .error .blockIONotPublished)
  else
    match b.published handle with
    | none => (b, .error .blockIONotPublished)
    | some state =>
      if bootServices = false then (b, .error .noBootServices)
      else if status ≠ blockIOEFISuccess then
        (b, .error (.efi status "UninstallMultipleProtocolInterfaces(BlockIO+DevicePath)"))
      else (⟨b.registry.set state.slot none, update b.published handle none⟩, .ok ())

inductive Event
  | publish (c : PublishCall)
  | unpublish (handle : Uintptr) (bootServices : Bool) (status : Uintptr)

def step (b : BlockIO) : Event → BlockIO
  | .publish c => (b.publishBlockIO c).1
  | .unpublish handle bootServices status => (b.unpublishBlockIO handle bootServices status).1

/-- A structure is allocated at an address where no published one is. -/
def Fresh (b : BlockIO) : Event → Prop
  | .publish c => blockIOLookup b.registry c.proto = none
  | .unpublish .. => True

/-- Every published image has a slot of its own, which is filled with it. -/
structure WF (b : BlockIO) : Prop where
  distinct : Slots.Distinct (·.proto) b.registry
  filled : ∀ h st, b.published h = some st → b.registry[st.slot]? = some (some st.entry)
  image : ∀ h st, b.published h = some st →
    st.entry.body = st.body.addr ∧ st.entry.size = BitVec.ofNat 64 st.body.len
  own : ∀ h h' st st', b.published h = some st → b.published h' = some st' → st.slot = st'.slot → h = h'

theorem wf_init : init.WF where
  distinct := Slots.distinct_replicate _
  filled := fun _ _ h => nomatch h
  image := fun _ _ h => nomatch h
  own := fun _ _ _ _ h => nomatch h

theorem publishBlockIO_cases (b : BlockIO) (c : PublishCall) :
    (b.publishBlockIO c).1 = b ∨ ∃ slot, Slots.freeSlot b.registry = some slot ∧
      (b.publishBlockIO c).1 = ⟨b.registry.set slot (some c.entry),
        update b.published c.handle (some ⟨c.entry, c.image, slot⟩)⟩ := by
  unfold publishBlockIO
  by_cases h₁ : c.image.len = 0
  · rw [if_pos h₁]
    exact .inl rfl
  by_cases h₂ : c.image.len % 512 ≠ 0
  · rw [if_neg h₁, if_pos h₂]
    exact .inl rfl
  by_cases h₃ : c.bootServices = false
  · rw [if_neg h₁, if_neg h₂, if_pos h₃]
    exact .inl rfl
  rw [if_neg h₁, if_neg h₂, if_neg h₃]
  cases hslot : Slots.freeSlot b.registry with
  | none => exact .inl rfl
  | some slot =>
    simp only
    split_ifs with hstatus
    · -- the slot is given back
      left
      rw [Slots.set_freeSlot hslot]
    · exact .inr ⟨slot, rfl, rfl⟩

theorem unpublishBlockIO_cases (b : BlockIO) (handle : Uintptr) (bootServices : Bool) (status : Uintptr) :
    (b.unpublishBlockIO handle bootServices status).1 = b ∨ ∃ st, b.published handle = some st ∧
      (b.unpublishBlockIO handle bootServices status).1 =
        ⟨b.registry.set st.slot none, update b.published handle none⟩ := by
  unfold unpublishBlockIO
  by_cases h₁ : handle = 0
  · rw [if_pos h₁]
    exact .inl rfl
  rw [if_neg h₁]
  cases hst : b.published handle with
  | none => exact .inl rfl
  | some st =>
    simp only
    split_ifs
    · exact .inl rfl
    · exact .inl rfl
    · exact .inr ⟨st, rfl, rfl⟩

theorem WF.publish {b : BlockIO} (hb : b.WF) {c : PublishCall} (hfresh : b.Fresh (.publish c)) :
    (b.publishBlockIO c).1.WF := by
  rcases b.publishBlockIO_cases c with h | ⟨slot, hslot, h⟩
  · rw [h]
    exact hb
  rw [h]
  have hfree := Slots.freeSlot_eq_some hslot
  have hne : ∀ h st, b.published h = some st → slot ≠ st.slot := by
    intro h st hst hslots
    rw [hslots, hb.filled h st hst] at hfree
    cases hfree
  -- a handle has the new publication or an old one
  have hcases : ∀ h st, update b.published c.handle (some ⟨c.entry, c.image, slot⟩) h = some st →
      h = c.handle ∧ st = ⟨c.entry, c.image, slot⟩ ∨ b.published h = some st := by
    intro h st hst
    rw [update_apply] at hst
    split_ifs at hst with hh
    · exact .inl ⟨hh, (Option.some.inj hst).symm⟩
    · exact .inr hst
  refine ⟨(hb.distinct.find_take (a := c.entry) hslot hfresh).1, fun h st hst => ?_, fun h st hst => ?_,
    fun h h' st st' hst hst' hslots => ?_⟩
  · rcases hcases h st hst with ⟨-, rfl⟩ | hold
    · exact List.getElem?_set_self (List.getElem?_eq_some_iff.mp hfree).1
    · rw [List.getElem?_set_ne (hne h st hold)]
      exact hb.filled h st hold
  · rcases hcases h st hst with ⟨-, rfl⟩ | hold
    · exact ⟨rfl, rfl⟩
    · exact hb.image h st hold
  · rcases hcases h st hst with ⟨rfl, rfl⟩ | hold
    · rcases hcases h' st' hst' with ⟨rfl, rfl⟩ | hold'
      · rfl
      · exact absurd hslots (hne h' st' hold')
    · rcases hcases h' st' hst' with ⟨rfl, rfl⟩ | hold'
      · exact absurd hslots.symm (hne h st hold)
      · exact hb.own h h' st st' hold hold' hslots

theorem WF.unpublish {b : BlockIO} (hb : b.WF) (handle : Uintptr) (bootServices : Bool) (status : Uintptr) :
    (b.unpublishBlockIO handle bootServices status).1.WF := by
  rcases b.unpublishBlockIO_cases handle bootServices status with h | ⟨gone, hgone, h⟩
  · rw [h]
    exact hb
  rw [h]
  have hold : ∀ h st, update b.published handle none h = some st →
      h ≠ handle ∧ b.published h = some st := by
    intro h st hst
    rw [update_apply] at hst
    split_ifs at hst with hh
    exact ⟨hh, hst⟩
  refine ⟨(hb.distinct.find_change (x := none) (hb.filled _ _ hgone) fun _ h => nomatch h).1, fun h st hst => ?_,
    fun h st hst => hb.image h st (hold h st hst).2,
    fun h h' st st' hst hst' => hb.own h h' st st' (hold h st hst).2 (hold h' st' hst').2⟩
  obtain ⟨hh, hst⟩ := hold h st hst
  have hne : gone.slot ≠ st.slot := fun hslots => hh (hb.own handle h gone st hgone hst hslots).symm
  rw [List.getElem?_set_ne hne]
  exact hb.filled h st hst

theorem WF.step {b : BlockIO} (hb : b.WF) {e : Event} (hfresh : b.Fresh e) : (b.step e).WF := by
  cases e with
  | publish c => exact hb.publish hfresh
  | unpublish handle bootServices status => exact hb.unpublish handle bootServices status

theorem wf_run {es : List Event} (h : RunMeets step Fresh init es) : (runFrom step init es).WF :=
  h.invariant (fun _ _ hb hfresh => hb.step hfresh) wf_init es (List.prefix_refl es)

/-- A published image is found under the address of its protocol. -/
theorem WF.lookup {b : BlockIO} (hb : b.WF) {h : Uintptr} {st : BlockIOPublishState}
    (hst : b.published h = some st) : blockIOLookup b.registry st.entry.proto = some st.entry :=
  hb.distinct.find_iff.mpr ⟨rfl, st.slot, hb.filled h st hst⟩

end BlockIO

/-! ## Reading -/

section
variable {reg : Registry} {mem : Memory} {this mediaID lba bufferSize buffer : Uintptr}
  {ent : BlockIOPublishEntry}

/-- The bounds are checked on an offset that has wrapped. -/
theorem accepted_iff (off bufferSize size : Uintptr) :
    (¬ size < off ∧ ¬ (size < off + bufferSize ∨ off + bufferSize < off)) ↔
      off.toNat + bufferSize.toNat ≤ size.toNat := by
  have h₁ := off.isLt
  have h₂ := bufferSize.isLt
  have h₃ := size.isLt
  simp only [BitVec.lt_def, BitVec.toNat_add]
  rcases Nat.lt_or_ge (off.toNat + bufferSize.toNat) (2 ^ 64) with h | h
  · rw [Nat.mod_eq_of_lt h]
    omega
  · rw [Nat.mod_eq_sub_mod h, Nat.mod_eq_of_lt (by omega)]
    omega

theorem toNat_offset (lba : Uintptr) :
    (lba * blockIOLogicalBlockSize).toNat = lba.toNat * 512 % 2 ^ 64 := BitVec.toNat_mul _ _

/-- **What a read does.** -/
theorem readBlocks_eq (hent : blockIOLookup reg this = some ent) (hzero : bufferSize ≠ 0)
    (hmul : bufferSize % blockIOLogicalBlockSize = 0) (hbuf : buffer ≠ 0) :
    blockIOReadBlocks reg mem this mediaID lba bufferSize buffer =
      if lba.toNat * 512 % 2 ^ 64 + bufferSize.toNat ≤ ent.size.toNat then
        (blockIOEFISuccess,
          copyForward mem buffer (ent.body + lba * blockIOLogicalBlockSize) bufferSize.toNat)
      else (blockIOEFIInvalidParameter, mem) := by
  have hacc := accepted_iff (lba * blockIOLogicalBlockSize) bufferSize ent.size
  rw [toNat_offset] at hacc
  unfold blockIOReadBlocks
  rw [hent]
  simp only
  rw [if_neg hzero, if_neg (not_not.mpr hmul), if_neg hbuf]
  by_cases h : lba.toNat * 512 % 2 ^ 64 + bufferSize.toNat ≤ ent.size.toNat
  · obtain ⟨h₁, h₂⟩ := hacc.mpr h
    rw [if_neg h₁, if_neg h₂, if_pos h]
  · rw [if_neg h]
    split_ifs with h₁ h₂
    · rfl
    · rfl
    · exact absurd (hacc.mp ⟨h₁, h₂⟩) h

end

/-- A read of `image` that does what it is asked for: it succeeds if the blocks are in the image, it
copies them and nothing else, and if it does not succeed it writes nothing. -/
structure ReadExact (mem : Memory) (image : Slice) (lba bufferSize buffer : Uintptr)
    (r : Uintptr × Memory) : Prop where
  success_iff : r.1 = blockIOEFISuccess ↔ lba.toNat * 512 + bufferSize.toNat ≤ image.len
  copied : r.1 = blockIOEFISuccess → ∀ i < bufferSize.toNat,
    r.2 (buffer + BitVec.ofNat 64 i) = mem (image.addr + BitVec.ofNat 64 (lba.toNat * 512 + i))
  frame : r.1 = blockIOEFISuccess → ∀ a, (∀ i < bufferSize.toNat, a ≠ buffer + BitVec.ofNat 64 i) →
    r.2 a = mem a
  untouched : r.1 ≠ blockIOEFISuccess → r.2 = mem

/-- The offset is beyond the address space and wraps to one in the image. -/
def Wraps (image : Slice) (lba bufferSize : Uintptr) : Prop :=
  2 ^ 64 ≤ lba.toNat * 512 ∧ lba.toNat * 512 % 2 ^ 64 + bufferSize.toNat ≤ image.len

/-- The buffer begins inside the blocks that are read, behind the first byte, and does not hold the
same bytes already. -/
def Smears (mem : Memory) (image : Slice) (lba bufferSize buffer : Uintptr) : Prop :=
  lba.toNat * 512 + bufferSize.toNat ≤ image.len ∧
    ∃ i, i + (buffer - (image.addr + BitVec.ofNat 64 (lba.toNat * 512))).toNat < bufferSize.toNat ∧
      mem (buffer + BitVec.ofNat 64 i) ≠ mem (image.addr + BitVec.ofNat 64 (lba.toNat * 512 + i))

theorem ofNat_offset (lba : Uintptr) : lba * blockIOLogicalBlockSize = BitVec.ofNat 64 (lba.toNat * 512) := by
  apply BitVec.eq_of_toNat_eq
  rw [toNat_offset, BitVec.toNat_ofNat]

/-- **The reads of a published image that are exact.** -/
theorem readBlocks_exact_iff (es : List BlockIO.Event) (hes : RunMeets BlockIO.step BlockIO.Fresh .init es)
    (h : Uintptr) (st : BlockIOPublishState) (hst : (runFrom BlockIO.step .init es).published h = some st)
    (mem : Memory) (mediaID lba bufferSize buffer : Uintptr) (hzero : bufferSize ≠ 0)
    (hmul : bufferSize % blockIOLogicalBlockSize = 0) (hbuf : buffer ≠ 0) :
    ReadExact mem st.body lba bufferSize buffer
      (blockIOReadBlocks (runFrom BlockIO.step .init es).registry mem st.entry.proto mediaID lba bufferSize
        buffer) ↔
    ¬ Wraps st.body lba bufferSize ∧ ¬ Smears mem st.body lba bufferSize buffer := by
  have hwf := BlockIO.wf_run hes
  obtain ⟨hbody, hsize⟩ := hwf.image h st hst
  have hlen := st.body.len_lt
  have hsize' : st.entry.size.toNat = st.body.len := by
    rw [hsize, BitVec.toNat_ofNat, Nat.mod_eq_of_lt (by omega)]
  rw [readBlocks_eq (hwf.lookup hst) hzero hmul hbuf, hsize', hbody, ofNat_offset]
  have hcell : ∀ i, st.body.addr + BitVec.ofNat 64 (lba.toNat * 512) + BitVec.ofNat 64 i =
      st.body.addr + BitVec.ofNat 64 (lba.toNat * 512 + i) := fun i => by
    rw [BitVec.add_assoc, ← BitVec.ofNat_add]
  have hcopy := copyForward_exact_iff mem buffer (st.body.addr + BitVec.ofNat 64 (lba.toNat * 512))
    bufferSize.isLt.le
  simp only [hcell] at hcopy
  split_ifs with hacc
  · by_cases hwrap : 2 ^ 64 ≤ lba.toNat * 512
    · constructor
      · intro hexact
        have := hexact.success_iff.mp rfl
        omega
      · rintro ⟨hno, -⟩
        exact absurd ⟨hwrap, hacc⟩ hno
    · rw [Nat.mod_eq_of_lt (by omega)] at hacc
      constructor
      · rintro ⟨-, hcopied, -, -⟩
        refine ⟨fun hw => hwrap hw.1, ?_⟩
        rintro ⟨-, i, hi, hne⟩
        exact hne (hcopy.mp (hcopied rfl) i hi)
      · rintro ⟨-, hno⟩
        refine ⟨⟨fun _ => hacc, fun _ => rfl⟩, fun _ => hcopy.mpr fun i hi => ?_,
          fun _ a ha => copyForward_of_ne ha, fun hne => absurd rfl hne⟩
        by_contra hne
        exact hno ⟨hacc, i, hi, hne⟩
  · -- not accepted: the blocks are not in the image
    have hout : ¬ lba.toNat * 512 + bufferSize.toNat ≤ st.body.len := fun hin => by
      rw [Nat.mod_eq_of_lt (by omega)] at hacc
      exact hacc hin
    have hfail : blockIOEFIInvalidParameter ≠ blockIOEFISuccess := by decide
    exact iff_of_true ⟨iff_of_false hfail hout, fun h => absurd h hfail, fun h => absurd h hfail, fun _ => rfl⟩
      ⟨fun hw => hacc hw.2, fun hs => hout hs.1⟩

/-- An image of two blocks at 0x1000, published under the handle 0x30. -/
def twoBlocks : PublishCall where
  image := ⟨0x1000, 1024, by decide, by decide⟩
  bootServices := true
  proto := 0x10
  media := 0x20
  proto_ne := by decide
  status := blockIOEFISuccess
  handle := 0x30

theorem twoBlocks_fresh : RunMeets BlockIO.step BlockIO.Fresh .init [.publish twoBlocks] := ⟨rfl, trivial⟩

theorem twoBlocks_published : (runFrom BlockIO.step .init [.publish twoBlocks]).published 0x30 =
    some ⟨twoBlocks.entry, twoBlocks.image, 0⟩ := rfl

/-- A memory in which every byte tells its address. -/
def addresses : Memory := fun a => UInt8.ofNat a.toNat

/-- The second block is read. -/
theorem readBlocks_second : ReadExact addresses twoBlocks.image 1 512 0x10000
    (blockIOReadBlocks (runFrom BlockIO.step .init [.publish twoBlocks]).registry addresses 0x10 1 1 512
      0x10000) := by
  refine (readBlocks_exact_iff [.publish twoBlocks] twoBlocks_fresh 0x30 _ twoBlocks_published addresses 1 1
    512 0x10000 (by decide) (by decide) (by decide)).mpr ⟨?_, ?_⟩
  · rintro ⟨hwrap, -⟩
    exact absurd hwrap (by decide)
  · rintro ⟨-, i, hi, -⟩
    exact absurd (Nat.lt_of_le_of_lt (Nat.le_add_left _ i) hi) (by decide)

/-- Block 2^55 is read as block 0. -/
theorem readBlocks_wraps : ¬ ReadExact addresses twoBlocks.image (2 ^ 55) 512 0x10000
    (blockIOReadBlocks (runFrom BlockIO.step .init [.publish twoBlocks]).registry addresses 0x10 1 (2 ^ 55)
      512 0x10000) := by
  intro hexact
  exact absurd (hexact.success_iff.mp rfl) (by decide)

/-! ## Withdrawal -/

open BlockIO in
/-- **A withdrawn image is out of reach**, after any publications and withdrawals: every handler refuses its
protocol, and the protocols of the other images are found as before. -/
theorem withdrawn_refused (es : List Event) (hes : RunMeets step Fresh init es) (h : Uintptr)
    (st : BlockIOPublishState) (hne : h ≠ 0) (hst : (runFrom step init es).published h = some st) :
    let reg := (step (runFrom step init es) (.unpublish h true blockIOEFISuccess)).registry
    (∀ mem x lba bufferSize buffer,
      blockIOReset reg st.entry.proto x = blockIOEFINotFound ∧
      blockIOReadBlocks reg mem st.entry.proto x lba bufferSize buffer = (blockIOEFINotFound, mem) ∧
      blockIOWriteBlocks reg st.entry.proto x lba bufferSize buffer = blockIOEFINotFound ∧
      blockIOFlushBlocks reg st.entry.proto = blockIOEFINotFound) ∧
    ∀ h' st', h' ≠ h → (runFrom step init es).published h' = some st' →
      blockIOLookup reg st'.entry.proto = some st'.entry := by
  have hb := wf_run hes
  generalize runFrom step init es = b at hst hb
  have hafter : step b (.unpublish h true blockIOEFISuccess) =
      ⟨b.registry.set st.slot none, update b.published h none⟩ := by
    unfold step unpublishBlockIO
    simp only [if_neg hne, hst]
    rfl
  have hwf : (step b (.unpublish h true blockIOEFISuccess)).WF := hb.unpublish h true blockIOEFISuccess
  rw [hafter] at hwf ⊢
  have hgone : blockIOLookup (b.registry.set st.slot none) st.entry.proto = none := by
    unfold blockIOLookup
    rw [(hb.distinct.find_change (x := none) (hb.filled h st hst) fun _ h => nomatch h).2,
      update_self]
  refine ⟨?_, fun h' st' hh' hst' => ?_⟩
  · simp only [blockIOReset, blockIOReadBlocks, blockIOWriteBlocks, blockIOFlushBlocks, hgone, and_self,
      implies_true]
  · have hkept : update b.published h none h' = some st' := by
      rw [update_of_ne hh', hst']
    exact hwf.lookup hkept

/-- Nothing is flushed any more. -/
theorem withdrawn_refused_twoBlocks : blockIOFlushBlocks (runFrom BlockIO.step .init
    [.publish twoBlocks, .unpublish 0x30 true blockIOEFISuccess]).registry 0x10 = blockIOEFINotFound :=
  ((withdrawn_refused _ twoBlocks_fresh 0x30 _ (by decide) twoBlocks_published).1 addresses 0 0 0 0).2.2.2

end TamagoUefi.Board
