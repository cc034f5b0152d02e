import TamagoUefi.Disk.Gpt
import TamagoUefi.Lib.Ask

/-!
# TamagoUefi.Cmd.PackStub — the self-extracting stub (`cmd/efipackstub/main.go`)

The stub reads its own file, finds the section `.payload` and decodes it into pages that it asks the
firmware for.  Offsets and sizes come from the file.

* `findPayloadOnDisk_ok`: the search never leaves the file.
* `run_in_bounds`: neither does the rest, and the destination lies in the pages.
-/

namespace TamagoUefi.Cmd.PackStub

open Go Lib Disk

inductive Panic
  | sliceOutOfRange
  | unsafeSliceLen
  deriving DecidableEq

def sliceOf (b : Bytes) (lo hi : ℤ) : Except Panic Bytes :=
  match slice b lo hi with
  | some s => .ok s
  | none => .error .sliceOutOfRange

/-- `binary.LittleEndian` on `b[off:]`, of a number of `n` bytes. -/
def readLE (n : ℕ) (b : Bytes) (off : ℤ) : Except Panic ℕ := do
  let tail ← sliceOf b off b.length
  let word ← sliceOf tail 0 n
  return leNat word

/-- `unsafe.Slice` of bytes.  It refuses a negative length, a null pointer and a slice that goes round
the end of the memory. -/
def unsafeSlice (addr : ℕ) (len : ℤ) : Except Panic ℕ :=
  if len < 0 ∨ addr = 0 ∧ len ≠ 0 ∨ 2 ^ 64 < addr + len then .error .unsafeSliceLen else .ok len.toNat

/-! ## The payload -/

def payloadMagic : Bytes := str "CBP0"
def payloadHeaderSize : ℕ := 24
def algoFlat : Bytes := str "FLAT"
def algoLZFSE : Bytes := str "LZFS"
def algoLZ4 : Bytes := str "LZ4 "

def hasPayloadMagic (b : Bytes) : Bool := if b.length < 4 then false else readAt b 0 4 == payloadMagic

def trimNUL (b : Bytes) : Bytes := b.takeWhile (· ≠ 0)

/-- The body of a section, with offsets of 32 bits. -/
def sectionBody (pe : Bytes) (off : ℕ) : Except Panic (Option Bytes) := do
  let rsize ← readLE 4 pe (off + 16)
  let foff ← readLE 4 pe (off + 20)
  if rsize = 0 then return none
  else if pe.length < foff + rsize then return none
  else
    let body ← sliceOf pe foff ((foff + rsize) % 2 ^ 32 : ℕ)
    return if hasPayloadMagic body then some body else none

/-- The loop over the indices of the sections. -/
def sections (pe : Bytes) (secTableStart : ℕ) : List ℕ → Except Panic (Option Bytes)
  | [] => .ok none
  | i :: is => do
    let off := secTableStart + i * 40
    let nameBuf ← sliceOf pe off (off + 8)
    if trimNUL nameBuf ≠ str ".payload" then sections pe secTableStart is else sectionBody pe off

def findPayloadOnDisk (pe : Bytes) : Except Panic (Option Bytes) :=
  if pe.length < 0x40 ∨ pe[0]? ≠ some 0x4D ∨ pe[1]? ≠ some 0x5A then .ok none
  else do
    let elfanew ← readLE 4 pe 0x3C
    if pe.length < elfanew + 4 + 20 then return none
    else
      let signature ← sliceOf pe elfanew ((elfanew + 4) % 2 ^ 32 : ℕ)
      if signature ≠ [0x50, 0x45, 0, 0] then return none
      else
        let coffOff := elfanew + 4
        let numSections ← readLE 2 pe (coffOff + 2)
        let sizeOfOpt ← readLE 2 pe (coffOff + 16)
        let secTableStart := coffOff + 20 + sizeOfOpt
        if pe.length < secTableStart + numSections * 40 then return none
        else sections pe secTableStart (List.range numSections)

/-! ## The decoders -/

structure Codecs where
  /-- `io.ReadFull` of a flate stream into so many bytes: what is stored, and whether the read behind
  it reports `io.EOF`. -/
  inflate : Bytes → ℕ → Bytes × Bool
  length_inflate : ∀ src n, (inflate src n).1.length ≤ n
  /-- `lz4.DecompressBlock`. -/
  lz4 : Bytes → ℕ → Option Bytes
  /-- `lzfse.Decompress`. -/
  lzfse : Bytes → Option Bytes

/-- What is stored in a destination of `n` bytes, from its start, and the result. -/
def flateDecode (c : Codecs) (src : Bytes) (n : ℕ) : Bytes × Bool :=
  let (out, eof) := c.inflate src n
  if out.length ≠ n then (out, false) else (out, eof)

/-- A decoded text is copied if it has the length of the destination. -/
def copyExact (out : Option Bytes) (n : ℕ) : Bytes × Bool :=
  match out with
  | none => ([], false)
  | some out => if out.length ≠ n then ([], false) else (out, true)

def decodePayload (c : Codecs) (algo compressed : Bytes) (n : ℕ) : Bytes × Bool :=
  if algo = algoFlat then flateDecode c compressed n
  else if algo = algoLZ4 then copyExact (c.lz4 compressed n) n
  else if algo = algoLZFSE then copyExact (c.lzfse compressed) n
  else ([], false)

/-! ## The stub -/

def efiLoaderCode : ℕ := 1
def efiPageSize : ℕ := 4096
def efiAborted : ℕ := 0x8000000000000015

/-- The firmware.  What it grants is physical memory, whose addresses have 52 bits on amd64 and
arm64, 56 on riscv64 and 60 on loong64: it lies below `2 ^ 63`. -/
structure Firmware where
  /-- Whether the pointer to the boot services is set. -/
  bootServices : Bool
  allocatePages : ℕ → ℕ → Option ℕ
  physical : ∀ memoryType count addr, allocatePages memoryType count = some addr →
    addr + count * efiPageSize ≤ 2 ^ 63
  /-- The handle of an image in memory. -/
  loadImage : ℕ → ℕ → Option ℕ
  startImage : ℕ → ℕ

/-- `uefiboard.AllocatePages`. -/
def allocatePages (fw : Firmware) (memoryType count : ℕ) : Option ℕ :=
  if ¬ fw.bootServices then none
  else if count = 0 then some 0
  else fw.allocatePages memoryType count

/-- A call of `decodePayload`, with what it stores. -/
structure Decode where
  algo : Bytes
  compressed : Bytes
  pageCount : ℕ
  addr : ℕ
  /-- The length of the destination. -/
  len : ℕ
  stored : Bytes
  deriving DecidableEq

/-- The status, and the call of `decodePayload` if there is one. -/
structure Exit where
  decode : Option Decode
  status : ℕ
  deriving DecidableEq

def Exit.aborted : Exit := ⟨none, efiAborted⟩

def uncompressedSize (payload : Bytes) : ℕ := leNat (readAt payload 8 8)

/-- `run` behind the allocation. -/
def decodeAndStart (fw : Firmware) (c : Codecs) (algo compressed : Bytes) (uncompressedSize pageCount addr : ℕ) :
    Except Panic Exit := do
  let len ← unsafeSlice addr (goInt uncompressedSize)
  let (stored, ok) := decodePayload c algo compressed len
  let decode := some ⟨algo, compressed, pageCount, addr, len, stored⟩
  if ¬ ok then return ⟨decode, efiAborted⟩
  else
    match fw.loadImage addr len with
    | none => return ⟨decode, efiAborted⟩
    | some child => return ⟨decode, fw.startImage child⟩

/-- `run` from the allocation on. -/
def allocateAndDecode (fw : Firmware) (c : Codecs) (algo compressed : Bytes) (uncompressedSize : ℕ) :
    Except Panic Exit :=
  let pageCount := (uncompressedSize + efiPageSize - 1) % 2 ^ 64 / efiPageSize
  match allocatePages fw efiLoaderCode pageCount with
  | none => .ok .aborted
  | some addr =>
    if addr = 0 then .ok .aborted else decodeAndStart fw c algo compressed uncompressedSize pageCount addr

/-- `run` behind the header of the payload. -/
def unpackBody (fw : Firmware) (c : Codecs) (payload algo : Bytes) (uncompressedSize compressedSize : ℕ) :
    Except Panic Exit :=
  if payload.length - payloadHeaderSize < compressedSize then .ok .aborted
  else if uncompressedSize = 0 then .ok .aborted
  else do
    let compressed ← sliceOf payload payloadHeaderSize (goInt (payloadHeaderSize + goInt compressedSize))
    allocateAndDecode fw c algo compressed uncompressedSize

/-- `run` from the header of the payload on. -/
def unpack (fw : Firmware) (c : Codecs) (payload : Bytes) : Except Panic Exit :=
  if payload.length < payloadHeaderSize then .ok .aborted
  else do
    let magic ← sliceOf payload 0 4
    if magic ≠ payloadMagic then return .aborted
    else
      let algo ← sliceOf payload 4 8
      if algo ∉ [algoFlat, algoLZ4, algoLZFSE] then return .aborted
      else
        let uncompressedSize ← sliceOf payload 8 16
        let compressedSize ← sliceOf payload 16 24
        unpackBody fw c payload algo (leNat uncompressedSize) (leNat compressedSize)

/-- `peBytes` is the result of `readOwnFile`. -/
def run (fw : Firmware) (c : Codecs) (peBytes : Option Bytes) : Except Panic Exit :=
  match peBytes with
  | none => .ok .aborted
  | some pe => do
    match ← findPayloadOnDisk pe with
    | none => return .aborted
    | some payload => unpack fw c payload

/-! ## Reads in range -/

section
variable {b pe : Bytes} {lo hi off n : ℕ}

variable (lo hi) in
theorem sliceOf_ok (h₁ : lo ≤ hi) (h₂ : hi ≤ b.length) : sliceOf b lo hi = .ok (readAt b lo (hi - lo)) := by
  rw [sliceOf, slice_eq h₁ h₂]

variable (off n) in
theorem readLE_ok (h : off + n ≤ b.length) : readLE n b off = .ok (leNat (readAt b off n)) := by
  have htail : sliceOf b off b.length = .ok (readAt b off (b.length - off)) :=
    sliceOf_ok off b.length (by omega) le_rfl
  have hword : sliceOf (readAt b off (b.length - off)) 0 n = .ok (readAt b off n) := by
    have hlen : n ≤ (readAt b off (b.length - off)).length := by
      rw [length_readAt (by omega)]
      omega
    have := sliceOf_ok 0 n (Nat.zero_le n) hlen
    rwa [Nat.sub_zero, readAt_readAt b (by omega), Nat.add_zero] at this
  rw [readLE, htail]
  simp only [bind, Except.bind, hword]
  rfl

theorem readAt_within (b : Bytes) (off n : ℕ) : readAt b off n <:+: b :=
  (List.take_prefix n _).isInfix.trans (List.drop_suffix off b).isInfix

end

/-! ## The search stays in the file -/

/-- A search ends without a panic, and what it finds is a part of the file with the magic. -/
def Finds (pe : Bytes) (x : Except Panic (Option Bytes)) : Prop :=
  ∃ r, x = .ok r ∧ ∀ body ∈ r, body <:+: pe ∧ hasPayloadMagic body

theorem finds_none (pe : Bytes) : Finds pe (.ok none) := ⟨none, rfl, nofun⟩

section
variable {pe : Bytes} (hpe : pe.length < 2 ^ 32)
include hpe

theorem finds_sectionBody {off : ℕ} (h : off + 40 ≤ pe.length) : Finds pe (sectionBody pe off) := by
  have hrsize := readLE_ok (off + 16) 4 (b := pe) (by omega)
  have hfoff := readLE_ok (off + 20) 4 (b := pe) (by omega)
  push_cast at hrsize hfoff
  unfold sectionBody
  simp only [hrsize, hfoff, bind, Except.bind, pure, Except.pure]
  generalize leNat (readAt pe (off + 16) 4) = rsize
  generalize leNat (readAt pe (off + 20) 4) = foff
  split_ifs with hzero hpast
  · exact finds_none pe
  · exact finds_none pe
  · have hbody : sliceOf pe foff ((foff + rsize) % 2 ^ 32 : ℕ) = .ok (readAt pe foff rsize) := by
      rw [Nat.mod_eq_of_lt (by omega), sliceOf_ok _ _ (by omega) (by omega), Nat.add_sub_cancel_left]
    rw [hbody]
    refine ⟨_, rfl, ?_⟩
    intro body hmem
    split_ifs at hmem with hmagic
    · cases hmem
      exact ⟨readAt_within pe foff rsize, hmagic⟩
    · cases hmem

theorem finds_sections {secTableStart : ℕ} {is : List ℕ}
    (h : ∀ i ∈ is, secTableStart + i * 40 + 40 ≤ pe.length) : Finds pe (sections pe secTableStart is) := by
  induction is with
  | nil => exact finds_none pe
  | cons i is ih =>
    have hi := h i List.mem_cons_self
    have hname := sliceOf_ok (secTableStart + i * 40) (secTableStart + i * 40 + 8) (b := pe) (by omega) (by omega)
    push_cast at hname
    unfold sections
    push_cast
    simp only [hname, bind, Except.bind]
    split_ifs
    · exact ih fun j hj => h j (List.mem_cons_of_mem i hj)
    · exact finds_sectionBody hpe hi

theorem findPayloadOnDisk_ok : Finds pe (findPayloadOnDisk pe) := by
  unfold findPayloadOnDisk
  split_ifs with hdos
  · exact finds_none pe
  have h40 : 0x40 ≤ pe.length := by
    by_contra hlt
    exact hdos (.inl (not_le.mp hlt))
  have hnew : readLE 4 pe 0x3C = .ok (leNat (readAt pe 0x3C 4)) := readLE_ok 0x3C 4 (by omega)
  simp only [hnew, bind, Except.bind, pure, Except.pure]
  generalize leNat (readAt pe 0x3C 4) = elfanew
  split_ifs with hshort
  · exact finds_none pe
  have hsignature : sliceOf pe elfanew ((elfanew + 4) % 2 ^ 32 : ℕ) = .ok (readAt pe elfanew 4) := by
    rw [Nat.mod_eq_of_lt (by omega), sliceOf_ok _ _ (by omega) (by omega), Nat.add_sub_cancel_left]
  have hsections := readLE_ok (elfanew + 4 + 2) 2 (b := pe) (by omega)
  have hopt := readLE_ok (elfanew + 4 + 16) 2 (b := pe) (by omega)
  push_cast at hsections hopt
  rw [hsignature]
  push_cast
  simp only [hsections, hopt]
  split_ifs with hsig hpast
  · exact finds_none pe
  · exact finds_none pe
  · refine finds_sections hpe ?_
    intro i hi
    rw [List.mem_range] at hi
    omega

end

/-! ## The destination -/

section
variable {fw : Firmware} {c : Codecs} {algo compressed : Bytes} {u : ℕ}

theorem length_decodePayload (c : Codecs) (algo compressed : Bytes) (n : ℕ) :
    (decodePayload c algo compressed n).1.length ≤ n := by
  have hcopy : ∀ out : Option Bytes, (copyExact out n).1.length ≤ n := by
    intro out
    cases out with
    | none => exact Nat.zero_le n
    | some out =>
      rw [copyExact]
      split_ifs with hlen
      · exact Nat.zero_le n
      · exact (not_not.mp hlen).le
  have hflate : (flateDecode c compressed n).1.length ≤ n := by
    unfold flateDecode
    dsimp only
    split_ifs
    · exact c.length_inflate compressed n
    · exact c.length_inflate compressed n
  unfold decodePayload
  split_ifs
  · exact hflate
  · exact hcopy _
  · exact hcopy _
  · exact Nat.zero_le n

/-- A call of `decodePayload` with a destination of `u` bytes in the pages that were granted. -/
structure InPages (fw : Firmware) (u : ℕ) (d : Decode) : Prop where
  /-- The page count is computed without overflow. -/
  count : d.pageCount = (u + efiPageSize - 1) / efiPageSize
  enough : u ≤ d.pageCount * efiPageSize
  fits : d.addr + d.pageCount * efiPageSize < 2 ^ 64
  granted : fw.allocatePages efiLoaderCode d.pageCount = some d.addr
  len : d.len = u
  stored : d.stored.length ≤ u

theorem granted_of_allocatePages {t count addr : ℕ} (h : allocatePages fw t count = some addr)
    (haddr : addr ≠ 0) : count ≠ 0 ∧ fw.allocatePages t count = some addr := by
  unfold allocatePages at h
  split_ifs at h with hboot hcount
  · cases h
    exact absurd rfl haddr
  · exact ⟨hcount, h⟩

/-- A size whose page count wraps asks for no page, which is refused. -/
theorem add_lt_of_pageCount (hu : u < 2 ^ 64) (h : (u + efiPageSize - 1) % 2 ^ 64 / efiPageSize ≠ 0) :
    u + efiPageSize - 1 < 2 ^ 64 := by
  unfold efiPageSize at *
  by_contra hwraps
  omega

theorem decodeAndStart_ok (fw : Firmware) (c : Codecs) (algo compressed : Bytes) (pageCount : ℕ) {addr : ℕ}
    (h : unsafeSlice addr (goInt u) = .ok u) :
    ∃ stored status, decodeAndStart fw c algo compressed u pageCount addr =
      .ok ⟨some ⟨algo, compressed, pageCount, addr, u, stored⟩, status⟩ ∧ stored.length ≤ u := by
  have hstored := length_decodePayload c algo compressed u
  unfold decodeAndStart
  rw [h]
  simp only [bind, Except.bind, pure, Except.pure]
  generalize decodePayload c algo compressed u = p at hstored
  obtain ⟨stored, ok⟩ := p
  cases ok with
  | false => exact ⟨stored, _, rfl, hstored⟩
  | true =>
    cases fw.loadImage addr u with
    | none => exact ⟨stored, _, rfl, hstored⟩
    | some child => exact ⟨stored, _, rfl, hstored⟩

/-- A size that is negative as an `int` is refused as well: there are not so many pages. -/
theorem allocateAndDecode_in_pages (fw : Firmware) (c : Codecs) (algo compressed : Bytes) (hu : u < 2 ^ 64)
    (hpos : 0 < u) :
    allocateAndDecode fw c algo compressed u = .ok .aborted ∨
      ∃ d status, allocateAndDecode fw c algo compressed u = .ok ⟨some d, status⟩ ∧
        d.compressed = compressed ∧ InPages fw u d := by
  rw [allocateAndDecode]
  cases hpages : allocatePages fw efiLoaderCode ((u + efiPageSize - 1) % 2 ^ 64 / efiPageSize) with
  | none => exact .inl rfl
  | some addr =>
    by_cases haddr : addr = 0
    · exact .inl (if_pos haddr)
    · obtain ⟨hcount, hgranted⟩ := granted_of_allocatePages hpages haddr
      have hphysical := fw.physical _ _ _ hgranted
      have hpages := Nat.mod_eq_of_lt (add_lt_of_pageCount hu hcount)
      have henough : u ≤ (u + efiPageSize - 1) % 2 ^ 64 / efiPageSize * efiPageSize := by
        rw [hpages]
        unfold efiPageSize
        omega
      have hlen : unsafeSlice addr (goInt u) = .ok u := by
        rw [goInt_natCast (by omega), unsafeSlice, if_neg (by omega), Int.toNat_natCast]
      obtain ⟨stored, status, hexit, hstored⟩ := decodeAndStart_ok fw c algo compressed
        ((u + efiPageSize - 1) % 2 ^ 64 / efiPageSize) hlen
      exact .inr ⟨_, status, (if_neg haddr).trans hexit, rfl,
        ⟨congrArg (· / efiPageSize) hpages, henough, hphysical.trans_lt (by decide), hgranted, rfl, hstored⟩⟩

end

/-! ## The run -/

section
variable {fw : Firmware} {c : Codecs}

/-- An exit with `efiAborted`, or a call of `decodePayload` with a part of the payload and a
destination in the pages. -/
def Unpacks (fw : Firmware) (payload : Bytes) (x : Except Panic Exit) : Prop :=
  x = .ok .aborted ∨ ∃ d status, x = .ok ⟨some d, status⟩ ∧ d.compressed <:+: payload ∧
    InPages fw (uncompressedSize payload) d

theorem unpackBody_in_bounds {payload algo : Bytes} {compressedSize : ℕ}
    (hheader : payloadHeaderSize ≤ payload.length) (hlen : payload.length < 2 ^ 32) :
    Unpacks fw payload (unpackBody fw c payload algo (uncompressedSize payload) compressedSize) := by
  have hu : uncompressedSize payload < 2 ^ 64 := by
    have := leNat_lt (readAt payload 8 8)
    rwa [length_readAt (le_trans (by decide) hheader)] at this
  unfold unpackBody
  split_ifs with hpast hzero
  · exact .inl rfl
  · exact .inl rfl
  · have hslice : sliceOf payload payloadHeaderSize (goInt (payloadHeaderSize + goInt compressedSize)) =
        .ok (readAt payload payloadHeaderSize compressedSize) := by
      rw [goInt_natCast (by omega), ← Nat.cast_add, goInt_natCast (by omega), sliceOf_ok _ _ (by omega) (by omega),
        Nat.add_sub_cancel_left]
    rw [hslice, except_ok_bind]
    obtain haborted | ⟨d, status, hexit, hd, hin⟩ := allocateAndDecode_in_pages fw c algo
      (readAt payload payloadHeaderSize compressedSize) hu (Nat.pos_of_ne_zero hzero)
    · exact .inl haborted
    · exact .inr ⟨d, status, hexit, hd ▸ readAt_within _ _ _, hin⟩

theorem unpack_in_bounds (fw : Firmware) (c : Codecs) {payload : Bytes} (hlen : payload.length < 2 ^ 32) :
    Unpacks fw payload (unpack fw c payload) := by
  unfold unpack
  split_ifs with hshort
  · exact .inl rfl
  have hheader : payloadHeaderSize ≤ payload.length := not_lt.mp hshort
  have h24 : 24 ≤ payload.length := hheader
  have hmagic := sliceOf_ok 0 4 (b := payload) (by omega) (by omega)
  have halgo := sliceOf_ok 4 8 (b := payload) (by omega) (by omega)
  have hu := sliceOf_ok 8 16 (b := payload) (by omega) (by omega)
  have hc := sliceOf_ok 16 24 (b := payload) (by omega) (by omega)
  push_cast at hmagic halgo hu hc
  rw [hmagic, except_ok_bind]
  split_ifs with hm
  · exact .inl rfl
  rw [halgo, except_ok_bind]
  by_cases ha : readAt payload 4 4 ∉ [algoFlat, algoLZ4, algoLZFSE]
  · exact .inl (if_pos ha)
  rw [if_neg ha, hu, except_ok_bind, hc, except_ok_bind]
  exact unpackBody_in_bounds hheader hlen

end

/-- **The stub stays in its file and in its pages**: on every file of less than 4 GiB the search for the
payload does not panic, and `run` returns `efiAborted` or calls `decodePayload` with a part of the
file and with a destination of exactly the uncompressed size in the pages that it asked for. -/
theorem run_in_bounds (fw : Firmware) (c : Codecs) (pe : Bytes) (hpe : pe.length < 2 ^ 32) :
    ∃ found, findPayloadOnDisk pe = .ok found ∧
      (run fw c (some pe) = .ok .aborted ∨
        ∃ payload d status, found = some payload ∧ run fw c (some pe) = .ok ⟨some d, status⟩ ∧
          d.compressed <:+: pe ∧ InPages fw (uncompressedSize payload) d) := by
  obtain ⟨found, hfound, hall⟩ := findPayloadOnDisk_ok hpe
  refine ⟨found, hfound, ?_⟩
  simp only [run]
  rw [hfound, except_ok_bind]
  cases found with
  | none => exact .inl rfl
  | some payload =>
    have hinfix := (hall payload rfl).1
    obtain haborted | ⟨d, status, hexit, hd, hin⟩ :=
      unpack_in_bounds fw c (lt_of_le_of_lt hinfix.length_le hpe)
    · exact .inl haborted
    · exact .inr ⟨payload, d, status, rfl, hexit, hd.trans hinfix, hin⟩

def grantSixteen (_memoryType count : ℕ) : Option ℕ := if count ≤ 16 then some 0x100000 else none

theorem grantSixteen_physical (memoryType count addr : ℕ) (h : grantSixteen memoryType count = some addr) :
    addr + count * efiPageSize ≤ 2 ^ 63 := by
  unfold grantSixteen at h
  split_ifs at h with hcount
  cases h
  unfold efiPageSize
  omega

/-- A firmware with sixteen pages at 1 MiB. -/
def smallFirmware : Firmware where
  bootServices := true
  allocatePages := grantSixteen
  physical := grantSixteen_physical
  loadImage _ _ := some 7
  startImage _ := 0

/-- The bytes of a stored flate block of less than 256 bytes. -/
def storedBytes (data : Bytes) : Bytes := (data.drop 5).take (data.getD 1 0).toNat

theorem length_stored (data : Bytes) (n : ℕ) : ((storedBytes data).take n).length ≤ n :=
  List.length_take_le n _

/-- Codecs for one stored block. -/
def smallCodecs : Codecs where
  inflate data n := ((storedBytes data).take n, data.headD 0 = 1)
  length_inflate data n := length_stored data n
  lz4 _ _ := none
  lzfse _ := none

/-- A file with one section, a payload of three bytes. -/
def smallPe : Bytes :=
  [0x4D, 0x5A] ++ List.replicate 58 0 ++ leBytes 4 0x40 ++
    [0x50, 0x45, 0, 0, 0x64, 0x86, 1, 0] ++ List.replicate 16 0 ++
    str ".payload" ++ leBytes 4 0 ++ leBytes 4 0 ++ leBytes 4 32 ++ leBytes 4 128 ++ List.replicate 16 0 ++
    payloadMagic ++ algoFlat ++ leBytes 8 3 ++ leBytes 8 8 ++ [1, 3, 0, 0xFC, 0xFF, 1, 2, 3]

/-- It is unpacked to the pages at 1 MiB. -/
theorem run_in_bounds_small : run smallFirmware smallCodecs (some smallPe) =
      .ok ⟨some ⟨algoFlat, [1, 3, 0, 0xFC, 0xFF, 1, 2, 3], 1, 0x100000, 3, [1, 2, 3]⟩, 0⟩ ∧
    smallPe.length < 2 ^ 32 ∧ ∃ found, findPayloadOnDisk smallPe = .ok found ∧
      (run smallFirmware smallCodecs (some smallPe) = .ok .aborted ∨
        ∃ payload d status, found = some payload ∧
          run smallFirmware smallCodecs (some smallPe) = .ok ⟨some d, status⟩ ∧
          d.compressed <:+: smallPe ∧ InPages smallFirmware (uncompressedSize payload) d) :=
  ⟨by decide +kernel, by decide +kernel, run_in_bounds smallFirmware smallCodecs smallPe (by decide +kernel)⟩

end TamagoUefi.Cmd.PackStub
