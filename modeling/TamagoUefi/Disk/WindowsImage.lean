import TamagoUefi.Disk.GptTables
import TamagoUefi.Lib.Ask

/-!
# TamagoUefi.Disk.WindowsImage — the Windows disk image (`livewindowsboot/buildwindowsimg/main.go`)

The builder lays out a Microsoft reserved partition of 16 MiB, an ESP with the FAT32 image or of a size
in MiB, and a basic data partition with the NTFS image if there is one.  Sizes come from the flags and
the files, and the addresses are computed in `uint64` and `int`, which wrap.

* `patched_count`, `patched_guid`: a header that is patched twice is one that is written at once.
* `writeImage_ok`: the image is a zeroed buffer with writes that do not overlap (`Job.Laid`), also where
  its length wraps.
* `Job.gptDisk`, `Job.payload`: what a reader finds, if nothing wraps (`Job.Straight`).
-/

namespace TamagoUefi.Disk.Windows

open Go Lib

def msrSectors : ℕ := 16 * 1024 * 1024 / sector

def gptTypeMSR : Bytes :=
  [0x16, 0xE3, 0xC9, 0xE3, 0x5C, 0x0B, 0xB8, 0x4D, 0x81, 0x7D, 0xF9, 0x2D, 0xF0, 0x02, 0x15, 0xAE]

def gptTypeESP : Bytes :=
  [0x28, 0x73, 0x2A, 0xC1, 0x1F, 0xF8, 0xD2, 0x11, 0xBA, 0x4B, 0x00, 0xA0, 0xC9, 0x3E, 0xC9, 0x3B]

def gptTypeMBD : Bytes :=
  [0xA2, 0xA0, 0xD0, 0xEB, 0xE5, 0xB9, 0x33, 0x44, 0x87, 0xC0, 0x68, 0xB6, 0xB7, 0x26, 0x99, 0xC7]

/-! ## Partitions -/

/-- `bytes = none` is a nil slice. -/
structure Partition where
  typeGUID : Bytes
  name : Bytes
  startLBA : ℕ
  endLBA : ℕ
  bytes : Option Bytes
  length_typeGUID : typeGUID.length = 16
  length_name : name.length = 72
  start_lt : startLBA < 2 ^ 64
  end_lt : endLBA < 2 ^ 64

/-- `setPartName` on a new partition. -/
def setPartName (name : Bytes) : Bytes := writeAt (List.replicate 72 0) 0 (partName name)

theorem length_setPartName (name : Bytes) : (setPartName name).length = 72 := by
  have hname := length_partName name
  rw [setPartName, length_writeAt (by rw [List.length_replicate]; omega), List.length_replicate]

/-- The bytes drawn from `rand.Reader`, 16 at a time. -/
structure Random where
  draw : ℕ → Bytes
  length_draw : ∀ i, (draw i).length = 16

def randGUID (g : Bytes) : Bytes :=
  let g := g.set 7 ((g.getD 7 0 &&& 0x0F) ||| 0x40)
  g.set 8 ((g.getD 8 0 &&& 0x3F) ||| 0x80)

theorem u64_lt (n : ℕ) : n % 2 ^ 64 < 2 ^ 64 := Nat.mod_lt n (by decide)

theorem dataStartLBA_lt : dataStartLBA < 2 ^ 64 := by decide

theorem length_gptTypeMSR : gptTypeMSR.length = 16 := rfl
theorem length_gptTypeESP : gptTypeESP.length = 16 := rfl
theorem length_gptTypeMBD : gptTypeMBD.length = 16 := rfl

def msrPartition : Partition where
  typeGUID := gptTypeMSR
  name := setPartName (str "Microsoft reserved partition")
  startLBA := dataStartLBA
  endLBA := (dataStartLBA + msrSectors - 1) % 2 ^ 64
  bytes := none
  length_typeGUID := length_gptTypeMSR
  length_name := length_setPartName _
  start_lt := dataStartLBA_lt
  end_lt := u64_lt _

/-- The sectors of the ESP: those of the FAT32 image, or so many MiB. -/
def espSectors (espMiB : ℤ) (fat : Option Bytes) : ℕ :=
  match fat with
  | some b => b.length / sector
  | none => (espMiB % 2 ^ 64).toNat * (1024 * 1024) % 2 ^ 64 / sector

def espPartition (espMiB : ℤ) (fat : Option Bytes) : Partition where
  typeGUID := gptTypeESP
  name := setPartName (str "EFI system partition")
  startLBA := (msrPartition.endLBA + 1) % 2 ^ 64
  endLBA := (msrPartition.endLBA + 1 + espSectors espMiB fat - 1) % 2 ^ 64
  bytes := fat
  length_typeGUID := length_gptTypeESP
  length_name := length_setPartName _
  start_lt := u64_lt _
  end_lt := u64_lt _

def mbdPartition (esp : Partition) (b : Bytes) : Partition where
  typeGUID := gptTypeMBD
  name := setPartName (str "Basic data partition")
  startLBA := (esp.endLBA + 1) % 2 ^ 64
  endLBA := (esp.endLBA + 1 + b.length / sector - 1) % 2 ^ 64
  bytes := some b
  length_typeGUID := length_gptTypeMBD
  length_name := length_setPartName _
  start_lt := u64_lt _
  end_lt := u64_lt _

def partitionsOf (espMiB : ℤ) (fat ntfs : Option Bytes) : List Partition :=
  let esp := espPartition espMiB fat
  msrPartition :: esp :: ntfs.toList.map (mbdPartition esp)

/-! ## The image -/

inductive Failure
  | missingOut
  | readFat32
  | readNTFS
  | noPartitions
  /-- A slice out of range, or one that cannot be allocated. -/
  | panicked
  | writeFailed
  deriving DecidableEq

structure GptHeaderParams where
  currentLBA : ℕ
  backupLBA : ℕ
  firstUsable : ℕ
  lastUsable : ℕ
  partEntryLBA : ℕ
  partEntryNum : ℕ
  partEntrySize : ℕ
  partArrayCRC : UInt32
  diskGUID : Bytes

/-- The fields of a header in the order of the writes.  The checksum and the reserved field are left. -/
def GptHeaderParams.fields (p : GptHeaderParams) : List (ℕ × Bytes) :=
  [(0, gptMagic), (8, leBytes 4 0x00010000), (12, leBytes 4 92), (24, leBytes 8 p.currentLBA),
    (32, leBytes 8 p.backupLBA), (40, leBytes 8 p.firstUsable), (48, leBytes 8 p.lastUsable), (56, p.diskGUID),
    (72, leBytes 8 p.partEntryLBA), (80, leBytes 4 p.partEntryNum), (84, leBytes 4 p.partEntrySize),
    (88, leBytes 4 p.partArrayCRC.toNat)]

def writeGPTHeader (buf : Bytes) (p : GptHeaderParams) : Bytes := writeAll buf p.fields

def fixGPTCRC (crc32 : Bytes → UInt32) (buf : Bytes) : Bytes :=
  let buf := writeAt buf 16 (leBytes 4 0)
  writeAt buf 16 (leBytes 4 (crc32 (readAt buf 0 92)).toNat)

/-- `copy(img[lo:hi], src)`. -/
def copyTo (img : Bytes) (lo hi : ℤ) (src : Bytes) : Except Failure Bytes :=
  if 0 ≤ lo ∧ lo ≤ hi ∧ hi ≤ img.length then .ok (writeAt img lo.toNat (src.take (hi - lo).toNat))
  else .error .panicked

/-- A slice `img[lo:hi]` that is changed in place. -/
def editAt (img : Bytes) (lo hi : ℤ) (f : Bytes → Bytes) : Except Failure Bytes :=
  copyTo img lo hi (f (readAt img lo.toNat (hi - lo).toNat))

def tableEntry (p : Partition) (guid : Bytes) : Bytes :=
  writeAll (List.replicate gptPartEntrySize 0)
    [(0, p.typeGUID), (16, guid), (32, leBytes 8 p.startLBA), (40, leBytes 8 p.endLBA), (56, p.name)]

section
variable (hash : Hashes) (rand : Random)

/-- The loop over the partitions, from the one with index `i` on. -/
def fillTable : ℕ → List Partition → Bytes → Bytes
  | _, [], array => array
  | i, p :: ps, array =>
    fillTable (i + 1) ps (writeAt array (i * gptPartEntrySize) (tableEntry p (randGUID (rand.draw i))))

def partArray (parts : List Partition) : Bytes := fillTable rand 0 parts (List.replicate gptPartArrayBytes 0)

def allocate (totalSectors : ℕ) : Except Failure Bytes :=
  let totalBytes := goInt (goInt totalSectors * sector)
  if totalBytes < 0 ∨ maxAlloc < totalBytes then .error .panicked
  else .ok (List.replicate totalBytes.toNat 0)

/-- The primary header.  `NumberOfPartitionEntries` is written over later. -/
def primaryParams (parts : List Partition) (totalSectors : ℕ) : GptHeaderParams where
  currentLBA := 1
  backupLBA := totalSectors - 1
  firstUsable := firstUsableLBA
  lastUsable := totalSectors - 1 - 33
  partEntryLBA := 2
  partEntryNum := parts.length
  partEntrySize := gptPartEntrySize
  partArrayCRC := hash.crc32 (partArray rand parts)
  diskGUID := randGUID (rand.draw parts.length)

/-- The backup header, whose GUID is copied from the primary one later. -/
def backupParams (parts : List Partition) (totalSectors : ℕ) : GptHeaderParams where
  currentLBA := totalSectors - 1
  backupLBA := 1
  firstUsable := firstUsableLBA
  lastUsable := totalSectors - 1 - 33
  partEntryLBA := totalSectors - 33
  partEntryNum := gptPartEntryCount
  partEntrySize := gptPartEntrySize
  partArrayCRC := hash.crc32 (partArray rand parts)
  diskGUID := List.replicate 16 0

/-- The table is filled in its place, where there is room for 128 entries. -/
def writeTable (parts : List Partition) (img : Bytes) : Except Failure Bytes :=
  if gptPartEntryCount < parts.length then .error .panicked
  else copyTo img (2 * sector) (2 * sector + gptPartArrayBytes) (partArray rand parts)

/-- The protective MBR, the table and the primary header. -/
def writeFront (parts : List Partition) (totalSectors : ℕ) (img : Bytes) : Except Failure Bytes := do
  let img ← copyTo img 0 sector (protectiveMBR totalSectors)
  let img ← writeTable rand parts img
  editAt img sector (2 * sector) fun buf =>
    fixGPTCRC hash.crc32 (writeAt (writeGPTHeader buf (primaryParams hash rand parts totalSectors)) 80
      (leBytes 4 gptPartEntryCount))

/-- The loop over the payloads. -/
def writePayloads : List Partition → Bytes → Except Failure Bytes
  | [], img => .ok img
  | p :: ps, img =>
    match p.bytes with
    | none => writePayloads ps img
    | some b => do
      let img ← copyTo img (goInt (goInt p.startLBA * sector)) img.length b
      writePayloads ps img

/-- The copy of the table and the backup header.  The bounds of the last slice are `uint64`. -/
def writeBack (parts : List Partition) (totalSectors : ℕ) (img : Bytes) : Except Failure Bytes := do
  let lo := goInt (goInt (totalSectors - 33 : ℕ) * sector)
  let img ← copyTo img lo (goInt (lo + gptPartArrayBytes)) (readAt img (2 * sector) gptPartArrayBytes)
  editAt img ((totalSectors - 1) * sector % 2 ^ 64 : ℕ) (totalSectors * sector % 2 ^ 64 : ℕ) fun buf =>
    fixGPTCRC hash.crc32 (writeAt (writeGPTHeader buf (backupParams hash rand parts totalSectors)) 56
      (readAt img (sector + 56) 16))

/-- The image before it is written to the file.  With the table in it there are at least 34 sectors, so
`totalSectors - 33` and the like do not wrap. -/
def writeImage (parts : List Partition) : Except Failure Bytes :=
  match parts.getLast? with
  | none => .error .noPartitions
  | some last => do
    let totalSectors := (last.endLBA + 1 + 33) % 2 ^ 64
    let img ← allocate totalSectors
    let img ← writeFront hash rand parts totalSectors img
    let img ← writePayloads parts img
    writeBack hash rand parts totalSectors img

end

/-! ## The tool -/

inductive File
  | unreadable
  | content (b : Bytes)

/-- A flag with an empty path is `none`; `-bcd` changes nothing. -/
structure Flags where
  fat32 : Option File
  ntfs : Option File
  out : Bytes
  espMiB : ℤ
  /-- Whether the image can be written to the path. -/
  writable : Bool

/-- Round up to a sector multiple. -/
def padSector (b : Bytes) : Bytes :=
  let rem := b.length % sector
  if rem ≠ 0 then b ++ List.replicate (sector - rem) 0 else b

/-- `os.ReadFile`, and the padding. -/
def readFile (err : Failure) : Option File → Except Failure (Option Bytes)
  | none => .ok none
  | some .unreadable => .error err
  | some (.content b) => if maxAlloc < b.length then .error .panicked else .ok (some (padSector b))

def buildwindowsimg (hash : Hashes) (rand : Random) (flags : Flags) : Except Failure Bytes :=
  if flags.out = [] then .error .missingOut
  else do
    let fat ← readFile .readFat32 flags.fat32
    let ntfs ← readFile .readNTFS flags.ntfs
    let img ← writeImage hash rand (partitionsOf flags.espMiB fat ntfs)
    if flags.writable then return img else .error .writeFailed

/-! ## The headers -/

namespace GptHeaderParams

/-- The header that the other builder writes at once. -/
def args (p : GptHeaderParams) : GptHeaderArgs :=
  ⟨p.currentLBA, p.backupLBA, p.firstUsable, p.lastUsable, p.diskGUID, p.partEntryLBA, p.partArrayCRC⟩

variable {p : GptHeaderParams}

theorem placed (h : p.diskGUID.length = 16) :
    Placed (List.replicate sector (0 : UInt8)).length (p.fields.map extent) := by
  have hextents : p.fields.map extent =
      [(0, 8), (8, 4), (12, 4), (24, 8), (32, 8), (40, 8), (48, 8), (56, 16), (72, 8), (80, 4), (84, 4), (88, 4)] := by
    simp only [fields, List.map_cons, List.map_nil, extent, length_leBytes, h]
    rfl
  rw [hextents, List.length_replicate]
  decide

end GptHeaderParams

section
variable {p : GptHeaderParams}

theorem writeGPTHeader_count (h : p.diskGUID.length = 16) (n : ℕ) :
    writeAt (writeGPTHeader (List.replicate sector 0) p) 80 (leBytes 4 n) =
      writeGPTHeader (List.replicate sector 0) { p with partEntryNum := n } :=
  writeAt_writeAll_replace (p.fields.take 9) (p.fields.drop 10) (GptHeaderParams.placed h)
    (by rw [length_leBytes, length_leBytes])

theorem writeGPTHeader_guid {g : Bytes} (h : p.diskGUID.length = 16) (hg : g.length = 16) :
    writeAt (writeGPTHeader (List.replicate sector 0) p) 56 g =
      writeGPTHeader (List.replicate sector 0) { p with diskGUID := g } :=
  writeAt_writeAll_replace (p.fields.take 7) (p.fields.drop 8) (GptHeaderParams.placed h) (hg.trans h.symm)

/-- The reserved field is zero as it is. -/
theorem writeGPTHeader_eq (hn : p.partEntryNum = gptPartEntryCount) (hs : p.partEntrySize = gptPartEntrySize) :
    writeGPTHeader (List.replicate sector 0) p = writeAll (List.replicate sector 0) p.args.fields := by
  have hreserved : writeAt (writeAll (List.replicate sector (0 : UInt8)) (p.fields.take 3)) 20 (leBytes 4 0) =
      writeAll (List.replicate sector 0) (p.fields.take 3) := by
    have hextents : (p.fields.take 3).map extent = [(0, 8), (8, 4), (12, 4)] := rfl
    have hzero : writeAt (List.replicate sector (0 : UInt8)) 20 (List.replicate 4 0) = List.replicate sector 0 :=
      writeAt_replicate 0 (by decide)
    have hle : leBytes 4 0 = List.replicate 4 0 := rfl
    rw [hle, writeAt_writeAll, hzero]
    · rw [hextents, List.length_replicate]
      decide
    · rw [List.length_replicate, List.length_replicate]
      decide
    · rw [hextents]
      decide
  have hfields : p.args.fields = p.fields.take 3 ++ (20, leBytes 4 0) :: p.fields.drop 3 := by
    simp only [GptHeaderArgs.fields, GptHeaderParams.fields, hn, hs]
    rfl
  rw [hfields, writeAll_append, writeAll_cons, hreserved, ← writeAll_append, List.take_append_drop]
  rfl

theorem fixGPTCRC_fields (hash : Hashes) {a : GptHeaderArgs} (h : a.diskGUID.length = 16) :
    fixGPTCRC hash.crc32 (writeAll (List.replicate sector 0) a.fields) = Disk.writeGPTHeader hash a := by
  have hzero : readAt (writeAll (List.replicate sector (0 : UInt8)) a.fields) 16 4 = leBytes 4 0 := by
    rw [readAt_writeAll_apart (GptHeaderArgs.placed h).1 (GptHeaderArgs.apart_crc h)]
    exact readAt_replicate 0 (by decide)
  have hsame : writeAt (writeAll (List.replicate sector (0 : UInt8)) a.fields) 16 (leBytes 4 0) =
      writeAll (List.replicate sector 0) a.fields := by
    rw [← hzero]
    exact writeAt_readAt (by rw [length_fields h]; decide)
  rw [fixGPTCRC, hsame]
  rfl

/-- **A header that is patched twice** is the one that is written at once: the number of entries first. -/
theorem patched_count (hash : Hashes) (h : p.diskGUID.length = 16) (hs : p.partEntrySize = gptPartEntrySize) :
    fixGPTCRC hash.crc32 (writeAt (writeGPTHeader (List.replicate sector 0) p) 80 (leBytes 4 gptPartEntryCount)) =
      Disk.writeGPTHeader hash p.args := by
  rw [writeGPTHeader_count h, writeGPTHeader_eq (p := { p with partEntryNum := gptPartEntryCount }) rfl hs]
  exact fixGPTCRC_fields hash h

theorem patched_guid (hash : Hashes) {g : Bytes} (h : p.diskGUID.length = 16) (hg : g.length = 16)
    (hn : p.partEntryNum = gptPartEntryCount) (hs : p.partEntrySize = gptPartEntrySize) :
    fixGPTCRC hash.crc32 (writeAt (writeGPTHeader (List.replicate sector 0) p) 56 g) =
      Disk.writeGPTHeader hash { p.args with diskGUID := g } := by
  rw [writeGPTHeader_guid h hg, writeGPTHeader_eq (p := { p with diskGUID := g }) hn hs]
  exact fixGPTCRC_fields hash hg

end

/-! ## The table -/

section
variable (rand : Random)

theorem length_randGUID {g : Bytes} (h : g.length = 16) : (randGUID g).length = 16 := by
  rw [randGUID, List.length_set, List.length_set, h]

variable {guid : Bytes}

theorem tableEntry_placed (p : Partition) (hg : guid.length = 16) :
    Placed (List.replicate gptPartEntrySize (0 : UInt8)).length
      ([(0, p.typeGUID), (16, guid), (32, leBytes 8 p.startLBA), (40, leBytes 8 p.endLBA),
        (56, p.name)].map extent) := by
  simp only [List.map_cons, List.map_nil, extent, length_leBytes, p.length_typeGUID, hg, p.length_name,
    List.length_replicate]
  decide

theorem length_tableEntry (p : Partition) (hg : guid.length = 16) :
    (tableEntry p guid).length = gptPartEntrySize :=
  (length_writeAll (tableEntry_placed p hg).1).trans List.length_replicate

/-- The type and the ends of a partition. -/
def place (p : Partition) : Bytes × ℕ × ℕ := (p.typeGUID, p.startLBA, p.endLBA)

/-- The type and the ends in an entry. -/
def entryPlace (e : Bytes) : Bytes × ℕ × ℕ := (entryType e, entryStart e, entryEnd e)

theorem entryPlace_tableEntry (p : Partition) (hg : guid.length = 16) :
    entryPlace (tableEntry p guid) = place p := by
  have hplaced := tableEntry_placed p hg
  have htype := readAt_writeAll hplaced (w := (0, p.typeGUID)) (by simp)
  have hstart := readAt_writeAll hplaced (w := (32, leBytes 8 p.startLBA)) (by simp)
  have hend := readAt_writeAll hplaced (w := (40, leBytes 8 p.endLBA)) (by simp)
  simp only [p.length_typeGUID, length_leBytes] at htype hstart hend
  rw [entryPlace, entryType, entryStart, entryEnd, tableEntry, htype, hstart, hend,
    leNat_leBytes (by simpa using p.start_lt), leNat_leBytes (by simpa using p.end_lt), place]

/-- The entries of the partitions, the first of them at index `i`. -/
def tableEntries : ℕ → List Partition → List Bytes
  | _, [] => []
  | i, p :: ps => tableEntry p (randGUID (rand.draw i)) :: tableEntries (i + 1) ps

theorem length_tableEntries (i : ℕ) (ps : List Partition) : (tableEntries rand i ps).length = ps.length := by
  induction ps generalizing i with
  | nil => rfl
  | cons p ps ih => rw [tableEntries, List.length_cons, List.length_cons, ih]

theorem length_of_mem_tableEntries (i : ℕ) (ps : List Partition) :
    ∀ e ∈ tableEntries rand i ps, e.length = gptPartEntrySize := by
  induction ps generalizing i with
  | nil =>
    intro e he
    cases he
  | cons p ps ih =>
    intro e he
    rcases List.mem_cons.mp he with rfl | he
    · exact length_tableEntry p (length_randGUID (rand.length_draw i))
    · exact ih (i + 1) e he

theorem map_entryPlace (i : ℕ) (ps : List Partition) :
    (tableEntries rand i ps).map entryPlace = ps.map place := by
  induction ps generalizing i with
  | nil => rfl
  | cons p ps ih =>
    rw [tableEntries, List.map_cons, List.map_cons, ih,
      entryPlace_tableEntry p (length_randGUID (rand.length_draw i))]

theorem fillTable_tableOf (ps : List Partition) (es : List Bytes) (h : ∀ e ∈ es, e.length = gptPartEntrySize)
    (hle : es.length + ps.length ≤ gptPartEntryCount) :
    fillTable rand es.length ps (tableOf es) = tableOf (es ++ tableEntries rand es.length ps) := by
  induction ps generalizing es with
  | nil => rw [fillTable, tableEntries, List.append_nil]
  | cons p ps ih =>
    have hentry := length_tableEntry p (length_randGUID (rand.length_draw es.length))
    rw [List.length_cons] at hle
    have hnext := ih (es ++ [tableEntry p (randGUID (rand.draw es.length))])
      (fun e he => by
        rcases List.mem_append.mp he with he | he
        · exact h e he
        · rw [List.mem_singleton.mp he, hentry])
      (by rw [List.length_append, List.length_singleton]; omega)
    rw [List.length_append, List.length_singleton] at hnext
    rw [fillTable, writeAt_tableOf es h (by omega) hentry, hnext, tableEntries, List.append_assoc,
      List.singleton_append]

theorem partArray_eq {parts : List Partition} (h : parts.length ≤ gptPartEntryCount) :
    partArray rand parts = tableOf (tableEntries rand 0 parts) := by
  rw [partArray, ← tableOf_nil]
  exact fillTable_tableOf rand parts [] (fun e he => by cases he) (by rwa [List.length_nil, Nat.zero_add])

theorem length_partArray {parts : List Partition} (h : parts.length ≤ gptPartEntryCount) :
    (partArray rand parts).length = gptPartArrayBytes := by
  rw [partArray_eq rand h, length_tableOf (length_of_mem_tableEntries rand 0 parts)]
  rwa [length_tableEntries]

end

/-! ## Stages -/

section
variable {img src : Bytes} {lo hi : ℤ} {n : ℕ}

theorem copyTo_ok (hlo : lo = n) (h₁ : (n + src.length : ℕ) ≤ hi) (h₂ : hi ≤ img.length) :
    copyTo img lo hi src = .ok (writeAt img n src) := by
  subst hlo
  rw [copyTo, if_pos ⟨Int.natCast_nonneg n, by omega, h₂⟩, Int.toNat_natCast, List.take_of_length_le (by omega)]

theorem copyTo_eq_ok {out : Bytes} (h : copyTo img lo hi src = .ok out) : 0 ≤ lo := by
  unfold copyTo at h
  split at h
  next hin => exact hin.1
  next => cases h

theorem editAt_ok {f : Bytes → Bytes} {k : ℕ} (hlo : lo = n) (hhi : hi = (n + k : ℕ)) (h : n + k ≤ img.length)
    (hzero : readAt img n k = List.replicate k 0) (hlen : (f (List.replicate k 0)).length = k) :
    editAt img lo hi f = .ok (writeAt img n (f (List.replicate k 0))) := by
  have hk : (hi - lo).toNat = k := by omega
  rw [editAt, hk, hlo, Int.toNat_natCast, hzero]
  exact copyTo_ok rfl (by rw [hlen, hhi]) (by omega)

end

/-- The offset of a sector, in `uint64`. -/
def byteAt (lba : ℕ) : ℕ := lba * sector % 2 ^ 64

variable {lba : ℕ}

theorem byteAt_of_lt (h : lba * sector < 2 ^ 64) : byteAt lba = lba * sector := Nat.mod_eq_of_lt h

theorem goInt_offset (lba : ℕ) : goInt (goInt lba * sector) = goInt (byteAt lba) := by
  rw [goInt_mul, ← Nat.cast_mul, byteAt, Int.natCast_mod]
  exact (Int.emod_bmod _ _).symm

theorem goInt_byteAt (h : byteAt lba < 2 ^ 63) : goInt (goInt lba * sector) = byteAt lba := by
  rw [goInt_offset, goInt_natCast h]

theorem goInt_byteAt_neg (h : 2 ^ 63 ≤ byteAt lba) : goInt (goInt lba * sector) < 0 := by
  have hlt : byteAt lba < 2 ^ 64 := Nat.mod_lt _ (by decide)
  rw [goInt_offset, goInt_of_ge (by exact_mod_cast h) (by exact_mod_cast hlt)]
  omega

theorem allocate_ok {n : ℕ} (h : byteAt n ≤ maxAlloc) : allocate n = .ok (List.replicate (byteAt n) 0) := by
  have hmax : maxAlloc = 2 ^ 48 := rfl
  rw [allocate, goInt_byteAt (by omega), if_neg (by omega), Int.toNat_natCast]

theorem allocate_error {n : ℕ} (h : maxAlloc < byteAt n) : allocate n = .error .panicked := by
  rw [allocate, if_pos]
  by_cases hlt : byteAt n < 2 ^ 63
  · rw [goInt_byteAt hlt]
    exact .inr (by exact_mod_cast h)
  · exact .inl (goInt_byteAt_neg (Nat.not_lt.mp hlt))

/-- The payloads, each at the offset of its partition. -/
def payloadWrites (ps : List Partition) : List (ℕ × Bytes) :=
  ps.filterMap fun p => p.bytes.map fun b => (byteAt p.startLBA, b)

theorem writePayloads_ok {ps : List Partition} {img : Bytes} (hmax : img.length ≤ maxAlloc)
    (h : ∀ w ∈ payloadWrites ps, w.1 + w.2.length ≤ img.length) :
    writePayloads ps img = .ok (writeAll img (payloadWrites ps)) := by
  have hlt : maxAlloc < 2 ^ 63 := by decide
  induction ps generalizing img with
  | nil => rfl
  | cons p ps ih =>
    cases hp : p.bytes with
    | none =>
      have hskip : payloadWrites (p :: ps) = payloadWrites ps := by
        rw [payloadWrites, List.filterMap_cons_none (by rw [hp]; rfl), payloadWrites]
      rw [hskip] at h
      rw [writePayloads, hp, hskip]
      exact ih hmax h
    | some b =>
      have hnext : payloadWrites (p :: ps) = (byteAt p.startLBA, b) :: payloadWrites ps := by
        rw [payloadWrites, List.filterMap_cons_some (by rw [hp]; rfl), payloadWrites]
      rw [hnext, List.forall_mem_cons] at h
      have hlen := length_writeAt h.1
      rw [writePayloads, hp, hnext, writeAll_cons]
      simp only
      rw [copyTo_ok (goInt_byteAt (by omega)) (by exact_mod_cast h.1) (Int.le_refl _)]
      exact ih (hlen.trans_le hmax) (fun w hw => hlen ▸ h.2 w hw)

theorem front_end : 2 * sector + gptPartArrayBytes = 17408 := rfl

/-- An image to be written: its partitions, and its sectors. -/
structure Job where
  hash : Hashes
  rand : Random
  parts : List Partition
  total : ℕ
  count : parts.length ≤ gptPartEntryCount

namespace Job

section
variable (j : Job)

def array : Bytes := partArray j.rand j.parts

def guid : Bytes := randGUID (j.rand.draw j.parts.length)

def primary : Bytes := Disk.writeGPTHeader j.hash (primaryParams j.hash j.rand j.parts j.total).args

/-- With the GUID of the primary header. -/
def backup : Bytes :=
  Disk.writeGPTHeader j.hash { (backupParams j.hash j.rand j.parts j.total).args with diskGUID := j.guid }

theorem length_array : j.array.length = gptPartArrayBytes := length_partArray j.rand j.count

theorem length_guid : j.guid.length = 16 := length_randGUID (j.rand.length_draw _)

theorem length_primary : j.primary.length = sector := length_writeGPTHeader j.length_guid

theorem length_backup : j.backup.length = sector := length_writeGPTHeader j.length_guid

def zeros : Bytes := List.replicate (byteAt j.total) 0

def front : List (ℕ × Bytes) := [(0, protectiveMBR j.total), (2 * sector, j.array), (sector, j.primary)]

def back : List (ℕ × Bytes) := [(byteAt (j.total - 33), j.array), (byteAt (j.total - 1), j.backup)]

def writes : List (ℕ × Bytes) := j.front ++ payloadWrites j.parts ++ j.back

/-- The image, of whatever length so many sectors have. -/
def image : Bytes := writeAll j.zeros j.writes

/-- The image with its payloads. -/
def data : Bytes := writeAll j.zeros (j.front ++ payloadWrites j.parts)

/-- The image without the backup header. -/
def copied : Bytes := writeAt j.data (byteAt (j.total - 33)) j.array

/-- The places of the writes, also where the length wraps. -/
structure Laid : Prop where
  fits : byteAt j.total ≤ maxAlloc
  room : 2 * sector + gptPartArrayBytes ≤ byteAt (j.total - 33)
  payloads : Between (2 * sector + gptPartArrayBytes) (byteAt (j.total - 33)) ((payloadWrites j.parts).map extent)
  table : byteAt (j.total - 33) + gptPartArrayBytes + sector = byteAt j.total
  backup : byteAt (j.total - 1) + sector = byteAt j.total

theorem length_zeros : j.zeros.length = byteAt j.total := List.length_replicate

theorem image_eq : j.image = writeAt j.copied (byteAt (j.total - 1)) j.backup := by
  rw [image, writes, writeAll_append]
  rfl

theorem between_front : Between 0 (2 * sector + gptPartArrayBytes) (j.front.map extent) := by
  simp only [front, List.map_cons, List.map_nil, extent, length_protectiveMBR, length_array, length_primary]
  exact ⟨by decide, by decide⟩

end

variable {j : Job}

section
variable (h : j.Laid)
include h

theorem Laid.between_data :
    Between 0 (byteAt (j.total - 33)) ((j.front ++ payloadWrites j.parts).map extent) := by
  rw [List.map_append]
  exact j.between_front.append h.payloads (Nat.zero_le _) h.room

theorem Laid.placed : Placed j.zeros.length (j.writes.map extent) := by
  have htable := h.table
  have hbackup := h.backup
  have hback : Between (byteAt (j.total - 33)) (byteAt j.total) (j.back.map extent) := by
    simp only [back, List.map_cons, List.map_nil, extent, length_array, length_backup, Between,
      List.forall_mem_cons, List.not_mem_nil, List.pairwise_cons, Apart, false_implies, implies_true,
      List.Pairwise.nil, and_true]
    omega
  rw [length_zeros, writes, List.map_append]
  exact (h.between_data.append hback (Nat.zero_le _) (by omega)).placed

theorem Laid.placed_data : Placed j.zeros.length ((j.front ++ payloadWrites j.parts).map extent) := by
  have hplaced := h.placed
  rw [writes, List.map_append] at hplaced
  exact hplaced.left

theorem Laid.length_image : j.image.length = byteAt j.total := by
  rw [image, length_writeAll h.placed.1, length_zeros]

theorem Laid.length_data : j.data.length = byteAt j.total := by
  rw [data, length_writeAll h.placed_data.1, length_zeros]

theorem Laid.table_fits : byteAt (j.total - 33) + j.array.length ≤ j.data.length := by
  have htable := h.table
  rw [h.length_data, length_array]
  omega

theorem Laid.length_copied : j.copied.length = byteAt j.total := by
  rw [copied, length_writeAt h.table_fits, h.length_data]

theorem Laid.readAt_image {off n : ℕ} {v : Bytes} (hw : (off, v) ∈ j.writes) (hn : v.length = n) :
    readAt j.image off n = v := by
  rw [← hn]
  exact readAt_writeAll h.placed hw

theorem Laid.readAt_data {off n : ℕ} {v : Bytes} (hw : (off, v) ∈ j.front) (hn : v.length = n) :
    readAt j.data off n = v := by
  rw [← hn]
  exact readAt_writeAll h.placed_data (List.mem_append_left _ hw)

/-- The last sector is still free. -/
theorem Laid.readAt_last : readAt j.copied (byteAt (j.total - 1)) sector = List.replicate sector 0 := by
  have hbackup := h.backup
  have htable := h.table
  rw [copied, readAt_writeAt_disjoint h.table_fits (by rw [length_array]; omega), data,
    readAt_writeAll_apart h.placed_data.1]
  · exact readAt_replicate 0 (by omega)
  · intro r hr
    exact .inl ((h.between_data.1 r hr).2.trans (by omega))

theorem Laid.readAt_guid : readAt j.copied (sector + 56) 16 = j.guid := by
  have hroom := h.room
  have hprimary : readAt j.copied sector sector = j.primary := by
    rw [copied, readAt_writeAt_disjoint h.table_fits (.inl (by rw [front_end] at hroom; simp only [sector]; omega))]
    exact h.readAt_data (by simp [front]) j.length_primary
  rw [← readAt_readAt _ (by decide : 56 + 16 ≤ sector), hprimary]
  exact readAt_writeGPTHeader j.hash j.length_guid
    (by simp [GptHeaderArgs.fields, GptHeaderParams.args, primaryParams, guid]) j.length_guid

/-! ### The stages -/

theorem writeFront_ok :
    writeFront j.hash j.rand j.parts j.total j.zeros = .ok (writeAll j.zeros j.front) := by
  have hroom := h.room
  have htable := h.table
  have hzeros := j.length_zeros
  have harray := j.length_array
  have hmbr := length_protectiveMBR j.total
  have hbytes : gptPartArrayBytes = 16384 := rfl
  have hsector : sector = 512 := rfl
  have hlen₁ : (writeAt j.zeros 0 (protectiveMBR j.total)).length = byteAt j.total := by
    rw [length_writeAt (by omega), hzeros]
  have hlen₂ : (writeAt (writeAt j.zeros 0 (protectiveMBR j.total)) (2 * sector) j.array).length = byteAt j.total := by
    rw [length_writeAt (by omega), hlen₁]
  -- nothing is written between the MBR and the table
  have hfree : readAt (writeAt (writeAt j.zeros 0 (protectiveMBR j.total)) (2 * sector) j.array) sector sector =
      List.replicate sector 0 := by
    rw [readAt_writeAt_disjoint (by omega) (by omega), readAt_writeAt_disjoint (by omega) (by omega)]
    exact readAt_replicate 0 (by omega)
  have h₁ : copyTo j.zeros 0 sector (protectiveMBR j.total) = .ok (writeAt j.zeros 0 (protectiveMBR j.total)) :=
    copyTo_ok rfl (by omega) (by omega)
  have h₂ : writeTable j.rand j.parts (writeAt j.zeros 0 (protectiveMBR j.total)) =
      .ok (writeAt (writeAt j.zeros 0 (protectiveMBR j.total)) (2 * sector) j.array) := by
    rw [writeTable, if_neg (Nat.not_lt.mpr j.count), ← array]
    exact copyTo_ok (by omega) (by omega) (by omega)
  have hheader := patched_count j.hash (p := primaryParams j.hash j.rand j.parts j.total) j.length_guid rfl
  rw [writeFront, h₁, except_ok_bind, h₂, except_ok_bind, editAt_ok rfl (by omega) (by omega) hfree, hheader]
  · rfl
  · rw [hheader]
    exact j.length_primary

theorem writeBack_ok : writeBack j.hash j.rand j.parts j.total j.data = .ok j.image := by
  have hmax : maxAlloc = 2 ^ 48 := rfl
  have hfits := h.fits
  have htable := h.table
  have hbackup := h.backup
  have harray := j.length_array
  have hlen := h.length_data
  have hlen' := h.length_copied
  have hcopy : copyTo j.data (byteAt (j.total - 33)) (goInt (byteAt (j.total - 33) + gptPartArrayBytes)) j.array =
      .ok j.copied := by
    rw [← Nat.cast_add, goInt_natCast (by omega)]
    exact copyTo_ok rfl (by omega) (by omega)
  have hheader := patched_guid j.hash (p := backupParams j.hash j.rand j.parts j.total) List.length_replicate
    j.length_guid rfl rfl
  have hlo : (j.total - 1) * sector % 2 ^ 64 = byteAt (j.total - 1) := rfl
  have hhi : j.total * sector % 2 ^ 64 = byteAt (j.total - 1) + sector := hbackup.symm
  rw [writeBack, goInt_byteAt (by omega), h.readAt_data (by simp [front]) harray, hcopy, except_ok_bind,
    h.readAt_guid, hlo, hhi, editAt_ok rfl rfl (by omega) h.readAt_last, hheader, image_eq]
  · rfl
  · rw [hheader]
    exact j.length_backup

/-- **The image is its writes.** -/
theorem writeImage_ok {last : Partition} (hlast : j.parts.getLast? = some last)
    (htotal : (last.endLBA + 1 + 33) % 2 ^ 64 = j.total) :
    writeImage j.hash j.rand j.parts = .ok j.image := by
  have hfront := h.placed_data
  rw [List.map_append] at hfront
  have hlen := length_writeAll hfront.left.1
  have hpayloads : writePayloads j.parts (writeAll j.zeros j.front) = .ok j.data := by
    rw [data, writeAll_append]
    refine writePayloads_ok ?_ fun w hw => ?_
    · rw [hlen, length_zeros]
      exact h.fits
    · rw [hlen]
      exact h.placed.1 (extent w) (List.mem_map_of_mem (by simp [writes, hw]))
  have halloc : allocate j.total = .ok j.zeros := allocate_ok h.fits
  rw [writeImage, hlast]
  simp only
  rw [htotal, halloc, except_ok_bind, writeFront_ok h, except_ok_bind, hpayloads, except_ok_bind, writeBack_ok h]

/-! ### Valid images -/

theorem Laid.sectorAt_one : sectorAt j.image 1 = j.primary :=
  h.readAt_image (by simp [writes, front]) j.length_primary

theorem Laid.readAt_backup : readAt j.image (byteAt (j.total - 1)) sector = j.backup :=
  h.readAt_image (by simp [writes, back]) j.length_backup

/-- Where the length wraps, the primary header points past the image. -/
theorem not_gptDisk_of_wrap (hge : 2 ^ 64 ≤ j.total * sector) (hlt : j.total < 2 ^ 64) :
    ¬ GptDisk j.hash.crc32 j.image := by
  intro hdisk
  have hpos : 0 < j.total := by
    by_contra hzero
    rw [Nat.eq_zero_of_not_pos hzero, Nat.zero_mul] at hge
    exact absurd hge (by decide)
  have hlba : backupLBA j.image = j.total - 1 := by
    rw [backupLBA, fieldsAt, h.sectorAt_one, primary, read_writeGPTHeader j.length_guid]
    · rfl
    · exact (by decide : 1 < 2 ^ 64)
    · exact (by omega : j.total - 1 < 2 ^ 64)
    · exact (by decide : firstUsableLBA < 2 ^ 64)
    · exact (by omega : j.total - 1 - 33 < 2 ^ 64)
    · exact (by decide : 2 < 2 ^ 64)
  have hend := hdisk.atEnd
  have hlen : byteAt j.total < 2 ^ 64 := Nat.mod_lt _ (by decide)
  rw [hlba, h.length_image, Nat.sub_add_cancel hpos] at hend
  omega

end

variable (j) in
/-- No offset wraps, and the partitions are in use. -/
structure Straight : Prop extends j.Laid where
  tables_le : 2 + 2 * gptPartArraySector < j.total - 1
  lt : j.total * sector < 2 ^ 64
  typed : ∀ p ∈ j.parts, p.typeGUID ≠ List.replicate 16 0

theorem Straight.byteAt_eq (h : j.Straight) (hle : lba ≤ j.total) : byteAt lba = lba * sector :=
  byteAt_of_lt ((Nat.mul_le_mul_right _ hle).trans_lt h.lt)

theorem Straight.written (h : j.Straight) : GptWritten j.hash j.image j.array j.guid (j.total - 1) := by
  have hmin := h.tables_le
  have hlt := h.lt
  have hsectors : gptPartArraySector = 32 := rfl
  have hlast : j.total - 1 - 1 - gptPartArraySector = j.total - 1 - 33 := by omega
  have hentry : j.total - 1 - gptPartArraySector = j.total - 33 := by omega
  refine ⟨j.length_guid, ?_, hmin, ?_, ?_, ?_, ?_, ?_⟩
  · simp only [sector] at hlt
    omega
  · rw [h.length_image, h.byteAt_eq (Nat.le_refl _), Nat.sub_add_cancel (by omega)]
  · rw [hlast]
    exact h.sectorAt_one
  · rw [hlast, hentry, sectorAt, ← h.byteAt_eq (Nat.sub_le _ _)]
    exact h.readAt_backup
  · exact h.readAt_image (by simp [writes, front]) j.length_array
  · rw [hentry, ← h.byteAt_eq (Nat.sub_le _ _)]
    exact h.readAt_image (by simp [writes, back]) j.length_array

/-- The partitions of the image are those that were asked for. -/
theorem Straight.partitions_eq (h : j.Straight) : partitions j.image = tableEntries j.rand 0 j.parts := by
  have hwritten := h.written
  rw [array, partArray_eq j.rand j.count] at hwritten
  refine hwritten.partitions_eq (length_of_mem_tableEntries j.rand 0 j.parts) ?_ ?_
  · rw [length_tableEntries]
    exact j.count
  · intro e he
    obtain ⟨p, hp, hplace⟩ := List.mem_map.mp (map_entryPlace j.rand 0 j.parts ▸ List.mem_map_of_mem he)
    have htype : p.typeGUID = entryType e := congrArg Prod.fst hplace
    rw [← htype]
    exact h.typed p hp

theorem Straight.map_entryPlace (h : j.Straight) : (partitions j.image).map entryPlace = j.parts.map place := by
  rw [h.partitions_eq, Windows.map_entryPlace]

variable {p : Partition}

theorem Straight.exists_entry (h : j.Straight) (hp : p ∈ j.parts) :
    ∃ e ∈ partitions j.image,
      entryType e = p.typeGUID ∧ entryStart e = p.startLBA ∧ entryEnd e = p.endLBA := by
  obtain ⟨e, he, hplace⟩ := List.mem_map.mp (h.map_entryPlace ▸ List.mem_map_of_mem hp)
  exact ⟨e, he, congrArg Prod.fst hplace, congrArg (fun t => t.2.1) hplace, congrArg (fun t => t.2.2) hplace⟩

variable (j) in
/-- Partitions between the tables, in order. -/
structure InOrder : Prop where
  usable : ∀ p ∈ j.parts, firstUsableLBA ≤ p.startLBA ∧ p.startLBA ≤ p.endLBA ∧ p.endLBA ≤ j.total - 1 - 33
  ordered : j.parts.Pairwise fun p q => p.endLBA < q.startLBA

theorem Straight.gptDisk (h : j.Straight) (hin : j.InOrder) :
    GptDisk j.hash.crc32 j.image ∧ (partitions j.image).Pairwise fun e e' => entryEnd e < entryStart e' := by
  have hlast : j.total - 1 - 1 - gptPartArraySector = j.total - 1 - 33 := by
    have hsectors : gptPartArraySector = 32 := rfl
    omega
  have hordered : (partitions j.image).Pairwise fun e e' => entryEnd e < entryStart e' := by
    have hmap : (j.parts.map place).Pairwise fun a b => a.2.2 < b.2.1 := List.pairwise_map.mpr hin.ordered
    rw [← h.map_entryPlace] at hmap
    exact List.pairwise_map.mp hmap
  refine ⟨h.written.gptDisk ?_ (hordered.imp .inl), hordered⟩
  intro e he
  obtain ⟨p, hp, hplace⟩ := List.mem_map.mp (h.map_entryPlace ▸ List.mem_map_of_mem he)
  have hs : p.startLBA = entryStart e := congrArg (fun t => t.2.1) hplace
  have hend : p.endLBA = entryEnd e := congrArg (fun t => t.2.2) hplace
  rw [← hs, ← hend, hlast]
  exact hin.usable p hp

/-- A payload is the data of its partition. -/
theorem Straight.payload (h : j.Straight) {b : Bytes} (hp : p ∈ j.parts) (hb : p.bytes = some b)
    (hstart : p.startLBA ≤ j.total) (hlen : b.length = (p.endLBA + 1 - p.startLBA) * sector) :
    ∃ e ∈ partitions j.image, entryType e = p.typeGUID ∧ partitionData j.image e = b := by
  obtain ⟨e, he, htype, hs, hend⟩ := h.exists_entry hp
  have hw : (byteAt p.startLBA, b) ∈ payloadWrites j.parts :=
    List.mem_filterMap.mpr ⟨p, hp, by rw [hb]; rfl⟩
  refine ⟨e, he, htype, ?_⟩
  rw [partitionData, hs, hend, ← hlen, ← h.byteAt_eq hstart]
  exact h.readAt_image (by simp [writes, hw]) rfl

theorem Straight.not_gptDisk (h : j.Straight) (hp : p ∈ j.parts) (hempty : p.endLBA < p.startLBA) :
    ¬ GptDisk j.hash.crc32 j.image := by
  intro hdisk
  obtain ⟨e, he, -, hs, hend⟩ := h.exists_entry hp
  have huse := (hdisk.usable e he).2.1
  rw [hs, hend] at huse
  exact Nat.not_le.mpr hempty huse

end Job

end TamagoUefi.Disk.Windows
