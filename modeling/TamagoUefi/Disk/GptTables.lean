import TamagoUefi.Disk.Gpt

/-!
# TamagoUefi.Disk.GptTables — the tables of a GPT disk

What the two image builders share: the protective MBR, the entries of the partition table and the headers
that they write, and what is read back from them.  CRC32 is a parameter.

* `GptDisk`: what a GPT disk is, in terms of what is read from it.
* `GptWritten.gptDisk`: an image with both headers and both tables is one, if its partitions are.
-/

namespace TamagoUefi.Disk

open Go Lib

/-- The hash functions of the standard library. -/
structure Hashes where
  sha256 : Bytes → Bytes
  crc32 : Bytes → UInt32
  length_sha256 : ∀ b, (sha256 b).length = 32

def gptPartEntrySize : ℕ := 128
def gptPartEntryCount : ℕ := 128
def gptPartArrayBytes : ℕ := gptPartEntrySize * gptPartEntryCount
def gptPartArraySector : ℕ := gptPartArrayBytes / sector
def firstUsableLBA : ℕ := 1 + 1 + gptPartArraySector
def dataStartLBA : ℕ := 64
def efiSystemPartitionGUID : Bytes :=
  [0x28, 0x73, 0x2A, 0xC1, 0x1F, 0xF8, 0xD2, 0x11, 0xBA, 0x4B, 0x00, 0xA0, 0xC9, 0x3E, 0xC9, 0x3B]

/-! ## Tables -/

/-- A name of ASCII letters, as UTF-16. -/
def partName (name : Bytes) : Bytes := (name.take 36).flatMap fun c => [c, 0]

def gptEntry (type guid : Bytes) (startLBA endLBA : ℕ) (name : Bytes) : Bytes :=
  writeAll (List.replicate gptPartEntrySize 0)
    [(0, type), (16, guid), (32, leBytes 8 startLBA), (40, leBytes 8 endLBA), (48, leBytes 8 0),
      (56, partName name)]

structure GptHeaderArgs where
  myLBA : ℕ
  alternateLBA : ℕ
  firstUsableLBA : ℕ
  lastUsableLBA : ℕ
  diskGUID : Bytes
  partitionEntryLBA : ℕ
  partitionEntryCRC : UInt32

open GptHeaderArgs

/-- The fields of a header but its own checksum. -/
def GptHeaderArgs.fields (a : GptHeaderArgs) : List (ℕ × Bytes) :=
  [(0, gptMagic), (8, leBytes 4 0x00010000), (12, leBytes 4 92), (20, leBytes 4 0), (24, leBytes 8 a.myLBA),
    (32, leBytes 8 a.alternateLBA), (40, leBytes 8 a.firstUsableLBA), (48, leBytes 8 a.lastUsableLBA),
    (56, a.diskGUID), (72, leBytes 8 a.partitionEntryLBA), (80, leBytes 4 gptPartEntryCount),
    (84, leBytes 4 gptPartEntrySize), (88, leBytes 4 a.partitionEntryCRC.toNat)]

def writeGPTHeader (hash : Hashes) (a : GptHeaderArgs) : Bytes :=
  let hdr := writeAll (List.replicate sector 0) a.fields
  writeAt hdr 16 (leBytes 4 (hash.crc32 (readAt hdr 0 92)).toNat)

def protectiveMBR (totalLBAs : ℕ) : Bytes :=
  let size32 := if totalLBAs - 1 < 2 ^ 32 then totalLBAs - 1 else 0xFFFFFFFF
  writeAll (List.replicate sector 0)
    [(446, [0x00, 0x00, 0x02, 0x00, 0xEE, 0xFF, 0xFF, 0xFF]), (454, leBytes 4 1), (458, leBytes 4 size32),
      (510, [0x55, 0xAA])]

/-! ## What is in the tables -/

namespace GptHeaderArgs
variable {a : GptHeaderArgs}

def extents : List (ℕ × ℕ) :=
  [(0, 8), (8, 4), (12, 4), (20, 4), (24, 8), (32, 8), (40, 8), (48, 8), (56, 16), (72, 8), (80, 4), (84, 4),
    (88, 4)]

theorem map_extent (h : a.diskGUID.length = 16) : a.fields.map extent = extents := by
  simp only [fields, List.map_cons, List.map_nil, extent, length_leBytes, h]
  rfl

theorem placed (h : a.diskGUID.length = 16) :
    Placed (List.replicate sector (0 : UInt8)).length (a.fields.map extent) := by
  rw [map_extent h, List.length_replicate]
  decide

/-- The place of the checksum is left free. -/
theorem apart_crc (h : a.diskGUID.length = 16) : ∀ r ∈ a.fields.map extent, Apart r (16, 4) := by
  rw [map_extent h]
  decide

end GptHeaderArgs

section
variable {hash : Hashes} {a : GptHeaderArgs}

theorem length_fields (h : a.diskGUID.length = 16) :
    (writeAll (List.replicate sector (0 : UInt8)) a.fields).length = sector := by
  rw [length_writeAll (placed h).1, List.length_replicate]

theorem crc_fits (h : a.diskGUID.length = 16) (v : ℕ) :
    16 + (leBytes 4 v).length ≤ (writeAll (List.replicate sector (0 : UInt8)) a.fields).length := by
  rw [length_fields h, length_leBytes]
  decide

theorem length_writeGPTHeader (h : a.diskGUID.length = 16) : (writeGPTHeader hash a).length = sector :=
  (length_writeAt (crc_fits h _)).trans (length_fields h)

theorem readAt_writeGPTHeader (hash : Hashes) (h : a.diskGUID.length = 16) {off n : ℕ} {v : Bytes}
    (hw : (off, v) ∈ a.fields) (hn : v.length = n) : readAt (writeGPTHeader hash a) off n = v := by
  have hapart : Apart (off, v.length) (16, 4) := apart_crc h _ (List.mem_map_of_mem hw)
  rw [writeGPTHeader, ← hn, readAt_writeAt_disjoint (crc_fits h _) (by rwa [length_leBytes])]
  exact readAt_writeAll (placed h) hw

/-- The checksum is that of the header with a zero in its place. -/
theorem crc_writeGPTHeader (h : a.diskGUID.length = 16) :
    leNat (readAt (writeGPTHeader hash a) 16 4) =
      (hash.crc32 (writeAt (readAt (writeGPTHeader hash a) 0 92) 16 (List.replicate 4 0))).toNat := by
  have hlen := length_fields h
  have hlt := UInt32.toNat_lt (hash.crc32 (readAt (writeAll (List.replicate sector 0) a.fields) 0 92))
  have hcrc : readAt (writeGPTHeader hash a) 16 4 =
      leBytes 4 (hash.crc32 (readAt (writeAll (List.replicate sector 0) a.fields) 0 92)).toNat := by
    have hread := readAt_writeAt (crc_fits h
      (hash.crc32 (readAt (writeAll (List.replicate sector 0) a.fields) 0 92)).toNat)
    rwa [length_leBytes] at hread
  have hbody : writeAt (readAt (writeGPTHeader hash a) 0 92) 16 (List.replicate 4 0) =
      readAt (writeAll (List.replicate sector 0) a.fields) 0 92 := by
    have hwindow : (readAt (writeAll (List.replicate sector (0 : UInt8)) a.fields) 0 92).length = 92 :=
      length_readAt (by rw [hlen]; decide)
    have hzero : readAt (readAt (writeAll (List.replicate sector (0 : UInt8)) a.fields) 0 92) 16 4 =
        List.replicate 4 0 := by
      rw [readAt_readAt _ (by decide), readAt_writeAll_apart (placed h).1
        (apart_crc h), readAt_replicate _ (by decide)]
    rw [writeGPTHeader, readAt_writeAt_around (crc_fits h _) (Nat.zero_le _)
      (by rw [length_leBytes]; decide) (by rw [hlen]; decide), Nat.sub_zero,
      writeAt_writeAt (by rw [hwindow, length_leBytes]; decide) (by rw [length_leBytes, List.length_replicate]),
      ← hzero, writeAt_readAt (by rw [hwindow]; decide)]
  rw [hcrc, leNat_leBytes (by simpa using hlt), hbody]

end

section
variable {type guid name : Bytes} {startLBA endLBA : ℕ}

theorem length_partName (name : Bytes) : (partName name).length ≤ 72 := by
  have htake : (name.take 36).length ≤ 36 := List.length_take_le 36 name
  have hflat : ∀ l : Bytes, (l.flatMap fun c => [c, 0]).length = 2 * l.length := by
    intro l
    induction l with
    | nil => rfl
    | cons c l ih =>
      rw [List.flatMap_cons, List.length_append, ih, List.length_cons, List.length_cons, List.length_cons,
        List.length_nil]
      omega
  rw [partName, hflat]
  omega

variable (name startLBA endLBA) in
theorem gptEntry_placed (ht : type.length = 16) (hg : guid.length = 16) :
    Placed (List.replicate gptPartEntrySize (0 : UInt8)).length
      ([(0, type), (16, guid), (32, leBytes 8 startLBA), (40, leBytes 8 endLBA), (48, leBytes 8 0),
        (56, partName name)].map extent) := by
  have hname := length_partName name
  simp only [Placed, List.map_cons, List.map_nil, extent, length_leBytes, ht, hg, List.length_replicate,
    gptPartEntrySize, List.forall_mem_cons, List.not_mem_nil, List.pairwise_cons, Apart,
    false_implies, implies_true, List.Pairwise.nil, and_true]
  omega

variable (name startLBA endLBA) in
theorem length_gptEntry (ht : type.length = 16) (hg : guid.length = 16) :
    (gptEntry type guid startLBA endLBA name).length = gptPartEntrySize :=
  (length_writeAll (gptEntry_placed name startLBA endLBA ht hg).1).trans List.length_replicate

theorem entry_gptEntry (ht : type.length = 16) (hg : guid.length = 16) (hs : startLBA < 2 ^ 64)
    (he : endLBA < 2 ^ 64) : entryType (gptEntry type guid startLBA endLBA name) = type ∧
      entryStart (gptEntry type guid startLBA endLBA name) = startLBA ∧
      entryEnd (gptEntry type guid startLBA endLBA name) = endLBA := by
  have hplaced := gptEntry_placed name startLBA endLBA ht hg
  have htype := readAt_writeAll hplaced (w := (0, type)) (by simp)
  have hstart := readAt_writeAll hplaced (w := (32, leBytes 8 startLBA)) (by simp)
  have hend := readAt_writeAll hplaced (w := (40, leBytes 8 endLBA)) (by simp)
  simp only [ht, length_leBytes] at htype hstart hend
  refine ⟨htype, ?_, ?_⟩
  · rw [entryStart, gptEntry, hstart, leNat_leBytes (by simpa using hs)]
  · rw [entryEnd, gptEntry, hend, leNat_leBytes (by simpa using he)]

end

theorem length_protectiveMBR (n : ℕ) : (protectiveMBR n).length = sector := by
  unfold protectiveMBR
  simp only
  rw [length_writeAll, List.length_replicate]
  simp only [List.map_cons, List.map_nil, extent, length_leBytes, List.length_replicate]
  decide

/-! ## GPT disks -/

/-- The sector at an address. -/
def sectorAt (img : Bytes) (lba : ℕ) : Bytes := readAt img (lba * sector) sector

/-- The fields of a header. -/
structure GptFields where
  magic : Bytes
  headerSize : ℕ
  myLBA : ℕ
  alternateLBA : ℕ
  firstUsableLBA : ℕ
  lastUsableLBA : ℕ
  diskGUID : Bytes
  entryLBA : ℕ
  entryCount : ℕ
  entrySize : ℕ
  entryCRC : ℕ

def GptFields.read (hdr : Bytes) : GptFields where
  magic := readAt hdr 0 8
  headerSize := leNat (readAt hdr 12 4)
  myLBA := leNat (readAt hdr 24 8)
  alternateLBA := leNat (readAt hdr 32 8)
  firstUsableLBA := leNat (readAt hdr 40 8)
  lastUsableLBA := leNat (readAt hdr 48 8)
  diskGUID := readAt hdr 56 16
  entryLBA := leNat (readAt hdr 72 8)
  entryCount := leNat (readAt hdr 80 4)
  entrySize := leNat (readAt hdr 84 4)
  entryCRC := leNat (readAt hdr 88 4)

section
variable {hash : Hashes} {a : GptHeaderArgs}

theorem read_writeGPTHeader (h : a.diskGUID.length = 16) (hmy : a.myLBA < 2 ^ 64)
    (halt : a.alternateLBA < 2 ^ 64) (hfirst : a.firstUsableLBA < 2 ^ 64) (hlast : a.lastUsableLBA < 2 ^ 64)
    (hentry : a.partitionEntryLBA < 2 ^ 64) : GptFields.read (writeGPTHeader hash a) =
      ⟨gptMagic, 92, a.myLBA, a.alternateLBA, a.firstUsableLBA, a.lastUsableLBA, a.diskGUID,
        a.partitionEntryLBA, gptPartEntryCount, gptPartEntrySize, a.partitionEntryCRC.toNat⟩ := by
  have hmagic : readAt (writeGPTHeader hash a) 0 8 = gptMagic :=
    readAt_writeGPTHeader hash h (by simp [fields]) rfl
  have hguid : readAt (writeGPTHeader hash a) 56 16 = a.diskGUID :=
    readAt_writeGPTHeader hash h (by simp [fields]) h
  have hcrc := a.partitionEntryCRC.toNat_lt
  have hfield : ∀ {off n v : ℕ}, (off, leBytes n v) ∈ a.fields → v < 256 ^ n →
      leNat (readAt (writeGPTHeader hash a) off n) = v := fun hw hv => by
    rw [readAt_writeGPTHeader hash h hw (length_leBytes _ _), leNat_leBytes hv]
  have h₁ : leNat (readAt (writeGPTHeader hash a) 12 4) = 92 :=
    hfield (by simp [fields]) (by decide)
  have h₂ : leNat (readAt (writeGPTHeader hash a) 24 8) = a.myLBA :=
    hfield (by simp [fields]) (by simpa using hmy)
  have h₃ : leNat (readAt (writeGPTHeader hash a) 32 8) = a.alternateLBA :=
    hfield (by simp [fields]) (by simpa using halt)
  have h₄ : leNat (readAt (writeGPTHeader hash a) 40 8) = a.firstUsableLBA :=
    hfield (by simp [fields]) (by simpa using hfirst)
  have h₅ : leNat (readAt (writeGPTHeader hash a) 48 8) = a.lastUsableLBA :=
    hfield (by simp [fields]) (by simpa using hlast)
  have h₆ : leNat (readAt (writeGPTHeader hash a) 72 8) = a.partitionEntryLBA :=
    hfield (by simp [fields]) (by simpa using hentry)
  have h₇ : leNat (readAt (writeGPTHeader hash a) 80 4) = gptPartEntryCount :=
    hfield (by simp [fields]) (by decide)
  have h₈ : leNat (readAt (writeGPTHeader hash a) 84 4) = gptPartEntrySize :=
    hfield (by simp [fields]) (by decide)
  have h₉ : leNat (readAt (writeGPTHeader hash a) 88 4) = a.partitionEntryCRC.toNat :=
    hfield (by simp [fields]) (by simpa using hcrc)
  rw [GptFields.read, hmagic, hguid, h₁, h₂, h₃, h₄, h₅, h₆, h₇, h₈, h₉]

end

def fieldsAt (img : Bytes) (lba : ℕ) : GptFields := .read (sectorAt img lba)

/-- A header that knows its place, with valid checksums. -/
structure HeaderValid (crc32 : Bytes → UInt32) (img : Bytes) (lba : ℕ) : Prop where
  magic : (fieldsAt img lba).magic = gptMagic
  myLBA : (fieldsAt img lba).myLBA = lba
  headerCRC : leNat (readAt (sectorAt img lba) 16 4) =
    (crc32 (writeAt (readAt (sectorAt img lba) 0 (fieldsAt img lba).headerSize) 16 (List.replicate 4 0))).toNat
  entryCRC : (fieldsAt img lba).entryCRC = (crc32 (readAt img ((fieldsAt img lba).entryLBA * sector)
    ((fieldsAt img lba).entryCount * (fieldsAt img lba).entrySize))).toNat

/-- The entries of the primary table that are in use. -/
def partitions (img : Bytes) : List Bytes :=
  (entries img ((fieldsAt img 1).entryLBA * sector) (fieldsAt img 1).entrySize (fieldsAt img 1).entryCount).filter
    fun e => entryType e ≠ List.replicate 16 0

def partitionData (img entry : Bytes) : Bytes :=
  readAt img (entryStart entry * sector) ((entryEnd entry + 1 - entryStart entry) * sector)

/-- The header at the other end of the disk. -/
def backupLBA (img : Bytes) : ℕ := (fieldsAt img 1).alternateLBA

def tableBytes (img : Bytes) : ℕ := (fieldsAt img 1).entryCount * (fieldsAt img 1).entrySize

/-- A disk with a primary and a backup header that agree, and partitions that are in their places. -/
structure GptDisk (crc32 : Bytes → UInt32) (img : Bytes) : Prop where
  primary : HeaderValid crc32 img 1
  backup : HeaderValid crc32 img (backupLBA img)
  atEnd : (backupLBA img + 1) * sector = img.length
  alternate : (fieldsAt img (backupLBA img)).alternateLBA = 1
  agree : (fieldsAt img (backupLBA img)).firstUsableLBA = (fieldsAt img 1).firstUsableLBA ∧
    (fieldsAt img (backupLBA img)).lastUsableLBA = (fieldsAt img 1).lastUsableLBA ∧
    (fieldsAt img (backupLBA img)).diskGUID = (fieldsAt img 1).diskGUID ∧
    (fieldsAt img (backupLBA img)).entryCount = (fieldsAt img 1).entryCount ∧
    (fieldsAt img (backupLBA img)).entrySize = (fieldsAt img 1).entrySize
  tables : readAt img ((fieldsAt img (backupLBA img)).entryLBA * sector) (tableBytes img) =
    readAt img ((fieldsAt img 1).entryLBA * sector) (tableBytes img)
  usable : ∀ e ∈ partitions img, (fieldsAt img 1).firstUsableLBA ≤ entryStart e ∧
    entryStart e ≤ entryEnd e ∧ entryEnd e ≤ (fieldsAt img 1).lastUsableLBA
  /-- Both tables, with the headers before the one and behind the other. -/
  outside : ∀ e ∈ partitions img,
    2 * sector ≤ (fieldsAt img 1).entryLBA * sector ∧
    (fieldsAt img 1).entryLBA * sector + tableBytes img ≤ entryStart e * sector ∧
    (entryEnd e + 1) * sector ≤ (fieldsAt img (backupLBA img)).entryLBA * sector ∧
    (fieldsAt img (backupLBA img)).entryLBA * sector + tableBytes img ≤ backupLBA img * sector
  disjoint : (partitions img).Pairwise fun e e' => entryEnd e < entryStart e' ∨ entryEnd e' < entryStart e

theorem entryType_zero : entryType (List.replicate gptPartEntrySize 0) = List.replicate 16 0 :=
  readAt_replicate _ (by decide)

/-! ## Tables of entries -/

def zeroEntry : Bytes := List.replicate gptPartEntrySize 0

/-- The table with these entries at its beginning. -/
def tableOf (es : List Bytes) : Bytes :=
  (es ++ List.replicate (gptPartEntryCount - es.length) zeroEntry).flatten

theorem tableOf_nil : tableOf [] = List.replicate gptPartArrayBytes 0 := by
  rw [tableOf, List.nil_append, zeroEntry, List.flatten_replicate_replicate]
  rfl

section
variable {es : List Bytes}

theorem length_of_mem_table (h : ∀ e ∈ es, e.length = gptPartEntrySize) :
    ∀ e ∈ es ++ List.replicate (gptPartEntryCount - es.length) zeroEntry, e.length = gptPartEntrySize := by
  intro e he
  rcases List.mem_append.mp he with he | he
  · exact h e he
  · rw [List.eq_of_mem_replicate he, zeroEntry, List.length_replicate]

theorem length_tableOf (h : ∀ e ∈ es, e.length = gptPartEntrySize) (hle : es.length ≤ gptPartEntryCount) :
    (tableOf es).length = gptPartArrayBytes := by
  rw [tableOf, length_flatten (length_of_mem_table h), List.length_append, List.length_replicate,
    Nat.add_sub_cancel' hle]
  rfl

theorem writeAt_tableOf (es : List Bytes) {e : Bytes} (h : ∀ e ∈ es, e.length = gptPartEntrySize) (hlt : es.length < gptPartEntryCount)
    (he : e.length = gptPartEntrySize) :
    writeAt (tableOf es) (es.length * gptPartEntrySize) e = tableOf (es ++ [e]) := by
  obtain ⟨k, hk⟩ := Nat.exists_eq_add_of_lt hlt
  have hfree : gptPartEntryCount - es.length = k + 1 := by omega
  have hfree' : gptPartEntryCount - (es ++ [e]).length = k := by
    rw [List.length_append, List.length_singleton]
    omega
  have hzero : zeroEntry.length = gptPartEntrySize := List.length_replicate
  rw [tableOf, tableOf, hfree, hfree', List.replicate_succ, List.flatten_append, List.flatten_cons,
    ← length_flatten h, writeAt_append, he, ← hzero, List.drop_left, List.append_assoc, List.flatten_append,
    List.singleton_append, List.flatten_cons]

theorem entries_of_tableOf {img : Bytes} (h : ∀ e ∈ es, e.length = gptPartEntrySize)
    (hle : es.length ≤ gptPartEntryCount) (htable : readAt img (2 * sector) gptPartArrayBytes = tableOf es) :
    entries img (2 * sector) gptPartEntrySize gptPartEntryCount =
      es ++ List.replicate (gptPartEntryCount - es.length) zeroEntry := by
  have hlen : (es ++ List.replicate (gptPartEntryCount - es.length) zeroEntry).length = gptPartEntryCount := by
    rw [List.length_append, List.length_replicate, Nat.add_sub_cancel' hle]
  refine List.ext_getElem ?_ ?_
  · rw [entries, List.length_map, List.length_range, hlen]
  · intro i hi hi'
    rw [hlen] at hi'
    have hin : i * gptPartEntrySize + gptPartEntrySize ≤ gptPartArrayBytes := by
      rw [← Nat.succ_mul, gptPartArrayBytes, Nat.mul_comm gptPartEntrySize]
      exact Nat.mul_le_mul_right _ hi'
    simp only [entries, List.getElem_map, List.getElem_range]
    rw [← readAt_readAt img hin, htable, tableOf, readAt_flatten (length_of_mem_table h)]

end

/-- An image with both headers and both tables. -/
structure GptWritten (hash : Hashes) (img array guid : Bytes) (last : ℕ) : Prop where
  length_guid : guid.length = 16
  last_lt : last < 2 ^ 64
  tables_le : 2 + 2 * gptPartArraySector < last
  length : img.length = (last + 1) * sector
  primary : sectorAt img 1 = writeGPTHeader hash ⟨1, last, firstUsableLBA, last - 1 - gptPartArraySector, guid, 2,
    hash.crc32 array⟩
  backup : sectorAt img last = writeGPTHeader hash ⟨last, 1, firstUsableLBA, last - 1 - gptPartArraySector, guid,
    last - gptPartArraySector, hash.crc32 array⟩
  table : readAt img (2 * sector) gptPartArrayBytes = array
  copy : readAt img ((last - gptPartArraySector) * sector) gptPartArrayBytes = array

namespace GptWritten
variable {hash : Hashes} {img array guid : Bytes} {last : ℕ} (h : GptWritten hash img array guid last)
include h

theorem fields_primary : fieldsAt img 1 =
    ⟨gptMagic, 92, 1, last, firstUsableLBA, last - 1 - gptPartArraySector, guid, 2, gptPartEntryCount,
      gptPartEntrySize, (hash.crc32 array).toNat⟩ := by
  have hlast := h.last_lt
  rw [fieldsAt, h.primary, read_writeGPTHeader h.length_guid]
  · exact (by decide : 1 < 2 ^ 64)
  · exact hlast
  · exact (by decide : firstUsableLBA < 2 ^ 64)
  · exact (by omega : last - 1 - gptPartArraySector < 2 ^ 64)
  · exact (by decide : 2 < 2 ^ 64)

theorem fields_backup : fieldsAt img last =
    ⟨gptMagic, 92, last, 1, firstUsableLBA, last - 1 - gptPartArraySector, guid, last - gptPartArraySector,
      gptPartEntryCount, gptPartEntrySize, (hash.crc32 array).toNat⟩ := by
  have hlast := h.last_lt
  rw [fieldsAt, h.backup, read_writeGPTHeader h.length_guid]
  · exact hlast
  · exact (by decide : 1 < 2 ^ 64)
  · exact (by decide : firstUsableLBA < 2 ^ 64)
  · exact (by omega : last - 1 - gptPartArraySector < 2 ^ 64)
  · exact (by omega : last - gptPartArraySector < 2 ^ 64)

theorem headerValid_primary : HeaderValid hash.crc32 img 1 := by
  have hfields := h.fields_primary
  refine ⟨by rw [hfields], by rw [hfields], ?_, ?_⟩
  · rw [hfields, h.primary]
    exact crc_writeGPTHeader h.length_guid
  · rw [hfields]
    exact congrArg (fun b => (hash.crc32 b).toNat) h.table.symm

theorem headerValid_backup : HeaderValid hash.crc32 img last := by
  have hfields := h.fields_backup
  refine ⟨by rw [hfields], by rw [hfields], ?_, ?_⟩
  · rw [hfields, h.backup]
    exact crc_writeGPTHeader h.length_guid
  · rw [hfields]
    exact congrArg (fun b => (hash.crc32 b).toNat) h.copy.symm

omit h in
theorem partitions_eq {es : List Bytes} (h : GptWritten hash img (tableOf es) guid last)
    (hlen : ∀ e ∈ es, e.length = gptPartEntrySize) (hle : es.length ≤ gptPartEntryCount)
    (htype : ∀ e ∈ es, entryType e ≠ List.replicate 16 0) : partitions img = es := by
  have hused : es.filter (fun e => decide (entryType e ≠ List.replicate 16 0)) = es :=
    List.filter_eq_self.mpr fun e he => decide_eq_true (htype e he)
  have hfree : ∀ n, (List.replicate n zeroEntry).filter (fun e => decide (entryType e ≠ List.replicate 16 0)) =
      [] := by
    intro n
    rw [List.filter_replicate, if_neg]
    rw [zeroEntry, entryType_zero, decide_eq_true_eq]
    exact not_not.mpr rfl
  rw [partitions, h.fields_primary, entries_of_tableOf hlen hle h.table, List.filter_append, hused, hfree,
    List.append_nil]

/-- **A GPT disk**: both headers and both tables, and partitions between them. -/
theorem gptDisk
    (hparts : ∀ e ∈ partitions img, firstUsableLBA ≤ entryStart e ∧ entryStart e ≤ entryEnd e ∧
      entryEnd e ≤ last - 1 - gptPartArraySector)
    (hdisjoint : (partitions img).Pairwise fun e e' => entryEnd e < entryStart e' ∨ entryEnd e' < entryStart e) :
    GptDisk hash.crc32 img := by
  have hprimary := h.fields_primary
  have hlba : backupLBA img = last := by rw [backupLBA, hprimary]
  have hbackup := h.fields_backup
  have hbytes : tableBytes img = gptPartArrayBytes := by
    rw [tableBytes, hprimary]
    rfl
  constructor
  · exact h.headerValid_primary
  · rw [hlba]
    exact h.headerValid_backup
  · rw [hlba, h.length]
  · rw [hlba, hbackup]
  · rw [hlba, hbackup, hprimary]
    exact ⟨rfl, rfl, rfl, rfl, rfl⟩
  · rw [hlba, hbackup, hprimary, hbytes, h.copy, h.table]
  · intro e he
    rw [hprimary]
    exact hparts e he
  · intro e he
    obtain ⟨h₁, h₂, h₃⟩ := hparts e he
    have hle := h.tables_le
    have harray : gptPartArrayBytes = 16384 := rfl
    have hsectors : gptPartArraySector = 32 := rfl
    have hfirst : firstUsableLBA = 34 := rfl
    rw [hlba, hbackup, hprimary, hbytes]
    simp only [sector] at *
    omega
  · exact hdisjoint

end GptWritten

/-- A bit of the reflected polynomial of IEEE 802.3. -/
def crcBit (c : UInt32) : UInt32 := if c &&& 1 = 1 then c >>> 1 ^^^ 0xEDB88320 else c >>> 1

def ieeeCRC32 (b : Bytes) : UInt32 := ~~~b.foldl (fun c x => crcBit^[8] (c ^^^ x.toUInt32)) 0xFFFFFFFF

/-- The checksum of `hash/crc32`, and eight of them with different first bytes for a digest. -/
def plainHashes : Hashes where
  sha256 b := ([0, 1, 2, 3, 4, 5, 6, 7] : Bytes).flatMap fun k => leBytes 4 (ieeeCRC32 (k :: b)).toNat
  crc32 := ieeeCRC32
  length_sha256 b := by simp [length_leBytes]

example : plainHashes.crc32 (str "123456789") = 0xCBF43926 := by decide +kernel

end TamagoUefi.Disk
