import TamagoUefi.Disk.GptTables

/-!
# TamagoUefi.Disk.EspImage — the disk image with an ESP and a UFS partition (`buildespimg/main.go`)

The builder lays a FAT image and, if there is one, a UFS image out on a GPT disk: the tables at the
beginning, the FAT image at LBA 64, the UFS image at the next multiple of 1 MiB, copies of the tables at
the end.  SHA-256 and CRC32 are parameters.

* `image_writes`: the image is a zeroed buffer with writes that do not overlap.
* `buildespimg_correct`: the image is a GPT disk, and the reader of `Disk.Gpt` finds the UFS image on it.
-/

namespace TamagoUefi.Disk

open Go Lib

def alignSectors : ℕ := 2048

/-- A version 4 UUID out of 16 bytes. -/
def uuidV4FromBytes (b : Bytes) : Bytes :=
  let out := writeAt (List.replicate 16 0) 0 (b.take 16)
  let out := out.set 6 ((out.getD 6 0 &&& 0x0F) ||| 0x40)
  out.set 8 ((out.getD 8 0 &&& 0x3F) ||| 0x80)

/-! ## Layout -/

section
variable (fat : Bytes) (ufs : Option Bytes)

def espEndLBA : ℕ := dataStartLBA + fat.length / sector - 1

def ufsStartLBA : ℕ := ((espEndLBA fat + 1) + alignSectors - 1) / alignSectors * alignSectors

def ufsEndLBA (ufs : Bytes) : ℕ := ufsStartLBA fat + ufs.length / sector - 1

def dataEndLBA : ℕ :=
  match ufs with
  | some u => ufsEndLBA fat u
  | none => espEndLBA fat

def totalLBAs : ℕ := dataEndLBA fat ufs + 1 + gptPartArraySector + 1
def lastLBA : ℕ := totalLBAs fat ufs - 1
def lastUsableLBA : ℕ := lastLBA fat ufs - 1 - gptPartArraySector
def backupPartArrayLBA : ℕ := lastLBA fat ufs - gptPartArraySector

end

/-! ## The image -/

inductive BuildErr
  | fatNotAligned
  | fatEmpty
  /-- The image cannot be allocated. -/
  | tooLarge

section
variable (hash : Hashes) (fat : Bytes) (ufs : Option Bytes)

def espEntry : Bytes :=
  gptEntry efiSystemPartitionGUID (uuidV4FromBytes ((hash.sha256 fat).drop 16)) dataStartLBA (espEndLBA fat)
    (str "EFI System")

def ufsPartEntry (u : Bytes) : Bytes :=
  gptEntry freebsdUFSTypeGUID (uuidV4FromBytes ((hash.sha256 u).take 16)) (ufsStartLBA fat) (ufsEndLBA fat u)
    (str "FreeBSD-UFS")

def partArray : Bytes :=
  writeAll (List.replicate gptPartArrayBytes 0)
    ((0, espEntry hash fat) :: (ufs.toList.map fun u => (gptPartEntrySize, ufsPartEntry hash fat u)))

def headerArgs (myLBA alternateLBA partitionEntryLBA : ℕ) : GptHeaderArgs where
  myLBA := myLBA
  alternateLBA := alternateLBA
  firstUsableLBA := firstUsableLBA
  lastUsableLBA := lastUsableLBA fat ufs
  diskGUID := uuidV4FromBytes ((hash.sha256 fat).take 16)
  partitionEntryLBA := partitionEntryLBA
  partitionEntryCRC := hash.crc32 (partArray hash fat ufs)

def primaryHeader : Bytes :=
  writeGPTHeader hash (headerArgs hash fat ufs 1 (lastLBA fat ufs) 2)

def backupHeader : Bytes :=
  writeGPTHeader hash (headerArgs hash fat ufs (lastLBA fat ufs) 1 (backupPartArrayLBA fat ufs))

/-- The writes of `main`, in their order. -/
def image : Bytes :=
  let img := List.replicate (totalLBAs fat ufs * sector) 0
  let img := writeAt img 0 (protectiveMBR (totalLBAs fat ufs))
  let img := writeAt img (2 * sector) (partArray hash fat ufs)
  let img := writeAt img sector (primaryHeader hash fat ufs)
  let img := writeAt img (dataStartLBA * sector) fat
  let img :=
    match ufs with
    | some u => writeAt img (ufsStartLBA fat * sector) u
    | none => img
  -- the backup is copied from the table in the image
  let img := writeAt img (backupPartArrayLBA fat ufs * sector) (readAt img (2 * sector) gptPartArrayBytes)
  writeAt img (lastLBA fat ufs * sector) (backupHeader hash fat ufs)

def buildespimg : Except BuildErr Bytes :=
  if fat.length % sector ≠ 0 then .error .fatNotAligned
  else if fat.length / sector = 0 then .error .fatEmpty
  else if maxAlloc < totalLBAs fat ufs * sector then .error .tooLarge
  else .ok (image hash fat ufs)

end

/-! ## What is in the tables -/

theorem length_uuidV4FromBytes (b : Bytes) : (uuidV4FromBytes b).length = 16 := by
  have hlen : 0 + (b.take 16).length ≤ (List.replicate 16 (0 : UInt8)).length := by
    rw [List.length_take, List.length_replicate]
    omega
  simp only [uuidV4FromBytes, List.length_set]
  rw [length_writeAt hlen, List.length_replicate]

section
variable (hash : Hashes) (fat : Bytes) (ufs : Option Bytes)

theorem length_espEntry : (espEntry hash fat).length = gptPartEntrySize :=
  length_gptEntry _ _ _ rfl (length_uuidV4FromBytes _)

theorem length_ufsPartEntry (u : Bytes) : (ufsPartEntry hash fat u).length = gptPartEntrySize :=
  length_gptEntry _ _ _ rfl (length_uuidV4FromBytes _)

/-- The entries in use. -/
def usedEntries : List Bytes := espEntry hash fat :: ufs.toList.map (ufsPartEntry hash fat)

theorem length_of_mem_usedEntries : ∀ e ∈ usedEntries hash fat ufs, e.length = gptPartEntrySize := by
  intro e he
  rcases List.mem_cons.mp he with rfl | he
  · exact length_espEntry hash fat
  · obtain ⟨u, -, rfl⟩ := List.mem_map.mp he
    exact length_ufsPartEntry hash fat u

theorem length_usedEntries : (usedEntries hash fat ufs).length ≤ gptPartEntryCount := by
  cases ufs with
  | none => exact (by decide : 1 ≤ gptPartEntryCount)
  | some u => exact (by decide : 2 ≤ gptPartEntryCount)

theorem partArray_eq : partArray hash fat ufs = tableOf (usedEntries hash fat ufs) := by
  have hesp : writeAt (List.replicate gptPartArrayBytes 0) 0 (espEntry hash fat) = tableOf [espEntry hash fat] := by
    rw [← tableOf_nil]
    exact writeAt_tableOf [] nofun (by decide) (length_espEntry hash fat)
  rw [partArray, writeAll_cons, hesp]
  cases ufs with
  | none => rfl
  | some u =>
    exact writeAt_tableOf [espEntry hash fat] (length_of_mem_usedEntries hash fat none)
      (by decide : 1 < gptPartEntryCount) (length_ufsPartEntry hash fat u)

theorem length_partArray : (partArray hash fat ufs).length = gptPartArrayBytes := by
  rw [partArray_eq]
  exact length_tableOf (length_of_mem_usedEntries hash fat ufs) (length_usedEntries hash fat ufs)

end

/-! ## Layout -/

/-- The lengths of the inputs: whole sectors, and not none. -/
structure Sectors (fat : Bytes) (ufs : Option Bytes) : Prop where
  fat_mod : fat.length % sector = 0
  fat_pos : 0 < fat.length
  ufs_mod : ∀ u, ufs = some u → u.length % sector = 0
  ufs_pos : ∀ u, ufs = some u → 0 < u.length

/-- Where things are. -/
structure Layout (fat : Bytes) (ufs : Option Bytes) : Prop where
  total : totalLBAs fat ufs = dataEndLBA fat ufs + 34
  last : lastLBA fat ufs = dataEndLBA fat ufs + 33
  lastUsable : lastUsableLBA fat ufs = dataEndLBA fat ufs
  backup : backupPartArrayLBA fat ufs = dataEndLBA fat ufs + 1
  esp_bytes : (espEndLBA fat + 1) * sector = dataStartLBA * sector + fat.length
  esp_le : espEndLBA fat ≤ dataEndLBA fat ufs
  esp_ge : dataStartLBA ≤ espEndLBA fat
  ufs_bytes : ∀ u, ufs = some u → (ufsEndLBA fat u + 1) * sector = ufsStartLBA fat * sector + u.length
  ufs_ge : ∀ u, ufs = some u → espEndLBA fat < ufsStartLBA fat
  ufs_le : ∀ u, ufs = some u → ufsStartLBA fat ≤ ufsEndLBA fat u
  ufs_end : ∀ u, ufs = some u → dataEndLBA fat ufs = ufsEndLBA fat u

theorem layout {fat : Bytes} {ufs : Option Bytes} (h : Sectors fat ufs) : Layout fat ufs := by
  obtain ⟨hmod, hpos, humod, hupos⟩ := h
  have harray : gptPartArraySector = 32 := rfl
  simp only [sector] at hmod humod
  have hufs : ∀ u, ufs = some u → espEndLBA fat < ufsStartLBA fat ∧ ufsStartLBA fat ≤ ufsEndLBA fat u ∧
      (ufsEndLBA fat u + 1) * 512 = ufsStartLBA fat * 512 + u.length := by
    intro u hu
    have h₁ := humod u hu
    have h₂ := hupos u hu
    simp only [ufsEndLBA, ufsStartLBA, espEndLBA, dataStartLBA, alignSectors, sector]
    omega
  constructor
  · simp only [totalLBAs, harray]
  · simp only [lastLBA, totalLBAs, harray]
    omega
  · simp only [lastUsableLBA, lastLBA, totalLBAs, harray]
    omega
  · simp only [backupPartArrayLBA, lastLBA, totalLBAs, harray]
    omega
  · simp only [espEndLBA, dataStartLBA, sector]
    omega
  · cases ufs with
    | none => exact Nat.le_refl _
    | some u =>
      obtain ⟨h₁, h₂, -⟩ := hufs u rfl
      simp only [dataEndLBA]
      omega
  · simp only [espEndLBA, dataStartLBA, sector]
    omega
  · exact fun u hu => (hufs u hu).2.2
  · exact fun u hu => (hufs u hu).1
  · exact fun u hu => (hufs u hu).2.1
  · rintro u rfl
    rfl

/-! ## The image as writes -/

section
variable (hash : Hashes) (fat : Bytes) (ufs : Option Bytes)

theorem length_primaryHeader : (primaryHeader hash fat ufs).length = sector :=
  length_writeGPTHeader (length_uuidV4FromBytes _)

theorem length_backupHeader : (backupHeader hash fat ufs).length = sector :=
  length_writeGPTHeader (length_uuidV4FromBytes _)

/-- The writes up to the payloads. -/
def frontWrites : List (ℕ × Bytes) :=
  [(0, protectiveMBR (totalLBAs fat ufs)), (2 * sector, partArray hash fat ufs),
    (sector, primaryHeader hash fat ufs), (dataStartLBA * sector, fat)] ++
    ufs.toList.map fun u => (ufsStartLBA fat * sector, u)

def backWrites : List (ℕ × Bytes) :=
  [(backupPartArrayLBA fat ufs * sector, partArray hash fat ufs),
    (lastLBA fat ufs * sector, backupHeader hash fat ufs)]

variable {fat ufs}

theorem writes_placed (h : Sectors fat ufs) :
    Placed (List.replicate (totalLBAs fat ufs * sector) (0 : UInt8)).length
      ((frontWrites hash fat ufs ++ backWrites hash fat ufs).map extent) := by
  have l := layout h
  have hesp := l.esp_bytes
  have hesp_le := l.esp_le
  have hbytes : gptPartArrayBytes = 16384 := rfl
  have hfront : Between 0 ((espEndLBA fat + 1) * sector)
      ([(0, protectiveMBR (totalLBAs fat ufs)), (2 * sector, partArray hash fat ufs),
        (sector, primaryHeader hash fat ufs), (dataStartLBA * sector, fat)].map extent) := by
    simp only [List.map_cons, List.map_nil, extent, length_protectiveMBR, length_partArray, length_primaryHeader,
      hbytes, Between, Apart, List.forall_mem_cons, List.not_mem_nil, List.pairwise_cons, false_implies,
      implies_true, List.Pairwise.nil, and_true]
    simp only [dataStartLBA, sector] at *
    omega
  have hufs : Between ((espEndLBA fat + 1) * sector) ((dataEndLBA fat ufs + 1) * sector)
      ((ufs.toList.map fun u => (ufsStartLBA fat * sector, u)).map extent) := by
    refine .option fun u hu => ?_
    rw [← l.ufs_bytes u hu, l.ufs_end u hu]
    exact ⟨Nat.mul_le_mul_right _ (l.ufs_ge u hu), Nat.le_refl _⟩
  have hback : Between ((dataEndLBA fat ufs + 1) * sector) (totalLBAs fat ufs * sector)
      ((backWrites hash fat ufs).map extent) := by
    simp only [backWrites, l.backup, l.last, l.total, List.map_cons, List.map_nil, extent, length_partArray,
      length_backupHeader, hbytes, Between, Apart, List.forall_mem_cons, List.not_mem_nil, List.pairwise_cons,
      false_implies, implies_true, List.Pairwise.nil, and_true, sector]
    omega
  rw [List.length_replicate, frontWrites, List.map_append, List.map_append]
  refine ((hfront.append hufs (Nat.zero_le _) ?_).append hback (Nat.zero_le _) ?_).placed
  · exact Nat.mul_le_mul_right _ (Nat.succ_le_succ hesp_le)
  · rw [l.total]
    exact Nat.mul_le_mul_right _ (by omega)

theorem writeAll_frontWrites (b : Bytes) : writeAll b (frontWrites hash fat ufs) =
    writeAll (writeAt (writeAt (writeAt (writeAt b 0 (protectiveMBR (totalLBAs fat ufs))) (2 * sector)
      (partArray hash fat ufs)) sector (primaryHeader hash fat ufs)) (dataStartLBA * sector) fat)
      (ufs.toList.map fun u => (ufsStartLBA fat * sector, u)) := by
  rw [frontWrites, writeAll_append, writeAll_cons, writeAll_cons, writeAll_cons, writeAll_cons, writeAll_nil]

/-- The backup of the table is a copy out of the image. -/
theorem image_eq_writeAll :
    image hash fat ufs = writeAll
      (writeAll (List.replicate (totalLBAs fat ufs * sector) 0) (frontWrites hash fat ufs))
      [(backupPartArrayLBA fat ufs * sector,
          readAt (writeAll (List.replicate (totalLBAs fat ufs * sector) 0) (frontWrites hash fat ufs))
            (2 * sector) gptPartArrayBytes),
        (lastLBA fat ufs * sector, backupHeader hash fat ufs)] := by
  rw [writeAll_cons, writeAll_cons, writeAll_nil, writeAll_frontWrites]
  cases ufs with
  | none =>
    rw [Option.toList_none, List.map_nil, writeAll_nil]
    simp only [image]
  | some u =>
    rw [Option.toList_some, List.map_cons, List.map_nil, writeAll_cons, writeAll_nil]
    simp only [image]

section
variable (h : Sectors fat ufs)
include h

/-- **The image is its writes**, the copy of the table being the table. -/
theorem image_writes : image hash fat ufs =
    writeAll (List.replicate (totalLBAs fat ufs * sector) 0)
      (frontWrites hash fat ufs ++ backWrites hash fat ufs) := by
  have hplaced := writes_placed hash h
  rw [List.map_append] at hplaced
  have hcopy : readAt (writeAll (List.replicate (totalLBAs fat ufs * sector) 0) (frontWrites hash fat ufs))
      (2 * sector) gptPartArrayBytes = partArray hash fat ufs := by
    have hread := readAt_writeAll hplaced.left (w := (2 * sector, partArray hash fat ufs))
      (by simp [frontWrites])
    rwa [length_partArray] at hread
  rw [image_eq_writeAll, hcopy, writeAll_append, backWrites]

theorem length_image : (image hash fat ufs).length = totalLBAs fat ufs * sector := by
  rw [image_writes hash h, length_writeAll (writes_placed hash h).1, List.length_replicate]

theorem readAt_image {off n : ℕ} {v : Bytes}
    (hw : (off, v) ∈ frontWrites hash fat ufs ++ backWrites hash fat ufs) (hn : v.length = n) :
    readAt (image hash fat ufs) off n = v := by
  rw [image_writes hash h, ← hn]
  exact readAt_writeAll (writes_placed hash h) hw

theorem image_primary : sectorAt (image hash fat ufs) 1 = primaryHeader hash fat ufs :=
  readAt_image hash h (by simp [frontWrites]) (length_primaryHeader hash fat ufs)

theorem image_backup : sectorAt (image hash fat ufs) (lastLBA fat ufs) = backupHeader hash fat ufs :=
  readAt_image hash h (by simp [backWrites]) (length_backupHeader hash fat ufs)

theorem image_table : readAt (image hash fat ufs) (2 * sector) gptPartArrayBytes = partArray hash fat ufs :=
  readAt_image hash h (by simp [frontWrites]) (length_partArray hash fat ufs)

theorem image_fat : readAt (image hash fat ufs) (dataStartLBA * sector) fat.length = fat :=
  readAt_image hash h (by simp [frontWrites]) rfl

end

theorem image_ufs {u : Bytes} (h : Sectors fat (some u)) :
    readAt (image hash fat (some u)) (ufsStartLBA fat * sector) u.length = u :=
  readAt_image hash h (by simp [frontWrites]) rfl

/-- The table of the image: the entries in use, then zeros. -/
theorem image_entries (h : Sectors fat ufs) :
    entries (image hash fat ufs) (2 * sector) gptPartEntrySize gptPartEntryCount = usedEntries hash fat ufs ++
      List.replicate (gptPartEntryCount - (usedEntries hash fat ufs).length) zeroEntry :=
  entries_of_tableOf (length_of_mem_usedEntries hash fat ufs) (length_usedEntries hash fat ufs)
    ((image_table hash h).trans (partArray_eq hash fat ufs))

/-- An image that can be allocated. -/
def Fits (fat : Bytes) (ufs : Option Bytes) : Prop := totalLBAs fat ufs * sector ≤ maxAlloc

variable (h : Sectors fat ufs) (hfit : Fits fat ufs)
include h hfit

theorem dataEnd_lt : dataEndLBA fat ufs + 34 < 2 ^ 40 := by
  have htotal := (layout h).total
  simp only [Fits, htotal, sector, maxAlloc] at hfit
  omega

theorem image_written :
    GptWritten hash (image hash fat ufs) (partArray hash fat ufs) (uuidV4FromBytes ((hash.sha256 fat).take 16))
      (lastLBA fat ufs) where
  length_guid := length_uuidV4FromBytes _
  last_lt := by
    have hdata := dataEnd_lt h hfit
    have hlast := (layout h).last
    omega
  tables_le := by
    have hlast := (layout h).last
    have hesp := (layout h).esp_ge
    have hle := (layout h).esp_le
    have harray : gptPartArraySector = 32 := rfl
    simp only [dataStartLBA] at hesp
    omega
  length := by rw [length_image hash h, (layout h).total, (layout h).last]
  primary := image_primary hash h
  backup := image_backup hash h
  table := image_table hash h
  copy := readAt_image hash h (by simp [backWrites, backupPartArrayLBA]) (length_partArray hash fat ufs)

theorem read_espEntry :
    entryType (espEntry hash fat) = efiSystemPartitionGUID ∧ entryStart (espEntry hash fat) = dataStartLBA ∧
      entryEnd (espEntry hash fat) = espEndLBA fat := by
  have hdata := dataEnd_lt h hfit
  have hle := (layout h).esp_le
  exact entry_gptEntry rfl (length_uuidV4FromBytes _) (by decide) (by omega)

omit h hfit in
theorem read_ufsPartEntry {u : Bytes} (h : Sectors fat (some u)) (hfit : Fits fat (some u)) :
    entryType (ufsPartEntry hash fat u) = freebsdUFSTypeGUID ∧
      entryStart (ufsPartEntry hash fat u) = ufsStartLBA fat ∧
      entryEnd (ufsPartEntry hash fat u) = ufsEndLBA fat u := by
  have hdata := dataEnd_lt h hfit
  have hend := (layout h).ufs_end u rfl
  have hle := (layout h).ufs_le u rfl
  exact entry_gptEntry rfl (length_uuidV4FromBytes _) (by omega) (by omega)

theorem image_partitions : partitions (image hash fat ufs) = usedEntries hash fat ufs := by
  have hwritten := image_written hash h hfit
  rw [partArray_eq] at hwritten
  refine hwritten.partitions_eq (length_of_mem_usedEntries hash fat ufs) (length_usedEntries hash fat ufs) ?_
  intro e he
  rcases List.mem_cons.mp he with rfl | he
  · rw [(read_espEntry hash h hfit).1]
    decide
  · obtain ⟨u, hu, rfl⟩ := List.mem_map.mp he
    obtain rfl : ufs = some u := Option.mem_toList.mp hu
    rw [(read_ufsPartEntry hash h hfit).1]
    decide

theorem mem_partitions {e : Bytes} (he : e ∈ partitions (image hash fat ufs)) :
    dataStartLBA ≤ entryStart e ∧ entryStart e ≤ entryEnd e ∧ entryEnd e ≤ dataEndLBA fat ufs := by
  have l := layout h
  rw [image_partitions hash h hfit] at he
  rcases List.mem_cons.mp he with rfl | he
  · obtain ⟨-, hs, he⟩ := read_espEntry hash h hfit
    rw [hs, he]
    exact ⟨Nat.le_refl _, l.esp_ge, l.esp_le⟩
  · obtain ⟨u, hu, rfl⟩ := List.mem_map.mp he
    obtain rfl : ufs = some u := Option.mem_toList.mp hu
    obtain ⟨-, hs, he⟩ := read_ufsPartEntry hash h hfit
    have hge := l.ufs_ge u rfl
    have hesp := l.esp_ge
    rw [hs, he, l.ufs_end u rfl]
    exact ⟨by omega, l.ufs_le u rfl, Nat.le_refl _⟩

theorem image_gptDisk : GptDisk hash.crc32 (image hash fat ufs) := by
  refine (image_written hash h hfit).gptDisk ?_ ?_
  · intro e he
    obtain ⟨h₁, h₂, h₃⟩ := mem_partitions hash h hfit he
    refine ⟨(by decide : firstUsableLBA ≤ dataStartLBA).trans h₁, h₂, ?_⟩
    exact h₃.trans (layout h).lastUsable.ge
  · rw [image_partitions hash h hfit]
    cases ufs with
    | none => exact List.pairwise_singleton _ _
    | some u =>
      obtain ⟨-, -, hesp⟩ := read_espEntry hash h hfit
      obtain ⟨-, hufs, -⟩ := read_ufsPartEntry hash h hfit
      refine List.pairwise_pair.mpr (.inl ?_)
      rw [hesp, hufs]
      exact (layout h).ufs_ge u rfl

theorem image_payloads :
    (partitions (image hash fat ufs)).map (fun e => (entryType e, partitionData (image hash fat ufs) e)) =
      (efiSystemPartitionGUID, fat) :: ufs.toList.map fun u => (freebsdUFSTypeGUID, u) := by
  have l := layout h
  obtain ⟨htype, hs, he⟩ := read_espEntry hash h hfit
  have hlen : (espEndLBA fat + 1 - dataStartLBA) * sector = fat.length := by
    have := l.esp_bytes
    rw [Nat.sub_mul]
    omega
  rw [image_partitions hash h hfit, usedEntries, List.map_cons, htype, partitionData, hs, he, hlen, image_fat hash h]
  refine congrArg (List.cons _) ?_
  cases ufs with
  | none => rfl
  | some u =>
    obtain ⟨htype, hs, he⟩ := read_ufsPartEntry hash h hfit
    have hlen : (ufsEndLBA fat u + 1 - ufsStartLBA fat) * sector = u.length := by
      have := l.ufs_bytes u rfl
      rw [Nat.sub_mul]
      omega
    rw [Option.toList_some, List.map_singleton, List.map_singleton, List.map_singleton, htype, partitionData, hs,
      he, hlen, image_ufs hash h]

/-! ## The reader -/

theorem image_header : header (image hash fat ufs) = ⟨gptMagic, 2, gptPartEntryCount, gptPartEntrySize⟩ := by
  have hfields := (image_written hash h hfit).fields_primary
  have hmagic := congrArg GptFields.magic hfields
  have hlba := congrArg GptFields.entryLBA hfields
  have hcount := congrArg GptFields.entryCount hfields
  have hsize := congrArg GptFields.entrySize hfields
  simp only [fieldsAt, sectorAt, GptFields.read, Nat.one_mul] at hmagic hlba hcount hsize
  rw [header, GptHeader.read, hmagic, hlba, hcount, hsize]

theorem image_firstUFS :
    firstUFS (image hash fat ufs) (2 * sector) gptPartEntrySize gptPartEntryCount =
      ufs.map (ufsPartEntry hash fat) := by
  have hesp : entryType (espEntry hash fat) ≠ freebsdUFSTypeGUID := by
    rw [(read_espEntry hash h hfit).1]
    decide
  rw [firstUFS, image_entries hash h, usedEntries, List.cons_append,
    List.find?_cons_of_neg (by simpa using hesp)]
  cases ufs with
  | none =>
    refine List.find?_eq_none.mpr fun e he => ?_
    rw [Option.toList_none, List.map_nil, List.nil_append, List.mem_replicate] at he
    rw [he.2, zeroEntry, entryType_zero]
    decide
  | some u => exact List.find?_cons_of_pos (by simpa using (read_ufsPartEntry hash h hfit).1)

omit h hfit in
theorem accepted_ufs {u : Bytes} (h : Sectors fat (some u)) (hfit : Fits fat (some u)) :
    Accepted (image hash fat (some u)) (ufsPartEntry hash fat u) := by
  have l := layout h
  have hdata := dataEnd_lt h hfit
  have hend := l.ufs_end u rfl
  have hle := l.ufs_le u rfl
  obtain ⟨-, hs, he⟩ := read_ufsPartEntry hash h hfit
  have hs' : goInt (entryStart (ufsPartEntry hash fat u) * sector) = (ufsStartLBA fat * sector : ℕ) := by
    rw [hs, ← Nat.cast_mul, goInt_natCast (by simp only [sector]; omega)]
  have he' : goInt ((entryEnd (ufsPartEntry hash fat u) + 1 : ℕ) * sector) =
      ((ufsEndLBA fat u + 1) * sector : ℕ) := by
    rw [he, ← Nat.cast_mul, goInt_natCast (by simp only [sector]; omega)]
  refine ⟨by rw [hs, he]; exact hle, ?_, ?_⟩
  · rw [he', length_image hash h, l.total]
    exact_mod_cast Nat.mul_le_mul_right _ (by omega)
  · rw [hs', he']
    exact_mod_cast Nat.mul_le_mul_right _ (by omega)

/-- **The reader finds the UFS image.** -/
theorem find_image : findUFSPartitionBytes (image hash fat ufs) = ufs.elim (.err .noUFSPartition) .bytes := by
  have l := layout h
  have hlen := length_image hash h
  have hmax : (image hash fat ufs).length ≤ maxAlloc := by rw [hlen]; exact hfit
  have hhdr := image_header hash h hfit
  have htotal := l.total
  have hesp := l.esp_ge
  have hle := l.esp_le
  have hbase : tableBase (image hash fat ufs) = (2 * sector : ℕ) := by
    rw [tableBase_eq (by rw [hhdr]; decide), hhdr]
  have htable : tableLen (image hash fat ufs) = gptPartArrayBytes := by
    rw [tableLen, hhdr]
    rfl
  have hin : 2 * sector + gptPartArrayBytes ≤ (image hash fat ufs).length := by
    rw [hlen, htotal]
    simp only [sector, dataStartLBA, gptPartArrayBytes, gptPartEntrySize, gptPartEntryCount] at *
    omega
  have hheader : Plausible (image hash fat ufs) := by
    refine ⟨?_, by rw [hhdr], by rw [hhdr]; decide, by rw [hhdr]; decide, by rw [hhdr]; decide⟩
    exact (by decide : 1024 ≤ 2 * sector + gptPartArrayBytes).trans hin
  have hpast : ¬ ((image hash fat ufs).length : ℤ) < goInt ((2 * sector : ℕ) + (gptPartArrayBytes : ℕ)) := by
    rw [← Nat.cast_add, goInt_natCast (by decide)]
    exact_mod_cast Nat.not_lt.mpr hin
  have hin' : 2 * sector + gptPartEntryCount * gptPartEntrySize ≤ (image hash fat ufs).length := hin
  rw [find_eq hheader, hbase, htable, if_neg hpast, hhdr]
  simp only
  rw [scan_eq hmax hin', image_firstUFS hash h hfit]
  cases ufs with
  | none => rfl
  | some u =>
    have hdata := dataEnd_lt h hfit
    have hend := l.ufs_end u rfl
    obtain ⟨-, hs, he⟩ := read_ufsPartEntry hash h hfit
    have hsize : (ufsEndLBA fat u + 1 - ufsStartLBA fat) * sector = u.length := by
      have := l.ufs_bytes u rfl
      rw [Nat.sub_mul]
      omega
    obtain ⟨-, hbytes⟩ := partitionBytes_eq (accepted_ufs hash h hfit)
      (by rw [he]; simp only [sector]; omega)
    rw [hs, he, hsize, image_ufs hash h] at hbytes
    exact hbytes

end

/-- **The builder and the reader agree.**  The image of a FAT image of whole sectors, and of a UFS image
of whole MiB if there is one, is a GPT disk with the two images in its partitions, and the reader finds
the UFS image on it. -/
theorem buildespimg_correct (hash : Hashes) (fat : Bytes) (ufs : Option Bytes) (hne : fat ≠ [])
    (hfat : fat.length % sector = 0) (hufs : ∀ u, ufs = some u → u ≠ [] ∧ u.length % 2 ^ 20 = 0)
    (hfit : Fits fat ufs) :
    ∃ img, buildespimg hash fat ufs = .ok img ∧ GptDisk hash.crc32 img ∧
      (partitions img).map (fun e => (entryType e, partitionData img e)) =
        (efiSystemPartitionGUID, fat) :: (ufs.toList.map fun u => (freebsdUFSTypeGUID, u)) ∧
      findUFSPartitionBytes img = ufs.elim (.err .noUFSPartition) .bytes := by
  have hpos : 0 < fat.length := List.length_pos_iff.mpr hne
  have h : Sectors fat ufs := by
    refine ⟨hfat, hpos, fun u hu => ?_, fun u hu => List.length_pos_iff.mpr (hufs u hu).1⟩
    have := (hufs u hu).2
    simp only [sector]
    omega
  refine ⟨image hash fat ufs, ?_, image_gptDisk hash h hfit, image_payloads hash h hfit,
    find_image hash h hfit⟩
  have hnonzero : fat.length / sector ≠ 0 := by
    simp only [sector] at *
    omega
  rw [buildespimg, if_neg (not_not.mpr hfat), if_neg hnonzero, if_neg (Nat.not_lt.mpr hfit)]

theorem fits_of_length {fat u : Bytes} (hf : fat.length < 2 ^ 40) (hu : u.length < 2 ^ 40) :
    Fits fat (some u) := by
  have harray : gptPartArraySector = 32 := rfl
  simp only [Fits, totalLBAs, dataEndLBA, ufsEndLBA, ufsStartLBA, espEndLBA, harray, sector, dataStartLBA,
    alignSectors, maxAlloc]
  omega

/-- A sector. -/
def oneSector : Bytes := List.replicate 512 1

/-- A MiB. -/
def oneMiB : Bytes := List.replicate 1048576 2

theorem length_oneSector : oneSector.length = 512 := by
  rw [oneSector, List.length_replicate]

theorem length_oneMiB : oneMiB.length = 1048576 := by
  rw [oneMiB, List.length_replicate]

theorem buildespimg_small :
    ∃ img, buildespimg plainHashes oneSector (some oneMiB) = .ok img ∧ GptDisk plainHashes.crc32 img ∧
      (partitions img).map (fun e => (entryType e, partitionData img e)) =
        (efiSystemPartitionGUID, oneSector) :: ((some oneMiB).toList.map fun u => (freebsdUFSTypeGUID, u)) ∧
      findUFSPartitionBytes img = (some oneMiB).elim (.err .noUFSPartition) .bytes := by
  apply buildespimg_correct plainHashes oneSector (some oneMiB)
  · exact List.ne_nil_of_length_pos (by rw [length_oneSector]; decide)
  · rw [length_oneSector]
    decide
  · intro u hu
    rw [← Option.some.inj hu, length_oneMiB]
    exact ⟨List.ne_nil_of_length_pos (by rw [length_oneMiB]; decide), by decide⟩
  · exact fits_of_length (by rw [length_oneSector]; decide) (by rw [length_oneMiB]; decide)

end TamagoUefi.Disk
