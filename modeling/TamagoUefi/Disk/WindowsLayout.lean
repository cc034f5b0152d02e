import TamagoUefi.Disk.WindowsImage

/-!
# TamagoUefi.Disk.WindowsLayout — the flags of the Windows image builder

Which flags and files give a valid image, which are refused, and for which the tool writes an image
that is no GPT disk: a partition without a sector is listed with its end before its start, and a size
in MiB can be so large that the length of the image wraps.

* `Input.le_or_wrap`: an image that is written has its length, or one that has wrapped.
* `buildwindowsimg_iff`: `Degenerate` says which inputs give a bad image, and all of them do.
-/

namespace TamagoUefi.Disk.Windows

open Go Lib

/-- The sectors of a file. -/
def sectorsOf (b : Bytes) : ℕ := (b.length + 511) / 512

theorem length_padSector (b : Bytes) : (padSector b).length = sectorsOf b * sector := by
  unfold padSector sectorsOf
  simp only
  split_ifs with h
  · rw [List.length_append, List.length_replicate]
    simp only [sector] at *
    omega
  · simp only [sector] at *
    omega

/-- What an image is made of: the contents of the files, which could be read. -/
structure Input where
  espMiB : ℤ
  fat : Option Bytes
  ntfs : Option Bytes
  fat_le : ∀ b, fat = some b → b.length ≤ maxAlloc
  ntfs_le : ∀ b, ntfs = some b → b.length ≤ maxAlloc

open Input

variable {b img : Bytes}

namespace Input

variable {hash : Hashes} {rand : Random}

section
variable (i : Input)

/-- The sectors of the ESP: those of the file, or a number of MiB, of which the upper 20 bits are lost. -/
def esp : ℕ :=
  match i.fat with
  | some b => sectorsOf b
  | none => (i.espMiB % 2 ^ 44).toNat * 2048

/-- The sectors of the basic data partition. -/
def mbd : ℕ := i.ntfs.elim 0 sectorsOf

def total : ℕ := 32865 + i.esp + i.mbd

/-- The length that the image should have. -/
def size : ℕ := i.total * sector

def espPart : Partition := espPartition i.espMiB (i.fat.map padSector)

def mbdPart (b : Bytes) : Partition := mbdPartition i.espPart (padSector b)

def parts : List Partition := partitionsOf i.espMiB (i.fat.map padSector) (i.ntfs.map padSector)

/-! ## Addresses -/

theorem esp_lt : i.esp < 2 ^ 55 := by
  unfold esp
  split
  next b hb =>
    have hle := i.fat_le b hb
    simp only [sectorsOf, maxAlloc] at *
    omega
  next => omega

theorem mbd_le : i.mbd ≤ 2 ^ 39 := by
  unfold mbd
  cases hn : i.ntfs with
  | none => exact Nat.zero_le _
  | some b =>
    have hle := i.ntfs_le b hn
    simp only [Option.elim_some, sectorsOf, maxAlloc] at *
    omega

theorem espSectors_eq : espSectors i.espMiB (i.fat.map padSector) = i.esp := by
  unfold esp
  split
  next b hb =>
    rw [hb, Option.map_some, espSectors, length_padSector]
    exact Nat.mul_div_cancel _ (by decide)
  next hb =>
    simp only [hb, Option.map_none, espSectors, sector]
    omega

theorem esp_start : i.espPart.startLBA = 32832 := rfl

theorem esp_end : i.espPart.endLBA = 32831 + i.esp := by
  have hlt := i.esp_lt
  have hend : i.espPart.endLBA = (32831 + 1 + espSectors i.espMiB (i.fat.map padSector) - 1) % 2 ^ 64 := rfl
  rw [hend, espSectors_eq]
  omega

theorem mbd_start (b : Bytes) : (i.mbdPart b).startLBA = 32832 + i.esp := by
  have hlt := i.esp_lt
  have hstart : (i.mbdPart b).startLBA = (i.espPart.endLBA + 1) % 2 ^ 64 := rfl
  rw [hstart, esp_end]
  omega

theorem mbd_end (h : i.ntfs = some b) : (i.mbdPart b).endLBA = 32831 + i.esp + sectorsOf b := by
  have hlt := i.esp_lt
  have hle := i.mbd_le
  have hend : (i.mbdPart b).endLBA = (i.espPart.endLBA + 1 + (padSector b).length / sector - 1) % 2 ^ 64 := rfl
  rw [mbd, h, Option.elim_some] at hle
  rw [hend, esp_end, length_padSector, Nat.mul_div_cancel _ (by decide)]
  omega

theorem parts_eq : i.parts = msrPartition :: i.espPart :: i.ntfs.toList.map i.mbdPart := by
  cases hn : i.ntfs with
  | none =>
    rw [parts, hn]
    rfl
  | some b =>
    rw [parts, hn]
    rfl

theorem exists_last : ∃ last, i.parts.getLast? = some last ∧ (last.endLBA + 1 + 33) % 2 ^ 64 = i.total := by
  have hlt := i.esp_lt
  have hle := i.mbd_le
  rw [parts_eq, total, mbd] at *
  cases hn : i.ntfs with
  | none =>
    refine ⟨i.espPart, rfl, ?_⟩
    rw [esp_end, Option.elim_none]
    omega
  | some b =>
    refine ⟨i.mbdPart b, rfl, ?_⟩
    rw [hn, Option.elim_some] at hle
    rw [i.mbd_end hn, Option.elim_some]
    omega

theorem count : i.parts.length ≤ gptPartEntryCount := by
  rw [parts_eq]
  cases i.ntfs with
  | none => exact (by decide : 2 ≤ gptPartEntryCount)
  | some b => exact (by decide : 3 ≤ gptPartEntryCount)

theorem typed : ∀ p ∈ i.parts, p.typeGUID ≠ List.replicate 16 0 := by
  rw [parts_eq, List.forall_mem_cons, List.forall_mem_cons]
  refine ⟨(by decide : gptTypeMSR ≠ _), (by decide : gptTypeESP ≠ _), fun p hp => ?_⟩
  obtain ⟨b, -, rfl⟩ := List.mem_map.mp hp
  exact (by decide : gptTypeMBD ≠ List.replicate 16 0)

theorem payloadWrites_eq : payloadWrites i.parts =
    ((i.fat.map padSector).toList.map fun b => (byteAt 32832, b)) ++
      (i.ntfs.map padSector).toList.map fun b => (byteAt (32832 + i.esp), b) := by
  have hmbd : payloadWrites (i.ntfs.toList.map i.mbdPart) =
      (i.ntfs.map padSector).toList.map fun b => (byteAt (32832 + i.esp), b) := by
    cases i.ntfs with
    | none => rfl
    | some b =>
      rw [← i.mbd_start b]
      rfl
  have hesp : payloadWrites [i.espPart] = (i.fat.map padSector).toList.map fun b => (byteAt 32832, b) := by
    rw [payloadWrites, List.filterMap_cons]
    have hbytes : i.espPart.bytes = i.fat.map padSector := rfl
    rw [hbytes]
    cases i.fat with
    | none => rfl
    | some b => rfl
  rw [← hmbd, ← hesp, parts_eq, payloadWrites, payloadWrites, payloadWrites, ← List.filterMap_append]
  rfl

def job (hash : Hashes) (rand : Random) : Job := ⟨hash, rand, i.parts, i.total, i.count⟩

/-! ## Offsets -/

variable (hash rand)

/-- From the end of the ESP on all offsets have wrapped, or none, so that they are in order. -/
theorem laid (w : ℕ) (hbyte : ∀ lba, 32832 + i.esp ≤ lba → lba ≤ i.total → byteAt lba + w = lba * sector)
    (hfits : i.size ≤ w + maxAlloc) (hfront : w + 17408 ≤ (32832 + i.esp) * sector)
    (hfat : ∀ b, i.fat = some b → w = 0) : (i.job hash rand).Laid := by
  have htotal : i.total = 32865 + i.esp + i.mbd := rfl
  have hbytes : gptPartArrayBytes = 16384 := rfl
  have hstart : byteAt 32832 = 16809984 := rfl
  have h₁ := hbyte _ (Nat.le_refl _) (by omega)
  have h₂ := hbyte (i.total - 33) (by omega) (by omega)
  have h₃ := hbyte (i.total - 1) (by omega) (by omega)
  have h₄ := hbyte _ (by omega) (Nat.le_refl _)
  have hend := front_end
  simp only [size, sector] at h₁ h₂ h₃ h₄ hfits hfront
  refine ⟨by simp only [job]; omega, by simp only [job]; omega, ?_, ?_, ?_⟩
  · simp only [job]
    rw [payloadWrites_eq, List.map_append]
    refine Between.append (m := byteAt (32832 + i.esp)) (.option fun b hb => ?_) (.option fun b hb => ?_)
      (by omega) (by omega)
    · obtain ⟨a, ha, rfl⟩ := Option.map_eq_some_iff.mp hb
      have hzero := hfat a ha
      have hesp : i.esp = sectorsOf a := by rw [esp, ha]
      rw [length_padSector, sector]
      omega
    · obtain ⟨a, ha, rfl⟩ := Option.map_eq_some_iff.mp hb
      have hmbd : i.mbd = sectorsOf a := by rw [mbd, ha, Option.elim_some]
      rw [length_padSector, sector]
      omega
  · simp only [job, sector]
    omega
  · simp only [job, sector]
    omega

theorem laid_of_le (h : i.size ≤ maxAlloc) : (i.job hash rand).Laid := by
  refine i.laid hash rand 0 (fun lba _ hle => ?_) (by omega) (by simp only [sector]; omega) fun _ _ => rfl
  exact byteAt_of_lt ((Nat.mul_le_mul_right _ hle).trans_lt (h.trans_lt (by decide)))

/-- An ESP so large that the offsets behind it wrap. -/
theorem laid_of_wrap (hfat : i.fat = none)
    (h : 2 ^ 64 ≤ (32768 + i.esp) * sector) (hle : i.size ≤ 2 ^ 64 + maxAlloc) : (i.job hash rand).Laid := by
  refine i.laid hash rand (2 ^ 64) (fun lba hge hlba => ?_) hle ?_ fun b hb => ?_
  · rw [byteAt]
    simp only [size, sector, maxAlloc] at *
    omega
  · simp only [sector] at *
    omega
  · rw [hfat] at hb
    cases hb

theorem straight (h : i.size ≤ maxAlloc) : (i.job hash rand).Straight where
  toLaid := i.laid_of_le hash rand h
  tables_le := by
    have hsectors : gptPartArraySector = 32 := rfl
    simp only [job, total]
    omega
  lt := h.trans_lt (by decide)
  typed := i.typed

theorem inOrder (hesp : i.esp ≠ 0) (hmbd : i.ntfs ≠ some []) : (i.job hash rand).InOrder := by
  have hfirst : firstUsableLBA = 34 := rfl
  have hend := i.esp_end
  have hstart := i.esp_start
  have hmsr : msrPartition.endLBA = 32831 := rfl
  have hmsr' : msrPartition.startLBA = 64 := rfl
  have htotal : i.total = 32865 + i.esp + i.mbd := rfl
  have hpos : ∀ b, i.ntfs = some b → (i.mbdPart b).startLBA = 32832 + i.esp ∧
      (i.mbdPart b).endLBA = 32831 + i.esp + i.mbd ∧ 0 < i.mbd := by
    intro b hb
    have hsectors : i.mbd = sectorsOf b := by rw [mbd, hb, Option.elim_some]
    have hne : 0 < b.length := List.length_pos_iff.mpr fun hnil => hmbd (hnil ▸ hb)
    refine ⟨i.mbd_start b, hsectors ▸ i.mbd_end hb, ?_⟩
    rw [hsectors, sectorsOf]
    omega
  have hparts : (i.job hash rand).parts = msrPartition :: i.espPart :: i.ntfs.toList.map i.mbdPart := i.parts_eq
  have hjob : (i.job hash rand).total = i.total := rfl
  constructor
  · rw [hparts, List.forall_mem_cons, List.forall_mem_cons]
    refine ⟨by omega, by omega, fun p hp => ?_⟩
    obtain ⟨b, hb, rfl⟩ := List.mem_map.mp hp
    have hb := hpos b (Option.mem_toList.mp hb)
    omega
  · rw [hparts, List.pairwise_cons, List.pairwise_cons, List.forall_mem_cons]
    refine ⟨⟨by omega, fun p hp => ?_⟩, fun p hp => ?_, ?_⟩
    · obtain ⟨b, hb, rfl⟩ := List.mem_map.mp hp
      have hb := hpos b (Option.mem_toList.mp hb)
      omega
    · obtain ⟨b, hb, rfl⟩ := List.mem_map.mp hp
      have hb := hpos b (Option.mem_toList.mp hb)
      omega
    · cases i.ntfs with
      | none => exact .nil
      | some b => exact List.pairwise_singleton _ _

theorem exists_empty (h : i.esp = 0 ∨ i.ntfs = some []) : ∃ p ∈ i.parts, p.endLBA < p.startLBA := by
  rw [parts_eq]
  rcases h with hesp | hntfs
  · refine ⟨i.espPart, by simp, ?_⟩
    rw [esp_end, esp_start, hesp]
    decide
  · refine ⟨i.mbdPart [], by simp [hntfs], ?_⟩
    have hzero : sectorsOf [] = 0 := rfl
    rw [i.mbd_end hntfs, mbd_start, hzero]
    omega

/-! ## What is refused -/

variable {hash rand} in
theorem writeImage_ok (h : (i.job hash rand).Laid) :
    writeImage hash rand i.parts = .ok (i.job hash rand).image := by
  obtain ⟨last, hlast, htotal⟩ := i.exists_last
  exact Job.writeImage_ok (j := i.job hash rand) h hlast htotal

theorem writeImage_error (h : maxAlloc < byteAt i.total) :
    writeImage hash rand i.parts = .error .panicked := by
  obtain ⟨last, hlast, htotal⟩ := i.exists_last
  rw [writeImage, hlast]
  simp only
  rw [htotal, allocate_error h]
  rfl

end

variable {p : Partition}

theorem writePayloads_nonneg {ps : List Partition} {out : Bytes} (h : writePayloads ps img = .ok out)
    (hp : p ∈ ps) (hb : p.bytes = some b) : byteAt p.startLBA < 2 ^ 63 := by
  induction ps generalizing img with
  | nil => cases hp
  | cons q ps ih =>
    cases hq : q.bytes with
    | none =>
      rw [writePayloads, hq] at h
      rcases List.mem_cons.mp hp with rfl | hp
      · rw [hq] at hb
        cases hb
      · exact ih h hp
    | some c =>
      rw [writePayloads, hq] at h
      obtain ⟨img', hcopy, h⟩ := except_bind_eq_ok.mp h
      rcases List.mem_cons.mp hp with rfl | hp
      · by_contra hneg
        exact absurd (copyTo_eq_ok hcopy) (Int.not_le.mpr (goInt_byteAt_neg (Nat.not_lt.mp hneg)))
      · exact ih h hp

theorem writeImage_nonneg {parts : List Partition} (h : writeImage hash rand parts = .ok img)
    (hp : p ∈ parts) (hb : p.bytes = some b) : byteAt p.startLBA < 2 ^ 63 := by
  unfold writeImage at h
  split at h
  next => cases h
  next =>
    obtain ⟨_, -, h⟩ := except_bind_eq_ok.mp h
    obtain ⟨_, -, h⟩ := except_bind_eq_ok.mp h
    obtain ⟨_, hpayloads, -⟩ := except_bind_eq_ok.mp h
    exact writePayloads_nonneg hpayloads hp hb

/-- **An image that is written has the length it should have, or one that has wrapped.** -/
theorem le_or_wrap {i : Input} (h : writeImage hash rand i.parts = .ok img) :
    i.size ≤ maxAlloc ∨ i.fat = none ∧ 2 ^ 64 ≤ (32768 + i.esp) * sector ∧ i.size ≤ 2 ^ 64 + maxAlloc := by
  have hmax : maxAlloc = 2 ^ 48 := rfl
  have hle := i.mbd_le
  have htotal : i.size = (32865 + i.esp + i.mbd) * 512 := rfl
  have hfits : i.size % 2 ^ 64 ≤ maxAlloc := by
    by_contra hlt
    rw [i.writeImage_error hash rand (Nat.not_le.mp hlt)] at h
    cases h
  cases hf : i.fat with
  | some b =>
    have hesp : i.esp = sectorsOf b := by rw [esp, hf]
    have hlen := i.fat_le b hf
    rw [sectorsOf] at hesp
    exact .inl (by omega)
  | none =>
    have hesp : i.esp = (i.espMiB % 2 ^ 44).toNat * 2048 := by rw [esp, hf]
    refine Or.imp_right (fun hwrap => ⟨rfl, hwrap⟩) ?_
    by_cases hge : 2 ^ 64 ≤ (32768 + i.esp) * sector
    · exact (Nat.lt_or_ge i.size (2 ^ 64)).imp (by omega) fun _ => ⟨hge, by omega⟩
    · -- the NTFS image would start at a negative offset
      rw [sector] at hge
      refine .inl ?_
      by_contra hbig
      cases hn : i.ntfs with
      | none =>
        have hmbd : i.mbd = 0 := by rw [mbd, hn, Option.elim_none]
        omega
      | some b =>
        have hneg := writeImage_nonneg h (p := i.mbdPart b) (by simp [parts_eq, hn]) rfl
        rw [mbd_start, byteAt, sector] at hneg
        omega

end Input

/-! ## The tool -/

/-- What has to hold for anything to be written. -/
structure Input.Given (i : Input) (flags : Flags) : Prop where
  out : flags.out ≠ []
  writable : flags.writable = true
  fat_eq : flags.fat32 = i.fat.map .content
  ntfs_eq : flags.ntfs = i.ntfs.map .content
  esp_eq : flags.espMiB = i.espMiB

variable {file : Option File}

theorem readFile_eq_ok {err : Failure} {r : Option Bytes} :
    readFile err file = .ok r ↔
      ∃ c : Option Bytes, file = c.map .content ∧ (∀ b, c = some b → b.length ≤ maxAlloc) ∧ c.map padSector = r := by
  constructor
  · intro h
    match file with
    | none =>
      cases h
      exact ⟨none, rfl, nofun, rfl⟩
    | some (.content b) =>
      rw [readFile] at h
      split at h
      next => cases h
      next hle =>
        cases h
        refine ⟨some b, rfl, ?_, rfl⟩
        intro c hc
        rw [← Option.some.inj hc]
        exact Nat.not_lt.mp hle
  · rintro ⟨c, rfl, hle, rfl⟩
    cases c with
    | none => rfl
    | some b => exact if_neg (Nat.not_lt.mpr (hle b rfl))

/-- A GPT disk with its partitions in order and the files in them. -/
structure WindowsDisk (crc32 : Bytes → UInt32) (flags : Flags) (img : Bytes) : Prop where
  disk : GptDisk crc32 img
  ordered : (partitions img).Pairwise fun e e' => entryEnd e < entryStart e'
  fat32 : ∀ b, flags.fat32 = some (.content b) →
    ∃ e ∈ partitions img, entryType e = gptTypeESP ∧ partitionData img e = padSector b
  ntfs : ∀ b, flags.ntfs = some (.content b) →
    ∃ e ∈ partitions img, entryType e = gptTypeMBD ∧ partitionData img e = padSector b

/-- Inputs that should be refused: a partition without a sector, or a size in MiB so large that the
length of the image wraps. -/
def Degenerate (flags : Flags) : Prop :=
  ∃ i : Input, i.Given flags ∧ (i.size ≤ maxAlloc ∧ (i.esp = 0 ∨ i.ntfs = some []) ∨
    i.fat = none ∧ 2 ^ 44 - 16 ≤ i.espMiB % 2 ^ 44 ∧ i.size ≤ 2 ^ 64 + maxAlloc)

section
variable {hash : Hashes} {rand : Random} {flags : Flags} {i : Input}

theorem buildwindowsimg_eq_ok : buildwindowsimg hash rand flags = .ok img ↔
    ∃ i : Input, i.Given flags ∧ writeImage hash rand i.parts = .ok img := by
  unfold buildwindowsimg
  constructor
  · intro h
    split at h
    next => cases h
    next hout =>
      obtain ⟨fat, hfat, h⟩ := except_bind_eq_ok.mp h
      obtain ⟨ntfs, hntfs, h⟩ := except_bind_eq_ok.mp h
      obtain ⟨img', himg, hsave⟩ := except_bind_eq_ok.mp h
      obtain ⟨a, ha, hale, rfl⟩ := readFile_eq_ok.mp hfat
      obtain ⟨c, hc, hcle, rfl⟩ := readFile_eq_ok.mp hntfs
      split at hsave
      next hw =>
        obtain rfl : img' = img := Except.ok.inj hsave
        exact ⟨⟨flags.espMiB, a, c, hale, hcle⟩, ⟨hout, hw, ha, hc, rfl⟩, himg⟩
      next => cases hsave
  · rintro ⟨i, h, himg⟩
    rw [if_neg h.out, readFile_eq_ok.mpr ⟨i.fat, h.fat_eq, i.fat_le, rfl⟩, except_ok_bind,
      readFile_eq_ok.mpr ⟨i.ntfs, h.ntfs_eq, i.ntfs_le, rfl⟩, except_ok_bind, h.esp_eq, ← parts, himg,
      except_ok_bind, if_pos h.writable]
    rfl

/-- **A partition without a sector** gives a bad image. -/
theorem bad_of_empty (hash : Hashes) (rand : Random) (h : i.Given flags) (hle : i.size ≤ maxAlloc)
    (hempty : i.esp = 0 ∨ i.ntfs = some []) :
    ∃ img, buildwindowsimg hash rand flags = .ok img ∧ ¬ GptDisk hash.crc32 img := by
  obtain ⟨p, hp, hlt⟩ := i.exists_empty hempty
  exact ⟨_, buildwindowsimg_eq_ok.mpr ⟨i, h, i.writeImage_ok (i.laid_of_le hash rand hle)⟩,
    (i.straight hash rand hle).not_gptDisk hp hlt⟩

/-- **A length that wraps** gives a bad image. -/
theorem bad_of_wrap (hash : Hashes) (rand : Random) (h : i.Given flags) (hfat : i.fat = none)
    (hesp : 2 ^ 44 - 16 ≤ i.espMiB % 2 ^ 44) (hle : i.size ≤ 2 ^ 64 + maxAlloc) :
    ∃ img, buildwindowsimg hash rand flags = .ok img ∧ ¬ GptDisk hash.crc32 img := by
  have hsectors : i.esp = (i.espMiB % 2 ^ 44).toNat * 2048 := by rw [esp, hfat]
  have htotal : i.size = (32865 + i.esp + i.mbd) * 512 := rfl
  have hlaid := i.laid_of_wrap hash rand hfat (by simp only [sector]; omega) hle
  refine ⟨_, buildwindowsimg_eq_ok.mpr ⟨i, h, i.writeImage_ok hlaid⟩, Job.not_gptDisk_of_wrap hlaid ?_ ?_⟩
  · exact (by omega : 2 ^ 64 ≤ i.size)
  · have hlt := i.esp_lt
    have hmbd := i.mbd_le
    exact (by rw [total]; omega : i.total < 2 ^ 64)

theorem content_eq {c : Option Bytes} (h : file = c.map .content) (hb : file = some (.content b)) :
    c = some b := by
  rw [h] at hb
  obtain ⟨a, rfl, ha⟩ := Option.map_eq_some_iff.mp hb
  rw [File.content.inj ha]

theorem windowsDisk_of_le (hash : Hashes) (rand : Random) (h : i.Given flags) (hle : i.size ≤ maxAlloc)
    (hesp : i.esp ≠ 0) (hmbd : i.ntfs ≠ some []) : WindowsDisk hash.crc32 flags (i.job hash rand).image := by
  have hstraight := i.straight hash rand hle
  obtain ⟨hdisk, hordered⟩ := hstraight.gptDisk (i.inOrder hash rand hesp hmbd)
  have htotal : (i.job hash rand).total = 32865 + i.esp + i.mbd := rfl
  refine ⟨hdisk, hordered, fun b hb => ?_, fun b hb => ?_⟩
  · have hfat := content_eq h.fat_eq hb
    have hsectors : i.esp = sectorsOf b := by rw [esp, hfat]
    refine hstraight.payload (p := i.espPart) (by simp [job, parts_eq])
      (by simp [espPart, espPartition, hfat]) (by rw [i.esp_start]; omega) ?_
    have hlen : 32831 + i.esp + 1 - 32832 = i.esp := by omega
    rw [i.esp_end, i.esp_start, length_padSector, ← hsectors, hlen]
  · have hntfs := content_eq h.ntfs_eq hb
    refine hstraight.payload (p := i.mbdPart b) (by simp [job, parts_eq, hntfs]) rfl
      (by rw [i.mbd_start]; omega) ?_
    have hlen : 32831 + i.esp + sectorsOf b + 1 - (32832 + i.esp) = sectorsOf b := by omega
    rw [i.mbd_end hntfs, i.mbd_start, length_padSector, hlen]

end

/-- **When a valid image is written or none.**  For every flag and every content of the files the tool
refuses or writes a GPT disk with the files in their partitions, unless the input is degenerate. -/
theorem buildwindowsimg_iff (hash : Hashes) (rand : Random) (flags : Flags) :
    (∀ img, buildwindowsimg hash rand flags = .ok img → WindowsDisk hash.crc32 flags img) ↔ ¬ Degenerate flags := by
  constructor
  · rintro hvalid ⟨i, h, ⟨hle, hempty⟩ | ⟨hfat, hesp, hle⟩⟩
    · obtain ⟨img, himg, hbad⟩ := bad_of_empty hash rand h hle hempty
      exact hbad (hvalid img himg).disk
    · obtain ⟨img, himg, hbad⟩ := bad_of_wrap hash rand h hfat hesp hle
      exact hbad (hvalid img himg).disk
  · intro hgood img himg
    obtain ⟨i, h, hwrite⟩ := buildwindowsimg_eq_ok.mp himg
    rcases le_or_wrap hwrite with hle | ⟨hnone, hge, hle⟩
    · obtain rfl := Except.ok.inj (hwrite.symm.trans (i.writeImage_ok (i.laid_of_le hash rand hle)))
      refine windowsDisk_of_le hash rand h hle ?_ ?_
      · exact fun hesp => hgood ⟨i, h, .inl ⟨hle, .inl hesp⟩⟩
      · exact fun hmbd => hgood ⟨i, h, .inl ⟨hle, .inr hmbd⟩⟩
    · refine absurd ⟨i, h, .inr ⟨hnone, ?_, hle⟩⟩ hgood
      have hsectors : i.esp = (i.espMiB % 2 ^ 44).toNat * 2048 := by rw [esp, hnone]
      rw [sector] at hge
      omega

/-- `-esp-mib 0`. -/
def emptyEsp : Flags where
  fat32 := none
  ntfs := none
  out := str "disk.img"
  espMiB := 0
  writable := true

def plainRandom : Random where
  draw _ := List.replicate 16 0
  length_draw _ := List.length_replicate

/-- Without `-fat32` and with `-esp-mib 0` the image lists an ESP that ends before it starts. -/
theorem buildwindowsimg_emptyEsp :
    ∃ img, buildwindowsimg plainHashes plainRandom emptyEsp = .ok img ∧
      ¬ WindowsDisk plainHashes.crc32 emptyEsp img := by
  have hgiven : Input.Given ⟨0, none, none, nofun, nofun⟩ emptyEsp := ⟨by decide, rfl, rfl, rfl, rfl⟩
  obtain ⟨img, himg, hbad⟩ := bad_of_empty plainHashes plainRandom hgiven (by decide) (.inl (by decide))
  exact ⟨img, himg, fun hdisk => hbad hdisk.disk⟩

end TamagoUefi.Disk.Windows
