import Mathlib.Tactic.Push
import TamagoUefi.Go.Strings
import TamagoUefi.Lib.Buffer

/-!
# TamagoUefi.Disk.Gpt — the UFS partition of a disk image (`phase3_ufs_partition.go`)

`findUFSPartitionBytes` reads the position of the partition table, the number and size of its entries
and the ends of a partition out of an image that it does not trust.  It computes with Go's `int`, which
wraps, and slices the image with the results.

* `scan_eq`: a table that lies in the image is searched for its first UFS entry.
* `findUFSPartitionBytes_exact_iff`: the images on which the result is right, `Wild` being the others.
-/

namespace TamagoUefi.Disk

open Go Lib

/-! ## Integers and slices -/

/-- The value of a computation in `int`, or of a conversion to it. -/
def goInt (z : ℤ) : ℤ := Int.bmod z (2 ^ 64)

/-- A slice `b[lo:hi]` that is in range. -/
def slice (b : Bytes) (lo hi : ℤ) : Option Bytes :=
  if 0 ≤ lo ∧ lo ≤ hi ∧ hi ≤ b.length then some (readAt b lo.toNat (hi - lo).toNat) else none

/-- The largest object that is allocated on amd64. -/
def maxAlloc : ℕ := 2 ^ 48

theorem goInt_of_lt {z : ℤ} (h₁ : -2 ^ 63 ≤ z) (h₂ : z < 2 ^ 63) : goInt z = z :=
  Int.bmod_eq_of_le (by omega) (by omega)

theorem goInt_of_ge {z : ℤ} (h₁ : 2 ^ 63 ≤ z) (h₂ : z < 2 ^ 64) : goInt z = z - 2 ^ 64 := by
  have hsub : goInt (z - 2 ^ 64) = goInt z := Int.sub_bmod_right z (2 ^ 64)
  rw [← hsub]
  exact goInt_of_lt (by omega) (by omega)

theorem goInt_natCast {n : ℕ} (h : n < 2 ^ 63) : goInt n = n := goInt_of_lt (by omega) (by omega)

theorem goInt_lt (z : ℤ) : goInt z < 2 ^ 63 := by
  have := Int.bmod_lt (x := z) (m := 2 ^ 64) (by decide)
  unfold goInt
  omega

theorem le_goInt (z : ℤ) : -2 ^ 63 ≤ goInt z := by
  have := Int.le_bmod (x := z) (m := 2 ^ 64) (by decide)
  unfold goInt
  omega

theorem goInt_mul (z k : ℤ) : goInt (goInt z * k) = goInt (z * k) := Int.bmod_mul_bmod

/-! ## The reader -/

def sector : ℕ := 512

inductive GptErr
  | imageTooSmall
  | missingMagic
  | entrySizeOutOfRange
  | entryCountTooLarge
  | tablePastImage
  | endBeforeStart
  | partitionPastImage
  | noUFSPartition
  deriving DecidableEq

/-- What a search gives.  An index or a slice out of range is a panic. -/
inductive Found
  | bytes (b : Bytes)
  | err (e : GptErr)
  | outOfRange
  deriving DecidableEq

def gptMagic : Bytes := str "EFI PART"

def freebsdUFSTypeGUID : Bytes :=
  [0xB6, 0x7C, 0x6E, 0x51, 0xCF, 0x6E, 0xD6, 0x11, 0x8F, 0xF8, 0x00, 0x02, 0x2D, 0x09, 0x71, 0x2B]

/-- The fields of the header that are read. -/
structure GptHeader where
  magic : Bytes
  partEntryLBA : ℕ
  partEntryCount : ℕ
  partEntrySize : ℕ

def GptHeader.read (hdr : Bytes) : GptHeader where
  magic := readAt hdr 0 8
  partEntryLBA := leNat (readAt hdr 72 8)
  partEntryCount := leNat (readAt hdr 80 4)
  partEntrySize := leNat (readAt hdr 84 4)

def header (image : Bytes) : GptHeader := .read (readAt image sector sector)

def entryType (entry : Bytes) : Bytes := readAt entry 0 16
def entryStart (entry : Bytes) : ℕ := leNat (readAt entry 32 8)
def entryEnd (entry : Bytes) : ℕ := leNat (readAt entry 40 8)

def entryAt (image : Bytes) (partBase : ℤ) (size i : ℕ) : Option Bytes :=
  slice image (goInt (partBase + i * size)) (goInt (partBase + (i + 1) * size))

/-- The bytes of a partition.  The end is inclusive, and the sum with one is a `uint64`. -/
def partitionBytes (image entry : Bytes) : Found :=
  let start := entryStart entry
  let stop := entryEnd entry
  if stop < start then .err .endBeforeStart
  else
    let startB := goInt (goInt start * sector)
    let endB := goInt (goInt ((stop + 1) % 2 ^ 64 : ℕ) * sector)
    if image.length < endB ∨ endB < startB then .err .partitionPastImage
    else
      match slice image startB endB with
      | some b => .bytes b
      | none => .outOfRange

/-- The loop over the indices of the entries. -/
def scan (image : Bytes) (partBase : ℤ) (size : ℕ) : List ℕ → Found
  | [] => .err .noUFSPartition
  | i :: is =>
    match entryAt image partBase size i with
    | none => .outOfRange
    | some entry =>
      if entryType entry = List.replicate 16 0 then scan image partBase size is
      else if entryType entry ≠ freebsdUFSTypeGUID then scan image partBase size is
      else partitionBytes image entry

def findUFSPartitionBytes (image : Bytes) : Found :=
  if image.length < 1024 then .err .imageTooSmall
  else
    let hdr := header image
    if hdr.magic ≠ gptMagic then .err .missingMagic
    else if hdr.partEntrySize < 128 ∨ 4096 < hdr.partEntrySize then .err .entrySizeOutOfRange
    else if 128 < hdr.partEntryCount then .err .entryCountTooLarge
    else
      let partBase := goInt (goInt hdr.partEntryLBA * sector)
      if image.length < goInt (partBase + hdr.partEntryCount * hdr.partEntrySize) then .err .tablePastImage
      else scan image partBase hdr.partEntrySize (List.range hdr.partEntryCount)

/-! ## Tables in the image -/

/-- The entries of a table. -/
def entries (image : Bytes) (base size count : ℕ) : List Bytes :=
  (List.range count).map fun i => readAt image (base + i * size) size

/-- The first entry with the type of a UFS partition. -/
def firstUFS (image : Bytes) (base size count : ℕ) : Option Bytes :=
  (entries image base size count).find? fun e => entryType e = freebsdUFSTypeGUID

section
variable {image : Bytes} {base size count : ℕ}

theorem slice_eq {b : Bytes} {lo hi : ℕ} (h₁ : lo ≤ hi) (h₂ : hi ≤ b.length) :
    slice b lo hi = some (readAt b lo (hi - lo)) := by
  unfold slice
  rw [if_pos (by omega)]
  congr 2
  omega

theorem entryAt_eq (hlen : image.length ≤ maxAlloc) (htable : base + count * size ≤ image.length) {i : ℕ}
    (hi : i < count) : entryAt image base size i = some (readAt image (base + i * size) size) := by
  have hmax : maxAlloc = 2 ^ 48 := rfl
  have hnext : (i + 1) * size ≤ count * size := Nat.mul_le_mul_right _ hi
  have hstep : (i + 1) * size = i * size + size := Nat.succ_mul i size
  have hlo : (base : ℤ) + i * size = (base + i * size : ℕ) := by push_cast; rfl
  have hhi : (base : ℤ) + (i + 1) * size = (base + (i + 1) * size : ℕ) := by push_cast; rfl
  unfold entryAt
  rw [hlo, hhi, goInt_natCast (by omega), goInt_natCast (by omega), slice_eq (by omega) (by omega)]
  congr 2
  omega

/-- **A table in the image** is searched for its first UFS entry. -/
theorem scan_eq (hlen : image.length ≤ maxAlloc) (htable : base + count * size ≤ image.length) :
    scan image base size (List.range count) =
      match firstUFS image base size count with
      | none => .err .noUFSPartition
      | some e => partitionBytes image e := by
  have hscan : ∀ is : List ℕ, (∀ i ∈ is, i < count) → scan image base size is =
      match (is.map fun i => readAt image (base + i * size) size).find?
        fun e => entryType e = freebsdUFSTypeGUID with
      | none => .err .noUFSPartition
      | some e => partitionBytes image e := by
    intro is
    induction is with
    | nil => exact fun _ => rfl
    | cons i is ih =>
      intro his
      have htail := ih fun j hj => his j (List.mem_cons_of_mem i hj)
      rw [scan, entryAt_eq hlen htable (his i List.mem_cons_self), List.map_cons]
      simp only
      by_cases htype : entryType (readAt image (base + i * size) size) = freebsdUFSTypeGUID
      · rw [List.find?_cons_of_pos (by simpa using htype), if_neg, if_neg (not_not.mpr htype)]
        rw [htype]
        decide
      · rw [List.find?_cons_of_neg (by simpa using htype), if_pos htype, htail, ite_self]
  exact hscan _ fun i hi => List.mem_range.mp hi

end

/-! ## Partitions -/

/-- The ends of a partition, computed in `int`, pass the checks. -/
structure Accepted (image entry : Bytes) : Prop where
  order : entryStart entry ≤ entryEnd entry
  stop_le : goInt ((entryEnd entry + 1 : ℕ) * sector) ≤ image.length
  start_le : goInt (entryStart entry * sector) ≤ goInt ((entryEnd entry + 1 : ℕ) * sector)

section
variable {image entry : Bytes}

theorem goInt_end (n : ℕ) : goInt (goInt (n % 2 ^ 64 : ℕ) * sector) = goInt (n * sector) := by
  have hmod : goInt (n % 2 ^ 64 : ℕ) = goInt n := by
    unfold goInt
    rw [Int.natCast_mod]
    exact Int.emod_bmod _ _
  rw [hmod, goInt_mul]

theorem partitionBytes_of_not (h : ¬ Accepted image entry) : ∃ e, partitionBytes image entry = .err e := by
  unfold partitionBytes
  simp only
  rw [goInt_end, goInt_mul]
  split_ifs with h₁ h₂
  · exact ⟨_, rfl⟩
  · exact ⟨_, rfl⟩
  · push Not at h₁ h₂
    exact absurd ⟨h₁, h₂.1, h₂.2⟩ h

theorem partitionBytes_of_accepted (h : Accepted image entry) : partitionBytes image entry =
    match slice image (goInt (entryStart entry * sector)) (goInt ((entryEnd entry + 1 : ℕ) * sector)) with
    | some b => .bytes b
    | none => .outOfRange := by
  unfold partitionBytes
  simp only
  rw [goInt_end, goInt_mul, if_neg (Nat.not_lt.mpr h.order), if_neg]
  rw [not_or]
  exact ⟨Int.not_lt.mpr h.stop_le, Int.not_lt.mpr h.start_le⟩

theorem partitionBytes_eq (h : Accepted image entry) (hend : (entryEnd entry + 1) * sector < 2 ^ 63) :
    (entryEnd entry + 1) * sector ≤ image.length ∧ partitionBytes image entry =
      .bytes (readAt image (entryStart entry * sector) ((entryEnd entry + 1 - entryStart entry) * sector)) := by
  have hstart : entryStart entry * sector ≤ (entryEnd entry + 1) * sector :=
    Nat.mul_le_mul_right _ (h.order.trans (Nat.le_succ _))
  have hs : goInt (entryStart entry * sector) = (entryStart entry * sector : ℕ) := by
    rw [← Nat.cast_mul]
    exact goInt_natCast (by omega)
  have he : goInt ((entryEnd entry + 1 : ℕ) * sector) = ((entryEnd entry + 1) * sector : ℕ) := by
    rw [← Nat.cast_mul]
    exact goInt_natCast hend
  have hle : (entryEnd entry + 1) * sector ≤ image.length := by
    have := h.stop_le
    rw [he] at this
    exact_mod_cast this
  refine ⟨hle, ?_⟩
  rw [partitionBytes_of_accepted h, hs, he, slice_eq hstart hle, Nat.sub_mul]

end

/-! ## The reader is right -/

/-- The table begins here, computed in `int`. -/
def tableBase (image : Bytes) : ℤ := goInt ((header image).partEntryLBA * sector)

def tableLen (image : Bytes) : ℕ := (header image).partEntryCount * (header image).partEntrySize

/-- The header passes the checks. -/
structure Plausible (image : Bytes) : Prop where
  length : 1024 ≤ image.length
  magic : (header image).magic = gptMagic
  size_ge : 128 ≤ (header image).partEntrySize
  size_le : (header image).partEntrySize ≤ 4096
  count_le : (header image).partEntryCount ≤ 128

/-- A result that is right: the bytes of the first UFS partition, all computed without overflow, or an
error. -/
def Exact (image : Bytes) : Found → Prop
  | .outOfRange => False
  | .err _ => True
  | .bytes b =>
    (header image).partEntryLBA * sector + tableLen image ≤ image.length ∧
    ∃ e, firstUFS image ((header image).partEntryLBA * sector) (header image).partEntrySize
        (header image).partEntryCount = some e ∧
      entryStart e ≤ entryEnd e ∧ (entryEnd e + 1) * sector ≤ image.length ∧
      b = readAt image (entryStart e * sector) ((entryEnd e + 1 - entryStart e) * sector)

/-- Numbers that wrap and still pass the checks: the table begins before the image, its end wraps, or it
is in the image with a UFS partition that is accepted, and the one or the other is not where it says. -/
structure Wild (image : Bytes) : Prop where
  headerOk : Plausible image
  nonempty : 0 < (header image).partEntryCount
  wraps : tableBase image < 0 ∧ tableBase image + tableLen image ≤ image.length ∨
    2 ^ 63 ≤ tableBase image + tableLen image ∨
    0 ≤ tableBase image ∧ tableBase image + tableLen image ≤ image.length ∧
      ∃ e, firstUFS image (tableBase image).toNat (header image).partEntrySize
          (header image).partEntryCount = some e ∧ Accepted image e ∧
        (2 ^ 63 ≤ (header image).partEntryLBA * sector ∨ 2 ^ 63 ≤ (entryEnd e + 1) * sector)

section
variable {image : Bytes}

theorem find_of_badHeader (h : ¬ Plausible image) : ∃ e, findUFSPartitionBytes image = .err e := by
  unfold findUFSPartitionBytes
  simp only
  split_ifs with h₁ h₂ h₃ h₄ h₅
  · exact ⟨_, rfl⟩
  · exact ⟨_, rfl⟩
  · exact ⟨_, rfl⟩
  · exact ⟨_, rfl⟩
  · exact ⟨_, rfl⟩
  · push Not at h₁ h₂ h₃ h₄
    exact absurd ⟨h₁, h₂, h₃.1, h₃.2, h₄⟩ h

theorem find_eq (h : Plausible image) : findUFSPartitionBytes image =
    if image.length < goInt (tableBase image + tableLen image) then .err .tablePastImage
    else scan image (tableBase image) (header image).partEntrySize
      (List.range (header image).partEntryCount) := by
  unfold findUFSPartitionBytes
  simp only
  rw [if_neg (Nat.not_lt.mpr h.length), if_neg (not_not.mpr h.magic),
    if_neg (not_or.mpr ⟨Nat.not_lt.mpr h.size_ge, Nat.not_lt.mpr h.size_le⟩),
    if_neg (Nat.not_lt.mpr h.count_le), goInt_mul, tableBase, tableLen, Nat.cast_mul]

theorem find_of_empty (h : Plausible image) (hzero : (header image).partEntryCount = 0) :
    ∃ e, findUFSPartitionBytes image = .err e := by
  rw [find_eq h, hzero]
  split_ifs
  · exact ⟨_, rfl⟩
  · exact ⟨_, rfl⟩

theorem scan_outOfRange {base : ℤ} {size count : ℕ} (hcount : 0 < count) (hbase : base < 2 ^ 63)
    (hbase' : -2 ^ 63 ≤ base) (h : base < 0 ∨ image.length < base) :
    scan image base size (List.range count) = .outOfRange := by
  obtain ⟨n, rfl⟩ := Nat.exists_eq_succ_of_ne_zero hcount.ne'
  have hfirst : entryAt image base size 0 = none := by
    unfold entryAt slice
    rw [Nat.cast_zero, zero_mul, add_zero, goInt_of_lt hbase' hbase, if_neg]
    omega
  rw [List.range_succ_eq_map, scan, hfirst]

theorem tableBase_eq (h : (header image).partEntryLBA * sector < 2 ^ 63) :
    tableBase image = ((header image).partEntryLBA * sector : ℕ) := by
  rw [tableBase, ← Nat.cast_mul]
  exact goInt_natCast h

/-- The first UFS entry of a table in the image: its bytes are right, unless they are accepted from a
place that wraps. -/
theorem exact_partitionBytes_iff {e : Bytes} {base : ℕ} (hbase : tableBase image = base)
    (hin : base + tableLen image ≤ image.length) (hlen : image.length ≤ maxAlloc)
    (hfirst : firstUFS image base (header image).partEntrySize (header image).partEntryCount = some e) :
    Exact image (partitionBytes image e) ↔ ¬ (Accepted image e ∧
      (2 ^ 63 ≤ (header image).partEntryLBA * sector ∨ 2 ^ 63 ≤ (entryEnd e + 1) * sector)) := by
  have hmax : maxAlloc = 2 ^ 48 := rfl
  have hexact : (header image).partEntryLBA * sector < 2 ^ 63 →
      base = (header image).partEntryLBA * sector := by
    intro hlba
    have := tableBase_eq hlba
    omega
  by_cases hacc : Accepted image e
  swap
  · obtain ⟨err, herr⟩ := partitionBytes_of_not hacc
    rw [herr]
    exact iff_of_true trivial fun h => hacc h.1
  by_cases hbig : 2 ^ 63 ≤ (header image).partEntryLBA * sector ∨ 2 ^ 63 ≤ (entryEnd e + 1) * sector
  · -- what is returned is not where the image says
    refine iff_of_false ?_ (not_not.mpr ⟨hacc, hbig⟩)
    rw [partitionBytes_of_accepted hacc]
    cases slice image (goInt (entryStart e * sector)) (goInt ((entryEnd e + 1 : ℕ) * sector)) with
    | none => exact id
    | some b =>
      rintro ⟨hwhole, e', he', -, hle, -⟩
      rw [← hexact (by omega), hfirst] at he'
      cases he'
      omega
  · push Not at hbig
    obtain ⟨hle, hbytes⟩ := partitionBytes_eq hacc hbig.2
    have heq := hexact hbig.1
    rw [hbytes]
    refine iff_of_true ⟨by omega, e, by rw [← heq, hfirst], hacc.order, hle, rfl⟩ ?_
    rintro ⟨-, h | h⟩
    · omega
    · omega

/-- In a table that lies in the image the first UFS entry is what can be wild. -/
theorem wild_iff_of_table (hp : Plausible image) (hpos : 0 < (header image).partEntryCount) {base : ℕ}
    (hbase : tableBase image = base) (hin : base + tableLen image ≤ image.length)
    (hlen : image.length ≤ maxAlloc) :
    Wild image ↔ ∃ e, firstUFS image base (header image).partEntrySize
        (header image).partEntryCount = some e ∧ Accepted image e ∧
      (2 ^ 63 ≤ (header image).partEntryLBA * sector ∨ 2 ^ 63 ≤ (entryEnd e + 1) * sector) := by
  have hmax : maxAlloc = 2 ^ 48 := rfl
  have htoNat : (tableBase image).toNat = base := by omega
  constructor
  · rintro ⟨-, -, ⟨h, -⟩ | h | ⟨-, -, hfirst⟩⟩
    · omega
    · omega
    · rwa [htoNat] at hfirst
  · intro hfirst
    refine ⟨hp, hpos, .inr (.inr ⟨by omega, by omega, ?_⟩)⟩
    rwa [htoNat]

/-- **The images on which the reader is right.** -/
theorem findUFSPartitionBytes_exact_iff (image : Bytes) (hlen : image.length ≤ maxAlloc) :
    Exact image (findUFSPartitionBytes image) ↔ ¬ Wild image := by
  have hmax : maxAlloc = 2 ^ 48 := rfl
  by_cases hp : Plausible image
  swap
  · obtain ⟨e, he⟩ := find_of_badHeader hp
    rw [he]
    exact iff_of_true trivial fun hw => hp hw.headerOk
  have hlow : -2 ^ 63 ≤ tableBase image := le_goInt _
  have hhigh : tableBase image < 2 ^ 63 := goInt_lt _
  have htable : tableLen image ≤ 128 * 4096 := Nat.mul_le_mul hp.count_le hp.size_le
  rcases Nat.eq_zero_or_pos (header image).partEntryCount with hzero | hpos
  · obtain ⟨e, he⟩ := find_of_empty hp hzero
    rw [he]
    exact iff_of_true trivial fun hw => absurd hzero hw.nonempty.ne'
  rw [find_eq hp]
  by_cases hwrap : 2 ^ 63 ≤ tableBase image + tableLen image
  · -- the sum is negative and passes the check
    rw [goInt_of_ge hwrap (by omega), if_neg (by omega),
      scan_outOfRange hpos hhigh hlow (.inr (by omega))]
    exact iff_of_false id (not_not.mpr ⟨hp, hpos, .inr (.inl hwrap)⟩)
  rw [goInt_of_lt (by omega) (by omega)]
  by_cases hpast : image.length < tableBase image + tableLen image
  · rw [if_pos hpast]
    refine iff_of_true trivial ?_
    rintro ⟨-, -, ⟨-, h⟩ | h | ⟨-, h, -⟩⟩
    · omega
    · exact hwrap h
    · omega
  rw [if_neg hpast]
  rcases lt_or_ge (tableBase image) 0 with hneg | hnonneg
  · rw [scan_outOfRange hpos hhigh hlow (.inl hneg)]
    exact iff_of_false id (not_not.mpr ⟨hp, hpos, .inl ⟨hneg, by omega⟩⟩)
  obtain ⟨base, hbase⟩ := Int.eq_ofNat_of_zero_le hnonneg
  have hin : base + tableLen image ≤ image.length := by omega
  rw [wild_iff_of_table hp hpos hbase hin hlen, hbase, scan_eq hlen hin]
  cases hfirst : firstUFS image base (header image).partEntrySize (header image).partEntryCount with
  | none => exact iff_of_true trivial fun ⟨e, he, _⟩ => nomatch he
  | some e =>
    rw [exact_partitionBytes_iff hbase hin hlen hfirst]
    simp

end

/-- An image of three sectors and a table with one entry. -/
def smallImage (partEntryLBA : ℕ) (entry : Bytes) : Bytes :=
  List.replicate 512 0 ++ (gptMagic ++ List.replicate 64 0 ++ leBytes 8 partEntryLBA ++ leBytes 4 1 ++
    leBytes 4 128 ++ List.replicate 424 0) ++ (entry ++ List.replicate (512 - entry.length) 0)

/-- A UFS partition that is the third sector. -/
def ufsEntry : Bytes :=
  freebsdUFSTypeGUID ++ List.replicate 16 0 ++ leBytes 8 2 ++ leBytes 8 2 ++ List.replicate 80 0

theorem length_smallImage (partEntryLBA : ℕ) {entry : Bytes} (h : entry.length ≤ 512) :
    (smallImage partEntryLBA entry).length = 1536 := by
  have hmagic : gptMagic.length = 8 := rfl
  simp only [smallImage, List.length_append, List.length_replicate, length_leBytes, hmagic]
  omega

theorem smallImage_exact : Exact (smallImage 2 ufsEntry) (findUFSPartitionBytes (smallImage 2 ufsEntry)) := by
  have hlen : (smallImage 2 ufsEntry).length ≤ maxAlloc := by
    rw [length_smallImage 2 (by decide +kernel)]
    decide
  rw [findUFSPartitionBytes_exact_iff (smallImage 2 ufsEntry) hlen]
  rintro ⟨-, -, ⟨h, -⟩ | h | ⟨-, -, e, he, -, hbig⟩⟩
  · exact absurd h (by decide +kernel)
  · exact absurd h (by decide +kernel)
  · have hentry : firstUFS (smallImage 2 ufsEntry) (tableBase (smallImage 2 ufsEntry)).toNat
        (header (smallImage 2 ufsEntry)).partEntrySize (header (smallImage 2 ufsEntry)).partEntryCount =
        some ufsEntry := by decide +kernel
    rw [hentry] at he
    rw [← Option.some.inj he] at hbig
    exact absurd hbig (by decide +kernel)

/-- The table of this image begins 2^63 bytes behind its start, which is a negative `int`. -/
theorem smallImage_outOfRange :
    ¬ Exact (smallImage (2 ^ 54) ufsEntry) (findUFSPartitionBytes (smallImage (2 ^ 54) ufsEntry)) := by
  have hpanic : findUFSPartitionBytes (smallImage (2 ^ 54) ufsEntry) = .outOfRange := by decide +kernel
  rw [hpanic]
  exact id

end TamagoUefi.Disk
