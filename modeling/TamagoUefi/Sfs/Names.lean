import TamagoUefi.Go.Utf8
import TamagoUefi.Lib.Buffer

/-!
# TamagoUefi.Sfs.Names — names and paths of the published file system (`sfs_publish_handlers.go`)

The firmware passes names as UCS-2, the file system behind has UTF-8 paths with slashes.  An
`EFI_FILE_INFO` is a header of 80 bytes and the name.
-/

namespace TamagoUefi.Sfs

open Go Lib

/-! ## UCS-2 -/

/-- The units from place `i` on, up to a zero and at most `fuel` of them. -/
def readUnits (mem : ℕ → UInt16) : ℕ → ℕ → List UInt16
  | 0, _ => []
  | fuel + 1, i => if mem i = 0 then [] else mem i :: readUnits mem fuel (i + 1)

/-- A surrogate is read as a question mark. -/
def unitRune (w : UInt16) : ℕ := if 0xD800 ≤ w && w ≤ 0xDFFF then 0x3F else w.toNat

/-- The string at a pointer; the pointer may be null. -/
def sfsReadUCS2 (p : Option (ℕ → UInt16)) : Bytes :=
  match p with
  | none => []
  | some mem => ofRunes ((readUnits mem 65536 0).map unitRune)

/-- What is written into the `room` bytes of the destination. -/
def writeRunes : ℕ → List ℕ → Bytes
  | room, [] => if 2 ≤ room then [0, 0] else []
  | room, r :: rs =>
    let r := if 0xFFFF < r then 0x3F else r
    if room < 2 then [] else UInt8.ofNat r :: UInt8.ofNat (r / 256) :: writeRunes (room - 2) rs

def sfsWriteUCS2 (s : Bytes) (room : ℕ) : Bytes := writeRunes room (runes s)

/-! ## Paths -/

/-- The components are pushed on a stack; `..` takes one away. -/
def pushComponents (stack : List Bytes) : List Bytes → List Bytes
  | [] => stack
  | p :: ps =>
    if p = [] ∨ p = str "." then pushComponents stack ps
    else if p = str ".." then pushComponents stack.dropLast ps
    else pushComponents (stack ++ [p]) ps

def sfsJoinPath (cur name : Bytes) : Bytes :=
  let input := name.map fun c => if c = 0x5C then 0x2F else c
  let seed := if hasPrefix input (str "/") then []
    else (split (trimPrefix cur (str "/")) (str "/")).filter (· ≠ [])
  let stack := pushComponents seed (split input (str "/"))
  if stack = [] then str "/" else str "/" ++ (str "/").intercalate stack

def sfsBaseName (path : Bytes) : Bytes :=
  if path = [] ∨ path = str "/" then []
  else
    match lastIndexByte path 0x2F with
    | some i => path.drop (i + 1)
    | none => path

/-! ## `EFI_FILE_INFO` -/

def sfsFileInfoHeaderSize : ℕ := 80

def sfsFileInfoSizeForName (name : Bytes) : ℕ := sfsFileInfoHeaderSize + 2 * ((runes name).length + 1)

/-- The sizes and the attributes; the times stay zero. -/
def fileInfoHeader (total size attr : ℕ) : Bytes :=
  let dst := writeAt (List.replicate total 0) 0 (leBytes 8 total)
  let dst := writeAt dst 8 (leBytes 8 size)
  let dst := writeAt dst 16 (leBytes 8 size)
  writeAt dst 72 (leBytes 8 attr)

def fileInfo (name : Bytes) (size attr : ℕ) : Bytes :=
  let total := sfsFileInfoSizeForName name
  writeAt (fileInfoHeader total size attr) sfsFileInfoHeaderSize
    (sfsWriteUCS2 name (total - sfsFileInfoHeaderSize))

/-- The number of bytes that are written and the bytes, if the destination has room for them. -/
def sfsWriteFileInfo (room : ℕ) (name : Bytes) (size attr : ℕ) : Option (ℕ × Bytes) :=
  let total := sfsFileInfoSizeForName name
  if room < total then none else some (total, fileInfo name size attr)

theorem length_writeRunes_le : ∀ (room : ℕ) (rs : List ℕ), (writeRunes room rs).length ≤ room
  | room, [] => by
    rw [writeRunes]
    split_ifs with h
    · exact h
    · exact Nat.zero_le room
  | room, r :: rs => by
    have ih := length_writeRunes_le (room - 2) rs
    rw [writeRunes]
    by_cases h : room < 2
    · rw [if_pos h]
      exact Nat.zero_le room
    · rw [if_neg h, List.length_cons, List.length_cons]
      omega

theorem length_fileInfoHeader {total : ℕ} (h : 80 ≤ total) (size attr : ℕ) :
    (fileInfoHeader total size attr).length = total := by
  have hwrite : ∀ (b : Bytes) (off v : ℕ), b.length = total → off ≤ 72 →
      (writeAt b off (leBytes 8 v)).length = total := by
    intro b off v hb hoff
    rw [length_writeAt, hb]
    rw [length_leBytes]
    omega
  have h₀ := hwrite _ 0 total (List.length_replicate (a := 0)) (by omega)
  have h₁ := hwrite _ 8 size h₀ (by omega)
  have h₂ := hwrite _ 16 size h₁ (by omega)
  exact hwrite _ 72 attr h₂ (by omega)

theorem length_fileInfo (name : Bytes) (size attr : ℕ) :
    (fileInfo name size attr).length = sfsFileInfoSizeForName name := by
  have htotal : sfsFileInfoSizeForName name = 80 + 2 * ((runes name).length + 1) := rfl
  have hname := length_writeRunes_le (sfsFileInfoSizeForName name - 80) (runes name)
  have hheader := length_fileInfoHeader (show 80 ≤ sfsFileInfoSizeForName name by omega) size attr
  rw [fileInfo, length_writeAt, hheader]
  rw [hheader, sfsFileInfoHeaderSize, sfsWriteUCS2]
  omega

end TamagoUefi.Sfs
