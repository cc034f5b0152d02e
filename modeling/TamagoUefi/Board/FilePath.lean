import TamagoUefi.Board.DevicePath

/-!
# TamagoUefi.Board.FilePath — the device path of a file (`loadimage_sfs_tamago.go`)

`buildFilePathDevicePath` puts a node with the name of a file behind the device path of a file system.
The name is stored in UCS-2, and the length of the node is computed in 16 bits.

* `decodePath`: what is read from the bytes of a path by the lengths in it, `decodePath_eq_some`.
* `buildFilePathDevicePath_iff`: the names for which the path that is built is the path of the file.
-/

namespace TamagoUefi.Board

open Go Lib DeviceNode

/-! ## Building -/

/-- A character outside the basic plane is refused. -/
def ucs2Encode : List ℕ → Except Bytes Bytes
  | [] => .ok []
  | r :: rs =>
    if 0xFFFF < r then .error (str "uefi: filepath contains non-BMP char")
    else (ucs2Encode rs).map fun b => UInt8.ofNat r :: UInt8.ofNat (r / 256) :: b

def filePathNode (ucs2 : Bytes) : Bytes :=
  let ln := (4 + ucs2.length) % 2 ^ 16
  devPathTypeMedia :: devPathSubTypeFilePath :: UInt8.ofNat ln :: UInt8.ofNat (ln / 256) :: ucs2

def buildFilePathDevicePath (parent efiPath : Bytes) : Except Bytes Bytes :=
  if parent.length < 4 then .error (str "uefi: parent device path too short")
  else
    let endIdx := parent.length - 4
    if isEndAt parent endIdx ≠ some true then .error (str "uefi: parent device path not END-terminated")
    else (ucs2Encode (runes efiPath)).map fun units =>
      parent.take endIdx ++ filePathNode (units ++ [0x00, 0x00]) ++ endNode

/-! ## Decoding -/

theorem len_take_le (lo hi : UInt8) (rest : Bytes) (h : 4 ≤ lo.toNat + 256 * hi.toNat) :
    4 + (rest.take (lo.toNat + 256 * hi.toNat - 4)).length ≤ 65535 := by
  have hlo := lo.toNat_lt
  have hhi := hi.toNat_lt
  rw [List.length_take]
  omega

/-- The nodes of a path, up to an END node behind which there is nothing. -/
def decodeNodes : ℕ → Bytes → Option (List DeviceNode)
  | fuel + 1, t :: st :: lo :: hi :: rest =>
    if h : t = devPathTypeEnd ∧ st = devPathSubTypeEndWhole then
      if lo.toNat + 256 * hi.toNat = 4 ∧ rest = [] then some [] else none
    else if hln : 4 ≤ lo.toNat + 256 * hi.toNat ∧ lo.toNat + 256 * hi.toNat ≤ 4 + rest.length then
      (decodeNodes fuel (rest.drop (lo.toNat + 256 * hi.toNat - 4))).map fun ns =>
        ⟨t, st, rest.take (lo.toNat + 256 * hi.toNat - 4), len_take_le lo hi rest hln.1, h⟩ :: ns
    else none
  | _, _ => none

def decodePath (b : Bytes) : Option (List DeviceNode) := decodeNodes b.length b

theorem decodeNodes_pathBytes (ns : List DeviceNode) : ∀ fuel, ns.length < fuel →
    decodeNodes fuel (pathBytes ns) = some ns := by
  induction ns with
  | nil =>
    intro fuel hfuel
    obtain ⟨fuel, rfl⟩ := Nat.exists_eq_succ_of_ne_zero (Nat.ne_of_gt hfuel)
    rfl
  | cons n ns ih =>
    intro fuel hfuel
    obtain ⟨fuel, rfl⟩ := Nat.exists_eq_succ_of_ne_zero (Nat.ne_of_gt (Nat.zero_lt_of_lt hfuel))
    have hlen : (UInt8.ofNat n.len).toNat + 256 * (UInt8.ofNat (n.len / 256)).toNat = n.len :=
      ofNat_len n.len_lt
    have hdata : n.len - 4 = n.data.length := Nat.add_sub_cancel_left 4 _
    have hrest := ih fuel (Nat.lt_of_succ_lt_succ hfuel)
    rw [pathBytes_cons, bytes]
    simp only [List.cons_append]
    rw [decodeNodes, dif_neg n.not_end, dif_pos]
    · simp only [hlen, hdata, List.drop_left, List.take_left, hrest, Option.map_some]
    · rw [hlen, List.length_append, len]
      omega

theorem eq_pathBytes_of_decodeNodes {fuel : ℕ} {b : Bytes} {ns : List DeviceNode}
    (h : decodeNodes fuel b = some ns) : b = pathBytes ns := by
  fun_induction decodeNodes fuel b generalizing ns with
  | case1 fuel t st lo hi rest hend hlen =>
    obtain ⟨hln, rfl⟩ := hlen
    obtain rfl := Option.some.inj h
    have hlo : lo = 4 := by
      have := lo.toNat_lt
      exact UInt8.toNat_inj.mp (by rw [show (4 : UInt8).toNat = 4 from rfl]; omega)
    have hhi : hi = 0 := by
      have := lo.toNat_lt
      exact UInt8.toNat_inj.mp (by rw [show (0 : UInt8).toNat = 0 from rfl]; omega)
    rw [hend.1, hend.2, hlo, hhi]
    rfl
  | case2 => cases h
  | case3 fuel t st lo hi rest hend hln ih =>
    obtain ⟨ns', hns, rfl⟩ := Option.map_eq_some_iff.mp h
    have hlen : (rest.take (lo.toNat + 256 * hi.toNat - 4)).length + 4 = lo.toNat + 256 * hi.toNat := by
      rw [List.length_take]
      omega
    have hhi := hi.toNat_lt
    have hlo := lo.toNat_lt
    have h₁ : UInt8.ofNat (4 + (rest.take (lo.toNat + 256 * hi.toNat - 4)).length) = lo := by
      apply UInt8.toNat_inj.mp
      rw [UInt8.toNat_ofNat']
      omega
    have h₂ : UInt8.ofNat ((4 + (rest.take (lo.toNat + 256 * hi.toNat - 4)).length) / 256) = hi := by
      apply UInt8.toNat_inj.mp
      rw [UInt8.toNat_ofNat']
      omega
    rw [pathBytes_cons, ← ih hns]
    simp only [bytes, len, List.cons_append, h₁, h₂, List.take_append_drop]
  | case4 => cases h
  | case5 => cases h

/-- **Decoding** takes back what `pathBytes` does, and nothing else. -/
theorem decodePath_eq_some {b : Bytes} {ns : List DeviceNode} : decodePath b = some ns ↔ b = pathBytes ns := by
  constructor
  · exact eq_pathBytes_of_decodeNodes
  · rintro rfl
    have hcount := length_le_nodeBytes ns
    exact decodeNodes_pathBytes ns _ (by rw [length_pathBytes]; omega)

/-! ## Names -/

/-- The code units of a text. -/
def utf16 (rs : List ℕ) : List ℕ :=
  rs.flatMap fun r =>
    if r < 0x10000 then [r] else [0xD800 + (r - 0x10000) / 1024, 0xDC00 + (r - 0x10000) % 1024]

/-- The code units before a zero, which is the last one. -/
def fileName : Bytes → Option (List ℕ)
  | lo :: hi :: rest =>
    if lo.toNat + 256 * hi.toNat = 0 then if rest.isEmpty then some [] else none
    else (fileName rest).map fun us => (lo.toNat + 256 * hi.toNat) :: us
  | _ => none

/-- The node names this file. -/
structure NamesFile (n : DeviceNode) (rs : List ℕ) : Prop where
  type : n.type = devPathTypeMedia
  subType : n.subType = devPathSubTypeFilePath
  name : fileName n.data = some (utf16 rs)

theorem ucs2Encode_ok : ∀ rs : List ℕ, (∀ r ∈ rs, r ≤ 0xFFFF ∧ r ≠ 0) →
    ∃ b, ucs2Encode rs = .ok b ∧ b.length = 2 * rs.length ∧ fileName (b ++ [0x00, 0x00]) = some (utf16 rs)
  | [], _ => ⟨[], rfl, rfl, rfl⟩
  | r :: rs, h => by
    obtain ⟨hr, hzero⟩ := h r List.mem_cons_self
    obtain ⟨b, hb, hlen, hname⟩ := ucs2Encode_ok rs fun x hx => h x (List.mem_cons_of_mem r hx)
    have hunit := ofNat_len (Nat.lt_succ_of_le hr)
    refine ⟨UInt8.ofNat r :: UInt8.ofNat (r / 256) :: b, ?_, ?_, ?_⟩
    · rw [ucs2Encode, if_neg (Nat.not_lt.mpr hr), hb]
      rfl
    · rw [List.length_cons, List.length_cons, hlen, List.length_cons]
      omega
    · have hbasic : utf16 (r :: rs) = r :: utf16 rs := by
        rw [utf16, List.flatMap_cons, if_pos (Nat.lt_succ_of_le hr)]
        rfl
      rw [List.cons_append, List.cons_append, fileName, hunit, if_neg hzero, hname, hbasic]
      rfl

theorem ucs2Encode_error {rs : List ℕ} (h : ∃ r ∈ rs, 0xFFFF < r) : ∃ e, ucs2Encode rs = .error e := by
  induction rs with
  | nil => exact absurd h (by simp)
  | cons r rs ih =>
    rw [ucs2Encode]
    split_ifs with hr
    · exact ⟨_, rfl⟩
    · obtain ⟨x, hx, hbig⟩ := h
      rcases List.mem_cons.mp hx with rfl | hx
      · exact absurd hbig hr
      · obtain ⟨e, he⟩ := ih ⟨x, hx, hbig⟩
        exact ⟨e, by rw [he]; rfl⟩

/-! ## The path of a file -/

/-- An error, or the path of the parent and a node that names the file. -/
def FilePathOk (ns : List DeviceNode) (rs : List ℕ) : Except Bytes Bytes → Prop
  | .error _ => True
  | .ok out => ∃ f, decodePath out = some (ns ++ [f]) ∧ NamesFile f rs ∧
      devicePathPrefix (pathBytes ns) out = some true

section
variable (ns : List DeviceNode) {rs : List ℕ}

theorem build_eq (h : ∀ r ∈ rs, IsScalar r) : buildFilePathDevicePath (pathBytes ns) (ofRunes rs) =
    (ucs2Encode rs).map fun units => nodeBytes ns ++ filePathNode (units ++ [0x00, 0x00]) ++ endNode := by
  have hlen := length_pathBytes ns
  have hidx : (pathBytes ns).length - 4 = (nodeBytes ns).length := by omega
  have htake : (pathBytes ns).take (nodeBytes ns).length = nodeBytes ns := List.take_left
  have hend : isEndAt (pathBytes ns) (nodeBytes ns).length = some true := isEndAt_endNode _
  rw [buildFilePathDevicePath, if_neg (by omega)]
  dsimp only
  rw [hidx, htake, hend, if_neg (not_not.mpr rfl), runes_ofRunes h]

theorem filePathOk_of_short {units : Bytes} (hname : fileName (units ++ [0x00, 0x00]) = some (utf16 rs))
    (hshort : units.length ≤ 65529) :
    FilePathOk ns rs (.ok (nodeBytes ns ++ filePathNode (units ++ [0x00, 0x00]) ++ endNode)) := by
  have hlen : 4 + (units ++ [0x00, 0x00]).length ≤ 65535 := by
    rw [List.length_append]
    exact (by omega : 4 + (units.length + 2) ≤ 65535)
  let f : DeviceNode := ⟨devPathTypeMedia, devPathSubTypeFilePath, units ++ [0x00, 0x00], hlen, by decide⟩
  have hnode : filePathNode (units ++ [0x00, 0x00]) = f.bytes := by
    rw [filePathNode, Nat.mod_eq_of_lt (by omega)]
    rfl
  have hpath : nodeBytes ns ++ f.bytes ++ endNode = pathBytes (ns ++ [f]) := by
    rw [pathBytes_append, pathBytes_cons, List.append_assoc]
    rfl
  rw [hnode, hpath]
  refine ⟨f, decodePath_eq_some.mpr rfl, ⟨rfl, rfl, hname⟩, ?_⟩
  rw [devicePathPrefix_paths, decide_eq_true]
  exact ⟨List.prefix_append _ _, by simp⟩

/-- A node that is too long for its header is not the node that is read. -/
theorem not_filePathOk_of_long {units : Bytes} (hlong : 65530 ≤ units.length) :
    ¬ FilePathOk ns rs (.ok (nodeBytes ns ++ filePathNode (units ++ [0x00, 0x00]) ++ endNode)) := by
  rintro ⟨f, hdecode, -⟩
  have hbytes := decodePath_eq_some.mp hdecode
  rw [pathBytes_append, pathBytes_cons, List.append_assoc] at hbytes
  have hlen := congrArg List.length (List.append_cancel_left hbytes)
  have hf := f.len_lt
  simp only [filePathNode, List.length_append, List.length_cons, f.length_bytes, pathBytes, nodeBytes,
    List.flatMap_nil, List.length_nil] at hlen
  omega

/-- **The path of a file** is right if the name is not too long, or is refused. -/
theorem buildFilePathDevicePath_iff (hrs : ∀ r ∈ rs, IsScalar r ∧ r ≠ 0) :
    FilePathOk ns rs (buildFilePathDevicePath (pathBytes ns) (ofRunes rs)) ↔
      rs.length ≤ 32764 ∨ ∃ r ∈ rs, 0xFFFF < r := by
  rw [build_eq ns fun r hr => (hrs r hr).1]
  by_cases hbig : ∃ r ∈ rs, 0xFFFF < r
  · obtain ⟨e, he⟩ := ucs2Encode_error hbig
    rw [he]
    exact iff_of_true trivial (.inr hbig)
  · obtain ⟨units, hunits, hlen, hname⟩ := ucs2Encode_ok rs fun r hr =>
      ⟨Nat.not_lt.mp fun h => hbig ⟨r, hr, h⟩, (hrs r hr).2⟩
    rw [hunits, or_iff_left hbig]
    by_cases hshort : rs.length ≤ 32764
    · exact iff_of_true (filePathOk_of_short ns hname (by omega)) hshort
    · exact iff_of_false (not_filePathOk_of_long ns (by omega)) hshort

end

/-- A name of one letter. -/
theorem buildFilePathDevicePath_letter :
    FilePathOk [] [0x61] (buildFilePathDevicePath (pathBytes []) (ofRunes [0x61])) :=
  (buildFilePathDevicePath_iff [] (by simp [IsScalar])).mpr (.inl (by decide))

/-- The length of this node is 65536, which is stored as 0. -/
theorem buildFilePathDevicePath_wraps : ¬ FilePathOk [] (List.replicate 32765 0x61)
    (buildFilePathDevicePath (pathBytes []) (ofRunes (List.replicate 32765 0x61))) := by
  have hletter : ∀ r ∈ List.replicate 32765 0x61, r = 0x61 := fun r hr => List.eq_of_mem_replicate hr
  obtain ⟨units, hunits, hlen, -⟩ := ucs2Encode_ok (List.replicate 32765 0x61) fun r hr => by
    rw [hletter r hr]
    decide
  rw [build_eq [] fun r hr => by rw [hletter r hr]; exact .inl (by decide), hunits]
  refine not_filePathOk_of_long [] ?_
  rw [hlen, List.length_replicate]

end TamagoUefi.Board
