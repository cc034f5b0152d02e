import TamagoUefi.Board.BlockIo
import TamagoUefi.Go.Utf8
import TamagoUefi.Lib.Buffer
import TamagoUefi.Lib.PrefixCode

/-!
# TamagoUefi.Board.DevicePath — device paths (`sfs_filter.go`, `sfs_filter_tamago.go`)

A device path is a row of nodes, each with its own length in its header, up to an END node.  The board
finds the file system of a disk by comparing the device paths of handles.

* `DeviceNode`, `pathBytes`: nodes and their bytes.
* `devicePathPrefix_strict`: `devicePathPrefix` compares paths as rows of nodes.
* `findSFSChildOf_eq`: the first handle whose path goes on from that of the parent.
-/

namespace TamagoUefi.Board

open Go Lib

def devPathTypeMedia : UInt8 := 0x04
def devPathTypeEnd : UInt8 := 0x7F
def devPathSubTypeEndWhole : UInt8 := 0xFF
def devPathSubTypeFilePath : UInt8 := 0x04

/-! ## Comparing -/

/-- The header of an END node at `p`.  `none` is an index out of range. -/
def isEndAt (b : Bytes) (p : ℕ) : Option Bool :=
  (b[p]?).bind fun t =>
    if t = devPathTypeEnd then (b[p + 1]?).map fun st => decide (st = devPathSubTypeEndWhole)
    else some false

/-- `n` bytes from `p` on. -/
def sameBytes (a b : Bytes) : ℕ → ℕ → Option Bool
  | _, 0 => some true
  | p, n + 1 =>
    (a[p]?).bind fun x => (b[p]?).bind fun y => if x ≠ y then some false else sameBytes a b (p + 1) n

/-- The walk over the nodes of `body`.  A node has four bytes or more. -/
def prefixLoop (body full : Bytes) : ℕ → ℕ → Option Bool
  | 0, _ => none
  | fuel + 1, p =>
    if p < body.length then
      if body.length < p + 4 ∨ full.length < p + 4 then some false
      else
        (body[p + 2]?).bind fun lo => (body[p + 3]?).bind fun hi =>
          let ln := lo.toNat + 256 * hi.toNat
          if ln < 4 then some false
          else if body.length < p + ln ∨ full.length < p + ln then some false
          else (sameBytes body full p ln).bind fun same =>
            if same then prefixLoop body full fuel (p + ln) else some false
    else if full.length < p + 4 then some false
    else (isEndAt full p).map not

def devicePathPrefix (parent full : Bytes) : Option Bool :=
  if parent.length < 4 then some false
  else
    let endIdx := parent.length - 4
    (isEndAt parent endIdx).bind fun ended =>
      if ended then
        let body := parent.take endIdx
        if full.length ≤ body.length then some false else prefixLoop body full (body.length + 1) 0
      else some false

theorem isEndAt_isSome {b : Bytes} {p : ℕ} (h : p + 4 ≤ b.length) : (isEndAt b p).isSome := by
  unfold isEndAt
  rw [List.getElem?_eq_getElem (by omega : p < b.length),
    List.getElem?_eq_getElem (by omega : p + 1 < b.length), Option.bind_some]
  split_ifs
  · rfl
  · rfl

theorem sameBytes_eq {a b : Bytes} {p n : ℕ} (ha : p + n ≤ a.length) (hb : p + n ≤ b.length) :
    sameBytes a b p n = some (decide (readAt a p n = readAt b p n)) := by
  induction n generalizing p with
  | zero => simp [sameBytes, readAt]
  | succ n ih =>
    have hcons : ∀ (l : Bytes) (h : p < l.length), readAt l p (n + 1) = l[p] :: readAt l (p + 1) n :=
      fun l h => by rw [readAt, List.drop_eq_getElem_cons h, List.take_succ_cons, readAt]
    rw [sameBytes, List.getElem?_eq_getElem (by omega : p < a.length),
      List.getElem?_eq_getElem (by omega : p < b.length), Option.bind_some, Option.bind_some,
      ih (by omega) (by omega), hcons a (by omega), hcons b (by omega)]
    by_cases hxy : a[p] = b[p]
    · simp [hxy]
    · simp [hxy]

theorem prefixLoop_isSome (body full : Bytes) : ∀ fuel p, body.length - p < fuel →
    (prefixLoop body full fuel p).isSome := by
  intro fuel
  induction fuel with
  | zero => exact fun p h => absurd h (Nat.not_lt_zero _)
  | succ fuel ih =>
    intro p hfuel
    rw [prefixLoop]
    split_ifs with h₁ h₂ h₃
    · rfl
    · rw [List.getElem?_eq_getElem (by omega : p + 2 < body.length),
        List.getElem?_eq_getElem (by omega : p + 3 < body.length), Option.bind_some, Option.bind_some]
      generalize body[p + 2].toNat + 256 * body[p + 3].toNat = ln
      dsimp only
      split_ifs with h₄ h₅
      · rfl
      · rfl
      · rw [sameBytes_eq (by omega) (by omega), Option.bind_some]
        split_ifs
        · exact ih _ (by omega)
        · rfl
    · rfl
    · rw [Option.isSome_map]
      exact isEndAt_isSome (by omega)

/-- No index is out of range, whatever the bytes are. -/
theorem devicePathPrefix_isSome (parent full : Bytes) : (devicePathPrefix parent full).isSome := by
  unfold devicePathPrefix
  split_ifs with h
  · rfl
  · obtain ⟨ended, hended⟩ := Option.isSome_iff_exists.mp
      (isEndAt_isSome (b := parent) (p := parent.length - 4) (by omega))
    dsimp only
    rw [hended, Option.bind_some]
    split_ifs
    · rfl
    · exact prefixLoop_isSome _ _ _ _ (by omega)
    · rfl

/-! ## Nodes -/

/-- A node that does not end a path, with a length that its header can hold. -/
@[ext] structure DeviceNode where
  type : UInt8
  subType : UInt8
  data : Bytes
  len_le : 4 + data.length ≤ 65535
  not_end : ¬ (type = devPathTypeEnd ∧ subType = devPathSubTypeEndWhole)
  deriving DecidableEq

namespace DeviceNode

/-- The length in the header counts the header. -/
def len (n : DeviceNode) : ℕ := 4 + n.data.length

def bytes (n : DeviceNode) : Bytes :=
  n.type :: n.subType :: UInt8.ofNat n.len :: UInt8.ofNat (n.len / 256) :: n.data

theorem length_bytes (n : DeviceNode) : n.bytes.length = n.len := by
  simp only [bytes, len, List.length_cons]
  omega

theorem len_lt (n : DeviceNode) : n.len < 65536 := Nat.lt_succ_of_le n.len_le

theorem ofNat_len {k : ℕ} (h : k < 65536) :
    (UInt8.ofNat k).toNat + 256 * (UInt8.ofNat (k / 256)).toNat = k := by
  rw [UInt8.toNat_ofNat', UInt8.toNat_ofNat']
  omega

theorem bytes_prefixFree : PrefixFree bytes := by
  intro n m s t h
  simp only [bytes, List.cons_append, List.cons.injEq] at h
  obtain ⟨htype, hsub, hlo, hhi, hrest⟩ := h
  have hlen : n.len = m.len := by rw [← ofNat_len n.len_lt, ← ofNat_len m.len_lt, hlo, hhi]
  simp only [len] at hlen
  obtain ⟨hdata, hst⟩ := List.append_inj hrest (by omega)
  exact ⟨DeviceNode.ext htype hsub hdata, hst⟩

end DeviceNode

def endNode : Bytes := [devPathTypeEnd, devPathSubTypeEndWhole, 0x04, 0x00]

def nodeBytes (ns : List DeviceNode) : Bytes := ns.flatMap DeviceNode.bytes

/-- The bytes of a path, with its END node. -/
def pathBytes (ns : List DeviceNode) : Bytes := nodeBytes ns ++ endNode

theorem nodeBytes_cons (n : DeviceNode) (ns : List DeviceNode) :
    nodeBytes (n :: ns) = n.bytes ++ nodeBytes ns := List.flatMap_cons

theorem pathBytes_cons (n : DeviceNode) (ns : List DeviceNode) :
    pathBytes (n :: ns) = n.bytes ++ pathBytes ns := by
  rw [pathBytes, nodeBytes_cons, List.append_assoc, pathBytes]

theorem pathBytes_append (ns ms : List DeviceNode) : pathBytes (ns ++ ms) = nodeBytes ns ++ pathBytes ms := by
  rw [pathBytes, nodeBytes, List.flatMap_append, List.append_assoc]
  rfl

theorem length_pathBytes (ns : List DeviceNode) : (pathBytes ns).length = (nodeBytes ns).length + 4 := by
  rw [pathBytes, List.length_append]
  rfl

theorem exists_cons_of_bytes {n : DeviceNode} {ms : List DeviceNode} (h : n.bytes <+: pathBytes ms) :
    ∃ ms', ms = n :: ms' := by
  obtain ⟨s, hs⟩ := h
  cases ms with
  | nil =>
    simp only [DeviceNode.bytes, pathBytes, nodeBytes, List.flatMap_nil, List.nil_append, endNode,
      List.cons_append, List.cons.injEq] at hs
    exact absurd ⟨hs.1, hs.2.1⟩ n.not_end
  | cons m ms' =>
    rw [pathBytes_cons] at hs
    exact ⟨ms', by rw [(DeviceNode.bytes_prefixFree _ _ _ _ hs).1]⟩

theorem isEndAt_append (pre : Bytes) (t st : UInt8) (rest : Bytes) :
    isEndAt (pre ++ t :: st :: rest) pre.length =
      some (decide (t = devPathTypeEnd ∧ st = devPathSubTypeEndWhole)) := by
  unfold isEndAt
  rw [List.getElem?_append_right (Nat.le_refl _), List.getElem?_append_right (by omega), Nat.sub_self,
    Nat.add_sub_cancel_left]
  by_cases ht : t = devPathTypeEnd
  · simp [ht]
  · simp [ht]

theorem isEndAt_node (pre : Bytes) (n : DeviceNode) (rest : Bytes) :
    isEndAt (pre ++ (n.bytes ++ rest)) pre.length = some false := by
  rw [DeviceNode.bytes, List.cons_append, List.cons_append, isEndAt_append, decide_eq_false n.not_end]

theorem isEndAt_endNode (pre : Bytes) : isEndAt (pre ++ endNode) pre.length = some true :=
  isEndAt_append _ _ _ _

/-- The walk keeps to the nodes: `pre` is what both paths have in common so far. -/
theorem prefixLoop_paths (ns : List DeviceNode) : ∀ (ms : List DeviceNode) (pre : Bytes) (fuel : ℕ),
    (nodeBytes ns).length < fuel → prefixLoop (pre ++ nodeBytes ns) (pre ++ pathBytes ms) fuel pre.length =
      some (decide (ns <+: ms ∧ ns ≠ ms)) := by
  induction ns with
  | nil =>
    intro ms pre fuel hfuel
    obtain ⟨fuel, rfl⟩ := Nat.exists_eq_succ_of_ne_zero (Nat.ne_of_gt hfuel)
    have hlen := length_pathBytes ms
    rw [prefixLoop, nodeBytes, List.flatMap_nil, List.append_nil, if_neg (Nat.lt_irrefl _),
      if_neg (by rw [List.length_append]; omega)]
    cases ms with
    | nil =>
      rw [pathBytes, nodeBytes, List.flatMap_nil, List.nil_append, isEndAt_endNode]
      simp
    | cons m ms =>
      rw [pathBytes_cons, isEndAt_node]
      simp
  | cons n ns ih =>
    intro ms pre fuel hfuel
    obtain ⟨fuel, rfl⟩ := Nat.exists_eq_succ_of_ne_zero (Nat.ne_of_gt (Nat.zero_lt_of_lt hfuel))
    have hbytes := n.length_bytes
    have hln : n.len = 4 + n.data.length := rfl
    have hbody : (pre ++ nodeBytes (n :: ns)).length = pre.length + (n.len + (nodeBytes ns).length) := by
      rw [List.length_append, nodeBytes_cons, List.length_append, hbytes]
    have hfull : (pre ++ pathBytes ms).length = pre.length + ((nodeBytes ms).length + 4) := by
      rw [List.length_append, length_pathBytes]
    have hfuel' : (nodeBytes ns).length < fuel := by
      rw [nodeBytes_cons, List.length_append, hbytes] at hfuel
      omega
    have hlo : (pre ++ nodeBytes (n :: ns))[pre.length + 2]? = some (UInt8.ofNat n.len) := by
      rw [List.getElem?_append_right (by omega), Nat.add_sub_cancel_left]
      rfl
    have hhi : (pre ++ nodeBytes (n :: ns))[pre.length + 3]? = some (UInt8.ofNat (n.len / 256)) := by
      rw [List.getElem?_append_right (by omega), Nat.add_sub_cancel_left]
      rfl
    rw [prefixLoop, if_pos (by omega), if_neg (by omega), hlo, hhi, Option.bind_some, Option.bind_some]
    dsimp only
    rw [DeviceNode.ofNat_len n.len_lt, if_neg (by omega)]
    by_cases hcons : ∃ ms', ms = n :: ms'
    · obtain ⟨ms, rfl⟩ := hcons
      have hnode : readAt (pre ++ nodeBytes (n :: ns)) pre.length n.len =
          readAt (pre ++ pathBytes (n :: ms)) pre.length n.len := by
        rw [nodeBytes_cons, pathBytes_cons, ← hbytes, readAt_middle, readAt_middle]
      have hms : (nodeBytes (n :: ms)).length = n.len + (nodeBytes ms).length := by
        rw [nodeBytes_cons, List.length_append, hbytes]
      rw [if_neg (by omega), sameBytes_eq (by omega) (by omega), decide_eq_true hnode, Option.bind_some,
        if_pos rfl, nodeBytes_cons, pathBytes_cons, ← List.append_assoc, ← List.append_assoc, ← hbytes,
        ← List.length_append, ih ms (pre ++ n.bytes) fuel hfuel']
      simp [List.cons_prefix_cons]
    · have hne : ¬ (n :: ns <+: ms ∧ n :: ns ≠ ms) := by
        rintro ⟨⟨t, rfl⟩, -⟩
        exact hcons ⟨ns ++ t, rfl⟩
      rw [decide_eq_false hne]
      split_ifs with hshort
      · rfl
      · have hdiff : readAt (pre ++ nodeBytes (n :: ns)) pre.length n.len ≠
            readAt (pre ++ pathBytes ms) pre.length n.len := by
          rw [nodeBytes_cons, ← hbytes, readAt_middle, readAt, List.drop_left]
          exact fun heq => hcons (exists_cons_of_bytes (List.prefix_iff_eq_take.mpr heq))
        rw [sameBytes_eq (by omega) (by omega), decide_eq_false hdiff, Option.bind_some]
        rfl

theorem devicePathPrefix_paths (ns ms : List DeviceNode) :
    devicePathPrefix (pathBytes ns) (pathBytes ms) = some (decide (ns <+: ms ∧ ns ≠ ms)) := by
  have hns := length_pathBytes ns
  have hms := length_pathBytes ms
  have hidx : (pathBytes ns).length - 4 = (nodeBytes ns).length := by omega
  have htake : (pathBytes ns).take (nodeBytes ns).length = nodeBytes ns := List.take_left
  unfold devicePathPrefix
  rw [if_neg (by omega)]
  dsimp only
  rw [hidx, htake, pathBytes, isEndAt_endNode, Option.bind_some, if_pos rfl]
  split_ifs with hshort
  · -- the nodes of the first path alone are as long as the whole second path
    have hne : ¬ (ns <+: ms ∧ ns ≠ ms) := by
      rintro ⟨⟨t, rfl⟩, -⟩
      rw [pathBytes_append, List.length_append, length_pathBytes] at hshort
      omega
    rw [decide_eq_false hne]
  · exact prefixLoop_paths ns ms [] _ (Nat.lt_succ_self _)

/-- **`devicePathPrefix`** decides whether the one path goes on from the other, and no index is out of
range. -/
theorem devicePathPrefix_strict :
    (∀ ns ms, devicePathPrefix (pathBytes ns) (pathBytes ms) = some (decide (ns <+: ms ∧ ns ≠ ms))) ∧
    ∀ parent full, (devicePathPrefix parent full).isSome :=
  ⟨devicePathPrefix_paths, devicePathPrefix_isSome⟩

/-! ## Paths in the memory of the firmware -/

/-- What the firmware answers: `HandleProtocol` for the device path of a handle, and
`LocateHandleBuffer` for the handles with a file system. -/
structure Handles where
  memory : Memory
  devicePath : Uintptr → Except Bytes Uintptr
  fileSystems : Except Bytes (List Uintptr)

/-- The walk from node to node.  `none` is a slice that goes round the end of the memory. -/
def pathLoop (m : Memory) : ℕ → Uintptr → Bytes → Option (Except Bytes Bytes)
  | 0, _, _ => none
  | fuel + 1, p, out =>
    if p = 0 then some (.error (str "uefi: DevicePath walk hit NULL"))
    else
      let ln := (m (p + 2)).toNat + 256 * (m (p + 3)).toNat
      if ln < 4 then some (.error (str "uefi: DevicePath node length < 4 (malformed)"))
      else if 2 ^ 64 < p.toNat + ln then none
      else
        let out := out ++ load m p ln
        if m p = devPathTypeEnd ∧ m (p + 1) = devPathSubTypeEndWhole then some (.ok out)
        else if 65536 < out.length then
          some (.error (str "uefi: DevicePath grew past 64 KiB without END node"))
        else pathLoop m fuel (p + BitVec.ofNat 64 ln) out

section
variable (fw : Handles)

/-- Each node but the last adds four bytes or more. -/
def devicePathBytes (handle : Uintptr) : Option (Except Bytes Bytes) :=
  if handle = 0 then some (.error (str "uefi: devicePathBytes called with zero handle"))
  else
    match fw.devicePath handle with
    | .error e => some (.error e)
    | .ok iface =>
      if iface = 0 then some (.error (str "uefi: handle does not publish DevicePath"))
      else pathLoop fw.memory (65536 / 4 + 2) iface []

def errNoMatchingSFS : Bytes :=
  str "uefi: no SimpleFileSystem handle has the given Block IO handle as a device-path parent"

/-- A handle without a device path is passed over. -/
def childLoop (parentDP : Bytes) : List Uintptr → Option (Except Bytes (Uintptr × Bytes))
  | [] => some (.error errNoMatchingSFS)
  | h :: hs =>
    match devicePathBytes fw h with
    | none => none
    | some (.error _) => childLoop parentDP hs
    | some (.ok childDP) =>
      (devicePathPrefix parentDP childDP).bind fun child =>
        if child then some (.ok (h, childDP)) else childLoop parentDP hs

def findSFSChildOf (parentHandle : Uintptr) : Option (Except Bytes (Uintptr × Bytes)) :=
  if parentHandle = 0 then some (.error (str "uefi: FindSFSChildOf called with zero parent handle"))
  else
    match devicePathBytes fw parentHandle with
    | none => none
    | some (.error e) => some (.error e)
    | some (.ok parentDP) =>
      match fw.fileSystems with
      | .error e => some (.error e)
      | .ok sfsHandles => childLoop fw parentDP sfsHandles

/-- The handle has this device path, which is not longer than the walk goes. -/
structure Publishes (handle : Uintptr) (ns : List DeviceNode) : Prop where
  handle_ne : handle ≠ 0
  path : ∃ iface, iface ≠ 0 ∧ fw.devicePath handle = .ok iface ∧
    load fw.memory iface (pathBytes ns).length = pathBytes ns ∧
    iface.toNat + (pathBytes ns).length ≤ 2 ^ 64
  short : (nodeBytes ns).length ≤ 65536

end

theorem load_header {m : Memory} {p : Uintptr} (t st : UInt8) {lo hi : UInt8} {rest : Bytes}
    (h : load m p (t :: st :: lo :: hi :: rest).length = t :: st :: lo :: hi :: rest) :
    m p = t ∧ m (p + 1) = st ∧ m (p + 2) = lo ∧ m (p + 3) = hi := by
  have hfour := (load_eq_append (s := [t, st, lo, hi]) h).1
  simp only [load, List.length_cons, List.length_nil, List.range_succ, List.range_zero, List.nil_append,
    List.map_cons, List.map_nil, List.cons_append, List.cons.injEq, and_true] at hfour
  obtain ⟨h₀, h₁, h₂, h₃⟩ := hfour
  rw [show p + BitVec.ofNat 64 0 = p from BitVec.add_zero p] at h₀
  exact ⟨h₀, h₁, h₂, h₃⟩

theorem pathLoop_paths {m : Memory} : ∀ (ns : List DeviceNode) (p : Uintptr) (out : Bytes) (fuel : ℕ),
    p ≠ 0 → load m p (pathBytes ns).length = pathBytes ns → p.toNat + (pathBytes ns).length ≤ 2 ^ 64 →
    out.length + (nodeBytes ns).length ≤ 65536 → ns.length < fuel →
    pathLoop m fuel p out = some (.ok (out ++ pathBytes ns))
  | _, _, _, 0, _, _, _, _, hfuel => absurd hfuel (Nat.not_lt_zero _)
  | [], p, out, fuel + 1, hp, hload, hfit, _, _ => by
    obtain ⟨h₀, h₁, h₂, h₃⟩ := load_header devPathTypeEnd devPathSubTypeEndWhole hload
    have hln : (m (p + 2)).toNat + 256 * (m (p + 3)).toNat = 4 := by
      rw [h₂, h₃]
      rfl
    have hend : load m p 4 = pathBytes [] := hload
    have hfit : p.toNat + 4 ≤ 2 ^ 64 := hfit
    rw [pathLoop, if_neg hp]
    dsimp only
    rw [hln, if_neg (by decide), if_neg (Nat.not_lt.mpr hfit), if_pos ⟨h₀, h₁⟩, hend]
  | n :: ns, p, out, fuel + 1, hp, hload, hfit, hshort, hfuel => by
    rw [pathBytes_cons] at hload hfit
    have hbytes := n.length_bytes
    have hfour : 4 ≤ n.len := Nat.le_add_right 4 _
    have hrest := length_pathBytes ns
    obtain ⟨hnode, htail⟩ := load_eq_append hload
    obtain ⟨h₀, h₁, h₂, h₃⟩ := load_header _ _ hnode
    have hln : (m (p + 2)).toNat + 256 * (m (p + 3)).toNat = n.len := by
      rw [h₂, h₃, DeviceNode.ofNat_len n.len_lt]
    rw [hbytes] at hnode htail
    rw [List.length_append, hbytes] at hfit
    rw [nodeBytes_cons, List.length_append, hbytes] at hshort
    have hnext : (p + BitVec.ofNat 64 n.len).toNat = p.toNat + n.len := by
      rw [BitVec.toNat_add, BitVec.toNat_ofNat]
      omega
    have hne : p + BitVec.ofNat 64 n.len ≠ 0 := fun h => by
      rw [h] at hnext
      have hzero : (0 : Uintptr).toNat = 0 := rfl
      omega
    rw [pathLoop, if_neg hp]
    dsimp only
    rw [hln, if_neg (by omega), if_neg (by omega), h₀, h₁, if_neg n.not_end, hnode,
      if_neg (by rw [List.length_append, hbytes]; omega),
      pathLoop_paths ns _ _ fuel hne htail (by omega) (by rw [List.length_append, hbytes]; omega)
        (Nat.lt_of_succ_lt_succ hfuel), List.append_assoc, pathBytes_cons]

theorem length_le_nodeBytes (ns : List DeviceNode) : 4 * ns.length ≤ (nodeBytes ns).length := by
  induction ns with
  | nil => exact Nat.le_refl _
  | cons n ns ih =>
    have hfour : 4 ≤ n.len := Nat.le_add_right 4 _
    rw [nodeBytes_cons, List.length_append, n.length_bytes, List.length_cons]
    omega

section
variable {fw : Handles}

theorem devicePathBytes_eq {handle : Uintptr} {ns : List DeviceNode} (h : Publishes fw handle ns) :
    devicePathBytes fw handle = some (.ok (pathBytes ns)) := by
  obtain ⟨hne, ⟨iface, hiface, hproto, hload, hfit⟩, hshort⟩ := h
  have hcount := length_le_nodeBytes ns
  rw [devicePathBytes, if_neg hne, hproto]
  dsimp only
  rw [if_neg hiface, pathLoop_paths ns iface [] _ hiface hload hfit (by simpa using hshort) (by omega),
    List.nil_append]

theorem childLoop_eq (parent : List DeviceNode) {path : Uintptr → List DeviceNode} :
    ∀ hs : List Uintptr, (∀ h ∈ hs, Publishes fw h (path h)) → childLoop fw (pathBytes parent) hs =
      some (match hs.find? fun h => parent <+: path h ∧ parent ≠ path h with
        | none => .error errNoMatchingSFS
        | some h => .ok (h, pathBytes (path h)))
  | [], _ => rfl
  | h :: hs, hpub => by
    have ih := childLoop_eq parent hs fun x hx => hpub x (List.mem_cons_of_mem h hx)
    rw [childLoop, devicePathBytes_eq (hpub h List.mem_cons_self)]
    dsimp only
    rw [devicePathPrefix_paths, Option.bind_some, List.find?_cons]
    cases decide (parent <+: path h ∧ parent ≠ path h) with
    | true => rfl
    | false => exact ih

/-- A handle has one path. -/
theorem Publishes.unique {handle : Uintptr} {ns ns' : List DeviceNode} (h : Publishes fw handle ns)
    (h' : Publishes fw handle ns') (hext : ns <+: ns') : ns = ns' := by
  have hbytes : pathBytes ns = pathBytes ns' := by
    simpa [devicePathBytes_eq h] using devicePathBytes_eq h'
  have hcompare := devicePathPrefix_paths ns ns'
  rw [← hbytes, devicePathPrefix_paths] at hcompare
  by_contra hne
  simp [hext, hne] at hcompare

/-- **`FindSFSChildOf`** gives the first handle whose path goes on from that of the parent, and so never
the parent's. -/
theorem findSFSChildOf_eq {parentHandle : Uintptr} {parent : List DeviceNode}
    {path : Uintptr → List DeviceNode} {hs : List Uintptr} (hparent : Publishes fw parentHandle parent)
    (hhandles : fw.fileSystems = .ok hs) (hpub : ∀ h ∈ hs, Publishes fw h (path h)) :
    findSFSChildOf fw parentHandle =
      some (match hs.find? fun h => parent <+: path h ∧ parent ≠ path h with
        | none => .error errNoMatchingSFS
        | some h => .ok (h, pathBytes (path h))) ∧
      ∀ bytes, findSFSChildOf fw parentHandle ≠ some (.ok (parentHandle, bytes)) := by
  have hfound : findSFSChildOf fw parentHandle = childLoop fw (pathBytes parent) hs := by
    rw [findSFSChildOf, if_neg hparent.handle_ne, devicePathBytes_eq hparent]
    dsimp only
    rw [hhandles]
  rw [hfound, childLoop_eq _ _ hpub]
  refine ⟨rfl, fun bytes hres => ?_⟩
  cases hfind : hs.find? fun h => parent <+: path h ∧ parent ≠ path h with
  | none =>
    rw [hfind] at hres
    cases hres
  | some h =>
    obtain ⟨hext, hne⟩ : parent <+: path h ∧ parent ≠ path h := by simpa using List.find?_some hfind
    rw [hfind] at hres
    cases hres
    exact hne (hparent.unique (hpub _ (List.mem_of_find?_eq_some hfind)) hext)

end

def oneNode : DeviceNode := ⟨1, 1, [], by decide, by decide⟩

/-- The paths `[]` and `[oneNode]` in a row; both handles have a file system. -/
def twoHandles : Handles where
  memory a := ([0x7F, 0xFF, 4, 0, 1, 1, 4, 0, 0x7F, 0xFF, 4, 0] : Bytes).getD (a.toNat - 16) 0
  devicePath h := .ok (if h = 1 then 16 else 20)
  fileSystems := .ok [1, 2]

/-- The parent itself is passed over. -/
theorem findSFSChildOf_second : findSFSChildOf twoHandles 1 = some (.ok (2, pathBytes [oneNode])) := by
  have h₁ : Publishes twoHandles 1 [] :=
    ⟨by decide, ⟨16, by decide, rfl, by decide, by decide⟩, by decide⟩
  have h₂ : Publishes twoHandles 2 [oneNode] :=
    ⟨by decide, ⟨20, by decide, rfl, by decide, by decide⟩, by decide⟩
  refine (@findSFSChildOf_eq twoHandles 1 [] (fun h => if h = 1 then [] else [oneNode]) _ h₁ rfl
    fun h hh => ?_).1
  rcases List.mem_pair.mp hh with rfl | rfl
  · exact h₁
  · exact h₂

end TamagoUefi.Board
