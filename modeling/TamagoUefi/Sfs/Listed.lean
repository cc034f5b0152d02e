import TamagoUefi.Sfs.Paths
import TamagoUefi.Sfs.ReadLaw

/-!
# TamagoUefi.Sfs.Listed — what a directory lists can be opened

The name of an entry goes to the firmware as UCS-2 in an `EFI_FILE_INFO`, and comes back from there as
the argument of `Open`.

* `PlainName.fileInfo`: the name that is stored reads back as the name of the entry.
* `sfsJoinPath_child`: from an open directory it leads to the entry.
* `Registries.listed_opens`: so opening it gives the entry, unless the name is empty.
-/

namespace TamagoUefi.Sfs

open Go Lib
open Board (Uintptr)

/-- A name with characters of the basic plane other than zero, and without separators. -/
structure PlainName (name : Bytes) : Prop where
  chars : ∃ rs : List ℕ, name = ofRunes rs ∧ (∀ r ∈ rs, IsBasic r ∧ r ≠ 0) ∧ rs.length ≤ 65535
  no_slash : 0x2F ∉ name
  no_backslash : 0x5C ∉ name

/-- The memory that begins with some bytes, in units of two bytes. -/
def unitsFrom (beyond : ℕ → UInt16) : Bytes → ℕ → UInt16
  | b₀ :: b₁ :: _, 0 => UInt16.ofNat (b₀.toNat + 256 * b₁.toNat)
  | _ :: _ :: t, i + 1 => unitsFrom beyond t i
  | _, i => beyond i

/-- The `FileName` field of an `EFI_FILE_INFO` that is stored in memory. -/
def fileNameField (info : Bytes) (beyond : ℕ → UInt16) : ℕ → UInt16 :=
  unitsFrom beyond (info.drop sfsFileInfoHeaderSize)

/-- The path of an entry of a directory. -/
def child (path name : Bytes) : Bytes :=
  if path = str "/" then str "/" ++ name else path ++ str "/" ++ name

/-! ## The stored name -/

def unitBytes (r : ℕ) : Bytes := [UInt8.ofNat r, UInt8.ofNat (r / 256)]

theorem length_units (rs : List ℕ) : (rs.flatMap unitBytes ++ [0, 0]).length = 2 * (rs.length + 1) := by
  induction rs with
  | nil => rfl
  | cons r rs ih =>
    rw [List.flatMap_cons, List.append_assoc, List.length_append, ih, List.length_cons]
    show 2 + _ = _
    omega

theorem writeRunes_eq : ∀ {rs : List ℕ}, (∀ r ∈ rs, r < 0x10000) →
    writeRunes (2 * (rs.length + 1)) rs = rs.flatMap unitBytes ++ [0, 0]
  | [], _ => rfl
  | r :: rs, h => by
    have hr : ¬ 0xFFFF < r := Nat.not_lt.mpr (Nat.le_of_lt_succ (h r (List.mem_cons_self ..)))
    have hroom : ¬ 2 * ((r :: rs).length + 1) < 2 := by omega
    have hrest : 2 * ((r :: rs).length + 1) - 2 = 2 * (rs.length + 1) := by
      rw [List.length_cons]
      omega
    simp only [writeRunes, if_neg hr, if_neg hroom, hrest,
      writeRunes_eq fun x hx => h x (List.mem_cons_of_mem r hx)]
    rfl

theorem unitsFrom_unitBytes {r : ℕ} (hr : r < 0x10000) (beyond : ℕ → UInt16) (t : Bytes) :
    unitsFrom beyond (unitBytes r ++ t) 0 = UInt16.ofNat r := by
  show UInt16.ofNat ((UInt8.ofNat r).toNat + 256 * (UInt8.ofNat (r / 256)).toNat) = _
  rw [UInt8.toNat_ofNat', UInt8.toNat_ofNat']
  congr 1
  omega

/-- The reader stops at the zero that the writer has put after the name. -/
theorem readUnits_stored {beyond mem : ℕ → UInt16} : ∀ {rs : List ℕ} {fuel i : ℕ},
    (∀ r ∈ rs, r < 0x10000 ∧ r ≠ 0) → rs.length ≤ fuel →
    (∀ j, mem (i + j) = unitsFrom beyond (rs.flatMap unitBytes ++ [0, 0]) j) →
    readUnits mem fuel i = rs.map UInt16.ofNat
  | [], 0, _, _, _, _ => rfl
  | [], fuel + 1, i, _, _, hmem => if_pos (hmem 0)
  | r :: rs, 0, _, _, hfuel, _ => absurd hfuel (by simp)
  | r :: rs, fuel + 1, i, hrs, hfuel, hmem => by
    obtain ⟨hlt, hne⟩ := hrs r (List.mem_cons_self ..)
    have hfirst : mem i = UInt16.ofNat r := by
      rw [← unitsFrom_unitBytes hlt beyond (rs.flatMap unitBytes ++ [0, 0])]
      exact hmem 0
    have hnonzero : mem i ≠ 0 := by
      rw [hfirst]
      intro h
      have hnat := congrArg UInt16.toNat h
      rw [UInt16.toNat_ofNat', Nat.mod_eq_of_lt hlt] at hnat
      exact hne hnat
    rw [readUnits, if_neg hnonzero, hfirst, List.map_cons]
    have hrest : ∀ j, mem (i + 1 + j) = unitsFrom beyond (rs.flatMap unitBytes ++ [0, 0]) j := by
      intro j
      rw [Nat.add_assoc, Nat.add_comm 1 j]
      exact hmem (j + 1)
    rw [readUnits_stored (fun x hx => hrs x (List.mem_cons_of_mem r hx)) (Nat.le_of_succ_le_succ hfuel) hrest]

theorem unitRune_ofNat {r : ℕ} (h : IsBasic r) : unitRune (UInt16.ofNat r) = r := by
  have hnat : (UInt16.ofNat r).toNat = r := by
    rw [UInt16.toNat_ofNat']
    exact Nat.mod_eq_of_lt h.lt
  have hplain : ¬ (0xD800 ≤ UInt16.ofNat r && UInt16.ofNat r ≤ 0xDFFF) = true := by
    rw [Bool.and_eq_true, decide_eq_true_eq, decide_eq_true_eq, UInt16.le_iff_toNat_le,
      UInt16.le_iff_toNat_le, hnat]
    rintro ⟨hlo, hhi⟩
    have hlo : 0xD800 ≤ r := hlo
    have hhi : r ≤ 0xDFFF := hhi
    unfold IsBasic at h
    omega
  rw [unitRune, if_neg hplain, hnat]

/-! ## The information -/

theorem readAt_fileInfoHeader {total : ℕ} (h : 80 ≤ total) (size attr : ℕ) :
    readAt (fileInfoHeader total size attr) 0 8 = leBytes 8 total ∧
    readAt (fileInfoHeader total size attr) 72 8 = leBytes 8 attr := by
  have hlen := fun v => length_leBytes 8 v
  have hwrite : ∀ (b : Bytes) (off v : ℕ), b.length = total → off ≤ 72 →
      off + (leBytes 8 v).length ≤ b.length := by
    intro b off v hb hoff
    rw [hlen, hb]
    omega
  have h₀ : (List.replicate total (0 : UInt8)).length = total := List.length_replicate
  have h₁ : (writeAt (List.replicate total (0 : UInt8)) 0 (leBytes 8 total)).length = total :=
    (length_writeAt (hwrite _ 0 _ h₀ (by omega))).trans h₀
  have h₂ := (length_writeAt (hwrite _ 8 size h₁ (by omega))).trans h₁
  have h₃ := (length_writeAt (hwrite _ 16 size h₂ (by omega))).trans h₂
  constructor
  · rw [fileInfoHeader, readAt_writeAt_disjoint (hwrite _ 72 attr h₃ (by omega)) (.inl (by omega)),
      readAt_writeAt_disjoint (hwrite _ 16 size h₂ (by omega)) (.inl (by omega)),
      readAt_writeAt_disjoint (hwrite _ 8 size h₁ (by omega)) (.inl (by omega))]
    conv_lhs => rw [← hlen total]
    exact readAt_writeAt (hwrite _ 0 total h₀ (by omega))
  · conv_lhs => rw [← hlen attr]
    exact readAt_writeAt (hwrite _ 72 attr h₃ le_rfl)

section
variable {name : Bytes} {rs : List ℕ} (hname : name = ofRunes rs) (hrs : ∀ r ∈ rs, IsBasic r) (size attr : ℕ)
include hname hrs

theorem sfsWriteUCS2_eq :
    sfsWriteUCS2 name (sfsFileInfoSizeForName name - 80) = rs.flatMap unitBytes ++ [0, 0] ∧
    sfsFileInfoSizeForName name = 80 + (rs.flatMap unitBytes ++ [0, 0]).length := by
  have hlen := length_units rs
  have hsize : sfsFileInfoSizeForName name = 80 + 2 * (rs.length + 1) := by
    rw [sfsFileInfoSizeForName, hname, runes_ofRunes fun r hr => (hrs r hr).isScalar]
    rfl
  refine ⟨?_, hsize.trans (by rw [hlen])⟩
  rw [hsize, Nat.add_sub_cancel_left, sfsWriteUCS2, hname, runes_ofRunes fun r hr => (hrs r hr).isScalar]
  exact writeRunes_eq fun r hr => (hrs r hr).lt

/-- Behind the header is the name, up to the end. -/
theorem drop_fileInfo : (fileInfo name size attr).drop 80 = rs.flatMap unitBytes ++ [0, 0] := by
  obtain ⟨hwrite, hsize⟩ := sfsWriteUCS2_eq hname hrs
  have hheader := length_fileInfoHeader (show 80 ≤ sfsFileInfoSizeForName name by omega) size attr
  have htake : ((fileInfoHeader (sfsFileInfoSizeForName name) size attr).take 80).length = 80 := by
    rw [List.length_take, hheader]
    omega
  rw [fileInfo, sfsFileInfoHeaderSize, hwrite, writeAt, List.drop_left' htake, List.drop_eq_nil_of_le,
    List.append_nil]
  rw [hheader, hsize]

theorem readAt_fileInfo {off : ℕ} (hoff : off + 8 ≤ 80) :
    readAt (fileInfo name size attr) off 8 =
      readAt (fileInfoHeader (sfsFileInfoSizeForName name) size attr) off 8 := by
  obtain ⟨hwrite, hsize⟩ := sfsWriteUCS2_eq hname hrs
  rw [fileInfo, sfsFileInfoHeaderSize, hwrite]
  refine readAt_writeAt_disjoint ?_ (.inl hoff)
  rw [length_fileInfoHeader (by omega), hsize]

end

variable {name : Bytes}

/-- The information about a plain name: its first field is its length, a zero unit ends it, its
attributes are those of the entry, and its name reads back. -/
theorem PlainName.fileInfo (h : PlainName name) (size : ℕ) {attr : ℕ} (hattr : attr < 256) :
    leNat (readAt (fileInfo name size attr) 0 8) = (Sfs.fileInfo name size attr).length ∧
    (Sfs.fileInfo name size attr).drop ((Sfs.fileInfo name size attr).length - 2) = [0, 0] ∧
    leNat (readAt (Sfs.fileInfo name size attr) 72 8) = attr ∧
    ∀ beyond, sfsReadUCS2 (some (fileNameField (Sfs.fileInfo name size attr) beyond)) = name := by
  obtain ⟨rs, hname, hrs, hshort⟩ := h.chars
  have hbasic : ∀ r ∈ rs, IsBasic r := fun r hr => (hrs r hr).1
  have hsize : sfsFileInfoSizeForName name = 80 + 2 * (rs.length + 1) := by
    rw [(sfsWriteUCS2_eq hname hbasic).2, length_units]
  have hlength := length_fileInfo name size attr
  have hdrop := drop_fileInfo hname hbasic size attr
  obtain ⟨htotal, hattrs⟩ :=
    readAt_fileInfoHeader (show 80 ≤ sfsFileInfoSizeForName name by omega) size attr
  refine ⟨?_, ?_, ?_, ?_⟩
  · rw [readAt_fileInfo hname hbasic size attr (by omega), htotal, leNat_leBytes, hlength]
    omega
  · have hend : (Sfs.fileInfo name size attr).length - 2 = 80 + (rs.flatMap unitBytes).length := by
      have hunits := length_units rs
      rw [List.length_append] at hunits
      change (rs.flatMap unitBytes).length + 2 = _ at hunits
      omega
    rw [hend, ← List.drop_drop, hdrop]
    exact List.drop_left
  · rw [readAt_fileInfo hname hbasic size attr (by omega), hattrs, leNat_leBytes]
    omega
  · intro beyond
    have hunits : readUnits (fileNameField (Sfs.fileInfo name size attr) beyond) 65536 0 =
        rs.map UInt16.ofNat := by
      refine @readUnits_stored beyond _ rs _ _ (fun r hr => ⟨(hbasic r hr).lt, (hrs r hr).2⟩) (by omega) ?_
      intro j
      rw [Nat.zero_add, ← hdrop]
      rfl
    have hid : (rs.map UInt16.ofNat).map unitRune = rs := by
      rw [List.map_map]
      exact (List.map_congr_left fun r hr => unitRune_ofNat (hbasic r hr)).trans (List.map_id' rs)
    rw [sfsReadUCS2, hunits, hid, hname]

/-! ## The path of an entry -/

theorem IsName.notSeparator (h : IsName name) : ∀ c ∈ name, isSeparator c = false := by
  intro c hc
  rw [isSeparator, Bool.or_eq_false_iff, decide_eq_false_iff_not, decide_eq_false_iff_not]
  constructor
  · rintro rfl
    exact h.no_slash hc
  · rintro rfl
    exact h.no_backslash hc

theorem walk_isName_self (h : IsName name) (stack : List Bytes) : walk stack name = stack ++ [name] := by
  have hpieces : pieces name = [name] := List.splitOnP_eq_singleton h.notSeparator
  have hroot : isRooted name = false := by
    obtain ⟨c, t, rfl⟩ := List.exists_cons_of_ne_nil h.nonempty
    exact h.notSeparator c (List.mem_cons_self ..)
  have hpush : pushComponents stack [name] = stack ++ [name] := by
    rw [pushComponents, if_neg (not_or.mpr ⟨h.nonempty, h.not_dot⟩), if_neg h.not_dotdot, pushComponents]
  rw [walk, hroot, hpieces]
  exact hpush

theorem intercalate_concat (sep name : Bytes) : ∀ {stack : List Bytes}, stack ≠ [] →
    sep.intercalate (stack ++ [name]) = sep.intercalate stack ++ sep ++ name
  | [], h => absurd rfl h
  | [c], _ => by
    rw [List.singleton_append, List.intercalate_cons_cons, List.intercalate_singleton,
      List.intercalate_singleton]
  | c :: d :: cs, _ => by
    have ih := intercalate_concat sep name (List.cons_ne_nil d cs)
    rw [List.cons_append, List.intercalate_cons_of_ne_nil (List.append_ne_nil_of_left_ne_nil
      (List.cons_ne_nil d cs) [name]), ih, List.intercalate_cons_cons]
    simp only [List.append_assoc]

theorem render_append {stack : List Bytes} (h : ∀ c ∈ stack, IsName c) (name : Bytes) :
    render (stack ++ [name]) = child (render stack) name := by
  unfold child
  by_cases hnil : stack = []
  · rw [if_pos ((render_eq_root h).mpr hnil), hnil]
    exact congrArg (List.cons 0x2F) (List.intercalate_singleton ..)
  · rw [if_neg (mt (render_eq_root h).mp hnil), render, render, List.cons_append, List.cons_append]
    exact congrArg (List.cons 0x2F) (intercalate_concat [0x2F] name hnil)

/-- The name of an entry leads from its directory to the entry. -/
theorem sfsJoinPath_child {path : Bytes} (hpath : Reached path) (hname : IsName name) :
    sfsJoinPath path name = child path name := by
  obtain ⟨stack, hstack, rfl⟩ := hpath.render
  rw [sfsJoinPath_render hstack, walk_isName_self hname, render_append hstack]

/-! ## The registry -/

namespace Registries

variable {st : Registries} {h : Uintptr} {x y : FileHandle} {v : SfsPublishEntry}

/-- Every handle is on a path that the joins reach from the root. -/
def AllReached (st : Registries) : Prop := ∀ h x, st.handle h = some x → Reached x.path

theorem call_openFile (hx : st.handle h = some x) (hv : st.sfsPublishLookup x.owner = some v)
    (outNew : Bool) (name : Option (ℕ → UInt16)) (mode attr fresh : Uintptr) (hne : fresh ≠ 0) :
    st.call ⟨h, .openFile outNew name mode attr, fresh, hne⟩ =
      match x.openTarget (some v) outNew name mode with
      | .error status => (st, { status := status })
      | .ok (full, isDir) =>
        let entry : FileHandle :=
          { proto := fresh, owner := x.owner, path := full, isDir := isDir, live := hne }
        match st.sfsAllocFileHandle with
        | none => (st, { status := sfsEFIOutOfResources })
        | some slot => (⟨st.volumes, st.handles.set slot (some entry)⟩,
            { status := sfsEFISuccess, handle := some fresh }) := by
  obtain ⟨i, hlookup, -, -⟩ := lookup_eq_some hx
  cases htarget : x.openTarget (some v) outNew name mode with
  | error status => simp only [call, sfsFileOpen, hlookup, hv, htarget]
  | ok target =>
    cases halloc : st.sfsAllocFileHandle with
    | none => simp only [call, sfsFileOpen, hlookup, hv, htarget, halloc]
    | some slot => simp only [call, sfsFileOpen, hlookup, hv, htarget, halloc]

variable {mode : Uintptr}

theorem openTarget_path {outNew : Bool} {name : Option (ℕ → UInt16)} {target : Bytes × Bool}
    (h : x.openTarget (some v) outNew name mode = .ok target) :
    target.1 = sfsJoinPath x.path (sfsReadUCS2 name) := by
  simp only [FileHandle.openTarget] at h
  split_ifs at h
  cases hstat : v.fs.stat (sfsJoinPath x.path (sfsReadUCS2 name)) with
  | none =>
    rw [hstat] at h
    cases h
  | some s =>
    rw [hstat] at h
    cases h
    rfl

/-- A handle that a call adds was opened by it, from the handle that was called on. -/
theorem handle_call_new (hwf : st.WF) {c : Call} (hfresh : st.Fresh (.call c)) (hx : st.handle h = none)
    (hy : (st.call c).1.handle h = some y) :
    ∃ z name, st.handle c.this = some z ∧ y.path = sfsJoinPath z.path name := by
  cases hz : st.handle c.this with
  | none =>
    rw [call_missing hz, hx] at hy
    cases hy
  | some z =>
    cases hopen : c.op.isOpen with
    | false =>
      obtain ⟨missing, hcall⟩ := st.call_eq_onHandle hopen
      obtain ⟨-, -, -, hhandle⟩ := onHandle_spec hwf.handles missing
        (f := fun owner slot => slot.act owner c.op) hz fun y hy => (FileHandle.same_act hy).proto
      rw [hcall, hhandle, Function.update_of_ne (ne_of_handle hz hx).symm, hx] at hy
      cases hy
    | true =>
      have hnone := hfresh hopen
      obtain ⟨v, hv⟩ := hwf.owned c.this z hz
      obtain ⟨this, op, fresh, fresh_ne⟩ := c
      obtain ⟨outNew, name, mode, attr, rfl⟩ := op.isOpen_iff.mp hopen
      rw [call_openFile hz hv] at hy
      cases htarget : z.openTarget (some v) outNew name mode with
      | error status =>
        rw [htarget] at hy
        cases hx.symm.trans hy
      | ok target =>
        rw [htarget] at hy
        simp only at hy
        cases halloc : st.sfsAllocFileHandle with
        | none =>
          rw [halloc] at hy
          cases hx.symm.trans hy
        | some slot =>
          rw [halloc] at hy
          let entry : FileHandle :=
            { proto := fresh, owner := z.owner, path := target.1, isDir := target.2, live := fresh_ne }
          obtain ⟨-, hfind⟩ := hwf.handles.find_take (a := entry) halloc hnone
          have hy : Function.update st.handle fresh (some entry) h = some y := (congrFun hfind h).symm.trans hy
          by_cases hh : h = fresh
          · rw [hh, Function.update_self] at hy
            rw [← Option.some.inj hy]
            exact ⟨z, sfsReadUCS2 name, rfl, openTarget_path htarget⟩
          · rw [Function.update_of_ne hh, hx] at hy
            cases hy

theorem allReached_step (hwf : st.WF) (hall : st.AllReached) {e : Event} (hfresh : st.Fresh e) :
    (st.step e).AllReached := by
  intro h y hy
  cases hx : st.handle h with
  | some x =>
    rw [(same_step hwf hfresh hx hy).path]
    exact hall h x hx
  | none =>
    cases e with
    | openVolume => exact absurd (hx.symm.trans hy) nofun
    | publish c =>
      rw [step] at hy
      obtain hsame | ⟨fs, -, -, -, hhandle⟩ := hwf.publishSFS hfresh
      · rw [hsame, hx] at hy
        cases hy
      · rw [hhandle] at hy
        by_cases hroot : h = c.rootProto
        · rw [hroot, Function.update_self] at hy
          cases hy
          exact .root
        · rw [Function.update_of_ne hroot, hx] at hy
          cases hy
    | call c =>
      obtain ⟨z, name, hz, hpath⟩ := handle_call_new hwf hfresh hx hy
      rw [hpath]
      exact .join name (hall c.this z hz)

theorem allReached_init : init.AllReached := by
  intro h x hx
  obtain ⟨v, hv⟩ := wf_init.owned h x hx
  obtain ⟨-, i, hi⟩ := (Slots.distinct_replicate _).find_iff.mp hv
  simp [List.getElem?_replicate] at hi

theorem reached_run {es : List Event} (hes : RunMeets step Fresh init es)
    (hx : (runFrom step init es).handle h = some x) : Reached x.path :=
  (hes.invariant (I := fun st => st.WF ∧ st.AllReached)
    (fun _ _ hI hfresh => ⟨wf_step hI.1 hfresh, allReached_step hI.1 hI.2 hfresh⟩)
    ⟨wf_init, allReached_init⟩ es List.prefix_rfl).2 h x hx

/-- A read of a directory that returns an entry returns the one that the handle is at. -/
theorem read_listed (hwf : st.WF) (hall : st.AllSound) (hx : st.handle h = some x)
    (hv : st.sfsPublishLookup x.owner = some v) (hdir : x.isDir = true) {size : Uintptr}
    (hstatus : (st.call ((ReadCall.read size).on h)).2.status = sfsEFISuccess)
    (hsome : (st.call ((ReadCall.read size).on h)).2.size ≠ some 0) :
    ∃ entries d, v.fs.listDir x.path = some entries ∧
      (entries.filter fun e => ¬ (e.name = str "." ∨ e.name = str ".."))[x.direntI]? = some d ∧
      (st.call ((ReadCall.read size).on h)).2 = entryReply (some (cacheDirent v.fs x.path d)) := by
  have hreply : (st.call ((ReadCall.read size).on h)).2 =
      ((Cursor.dir (listing v.fs x.path) x.direntI).read size.toNat).2 := by
    have hlaw := replies_eq_cursor [.read size] hwf hx hv (hall h x v hx hv)
    rw [FileHandle.cursor_of_isDir hdir] at hlaw
    exact List.head_eq_of_cons_eq hlaw
  rw [hreply] at hstatus hsome ⊢
  unfold listing at hstatus hsome ⊢
  cases hlist : v.fs.listDir x.path with
  | none =>
    rw [hlist] at hstatus
    exact absurd (show sfsEFIDeviceError = sfsEFISuccess from hstatus) (by decide)
  | some entries =>
    rw [hlist] at hstatus hsome
    simp only [Option.map_some, Cursor.read, List.getElem?_map] at hstatus hsome ⊢
    cases hd : (entries.filter fun e => ¬ (e.name = str "." ∨ e.name = str ".."))[x.direntI]? with
    | none =>
      rw [hd] at hsome
      exact absurd rfl hsome
    | some d =>
      rw [hd] at hstatus
      refine ⟨entries, d, rfl, hd, ?_⟩
      simp only [Option.map_some] at hstatus ⊢
      split_ifs at hstatus ⊢ with hroom
      · exact absurd (show sfsEFIBufferTooSmall = sfsEFISuccess from hstatus) (by decide)
      · rfl

/-- The modes that only ask to read. -/
def ReadOnly (mode : Uintptr) : Prop :=
  mode &&& sfsFileModeRead ≠ 0 ∧ mode &&& sfsFileModeWrite = 0 ∧ mode &&& sfsFileModeCreate = 0

instance (mode : Uintptr) : Decidable (ReadOnly mode) := inferInstanceAs (Decidable (_ ∧ _ ∧ _))

/-- What opening the path `full` gives: nothing if there is nothing at it, and otherwise a handle, if a
slot is free.  The handle is a directory if the attributes say so. -/
def Opens (fs : Filesystem) (full info : Bytes) (fresh : Uintptr) (st : Registries)
    (r : Registries × Reply) : Prop :=
  match fs.stat full with
  | none => r.2.status = sfsEFINotFound
  | some _ =>
    st.sfsAllocFileHandle = none ∧ r.2.status = sfsEFIOutOfResources ∨
    ∃ z, r.2.status = sfsEFISuccess ∧ r.2.handle = some fresh ∧ r.1.handle fresh = some z ∧ z.path = full ∧
      (z.isDir = true ↔ leNat (readAt info 72 8) &&& sfsFileAttrDirectory ≠ 0)

theorem fileAttr_directory (isDir : Bool) :
    fileAttr isDir < 256 ∧ (isDir = true ↔ fileAttr isDir &&& sfsFileAttrDirectory ≠ 0) := by
  cases isDir <;> decide

theorem cacheDirent_spec (fs : Filesystem) (path : Bytes) (d : DirEntry) :
    (cacheDirent fs path d).name = d.name ∧
    ∀ s, fs.stat (sfsJoinPath path d.name) = some s → (cacheDirent fs path d).isDir = s.isDir := by
  unfold cacheDirent
  cases hstat : fs.stat (sfsJoinPath path d.name) with
  | none => exact ⟨rfl, nofun⟩
  | some st =>
    refine ⟨rfl, fun s hs => ?_⟩
    cases hs
    rfl

/-- The call that passes a stored name back. -/
def openListed (h : Uintptr) (info : Bytes) (beyond : ℕ → UInt16) (mode attr fresh : Uintptr)
    (hne : fresh ≠ 0) : Call :=
  ⟨h, .openFile true (some (fileNameField info beyond)) mode attr, fresh, hne⟩

theorem openTarget_child (hmode : ReadOnly mode) (hpath : Reached x.path) (hname : IsName name)
    {mem : ℕ → UInt16} (hmem : sfsReadUCS2 (some mem) = name) :
    x.openTarget (some v) true (some mem) mode =
      match v.fs.stat (child x.path name) with
      | none => .error sfsEFINotFound
      | some s => .ok (child x.path name, s.isDir) := by
  obtain ⟨hread, hwrite, hcreate⟩ := hmode
  simp only [FileHandle.openTarget, hmem, sfsJoinPath_child hpath hname]
  have hguards : ¬ (mode &&& sfsFileModeWrite ≠ 0 ∨ mode &&& sfsFileModeCreate ≠ 0) :=
    not_or.mpr ⟨not_not_intro hwrite, not_not_intro hcreate⟩
  cases v.fs.stat (child x.path name) with
  | none => rw [if_neg Bool.noConfusion, if_neg hguards, if_neg hread, if_neg hname.nonempty]
  | some s => rw [if_neg Bool.noConfusion, if_neg hguards, if_neg hread, if_neg hname.nonempty]

theorem opens_openListed (hwf : st.WF) (hx : st.handle h = some x)
    (hv : st.sfsPublishLookup x.owner = some v) (hpath : Reached x.path) {d : DirEntry}
    (hplain : PlainName d.name) (hname : IsName d.name) {attr fresh : Uintptr} (hmode : ReadOnly mode)
    (hne : fresh ≠ 0) (hfresh : st.handle fresh = none) (beyond : ℕ → UInt16) :
    Opens v.fs (child x.path d.name) (entryInfo (cacheDirent v.fs x.path d)) fresh st
      (st.call (openListed h (entryInfo (cacheDirent v.fs x.path d)) beyond mode attr fresh hne)) := by
  obtain ⟨hcached, hisDir⟩ := cacheDirent_spec v.fs x.path d
  obtain ⟨hattr, hbit⟩ := fileAttr_directory (cacheDirent v.fs x.path d).isDir
  rw [← hcached] at hplain
  obtain ⟨-, -, hattrs, hback⟩ := hplain.fileInfo (cacheDirent v.fs x.path d).size.toNat hattr
  have hback : sfsReadUCS2 (some (fileNameField (entryInfo (cacheDirent v.fs x.path d)) beyond)) = d.name :=
    (hback beyond).trans hcached
  rw [sfsJoinPath_child hpath hname] at hisDir
  rw [openListed, call_openFile hx hv, openTarget_child hmode hpath hname hback, Opens]
  cases hstat : v.fs.stat (child x.path d.name) with
  | none => rfl
  | some s =>
    simp only
    cases halloc : st.sfsAllocFileHandle with
    | none => exact .inl ⟨rfl, rfl⟩
    | some slot =>
      let entry : FileHandle :=
        { proto := fresh, owner := x.owner, path := child x.path d.name, isDir := s.isDir, live := hne }
      obtain ⟨-, hfind⟩ := hwf.handles.find_take (a := entry) halloc hfresh
      refine .inr ⟨entry, rfl, rfl, (congrFun hfind fresh).trans (Function.update_self ..), rfl, ?_⟩
      rw [entryInfo, hattrs, ← hbit, hisDir s hstat]

/-- **What is listed can be opened.**  A read of the open directory `h` has returned an entry.  For a
plain name that is not empty, the size in the information is the number of bytes written, up to the
zero unit at the end; and if the stored name is passed to `Open` of the same handle, in any later state
in which it is still open, it leads to the entry. -/
theorem listed_opens {es es' : List Event} {h size fresh mode attr : Uintptr} (hne : fresh ≠ 0)
    (beyond : ℕ → UInt16) {x : FileHandle} {v : SfsPublishEntry} {rd : Call} {info : Reply}
    (hrd : rd = (ReadCall.read size).on h) (hinfo : info = ((runFrom step init es).call rd).2)
    (hrun : RunMeets step Fresh init
      (es ++ .call rd :: (es' ++ [.call (openListed h info.data beyond mode attr fresh hne)])))
    (halive : ∀ p, p <+: es' → ((runFrom step init (es ++ .call rd :: p)).handle h).isSome)
    (hx : (runFrom step init es).handle h = some x) (hdir : x.isDir = true)
    (hv : (runFrom step init es).sfsPublishLookup x.owner = some v)
    (hstatus : info.status = sfsEFISuccess) (hsome : info.size ≠ some 0) :
    ∃ entries d, v.fs.listDir x.path = some entries ∧
      (entries.filter fun e => ¬ (e.name = str "." ∨ e.name = str ".."))[x.direntI]? = some d ∧
      info.data = entryInfo (cacheDirent v.fs x.path d) ∧
      (PlainName d.name → d.name ≠ [] →
        info.size = some info.data.length ∧ leNat (readAt info.data 0 8) = info.data.length ∧
        info.data.drop (info.data.length - 2) = [0, 0] ∧
        (ReadOnly mode →
          Opens v.fs (child x.path d.name) info.data fresh (runFrom step init (es ++ .call rd :: es'))
            ((runFrom step init (es ++ .call rd :: es')).call
              (openListed h info.data beyond mode attr fresh hne)))) := by
  rw [runMeets_append] at hrun
  obtain ⟨hes, hfresh, hrun⟩ := hrun
  rw [runMeets_append] at hrun
  obtain ⟨hes', hfresh', -⟩ := hrun
  have hwf := wf_run hes
  have hall := allSound_run hes
  subst hrd
  rw [hinfo] at hstatus hsome
  obtain ⟨entries, d, hlist, hd, hreply⟩ := read_listed hwf hall hx hv hdir hstatus hsome
  rw [← hinfo] at hreply
  have hdata : info.data = entryInfo (cacheDirent v.fs x.path d) := congrArg Reply.data hreply
  refine ⟨entries, d, hlist, hd, hdata, ?_⟩
  intro hplain hnonempty
  have hcached := (cacheDirent_spec v.fs x.path d).1
  have hattr := (fileAttr_directory (cacheDirent v.fs x.path d).isDir).1
  obtain ⟨hlength, hterm, -, -⟩ :=
    (hcached ▸ hplain).fileInfo (cacheDirent v.fs x.path d).size.toNat hattr
  have hsize : info.size = some info.data.length := by
    rw [hdata]
    exact congrArg Reply.size hreply
  refine ⟨hsize, by rw [hdata]; exact hlength, by rw [hdata]; exact hterm, ?_⟩
  intro hmode
  -- the handle is the same as when it was read
  simp only [runFrom_append, runFrom_cons] at halive ⊢
  obtain ⟨y, hy⟩ := Option.isSome_iff_exists.mp (halive [] List.nil_prefix)
  obtain ⟨z, hz, hsame⟩ := same_run (wf_step hwf hfresh) hes' hy halive
  have hsame := (same_step hwf hfresh hx hy).trans hsame
  have hlookup := lookup_run (wf_step hwf hfresh) hes' (lookup_step hwf hfresh hv)
  rw [← hsame.owner] at hlookup
  have hwf' := hes'.invariant (I := WF) (fun _ _ hwf hfresh => wf_step hwf hfresh) (wf_step hwf hfresh) es'
    List.prefix_rfl
  have hdots : ¬ (d.name = str "." ∨ d.name = str "..") := by
    have hvisible := List.of_mem_filter (List.mem_of_getElem? hd)
    exact of_decide_eq_true hvisible
  have hname : IsName d.name := ⟨hnonempty, fun h => hdots (.inl h), fun h => hdots (.inr h), hplain.no_slash,
    hplain.no_backslash⟩
  have hpath : Reached z.path := by
    rw [hsame.path]
    exact reached_run hes hx
  rw [hdata, ← hsame.path]
  exact opens_openListed hwf' hz hlookup hpath hplain hname hmode hne (hfresh' rfl) beyond

/-- The reply to the first read of its root. -/
def firstEntry (name : Bytes) : Reply :=
  ((runFrom step init [.publish (oneEntryVolume name)]).call ((ReadCall.read 0x100).on 0x20)).2

theorem listed_opens_k :
    PlainName (str "k") ∧
    Opens (oneEntry (str "k")) (child (str "/") (str "k")) (firstEntry (str "k")).data 0x30
      (runFrom step init [.publish (oneEntryVolume (str "k")), .call ((ReadCall.read 0x100).on 0x20)])
      ((runFrom step init [.publish (oneEntryVolume (str "k")), .call ((ReadCall.read 0x100).on 0x20)]).call
        (openListed 0x20 (firstEntry (str "k")).data (fun _ => 7) sfsFileModeRead 0 0x30 (by decide))) := by
  have hplain : PlainName (str "k") :=
    ⟨⟨[0x6B], rfl, by simp [IsBasic], by decide⟩, by decide, by decide⟩
  obtain ⟨entries, d, hlist, hd, hdata, hopens⟩ :=
    @listed_opens [.publish (oneEntryVolume (str "k"))] [] 0x20 0x100 0x30 sfsFileModeRead 0 (by decide)
      (fun _ => 7) _ _ _ (firstEntry (str "k")) rfl rfl
      ⟨⟨rfl, rfl⟩, nofun, fun _ => rfl, trivial⟩
      (by
        intro p hp
        rw [List.prefix_nil.mp hp]
        rfl)
      rfl rfl rfl (by decide +kernel) (by decide +kernel)
  cases hlist
  cases hd
  exact ⟨hplain, (hopens hplain (by decide)).2.2.2 (by decide)⟩

/-- An empty name is a plain name, but `Open` takes it for a missing argument. -/
theorem listed_empty_refused :
    PlainName [] ∧ (firstEntry []).status = sfsEFISuccess ∧ (firstEntry []).size ≠ some 0 ∧
    (firstEntry []).data = entryInfo ⟨[], false, 3⟩ ∧
    ((runFrom step init [.publish (oneEntryVolume []), .call ((ReadCall.read 0x100).on 0x20)]).call
      (openListed 0x20 (firstEntry []).data (fun _ => 7) sfsFileModeRead 0 0x30 (by decide))).2 =
        { status := sfsEFIInvalidParameter } := by
  refine ⟨⟨⟨[], rfl, nofun, by decide⟩, by decide, by decide⟩, ?_, ?_, ?_, ?_⟩
  · decide +kernel
  · decide +kernel
  · decide +kernel
  · decide +kernel

end Registries

end TamagoUefi.Sfs
