import TamagoUefi.Sfs.Independence

/-!
# TamagoUefi.Sfs.ReadLaw — reading an open handle

`Cursor` says what an open handle is for its reader: the contents of a file and a position, or the
entries of a directory and the number of those that have been read.  The contents and entries are
those of the file system behind; the handle loads and keeps them when it is asked.

* `FileHandle.Sound`: what a handle keeps is what the file system gives.
* `Registries.read_law`: any reads and changes of position on an open handle give the replies of its
  cursor.
-/

namespace TamagoUefi.Sfs

open Go Lib
open FileHandle hiding pos
open Board (Uintptr)

/-! ## Cursors -/

inductive Cursor
  /-- The contents, unless the file cannot be read. -/
  | file (contents : Option Bytes) (pos : ℕ)
  /-- The entries, unless the directory cannot be listed. -/
  | dir (entries : Option (List DirEntryCached)) (next : ℕ)

/-- The calls that move a cursor, with their pointers in place. -/
inductive ReadCall
  | read (size : Uintptr)
  | setPosition (pos : Uintptr)

def entryInfo (e : DirEntryCached) : Bytes := fileInfo e.name e.size.toNat (fileAttr e.isDir)

/-- The reply to a read that has room for the entry; after the last entry it is empty. -/
def entryReply : Option DirEntryCached → Reply
  | some e => { status := sfsEFISuccess, size := some (entryInfo e).length, data := entryInfo e }
  | none => { status := sfsEFISuccess, size := some 0 }

namespace Cursor

def read : Cursor → ℕ → Cursor × Reply
  | file (some contents) pos, size =>
    let data := (contents.drop pos).take size
    (file (some contents) (pos + data.length),
      { status := sfsEFISuccess, size := some data.length, data := data })
  | dir (some entries) next, size =>
    match entries[next]? with
    | none => (dir (some entries) next, entryReply none)
    | some e =>
      if size < (entryInfo e).length then
        (dir (some entries) next, { status := sfsEFIBufferTooSmall, size := some (entryInfo e).length })
      else (dir (some entries) (next + 1), entryReply (some e))
  | c, _ => (c, { status := sfsEFIDeviceError })

def setPosition : Cursor → Uintptr → Cursor × Reply
  | file contents at_, pos =>
    if pos = sfsPositionEnd then
      match contents with
      | none => (file none at_, { status := sfsEFIDeviceError })
      | some b => (file (some b) b.length, { status := sfsEFISuccess })
    else (file contents pos.toNat, { status := sfsEFISuccess })
  | dir entries next, pos =>
    if pos = 0 then (dir entries 0, { status := sfsEFISuccess })
    else (dir entries next, { status := sfsEFIUnsupported })

def step (c : Cursor) : ReadCall → Cursor × Reply
  | .read size => c.read size.toNat
  | .setPosition pos => c.setPosition pos

def replies (c : Cursor) : List ReadCall → List Reply
  | [] => []
  | a :: as => (c.step a).2 :: (c.step a).1.replies as

end Cursor

/-! ## What the file system shows -/

def contents (fs : Filesystem) (path : Bytes) : Option Bytes := (fs.readFile path).map (·.getD [])

/-- The entries other than `.` and `..`, in the order of the listing. -/
def listing (fs : Filesystem) (path : Bytes) : Option (List DirEntryCached) :=
  (fs.listDir path).map fun es =>
    (es.filter fun e => ¬ (e.name = str "." ∨ e.name = str "..")).map (cacheDirent fs path)

theorem cacheDirents_eq (fs : Filesystem) (path : Bytes) (es : List DirEntry) :
    cacheDirents fs path es =
      (es.filter fun e => ¬ (e.name = str "." ∨ e.name = str "..")).map (cacheDirent fs path) := by
  induction es with
  | nil => rfl
  | cons e es ih =>
    rw [cacheDirents, List.filter_cons]
    by_cases hdots : e.name = str "." ∨ e.name = str ".."
    · rw [if_pos hdots, if_neg (by rw [decide_eq_true_eq]; exact not_not_intro hdots), ih]
    · rw [if_neg hdots, if_pos (decide_eq_true hdots), List.map_cons, ih]

namespace FileHandle

def cursor (fs : Filesystem) (x : FileHandle) : Cursor :=
  if x.isDir then .dir (listing fs x.path) x.direntI else .file (contents fs x.path) x.pos

/-- What the handle keeps comes from the file system. -/
structure Sound (fs : Filesystem) (x : FileHandle) : Prop where
  body : ∀ b, x.body = some b → fs.readFile x.path = some (some b)
  bodyErr : x.bodyErr = true → fs.readFile x.path = none
  dirents : ∀ ds, x.dirents = some ds → listing fs x.path = some ds
  start : x.dirents = none → x.direntI = 0

variable {fs : Filesystem} {x : FileHandle}

theorem New.sound (h : x.New) : x.Sound fs where
  body := by simp [h.body]
  bodyErr := by simp [h.bodyErr]
  dirents := by simp [h.dirents]
  start := fun _ => h.direntI

theorem Sound.move {v : SfsPublishEntry} {y : FileHandle} (hs : x.Sound v.fs) (h : x.Move (some v) y) :
    y.Sound v.fs := by
  cases h with
  | unread hv h =>
    cases hv
    exact ⟨hs.body, fun _ => h, hs.dirents, hs.start⟩
  | loaded hv h =>
    cases hv
    exact ⟨fun b hb => h.trans (congrArg some hb), hs.bodyErr, hs.dirents, hs.start⟩
  | seek => exact ⟨hs.body, hs.bodyErr, hs.dirents, hs.start⟩
  | listed hv h =>
    cases hv
    refine ⟨hs.body, hs.bodyErr, fun ds hds => ?_, fun h => nomatch h⟩
    rw [listing, h, Option.map_some, ← cacheDirents_eq]
    exact hds
  | next bs he hroom =>
    refine ⟨hs.body, hs.bodyErr, hs.dirents, fun hd => ?_⟩
    have hnone : x.dirents = none := hd
    rw [hnone] at he
    cases he
  | rewind => exact ⟨hs.body, hs.bodyErr, hs.dirents, fun _ => rfl⟩

theorem Sound.act {v : SfsPublishEntry} (hs : x.Sound v.fs) {op : Op} {y : FileHandle}
    (hy : (x.act (some v) op).1 = some y) : y.Sound v.fs :=
  act_rule (P := Sound v.fs) (fun hmove hs => hs.move hmove) hy hs

theorem Sound.loadBody (hs : x.Sound fs) :
    (x.loadBody fs).2 = contents fs x.path ∧ (x.loadBody fs).1.pos = x.pos := by
  unfold FileHandle.loadBody contents
  by_cases hload : x.body = none ∧ x.bodyErr = false
  · rw [if_pos hload]
    cases hread : fs.readFile x.path with
    | none => exact ⟨rfl, rfl⟩
    | some body => exact ⟨rfl, rfl⟩
  · rw [if_neg hload]
    cases herr : x.bodyErr with
    | true =>
      rw [hs.bodyErr herr]
      exact ⟨rfl, rfl⟩
    | false =>
      cases hbody : x.body with
      | none => exact absurd ⟨hbody, herr⟩ hload
      | some b =>
        rw [hs.body b hbody]
        exact ⟨rfl, rfl⟩

theorem length_wanted (x : FileHandle) (b : Bytes) (bs : ℕ) :
    ((b.drop x.pos).take bs).length = x.wanted b bs ∧
      (b.drop x.pos).take bs = readAt b x.pos (x.wanted b bs) := by
  have hlen : ((b.drop x.pos).take bs).length = x.wanted b bs := by
    rw [List.length_take, List.length_drop, wanted]
    split_ifs <;> omega
  refine ⟨hlen, ?_⟩
  rw [readAt, ← hlen, List.length_take, List.take_eq_take_iff]
  omega

theorem cursor_of_isFile (h : x.isDir = false) : x.cursor fs = .file (contents fs x.path) x.pos := by
  rw [cursor, h]
  rfl

theorem cursor_of_isDir (h : x.isDir = true) : x.cursor fs = .dir (listing fs x.path) x.direntI := by
  rw [cursor, h]
  rfl

theorem Sound.cursor_loadBody (hs : x.Sound fs) (hfile : x.isDir = false) (p : ℕ) :
    cursor fs { (x.loadBody fs).1 with pos := p } = .file (x.loadBody fs).2 p := by
  have hsame := x.same_loadBody fs
  rw [cursor_of_isFile (x := { (x.loadBody fs).1 with pos := p }) (hsame.isDir.trans hfile), hs.loadBody.1]
  exact congrArg (Cursor.file · p) (congrArg (contents fs) hsame.path)

theorem Sound.cursor_readFile (hs : x.Sound fs) (hfile : x.isDir = false) (bs : ℕ) :
    (x.readFile fs bs true).2 = ((x.cursor fs).read bs).2 ∧
    (x.readFile fs bs true).1.cursor fs = ((x.cursor fs).read bs).1 := by
  obtain ⟨hbody, hpos⟩ := hs.loadBody
  have hy := hs.cursor_loadBody hfile
  rw [cursor_of_isFile hfile, ← hbody]
  unfold readFile
  cases h : x.loadBody fs with
  | mk y body =>
    rw [h] at hpos hy
    cases body with
    | none => exact ⟨rfl, (hy y.pos).trans (congrArg _ hpos)⟩
    | some b =>
      obtain ⟨hlen, hdata⟩ := y.length_wanted b bs
      have hpos : y.pos = x.pos := hpos
      rw [hpos] at hlen hdata
      simp only [Cursor.read, hlen]
      by_cases hzero : y.wanted b bs = 0
      · rw [if_pos hzero, hzero, List.eq_nil_of_length_eq_zero (hlen.trans hzero)]
        exact ⟨rfl, (hy y.pos).trans (congrArg _ hpos)⟩
      · rw [if_neg hzero, if_neg Bool.noConfusion, hdata, hpos]
        exact ⟨rfl, hy _⟩

/-- The entries are loaded before the first one is read. -/
theorem Sound.loadDirents (hs : x.Sound fs) :
    (if x.dirents.isNone then x.sfsLoadDirents fs else some x) =
      (listing fs x.path).map fun ds => { x with dirents := some ds } := by
  cases hd : x.dirents with
  | none =>
    rw [Option.isNone_none, if_pos rfl, sfsLoadDirents, listing, Option.map_map]
    simp only [cacheDirents_eq, hs.start hd]
    rfl
  | some ds =>
    have hsame : { x with dirents := some ds } = x := by rw [← hd]
    rw [Option.isNone_some, if_neg Bool.noConfusion, hs.dirents ds hd, Option.map_some, hsame]

theorem infoReply_true (e : DirEntryCached) (bs : ℕ) :
    infoReply e.name e.size.toNat (fileAttr e.isDir) bs true =
      if bs < (entryInfo e).length then
        { status := sfsEFIBufferTooSmall, size := some (entryInfo e).length }
      else entryReply (some e) := by
  unfold infoReply entryReply entryInfo sfsWriteFileInfo
  simp only [length_fileInfo, lt_self_iff_false, if_false, Bool.true_eq_false]

theorem Sound.cursor_readDir (hs : x.Sound fs) (hdir : x.isDir = true) (bs : ℕ) :
    (x.readDir fs bs true).2 = ((x.cursor fs).read bs).2 ∧
    (x.readDir fs bs true).1.cursor fs = ((x.cursor fs).read bs).1 := by
  have hcursor : ∀ (o : Option (List DirEntryCached)) (i : ℕ),
      cursor fs { x with dirents := o, direntI := i } = .dir (listing fs x.path) i :=
    fun o i => cursor_of_isDir (x := { x with dirents := o, direntI := i }) hdir
  rw [cursor_of_isDir hdir]
  unfold readDir
  rw [hs.loadDirents]
  cases hds : listing fs x.path with
  | none => exact ⟨rfl, (cursor_of_isDir hdir).trans (by rw [hds]; rfl)⟩
  | some ds =>
    simp only [Option.map_some, Option.getD_some, Cursor.read]
    rw [hds] at hcursor
    cases ds[x.direntI]? with
    | none => exact ⟨rfl, hcursor (some ds) x.direntI⟩
    | some e =>
      simp only [infoReply_true]
      by_cases hroom : bs < (entryInfo e).length
      · have hsmall : sfsEFIBufferTooSmall ≠ sfsEFISuccess := by decide
        rw [if_pos hroom, if_pos hroom, if_neg hsmall]
        exact ⟨rfl, hcursor (some ds) x.direntI⟩
      · have hok : (entryReply (some e)).status = sfsEFISuccess := rfl
        rw [if_neg hroom, if_neg hroom, if_pos hok]
        exact ⟨rfl, hcursor (some ds) (x.direntI + 1)⟩

theorem Sound.setPosition (hs : x.Sound fs) (owner : SfsPublishEntry) (hfs : owner.fs = fs) (pos : Uintptr) :
    (x.setPosition (some owner) pos).2 = ((x.cursor fs).setPosition pos).2 ∧
    (x.setPosition (some owner) pos).1.cursor fs = ((x.cursor fs).setPosition pos).1 := by
  unfold FileHandle.setPosition
  by_cases hdir : x.isDir = true
  · rw [if_pos hdir, cursor_of_isDir hdir]
    simp only [Cursor.setPosition]
    by_cases hpos : pos = 0
    · rw [if_neg (not_not_intro hpos), if_pos hpos]
      exact ⟨rfl, cursor_of_isDir hdir⟩
    · rw [if_pos hpos, if_neg hpos]
      exact ⟨rfl, cursor_of_isDir hdir⟩
  · have hfile := Bool.eq_false_of_not_eq_true hdir
    obtain ⟨hbody, hpos⟩ := hs.loadBody
    have hy := hs.cursor_loadBody hfile
    rw [if_neg hdir, cursor_of_isFile hfile]
    simp only [Cursor.setPosition, hfs]
    by_cases hend : pos = sfsPositionEnd
    · rw [if_pos hend, if_pos hend, ← hbody]
      cases h : x.loadBody fs with
      | mk y body =>
        rw [h] at hpos hy
        cases body with
        | none => exact ⟨rfl, (hy y.pos).trans (congrArg _ hpos)⟩
        | some b => exact ⟨rfl, hy _⟩
    · rw [if_neg hend, if_neg hend]
      exact ⟨rfl, cursor_of_isFile hfile⟩

end FileHandle

def ReadCall.op : ReadCall → Op
  | .read size => .read (some size) true
  | .setPosition pos => .setPosition pos

/-- Nothing is allocated in the call. -/
def ReadCall.on (a : ReadCall) (h : Uintptr) : Call := ⟨h, a.op, 1, Registries.unusedAddr_ne⟩

/-- One call moves the handle as it moves its cursor. -/
theorem FileHandle.Sound.cursor_act {v : SfsPublishEntry} {x : FileHandle} (hs : x.Sound v.fs) (a : ReadCall) :
    ∃ y, x.act (some v) a.op = (some y, ((x.cursor v.fs).step a).2) ∧
      y.cursor v.fs = ((x.cursor v.fs).step a).1 := by
  cases a with
  | setPosition pos =>
    obtain ⟨hreply, hcursor⟩ := hs.setPosition v rfl pos
    exact ⟨_, congrArg (Prod.mk _) hreply, hcursor⟩
  | read size =>
    have hread : (x.read (some v) (some size) true).2 = ((x.cursor v.fs).read size.toNat).2 ∧
        (x.read (some v) (some size) true).1.cursor v.fs = ((x.cursor v.fs).read size.toNat).1 := by
      unfold read
      by_cases hdir : x.isDir = true
      · simp only [if_pos hdir]
        exact hs.cursor_readDir hdir size.toNat
      · simp only [if_neg hdir]
        exact hs.cursor_readFile (Bool.eq_false_of_not_eq_true hdir) size.toNat
    exact ⟨_, congrArg (Prod.mk _) hread.1, hread.2⟩

/-! ## The registry -/

namespace Registries

variable {st : Registries} {h : Uintptr} {x : FileHandle} {v : SfsPublishEntry}

/-- All handles are sound. -/
def AllSound (st : Registries) : Prop :=
  ∀ h x v, st.handle h = some x → st.sfsPublishLookup x.owner = some v → x.Sound v.fs

theorem allSound_run {es : List Event} (hes : RunMeets step Fresh init es) :
    (runFrom step init es).AllSound :=
  handles_run (Q := fun fs x => x.Sound fs) (fun _ _ hnew => hnew.sound) (fun _ _ _ _ hs hy => hs.act hy) hes

/-- The replies to some calls on a handle, one after the other. -/
def replies (st : Registries) (h : Uintptr) : List ReadCall → List Reply
  | [] => []
  | a :: as => (st.call (a.on h)).2 :: (st.call (a.on h)).1.replies h as

/-- One call on a handle moves it as it moves its cursor, and leaves the others alone. -/
theorem call_on (hwf : st.WF) (hx : st.handle h = some x) (hv : st.sfsPublishLookup x.owner = some v)
    (hs : x.Sound v.fs) (a : ReadCall) :
    ∃ y, (st.call (a.on h)).2 = ((x.cursor v.fs).step a).2 ∧
      y.cursor v.fs = ((x.cursor v.fs).step a).1 ∧ y.Sound v.fs ∧ x.Same y ∧ (st.call (a.on h)).1.WF ∧
      (st.call (a.on h)).1.sfsPublishLookup = st.sfsPublishLookup ∧
      (st.call (a.on h)).1.handle = Function.update st.handle h (some y) := by
  have hopen : (a.on h).op.isOpen = false := by cases a <;> rfl
  obtain ⟨y, hact, hcursor⟩ := hs.cursor_act a
  have hy : (x.act (some v) a.op).1 = some y := congrArg Prod.fst hact
  obtain ⟨missing, hcall⟩ := st.call_eq_onHandle hopen
  obtain ⟨hreply, hvol, -, hhandle⟩ := onHandle_spec hwf.handles missing
    (f := fun owner slot => slot.act owner a.op) hx fun y hy => (same_act hy).proto
  rw [hv, hact] at hreply
  rw [hv, hy] at hhandle
  have hwf' : (st.call (a.on h)).1.WF := wf_call hwf fun hop => by rw [hopen] at hop; cases hop
  have hlookup : (st.call (a.on h)).1.sfsPublishLookup = st.sfsPublishLookup := by
    unfold sfsPublishLookup
    rw [hcall]
    exact congrArg (Slots.find _) hvol
  refine ⟨y, ?_, hcursor, hs.act hy, same_act hy, hwf', hlookup, ?_⟩
  · rw [hcall]
    exact hreply
  · rw [hcall]
    exact hhandle

/-- The handle answers as its cursor does. -/
theorem replies_eq_cursor : ∀ (calls : List ReadCall) {st : Registries} {x : FileHandle}, st.WF →
    st.handle h = some x → st.sfsPublishLookup x.owner = some v → x.Sound v.fs →
    st.replies h calls = (x.cursor v.fs).replies calls
  | [], _, _, _, _, _, _ => rfl
  | a :: as, st, x, hwf, hx, hv, hs => by
    obtain ⟨y, hreply, hcursor, hsound, hsame, hwf', hlookup, hhandle⟩ := call_on hwf hx hv hs a
    have hy : (st.call (a.on h)).1.handle h = some y := by rw [hhandle, Function.update_self]
    have hv' : (st.call (a.on h)).1.sfsPublishLookup y.owner = some v := by
      rw [hlookup, hsame.owner]
      exact hv
    rw [replies, Cursor.replies, hreply, ← hcursor, replies_eq_cursor as hwf' hy hv' hsound]

/-- Every directory has one entry, a file with the given name. -/
def oneEntry (name : Bytes) : Filesystem :=
  ⟨fun _ => some (some (str "abc")), fun _ => some [⟨name, 8⟩], fun _ => some ⟨0x8000, 3⟩⟩

def oneEntryVolume (name : Bytes) : PublishCall where
  fs := some (oneEntry name)
  bootServices := true
  proto := 0x10
  rootProto := 0x20
  proto_ne := volumeAddr_ne
  rootProto_ne := rootAddr_ne
  status := sfsEFISuccess
  handle := 1

end Registries

end TamagoUefi.Sfs
