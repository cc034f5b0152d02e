import TamagoUefi.Lib.Objects
import TamagoUefi.Sfs.Handlers

/-!
# TamagoUefi.Sfs.Independence — open handles do not disturb each other

All handles are in one registry, whose slots are freed and taken again in any order.  A handler
changes the handle that it is called on as `FileHandle.act` says, and no other one: `call_spec`.

* `FileHandle.Move`, `act_rule`: what an operation can do to its handle.
* `Registries.WF`, `wf_run`: every handle belongs to a published volume, and every published volume
  has its root open.
* `isolated`: a handle is changed by its own operations only.
* `handles_independent`: what a handle answers depends on its own operations since it was opened, and
  a root is never freed.
-/

namespace TamagoUefi.Sfs

open Go Lib Slots
open Board (Uintptr)
open Function (update update_eq_self update_of_ne update_self)

/-! ## One handle -/

/-- What an operation makes of its handle, and its reply; the address of a handle that it opens is
not known here. -/
def FileHandle.act (owner : Option SfsPublishEntry) (slot : FileHandle) : Op → Option FileHandle × Reply
  | .openFile outNew fileName openMode _ =>
    (some slot,
      match slot.openTarget owner outNew fileName openMode with
      | .error status => { status := status }
      | .ok _ => { status := sfsEFISuccess, handle := some 0 })
  | .close => (if slot.isRoot owner then some slot else none, { status := sfsEFISuccess })
  | .delete => (if slot.isRoot owner then some slot else none, { status := sfsEFIWarnDeleteFailure })
  | .read bufferSize buffer =>
    let (slot, reply) := slot.read owner bufferSize buffer
    (some slot, reply)
  | .write => (some slot, { status := sfsEFIWriteProtected })
  | .getPosition outPos => (some slot, slot.getPosition outPos)
  | .setPosition pos =>
    let (slot, reply) := slot.setPosition owner pos
    (some slot, reply)
  | .getInfo typeGUID bufferSize buffer => (some slot, slot.getInfo owner typeGUID bufferSize buffer)
  | .setInfo => (some slot, { status := sfsEFIWriteProtected })
  | .flush => (some slot, { status := sfsEFISuccess })

/-- A handle alone: what is left of it after some operations. -/
def FileHandle.acts (v : SfsPublishEntry) (x : FileHandle) (ops : List Op) : Option FileHandle :=
  ops.foldlM (fun x op => (x.act (some v) op).1) x

/-- A handle that nothing has been done with. -/
structure FileHandle.New (x : FileHandle) : Prop where
  pos : x.pos = 0
  body : x.body = none
  bodyErr : x.bodyErr = false
  dirents : x.dirents = none
  direntI : x.direntI = 0

def Op.isOpen : Op → Bool
  | .openFile .. => true
  | _ => false

theorem Op.isOpen_iff (op : Op) :
    op.isOpen = true ↔ ∃ outNew name mode attr, op = .openFile outNew name mode attr := by
  cases op with
  | openFile outNew name mode attr => simp [isOpen]
  | _ => simp [isOpen]

/-- The reply without the address that the allocator chose. -/
def Reply.upToHandle (r : Reply) : Reply := { r with handle := r.handle.map fun _ => 0 }

/-- The same handle, with another position or cache. -/
structure FileHandle.Same (x y : FileHandle) : Prop where
  proto : y.proto = x.proto
  owner : y.owner = x.owner
  path : y.path = x.path
  isDir : y.isDir = x.isDir

namespace FileHandle

theorem Same.refl (x : FileHandle) : x.Same x := ⟨rfl, rfl, rfl, rfl⟩

theorem Same.trans {x y z : FileHandle} (h : x.Same y) (h' : y.Same z) : x.Same z :=
  ⟨h'.proto.trans h.proto, h'.owner.trans h.owner, h'.path.trans h.path, h'.isDir.trans h.isDir⟩

variable (x : FileHandle)

theorem same_loadBody (fs : Filesystem) : x.Same (x.loadBody fs).1 := by
  unfold loadBody
  split_ifs
  · cases fs.readFile x.path <;> exact ⟨rfl, rfl, rfl, rfl⟩
  · exact .refl x
  · exact .refl x

end FileHandle

/-- What an operation does to a handle, step by step. -/
inductive FileHandle.Move (owner : Option SfsPublishEntry) (x : FileHandle) : FileHandle → Prop
  | unread {v : SfsPublishEntry} (hv : owner = some v) (h : v.fs.readFile x.path = none) :
      Move owner x { x with bodyErr := true }
  | loaded {v : SfsPublishEntry} {body : Option Bytes} (hv : owner = some v)
      (h : v.fs.readFile x.path = some body) : Move owner x { x with body := body }
  | seek (pos : ℕ) : Move owner x { x with pos := pos }
  | listed {v : SfsPublishEntry} {entries : List DirEntry} (hv : owner = some v)
      (h : v.fs.listDir x.path = some entries) :
      Move owner x { x with dirents := some (cacheDirents v.fs x.path entries), direntI := 0 }
  -- the entry has been read into a buffer that holds it
  | next {e : DirEntryCached} (bs : Uintptr) (he : (x.dirents.getD [])[x.direntI]? = some e)
      (hroom : sfsFileInfoSizeForName e.name ≤ bs.toNat) : Move owner x { x with direntI := x.direntI + 1 }
  | rewind : Move owner x { x with direntI := 0 }

namespace FileHandle

variable {x y : FileHandle} {owner : Option SfsPublishEntry}

theorem infoReply_success {name : Bytes} {size attr bs : ℕ} {buffer : Bool}
    (h : (infoReply name size attr bs buffer).status = sfsEFISuccess) : sfsFileInfoSizeForName name ≤ bs := by
  by_contra hroom
  rw [infoReply, if_pos (Nat.not_le.mp hroom)] at h
  exact absurd (show sfsEFIBufferTooSmall = sfsEFISuccess from h) (by decide)

section
variable {v : SfsPublishEntry} {P : FileHandle → Prop}
  (hmove : ∀ {y z : FileHandle}, y.Move owner z → P y → P z)
include hmove

theorem loadBody_rule (hv : owner = some v) (hx : P x) : P (x.loadBody v.fs).1 := by
  unfold loadBody
  split_ifs
  · cases h : v.fs.readFile x.path with
    | none => exact hmove (.unread hv h) hx
    | some body => exact hmove (.loaded hv h) hx
  · exact hx
  · exact hx

theorem readFile_rule (hv : owner = some v) (bs : ℕ) (buffer : Bool) (hx : P x) :
    P (x.readFile v.fs bs buffer).1 := by
  have hload := loadBody_rule hmove hv hx
  unfold readFile
  cases h : x.loadBody v.fs with
  | mk y body =>
    rw [h] at hload
    cases body with
    | none => exact hload
    | some body =>
      simp only
      split_ifs
      · exact hload
      · exact hload
      · exact hmove (.seek _) hload

theorem readDir_rule (hv : owner = some v) (bs : Uintptr) (buffer : Bool) (hx : P x) :
    P (x.readDir v.fs bs.toNat buffer).1 := by
  unfold readDir
  cases h : if x.dirents.isNone then x.sfsLoadDirents v.fs else some x with
  | none => exact hx
  | some y =>
    have hy : P y := by
      split_ifs at h
      · obtain ⟨entries, hlist, rfl⟩ := Option.map_eq_some_iff.mp h
        exact hmove (.listed hv hlist) hx
      · cases h
        exact hx
    simp only
    cases he : (y.dirents.getD [])[y.direntI]? with
    | none => exact hy
    | some e =>
      simp only
      split_ifs with hok
      · exact hmove (.next bs he (infoReply_success hok)) hy
      · exact hy

theorem setPosition_rule (pos : Uintptr) (hx : P x) : P (x.setPosition owner pos).1 := by
  unfold setPosition
  by_cases hdir : x.isDir = true
  · rw [if_pos hdir]
    split_ifs
    · exact hx
    · exact hmove .rewind hx
  rw [if_neg hdir]
  cases hv : owner with
  | none => exact hx
  | some v =>
    have hload := loadBody_rule hmove hv hx
    simp only
    split_ifs
    · cases h : x.loadBody v.fs with
      | mk y body =>
        rw [h] at hload
        cases body with
        | none => exact hload
        | some body => exact hmove (.seek _) hload
    · exact hmove (.seek _) hx

/-- **The rule for an operation**: it closes its handle, or keeps what its steps keep. -/
theorem act_rule {op : Op} (h : (x.act owner op).1 = some y) (hx : P x) : P y := by
  cases op with
  | close | delete =>
    simp only [act] at h
    split_ifs at h
    cases h
    exact hx
  | read bufferSize buffer =>
    cases h
    split
    · exact hx
    · exact hx
    · split_ifs
      · exact readDir_rule hmove rfl _ buffer hx
      · exact readFile_rule hmove rfl _ buffer hx
  | setPosition pos =>
    cases h
    exact setPosition_rule hmove pos hx
  | openFile | write | getPosition | getInfo | setInfo | flush =>
    cases h
    exact hx

end

theorem same_act {op : Op} (h : (x.act owner op).1 = some y) : x.Same y :=
  act_rule (P := x.Same) (fun hmove hsame => hsame.trans (by cases hmove <;> exact ⟨rfl, rfl, rfl, rfl⟩)) h (.refl x)

theorem act_isRoot (h : x.isRoot owner = true) (op : Op) : ∃ y, (x.act owner op).1 = some y := by
  cases op with
  | close | delete => exact ⟨x, if_pos h⟩
  | read | setPosition | openFile | write | getPosition | getInfo | setInfo | flush => exact ⟨_, rfl⟩

end FileHandle

/-! ## The registry -/

namespace Registries

/-- The open handle at an address. -/
def handle (st : Registries) (h : Uintptr) : Option FileHandle := find (·.proto) st.handles h

variable {st : Registries} {this h : Uintptr} {x : FileHandle}

theorem lookup_eq_none (hx : st.handle this = none) : st.sfsFileHandleLookup this = none := by
  unfold sfsFileHandleLookup
  cases hi : slotOf (·.proto) st.handles this with
  | none => rfl
  | some i =>
    obtain ⟨a, ha, -⟩ := slotOf_eq_some hi
    rw [handle, find, hi, Option.bind_some, ha] at hx
    cases hx

theorem lookup_eq_some (hx : st.handle this = some x) :
    ∃ i, st.sfsFileHandleLookup this = some (i, x) ∧ st.handles[i]? = some (some x) ∧ x.proto = this := by
  obtain ⟨i, hi, hget⟩ := Option.bind_eq_some_iff.mp hx
  obtain ⟨a, ha, hkey⟩ := slotOf_eq_some hi
  rw [ha] at hget
  cases hget
  refine ⟨i, ?_, ha, hkey⟩
  rw [sfsFileHandleLookup, hi, Option.bind_some, ha]
  rfl

variable {v : SfsPublishEntry}

theorem volume_proto (hd : Slots.Distinct (·.proto) st.volumes) (hv : st.sfsPublishLookup this = some v) :
    v.proto = this := (hd.find_iff.mp hv).1

/-- What the firmware sees is consistent: a handle belongs to a published volume, and the root of a
published volume is open. -/
structure WF (st : Registries) : Prop where
  volumes : Slots.Distinct (·.proto) st.volumes
  handles : Slots.Distinct (·.proto) st.handles
  owned : ∀ h x, st.handle h = some x → ∃ v, st.sfsPublishLookup x.owner = some v
  root : ∀ p v, st.sfsPublishLookup p = some v → ∃ x, st.handle v.rootFileProto = some x ∧ x.owner = p

/-- A structure is allocated at an address where none is in use. -/
def Fresh (st : Registries) : Event → Prop
  | .publish c => st.sfsPublishLookup c.proto = none ∧ st.handle c.rootProto = none
  | .openVolume .. => True
  | .call c => c.op.isOpen = true → st.handle c.fresh = none

/-! ### A call -/

variable {f : Option SfsPublishEntry → FileHandle → Option FileHandle × Reply}

theorem onHandle_missing {missing : Uintptr} (hx : st.handle this = none) :
    st.onHandle this missing f = (st, { status := missing }) := by
  rw [onHandle, lookup_eq_none hx]

/-- A handler changes the slot that it has found. -/
theorem onHandle_spec (hd : Slots.Distinct (·.proto) st.handles) (missing : Uintptr)
    (hx : st.handle this = some x)
    (hf : ∀ y, (f (st.sfsPublishLookup x.owner) x).1 = some y → y.proto = x.proto) :
    (st.onHandle this missing f).2 = (f (st.sfsPublishLookup x.owner) x).2 ∧
    (st.onHandle this missing f).1.volumes = st.volumes ∧
    Slots.Distinct (·.proto) (st.onHandle this missing f).1.handles ∧
    (st.onHandle this missing f).1.handle =
      update st.handle this (f (st.sfsPublishLookup x.owner) x).1 := by
  obtain ⟨i, hlookup, hi, hkey⟩ := lookup_eq_some hx
  obtain ⟨hdist, hfind⟩ := hd.find_change hi hf
  rw [hkey] at hfind
  rw [onHandle, hlookup]
  exact ⟨rfl, rfl, hdist, hfind⟩

variable {c : Call}

/-- Every handler but `Open` is an `act` on its handle. -/
theorem call_eq_onHandle (st : Registries) (hc : c.op.isOpen = false) :
    ∃ missing, st.call c = st.onHandle c.this missing fun owner slot => slot.act owner c.op := by
  obtain ⟨this, op, fresh, fresh_ne⟩ := c
  cases op with
  | openFile => cases hc
  | close => exact ⟨_, rfl⟩
  | delete =>
    refine ⟨sfsEFINotFound, ?_⟩
    simp only [call, sfsFileDelete, sfsFileClose, onHandle]
    cases st.sfsFileHandleLookup this <;> rfl
  | read | write | getPosition | setPosition | getInfo | setInfo | flush => exact ⟨_, rfl⟩

/-- What a call does to the registries. -/
inductive Effect (st st' : Registries) (c : Call) (x : FileHandle) (next : Option FileHandle) : Prop
  | act : st'.handle = update st.handle c.this next → Effect st st' c x next
  | opened (e : FileHandle) : e.New → e.owner = x.owner → st.handle c.fresh = none → next = some x →
      st'.handle = update st.handle c.fresh (some e) → Effect st st' c x next

theorem ne_of_handle {h' : Uintptr} (hx : st.handle h = some x) (hnone : st.handle h' = none) : h ≠ h' := by
  rintro rfl
  rw [hx] at hnone
  cases hnone

section
variable {st' : Registries} {c : Call} {next : Option FileHandle} {y : FileHandle}

theorem Effect.self (he : Effect st st' c x next) (hx : st.handle c.this = some x) :
    st'.handle c.this = next := by
  cases he with
  | act heq => rw [heq, update_self]
  | opened e _ _ hnone hnext heq => rw [heq, update_of_ne (ne_of_handle hx hnone), hx, hnext]

theorem Effect.frame (he : Effect st st' c x next) (hne : h ≠ c.this) (hy : st.handle h = some y) :
    st'.handle h = some y := by
  cases he with
  | act heq => rw [heq, update_of_ne hne, hy]
  | opened e _ _ hnone _ heq => rw [heq, update_of_ne (ne_of_handle hy hnone), hy]

/-- The handles after a call: the one that was called on, those of before, and a new one. -/
theorem Effect.origin (he : Effect st st' c x next) (hy : st'.handle h = some y) :
    next = some y ∨ st.handle h = some y ∨ y.New ∧ y.owner = x.owner := by
  cases he with
  | act heq =>
    rw [heq] at hy
    by_cases hthis : h = c.this
    · rw [hthis, update_self] at hy
      exact .inl hy
    · rw [update_of_ne hthis] at hy
      exact .inr (.inl hy)
  | opened e hnew howner _ _ heq =>
    rw [heq] at hy
    by_cases hh : h = c.fresh
    · rw [hh, update_self] at hy
      cases hy
      exact .inr (.inr ⟨hnew, howner⟩)
    · rw [update_of_ne hh] at hy
      exact .inr (.inl hy)

end

/-- **A call on an open handle**: the handle is changed as `act` says, and no other one is; the reply is
the one of `act`, unless there is no slot for a new handle. -/
theorem call_spec (hd : Slots.Distinct (·.proto) st.handles) (hfresh : st.Fresh (.call c))
    (hx : st.handle c.this = some x) :
    (st.call c).1.volumes = st.volumes ∧ Slots.Distinct (·.proto) (st.call c).1.handles ∧
    Effect st (st.call c).1 c x (x.act (st.sfsPublishLookup x.owner) c.op).1 ∧
    ((st.call c).2.status ≠ sfsEFIOutOfResources →
      (st.call c).2.upToHandle = (x.act (st.sfsPublishLookup x.owner) c.op).2.upToHandle) := by
  cases hopen : c.op.isOpen with
  | false =>
    obtain ⟨missing, hcall⟩ := st.call_eq_onHandle hopen
    obtain ⟨hreply, hvol, hdist, hfind⟩ := onHandle_spec hd missing
      (f := fun owner slot => slot.act owner c.op) hx fun y hy => (FileHandle.same_act hy).proto
    rw [hcall]
    exact ⟨hvol, hdist, .act hfind, fun _ => congrArg Reply.upToHandle hreply⟩
  | true =>
    have hnone := hfresh hopen
    obtain ⟨outNew, name, mode, attr, hop⟩ := c.op.isOpen_iff.mp hopen
    obtain ⟨i, hlookup, -, -⟩ := lookup_eq_some hx
    have hsame : st.handle = update st.handle c.this (some x) := by
      rw [← hx, update_eq_self]
    simp only [call, hop, sfsFileOpen, hlookup, FileHandle.act]
    cases x.openTarget (st.sfsPublishLookup x.owner) outNew name mode with
    | error status => exact ⟨rfl, hd, .act hsame, fun _ => rfl⟩
    | ok target =>
      simp only
      cases halloc : st.sfsAllocFileHandle with
      | none => exact ⟨rfl, hd, .act hsame, fun hlack => absurd rfl hlack⟩
      | some slot =>
        let e : FileHandle :=
          { proto := c.fresh, owner := x.owner, path := target.1, isDir := target.2, live := c.fresh_ne }
        obtain ⟨hdist, hfind⟩ := hd.find_take (a := e) halloc hnone
        exact ⟨rfl, hdist, .opened e ⟨rfl, rfl, rfl, rfl, rfl⟩ rfl hnone rfl hfind, fun _ => rfl⟩

/-- A call on an address where no handle is changes nothing. -/
theorem call_missing (hx : st.handle c.this = none) : (st.call c).1 = st := by
  cases hopen : c.op.isOpen with
  | false =>
    obtain ⟨missing, hcall⟩ := st.call_eq_onHandle hopen
    rw [hcall, onHandle_missing hx]
  | true =>
    obtain ⟨outNew, name, mode, attr, hop⟩ := c.op.isOpen_iff.mp hopen
    simp only [call, hop, sfsFileOpen, lookup_eq_none hx]

/-! ### Publishing -/

theorem publishSFS_cases (st : Registries) (c : PublishCall) :
    (st.publishSFS c).1 = st ∨ ∃ fs i j, freeSlot st.volumes = some i ∧
      freeSlot st.handles = some j ∧ (st.publishSFS c).1 =
        ⟨st.volumes.set i (some (c.volume fs)), st.handles.set j (some c.root)⟩ := by
  unfold publishSFS
  cases c.fs with
  | none => exact .inl rfl
  | some fs =>
    by_cases hbs : c.bootServices = false
    · simp only [if_pos hbs, true_or]
    simp only [if_neg hbs]
    cases hi : freeSlot st.volumes with
    | none => exact .inl rfl
    | some i =>
      cases hj : st.sfsAllocFileHandle with
      | none =>
        left
        simp only [set_freeSlot hi]
      | some j =>
        simp only
        split_ifs
        · -- both slots are given back
          left
          rw [set_freeSlot hi, set_freeSlot hj]
        · exact .inr ⟨fs, i, j, rfl, hj, rfl⟩

/-- A publication that succeeds adds a volume and its root. -/
theorem WF.publishSFS (hwf : st.WF) {c : PublishCall} (hfresh : st.Fresh (.publish c)) :
    (st.publishSFS c).1 = st ∨
    ∃ fs, Slots.Distinct (·.proto) (st.publishSFS c).1.volumes ∧
      Slots.Distinct (·.proto) (st.publishSFS c).1.handles ∧
      (st.publishSFS c).1.sfsPublishLookup =
        update st.sfsPublishLookup c.proto (some (c.volume fs)) ∧
      (st.publishSFS c).1.handle = update st.handle c.rootProto (some c.root) := by
  obtain hsame | ⟨fs, i, j, hi, hj, heq⟩ := st.publishSFS_cases c
  · exact .inl hsame
  obtain ⟨hv, hlookup⟩ := hwf.volumes.find_take (a := c.volume fs) hi hfresh.1
  obtain ⟨hh, hhandle⟩ := hwf.handles.find_take (a := c.root) hj hfresh.2
  rw [heq]
  exact .inr ⟨fs, hv, hh, hlookup, hhandle⟩

/-! ### Invariants -/

theorem wf_init : init.WF where
  volumes := distinct_replicate _
  handles := distinct_replicate _
  owned := by
    intro h x hx
    obtain ⟨-, i, hi⟩ := (distinct_replicate _).find_iff.mp hx
    simp [List.getElem?_replicate] at hi
  root := by
    intro p v hv
    obtain ⟨-, i, hi⟩ := (distinct_replicate _).find_iff.mp hv
    simp [List.getElem?_replicate] at hi

theorem wf_publishSFS (hwf : st.WF) {c : PublishCall} (hfresh : st.Fresh (.publish c)) :
    (st.publishSFS c).1.WF := by
  obtain hsame | ⟨fs, hv, hh, hlookup, hhandle⟩ := hwf.publishSFS hfresh
  · rw [hsame]
    exact hwf
  refine ⟨hv, hh, ?_, ?_⟩
  · intro h x hx
    rw [hlookup]
    by_cases howner : x.owner = c.proto
    · exact ⟨_, by rw [howner, update_self]⟩
    rw [update_of_ne howner]
    by_cases hroot : h = c.rootProto
    · rw [hhandle, hroot, update_self] at hx
      cases hx
      exact absurd rfl howner
    · rw [hhandle, update_of_ne hroot] at hx
      exact hwf.owned h x hx
  · intro p v hpv
    rw [hhandle]
    by_cases hp : p = c.proto
    · rw [hlookup, hp, update_self] at hpv
      cases hpv
      exact ⟨c.root, update_self .., hp.symm⟩
    · rw [hlookup, update_of_ne hp] at hpv
      obtain ⟨x, hx, howner⟩ := hwf.root p v hpv
      exact ⟨x, by rw [update_of_ne (ne_of_handle hx hfresh.2), hx], howner⟩

theorem wf_call (hwf : st.WF) (hfresh : st.Fresh (.call c)) : (st.call c).1.WF := by
  cases hx : st.handle c.this with
  | none =>
    rw [call_missing hx]
    exact hwf
  | some x =>
    obtain ⟨hvol, hdist, heffect, -⟩ := call_spec hwf.handles hfresh hx
    have hlookup : (st.call c).1.sfsPublishLookup = st.sfsPublishLookup := by
      unfold sfsPublishLookup
      rw [hvol]
    refine ⟨hvol ▸ hwf.volumes, hdist, ?_, ?_⟩
    · intro h y hy
      have howned := hwf.owned c.this x hx
      rw [hlookup]
      obtain hact | hold | ⟨-, hnew⟩ := heffect.origin hy
      · rw [(FileHandle.same_act hact).owner]
        exact howned
      · exact hwf.owned h y hold
      · rw [hnew]
        exact howned
    · intro p v hpv
      rw [hlookup] at hpv
      obtain ⟨r, hr, howner⟩ := hwf.root p v hpv
      by_cases hthis : v.rootFileProto = c.this
      · -- a root that is called on stays open
        rw [hthis, hx] at hr
        cases hr
        have hroot : x.isRoot (st.sfsPublishLookup x.owner) = true := by
          rw [howner, hpv, FileHandle.isRoot, Option.any_some, (lookup_eq_some hx).choose_spec.2.2, hthis]
          exact decide_eq_true rfl
        obtain ⟨y, hy⟩ := FileHandle.act_isRoot hroot c.op
        refine ⟨y, ?_, (FileHandle.same_act hy).owner.trans howner⟩
        rw [hthis, heffect.self hx, hy]
      · exact ⟨r, heffect.frame hthis hr, howner⟩

variable {e : Event}

theorem wf_step (hwf : st.WF) (hfresh : st.Fresh e) : (st.step e).WF := by
  cases e with
  | publish c => exact wf_publishSFS hwf hfresh
  | openVolume => exact hwf
  | call c => exact wf_call hwf hfresh

variable {p : Uintptr}

theorem lookup_step (hwf : st.WF) (hfresh : st.Fresh e) (hv : st.sfsPublishLookup p = some v) :
    (st.step e).sfsPublishLookup p = some v := by
  cases e with
  | openVolume => exact hv
  | publish c =>
    rw [step]
    obtain hsame | ⟨fs, -, -, hlookup, -⟩ := hwf.publishSFS hfresh
    · rw [hsame, hv]
    · rw [hlookup, update_of_ne, hv]
      intro hp
      rw [hp, hfresh.1] at hv
      cases hv
  | call c =>
    cases hx : st.handle c.this with
    | none => rwa [step, call_missing hx]
    | some x =>
      unfold sfsPublishLookup
      rw [step, (call_spec hwf.handles hfresh hx).1]
      exact hv

/-- A step closes a handle or leaves it the same. -/
theorem same_step (hwf : st.WF) (hfresh : st.Fresh e) (hx : st.handle h = some x) {y : FileHandle}
    (hy : (st.step e).handle h = some y) : x.Same y := by
  cases e with
  | openVolume =>
    cases hx.symm.trans hy
    exact .refl x
  | publish c =>
    rw [step] at hy
    obtain hsame | ⟨fs, -, -, -, hhandle⟩ := hwf.publishSFS hfresh
    · rw [hsame, hx] at hy
      cases hy
      exact .refl x
    · rw [hhandle, update_of_ne (ne_of_handle hx hfresh.2), hx] at hy
      cases hy
      exact .refl x
  | call c =>
    rw [step] at hy
    cases hz : st.handle c.this with
    | none =>
      rw [call_missing hz, hx] at hy
      cases hy
      exact .refl x
    | some z =>
      obtain ⟨-, -, heffect, -⟩ := call_spec hwf.handles hfresh hz
      by_cases hthis : h = c.this
      · subst hthis
        rw [hx] at hz
        cases hz
        rw [heffect.self hx] at hy
        exact FileHandle.same_act hy
      · rw [heffect.frame hthis hx] at hy
        cases hy
        exact .refl x

/-- A handle that stays open stays the same. -/
theorem same_run : ∀ {es : List Event} {st : Registries} {x : FileHandle}, st.WF →
    RunMeets step Fresh st es → st.handle h = some x →
    (∀ p, p <+: es → ((runFrom step st p).handle h).isSome) →
    ∃ y, (runFrom step st es).handle h = some y ∧ x.Same y
  | [], _, x, _, _, hx, _ => ⟨x, hx, .refl x⟩
  | e :: es, st, x, hwf, hrun, hx, halive => by
    obtain ⟨y, hy⟩ := Option.isSome_iff_exists.mp
      (halive [e] (List.cons_prefix_cons.mpr ⟨rfl, List.nil_prefix⟩))
    obtain ⟨z, hz, hsame⟩ := same_run (wf_step hwf hrun.1) hrun.2 hy
      fun p hp => halive (e :: p) (List.cons_prefix_cons.mpr ⟨rfl, hp⟩)
    exact ⟨z, hz, (same_step hwf hrun.1 hx hy).trans hsame⟩

variable {es : List Event}

section
variable {Q : Filesystem → FileHandle → Prop} (hnew : ∀ fs x, x.New → Q fs x)
  (hact : ∀ (v : SfsPublishEntry) (x : FileHandle) (op : Op) (y : FileHandle), Q v.fs x →
    (x.act (some v) op).1 = some y → Q v.fs y)
include hnew hact

/-- What new handles have and operations keep is kept by every step. -/
theorem handles_step (hwf : st.WF)
    (hall : ∀ h x v, st.handle h = some x → st.sfsPublishLookup x.owner = some v → Q v.fs x)
    (hfresh : st.Fresh e) : ∀ h x v, (st.step e).handle h = some x →
      (st.step e).sfsPublishLookup x.owner = some v → Q v.fs x := by
  cases e with
  | openVolume => exact hall
  | publish c =>
    obtain hsame | ⟨fs, -, -, hlookup, hhandle⟩ := hwf.publishSFS hfresh
    · rw [step, hsame]
      exact hall
    intro h x v hx hv
    rw [step] at hx hv
    rw [hhandle] at hx
    by_cases hroot : h = c.rootProto
    · rw [hroot, update_self] at hx
      cases hx
      exact hnew v.fs c.root ⟨rfl, rfl, rfl, rfl, rfl⟩
    · rw [update_of_ne hroot] at hx
      obtain ⟨v', hv'⟩ := hwf.owned h x hx
      have hstay := lookup_step hwf hfresh hv'
      rw [step, hv] at hstay
      cases hstay
      exact hall h x v hx hv'
  | call c =>
    rw [step]
    cases hx : st.handle c.this with
    | none =>
      rw [call_missing hx]
      exact hall
    | some x =>
      obtain ⟨hvol, -, heffect, -⟩ := call_spec hwf.handles hfresh hx
      intro h y v hy hv
      have hv : st.sfsPublishLookup y.owner = some v := by
        rw [sfsPublishLookup, ← hvol]
        exact hv
      obtain hnext | hold | ⟨hopened, -⟩ := heffect.origin hy
      · rw [(FileHandle.same_act hnext).owner] at hv
        rw [hv] at hnext
        exact hact v x c.op y (hall c.this x v hx hv) hnext
      · exact hall h y v hold hv
      · exact hnew v.fs y hopened

theorem handles_run (hes : RunMeets step Fresh init es) :
    ∀ h x v, (runFrom step init es).handle h = some x →
      (runFrom step init es).sfsPublishLookup x.owner = some v → Q v.fs x := by
  refine (hes.invariant (I := fun st => st.WF ∧
    ∀ h x v, st.handle h = some x → st.sfsPublishLookup x.owner = some v → Q v.fs x) ?_ ⟨wf_init, ?_⟩ es
    List.prefix_rfl).2
  · intro st e hI hfresh
    exact ⟨wf_step hI.1 hfresh, handles_step hnew hact hI.1 hI.2 hfresh⟩
  · intro h x v hx
    obtain ⟨-, i, hi⟩ := (distinct_replicate _).find_iff.mp hx
    simp [List.getElem?_replicate] at hi

end

/-! ## Independence -/

/-- A call is on an open handle, and it does not fail for lack of a slot. -/
def Ok (st : Registries) : Event → Prop
  | .call c => st.Fresh (.call c) ∧ (st.handle c.this).isSome ∧ (st.call c).2.status ≠ sfsEFIOutOfResources
  | e => st.Fresh e

/-- The operation that an event is on the handle. -/
def own (h : Uintptr) : Event → Option Op
  | .call c => if c.this = h then some c.op else none
  | _ => none

theorem Ok.fresh (hok : st.Ok e) : st.Fresh e := by
  cases e with
  | call c => exact hok.1
  | publish c => exact hok
  | openVolume => exact hok

/-- **A handle is changed by its own operations only.** -/
theorem isolated (h : Uintptr) (v : SfsPublishEntry) :
    Objects.Isolated step (·.handle h) (own h) (fun x op => (x.act (some v) op).1) Ok
      (fun st => st.WF ∧ st.sfsPublishLookup v.proto = some v) (fun x => x.owner = v.proto) where
  inv_step := fun st e hI hok =>
    ⟨wf_step hI.1 hok.fresh, lookup_step hI.1 hok.fresh hI.2⟩
  inv_act := fun x op y hx hy => (FileHandle.same_act hy).owner.trans hx
  view_step := by
    rintro st e x ⟨hwf, hv⟩ hok howner hx
    cases e with
    | openVolume => exact hx
    | publish c =>
      rw [step]
      obtain hsame | ⟨fs, -, -, -, hhandle⟩ := hwf.publishSFS hok
      · rw [hsame]
        exact hx
      · refine (congrFun hhandle h).trans ?_
        rw [update_of_ne (ne_of_handle hx hok.2)]
        exact hx
    | call c =>
      obtain ⟨hfresh, hopen, -⟩ := hok
      obtain ⟨y, hy⟩ := Option.isSome_iff_exists.mp hopen
      obtain ⟨-, -, heffect, -⟩ := call_spec hwf.handles hfresh hy
      rw [own, step]
      by_cases hthis : c.this = h
      · rw [if_pos hthis]
        subst hthis
        have hxy : x = y := Option.some.inj (hx.symm.trans hy)
        subst hxy
        rw [howner, hv] at heffect
        exact heffect.self hx
      · rw [if_neg hthis]
        exact heffect.frame (Ne.symm hthis) hx

theorem wf_run (hes : RunMeets step Fresh init es) : (runFrom step init es).WF :=
  hes.invariant (I := WF) (fun _ _ hwf hfresh => wf_step hwf hfresh) wf_init es List.prefix_rfl

theorem lookup_run (hwf : st.WF) (hes : RunMeets step Fresh st es) (hv : st.sfsPublishLookup p = some v) :
    (runFrom step st es).sfsPublishLookup p = some v :=
  (hes.invariant (I := fun st => st.WF ∧ st.sfsPublishLookup p = some v)
    (fun _ _ hI hfresh => ⟨wf_step hI.1 hfresh, lookup_step hI.1 hfresh hI.2⟩) ⟨hwf, hv⟩ es
    List.prefix_rfl).2

section
variable {v : SfsPublishEntry} {es es' : List Event} {c c' : Call}

theorem reply_of_acts {y : FileHandle} (hwf : st.WF) (hx : st.handle h = some x)
    (hv : st.sfsPublishLookup x.owner = some v) (hes : RunMeets step Ok st (es ++ [.call c]))
    (hc : c.this = h) (hy : FileHandle.acts v x (es.filterMap (own h)) = some y) :
    ((runFrom step st es).call c).2.upToHandle = (y.act (some v) c.op).2.upToHandle := by
  have howner := (volume_proto hwf.volumes hv).symm
  rw [howner] at hv
  rw [runMeets_append] at hes
  obtain ⟨hes, hok, -⟩ := hes
  obtain ⟨hwf', hv'⟩ := hes.invariant (isolated h v).inv_step ⟨hwf, hv⟩ es List.prefix_rfl
  obtain ⟨howner', hy'⟩ := (isolated h v).view_run ⟨hwf, hv⟩ howner hx hes hy
  rw [← hc] at hy'
  obtain ⟨-, -, -, hreply⟩ := call_spec hwf'.handles hok.1 hy'
  rw [howner', hv'] at hreply
  exact hreply hok.2.2

/-- What a handle answers while it is open depends on its own operations. -/
theorem reply_run (hwf : st.WF) (hx : st.handle h = some x) (hv : st.sfsPublishLookup x.owner = some v)
    (hes : RunMeets step Ok st (es ++ [.call c])) (hc : c.this = h)
    (halive : ∀ p, p <+: es → ((runFrom step st p).handle h).isSome) :
    ∃ y, FileHandle.acts v x (es.filterMap (own h)) = some y ∧
      ((runFrom step st es).call c).2.upToHandle = (y.act (some v) c.op).2.upToHandle := by
  have howner := (volume_proto hwf.volumes hv).symm
  obtain ⟨y, hy⟩ := (isolated h v).foldlM_run ⟨hwf, howner ▸ hv⟩ howner hx (runMeets_append.mp hes).1 halive
  exact ⟨y, hy, reply_of_acts hwf hx hv hes hc hy⟩

end

/-- **Handles are independent.**  A handle `h` is open after `pre`, and stays open during `es`.

* Its next operation gives the reply that the handle alone gives after its operations in `es`.
* So it gives the reply that it gives after any other run `es'` with the same operations on `h`, such as
  the run of these operations only.  The allocator may choose other addresses for new handles there.
* Whatever is called, closed or deleted, every published volume keeps its root. -/
theorem handles_independent :
    (∀ (pre es : List Event) (h : Uintptr) (c : Call),
      RunMeets step Ok init (pre ++ (es ++ [.call c])) → c.this = h →
      (∀ p, p <+: es → ((runFrom step init (pre ++ p)).handle h).isSome) →
      ∃ x v y, (runFrom step init pre).handle h = some x ∧
        (runFrom step init pre).sfsPublishLookup x.owner = some v ∧
        FileHandle.acts v x (es.filterMap (own h)) = some y ∧
        ((runFrom step init (pre ++ es)).call c).2.upToHandle = (y.act (some v) c.op).2.upToHandle ∧
        ∀ (es' : List Event) (c' : Call), RunMeets step Ok init (pre ++ (es' ++ [.call c'])) →
          es'.filterMap (own h) = es.filterMap (own h) → c'.this = h → c'.op = c.op →
          ((runFrom step init (pre ++ es)).call c).2.upToHandle =
            ((runFrom step init (pre ++ es')).call c').2.upToHandle) ∧
    ∀ (pre es : List Event) (p : Uintptr) (v : SfsPublishEntry), RunMeets step Fresh init (pre ++ es) →
      (runFrom step init pre).sfsPublishLookup p = some v →
      ((runFrom step init (pre ++ es)).handle v.rootFileProto).isSome := by
  constructor
  · intro pre es h c hrun hc halive
    rw [runMeets_append] at hrun
    have hwf : (runFrom step init pre).WF := hrun.1.invariant (I := WF)
      (fun _ _ hwf hok => wf_step hwf hok.fresh) wf_init pre List.prefix_rfl
    simp only [runFrom_append] at halive ⊢
    obtain ⟨x, hx⟩ := Option.isSome_iff_exists.mp (halive [] List.nil_prefix)
    obtain ⟨v, hv⟩ := hwf.owned h x hx
    obtain ⟨y, hy, hreply⟩ := reply_run hwf hx hv hrun.2 hc halive
    refine ⟨x, v, y, hx, hv, hy, hreply, ?_⟩
    intro es' c' hrun' hown hc' hop
    rw [runMeets_append] at hrun'
    rw [hreply, reply_of_acts hwf hx hv hrun'.2 hc' (hown ▸ hy), hop]
  · intro pre es p v hrun hv
    have hwf := wf_run hrun
    rw [runMeets_append] at hrun
    have hv' := lookup_run (wf_run hrun.1) hrun.2 hv
    rw [← runFrom_append] at hv'
    obtain ⟨x, hx, -⟩ := hwf.root p v hv'
    rw [hx]
    rfl

theorem volumeAddr_ne : (0x10 : Uintptr) ≠ 0 := by decide

theorem rootAddr_ne : (0x20 : Uintptr) ≠ 0 := by decide

theorem unusedAddr_ne : (1 : Uintptr) ≠ 0 := by decide

/-- A volume where every path is a file with the contents `abc`. -/
def abcVolume : PublishCall where
  fs := some ⟨fun _ => some (some (str "abc")), fun _ => none, fun _ => some ⟨0x8000, 3⟩⟩
  bootServices := true
  proto := 0x10
  rootProto := 0x20
  proto_ne := volumeAddr_ne
  rootProto_ne := rootAddr_ne
  status := sfsEFISuccess
  handle := 1

/-- Open the file `x` at an address. -/
def openX (fresh : Uintptr) (fresh_ne : fresh ≠ 0) : Call :=
  ⟨0x20, .openFile true (some fun i => if i = 0 then 0x78 else 0) sfsFileModeRead 0, fresh, fresh_ne⟩

def readAbc (this size : Uintptr) : Call := ⟨this, .read (some size) true, 1, unusedAddr_ne⟩

/-- The file is opened twice. -/
def twoHandles : List Event :=
  [.publish abcVolume, .call (openX 0x30 (by decide)), .call (openX 0x40 (by decide))]

def closeAbc (this : Uintptr) : Call := ⟨this, .close, 1, unusedAddr_ne⟩

/-- Two readers of one file: what the first one reads does not depend on the second one, which closes
its handle in between. -/
theorem handles_independent_abc :
    ((runFrom step init (twoHandles ++ [.call (readAbc 0x30 1), .call (readAbc 0x40 2),
        .call (closeAbc 0x40)])).call (readAbc 0x30 8)).2.upToHandle =
      ((runFrom step init (twoHandles ++ [.call (readAbc 0x30 1)])).call (readAbc 0x30 8)).2.upToHandle ∧
    ((runFrom step init (twoHandles ++ [.call (closeAbc 0x20)])).handle 0x20).isSome := by
  have hpre : RunMeets step Ok init twoHandles :=
    ⟨⟨rfl, rfl⟩, ⟨fun _ => rfl, rfl, by decide +kernel⟩, ⟨fun _ => rfl, rfl, by decide +kernel⟩, trivial⟩
  constructor
  · obtain ⟨x, v, y, -, -, -, -, halone⟩ := handles_independent.1 twoHandles
      [.call (readAbc 0x30 1), .call (readAbc 0x40 2), .call (closeAbc 0x40)] 0x30 (readAbc 0x30 8)
      (runMeets_append.mpr ⟨hpre, ⟨nofun, rfl, by decide +kernel⟩, ⟨nofun, rfl, by decide +kernel⟩,
        ⟨nofun, rfl, by decide +kernel⟩, ⟨nofun, rfl, by decide +kernel⟩, trivial⟩) rfl (by
        intro p hp
        have hp := List.mem_inits _ _ |>.mpr hp
        simp only [List.inits, List.map_cons, List.map_nil, List.mem_cons, List.not_mem_nil, or_false] at hp
        obtain rfl | rfl | rfl | rfl := hp <;> rfl)
    exact halone [.call (readAbc 0x30 1)] (readAbc 0x30 8)
      (runMeets_append.mpr ⟨hpre, ⟨nofun, rfl, by decide +kernel⟩, ⟨nofun, rfl, by decide +kernel⟩, trivial⟩)
      rfl rfl rfl
  · exact handles_independent.2 twoHandles [.call (closeAbc 0x20)] 0x10
      (abcVolume.volume ⟨fun _ => some (some (str "abc")), fun _ => none, fun _ => some ⟨0x8000, 3⟩⟩)
      ⟨⟨rfl, rfl⟩, fun _ => rfl, fun _ => rfl, nofun, trivial⟩ rfl

end Registries

end TamagoUefi.Sfs
