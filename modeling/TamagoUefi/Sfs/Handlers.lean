import TamagoUefi.Board.BlockIo
import TamagoUefi.Sfs.Names

/-!
# TamagoUefi.Sfs.Handlers — the published file system (`sfs_publish*.go`)

`PublishSFS` puts a file system into a registry of four slots and its root into a registry of 32 open
handles.  The firmware calls the handlers with the address of a handle, which is searched in the
registry.  Contents and listings are loaded when they are first asked for, and kept in the handle.

A handler that has found its handle works on that slot alone, and on the volume it belongs to:
`FileHandle.act` collects what each of them does there.
-/

namespace TamagoUefi.Sfs

open Go Lib
open Board (Uintptr)

def sfsEFISuccess : Uintptr := 0
def sfsEFIInvalidParameter : Uintptr := 0x8000000000000002
def sfsEFIUnsupported : Uintptr := 0x8000000000000003
def sfsEFIBufferTooSmall : Uintptr := 0x8000000000000005
def sfsEFIDeviceError : Uintptr := 0x8000000000000007
def sfsEFIWriteProtected : Uintptr := 0x8000000000000008
def sfsEFIOutOfResources : Uintptr := 0x8000000000000009
def sfsEFINotFound : Uintptr := 0x800000000000000E
def sfsEFIWarnDeleteFailure : Uintptr := 2

def sfsFileAttrReadOnly : ℕ := 0x01
def sfsFileAttrDirectory : ℕ := 0x10

def sfsFileModeRead : Uintptr := 1
def sfsFileModeWrite : Uintptr := 2
def sfsFileModeCreate : Uintptr := 0x8000000000000000

def sfsPositionEnd : Uintptr := 0xFFFFFFFFFFFFFFFF

def sfsPublishRegistrySize : ℕ := 4
def sfsFileHandleRegistrySize : ℕ := 32

structure EFIGUID where
  data1 : UInt32
  data2 : UInt16
  data3 : UInt16
  data4 : List UInt8
  deriving DecidableEq

def EFIFileInfoGUID : EFIGUID :=
  ⟨0x09576e92, 0x6d3f, 0x11d2, [0x8e, 0x39, 0x00, 0xa0, 0xc9, 0x69, 0x72, 0x3b]⟩

/-! ## The file system behind -/

structure Stat where
  mode : UInt16
  size : UInt64

def Stat.isDir (st : Stat) : Bool := st.mode &&& 0xF000 == 0x4000

structure DirEntry where
  name : Bytes
  fileType : UInt8

/-- The part of `filesystem.Filesystem` that the handlers call, as functions of the path.  An error is
`none`; the slice that `ReadFile` returns may be nil. -/
structure Filesystem where
  readFile : Bytes → Option (Option Bytes)
  listDir : Bytes → Option (List DirEntry)
  stat : Bytes → Option Stat

/-! ## The registries -/

/-- A slot that is taken has a protocol. -/
structure SfsPublishEntry where
  proto : Uintptr
  rootFileProto : Uintptr
  fs : Filesystem
  live : proto ≠ 0
  root_live : rootFileProto ≠ 0

structure DirEntryCached where
  name : Bytes
  isDir : Bool
  size : UInt64

/-- An open file or directory.  A nil slice is `none`. -/
structure FileHandle where
  proto : Uintptr
  owner : Uintptr
  path : Bytes
  isDir : Bool
  pos : ℕ := 0
  body : Option Bytes := none
  bodyErr : Bool := false
  dirents : Option (List DirEntryCached) := none
  direntI : ℕ := 0
  live : proto ≠ 0

/-- What a call gives back: its status, what it stores through its pointers, and the bytes that it
writes to the start of the buffer. -/
structure Reply where
  status : Uintptr
  size : Option ℕ := none
  data : Bytes := []
  position : Option ℕ := none
  handle : Option Uintptr := none
  deriving DecidableEq

/-- The arguments of a call.  A pointer that is read or stored through is given with what it points
to, or by whether it is not null. -/
inductive Op
  | openFile (outNew : Bool) (fileName : Option (ℕ → UInt16)) (openMode attributes : Uintptr)
  | close
  | delete
  | read (bufferSize : Option Uintptr) (buffer : Bool)
  | write
  | getPosition (outPos : Bool)
  | setPosition (pos : Uintptr)
  | getInfo (typeGUID : Option EFIGUID) (bufferSize : Option Uintptr) (buffer : Bool)
  | setInfo
  | flush

/-! ## The work on one handle -/

/-- The information about an entry, for a buffer of `bs` bytes. -/
def infoReply (name : Bytes) (size attr bs : ℕ) (buffer : Bool) : Reply :=
  let need := sfsFileInfoSizeForName name
  if bs < need then { status := sfsEFIBufferTooSmall, size := some need }
  else if buffer = false then { status := sfsEFIInvalidParameter }
  else
    match sfsWriteFileInfo need name size attr with
    | none => { status := sfsEFIDeviceError }
    | some (written, info) => { status := sfsEFISuccess, size := some written, data := info }

def fileAttr (isDir : Bool) : ℕ :=
  if isDir then sfsFileAttrReadOnly ||| sfsFileAttrDirectory else sfsFileAttrReadOnly

def cacheDirent (fs : Filesystem) (path : Bytes) (e : DirEntry) : DirEntryCached :=
  match fs.stat (sfsJoinPath path e.name) with
  | some st => ⟨e.name, st.isDir, st.size⟩
  | none => ⟨e.name, e.fileType = 4, 0⟩

/-- The loop of `sfsLoadDirents`. -/
def cacheDirents (fs : Filesystem) (path : Bytes) : List DirEntry → List DirEntryCached
  | [] => []
  | e :: es =>
    if e.name = str "." ∨ e.name = str ".." then cacheDirents fs path es
    else cacheDirent fs path e :: cacheDirents fs path es

namespace FileHandle

def sfsLoadDirents (slot : FileHandle) (fs : Filesystem) : Option FileHandle :=
  (fs.listDir slot.path).map fun entries =>
    { slot with dirents := some (cacheDirents fs slot.path entries), direntI := 0 }

/-- The contents of a file are loaded once, and so is the failure to load them. -/
def loadBody (slot : FileHandle) (fs : Filesystem) : FileHandle × Option Bytes :=
  if slot.body = none ∧ slot.bodyErr = false then
    match fs.readFile slot.path with
    | none => ({ slot with bodyErr := true }, none)
    | some body => ({ slot with body := body }, some (body.getD []))
  else if slot.bodyErr then (slot, none)
  else (slot, some (slot.body.getD []))

def readDir (slot : FileHandle) (fs : Filesystem) (bs : ℕ) (buffer : Bool) : FileHandle × Reply :=
  match if slot.dirents.isNone then slot.sfsLoadDirents fs else some slot with
  | none => (slot, { status := sfsEFIDeviceError })
  | some slot =>
    match (slot.dirents.getD [])[slot.direntI]? with
    | none => (slot, { status := sfsEFISuccess, size := some 0 })
    | some e =>
      let reply := infoReply e.name e.size.toNat (fileAttr e.isDir) bs buffer
      (if reply.status = sfsEFISuccess then { slot with direntI := slot.direntI + 1 } else slot, reply)

/-- How many bytes a `Read` copies. -/
def wanted (slot : FileHandle) (body : Bytes) (bs : ℕ) : ℕ :=
  let remaining := if slot.pos < body.length then body.length - slot.pos else 0
  if remaining < bs then remaining else bs

def readFile (slot : FileHandle) (fs : Filesystem) (bs : ℕ) (buffer : Bool) : FileHandle × Reply :=
  match slot.loadBody fs with
  | (slot, none) => (slot, { status := sfsEFIDeviceError })
  | (slot, some body) =>
    let want := slot.wanted body bs
    if want = 0 then (slot, { status := sfsEFISuccess, size := some 0 })
    else if buffer = false then (slot, { status := sfsEFIInvalidParameter })
    else
      ({ slot with pos := slot.pos + want },
        { status := sfsEFISuccess, size := some want, data := readAt body slot.pos want })

def read (slot : FileHandle) (owner : Option SfsPublishEntry) (bufferSize : Option Uintptr)
    (buffer : Bool) : FileHandle × Reply :=
  match bufferSize, owner with
  | none, _ => (slot, { status := sfsEFIInvalidParameter })
  | some _, none => (slot, { status := sfsEFINotFound })
  | some bs, some owner =>
    if slot.isDir then slot.readDir owner.fs bs.toNat buffer
    else slot.readFile owner.fs bs.toNat buffer

def getPosition (slot : FileHandle) (outPos : Bool) : Reply :=
  if slot.isDir then { status := sfsEFIUnsupported }
  else if outPos = false then { status := sfsEFIInvalidParameter }
  else { status := sfsEFISuccess, position := some slot.pos }

def setPosition (slot : FileHandle) (owner : Option SfsPublishEntry) (pos : Uintptr) :
    FileHandle × Reply :=
  if slot.isDir then
    if pos ≠ 0 then (slot, { status := sfsEFIUnsupported })
    else ({ slot with direntI := 0 }, { status := sfsEFISuccess })
  else
    match owner with
    | none => (slot, { status := sfsEFINotFound })
    | some owner =>
      if pos = sfsPositionEnd then
        match slot.loadBody owner.fs with
        | (slot, none) => (slot, { status := sfsEFIDeviceError })
        | (slot, some body) => ({ slot with pos := body.length }, { status := sfsEFISuccess })
      else ({ slot with pos := pos.toNat }, { status := sfsEFISuccess })

def getInfo (slot : FileHandle) (owner : Option SfsPublishEntry) (typeGUID : Option EFIGUID)
    (bufferSize : Option Uintptr) (buffer : Bool) : Reply :=
  match typeGUID, bufferSize with
  | some g, some have_ =>
    if g ≠ EFIFileInfoGUID then { status := sfsEFIUnsupported }
    else
      match owner with
      | none => { status := sfsEFINotFound }
      | some owner =>
        let size :=
          if slot.isDir then 0
          else
            match owner.fs.stat slot.path with
            | some st => st.size.toNat
            -- the slice may be nil
            | none => (slot.body.map List.length).getD 0
        infoReply (sfsBaseName slot.path) size (fileAttr slot.isDir) have_.toNat buffer
  | _, _ => { status := sfsEFIInvalidParameter }

/-- Whether the handle is the root of its volume, which is never closed. -/
def isRoot (slot : FileHandle) (owner : Option SfsPublishEntry) : Bool :=
  owner.any fun owner => slot.proto = owner.rootFileProto

/-- What `Open` does before it asks for a slot: the path and whether it is a directory, or a status. -/
def openTarget (slot : FileHandle) (owner : Option SfsPublishEntry) (outNew : Bool)
    (fileName : Option (ℕ → UInt16)) (openMode : Uintptr) : Except Uintptr (Bytes × Bool) :=
  match owner with
  | none => .error sfsEFINotFound
  | some owner =>
    if outNew = false then .error sfsEFIInvalidParameter
    else if openMode &&& sfsFileModeWrite ≠ 0 ∨ openMode &&& sfsFileModeCreate ≠ 0 then
      .error sfsEFIWriteProtected
    else if openMode &&& sfsFileModeRead = 0 then .error sfsEFIInvalidParameter
    else
      let name := sfsReadUCS2 fileName
      if name = [] then .error sfsEFIInvalidParameter
      else
        let full := sfsJoinPath slot.path name
        match owner.fs.stat full with
        | none => .error sfsEFINotFound
        | some st => .ok (full, st.isDir)

end FileHandle

/-! ## The handlers -/

/-- The package variables. -/
structure Registries where
  volumes : List (Option SfsPublishEntry)
  handles : List (Option FileHandle)

/-- A call of a handler.  `fresh` is the address at which a structure is allocated if the call makes
one. -/
structure Call where
  this : Uintptr
  op : Op
  fresh : Uintptr
  fresh_ne : fresh ≠ 0

namespace Registries

def init : Registries :=
  ⟨List.replicate sfsPublishRegistrySize none, List.replicate sfsFileHandleRegistrySize none⟩

def sfsPublishLookup (st : Registries) (this : Uintptr) : Option SfsPublishEntry :=
  Slots.find (·.proto) st.volumes this

/-- The slot of the handle and what is in it. -/
def sfsFileHandleLookup (st : Registries) (this : Uintptr) : Option (ℕ × FileHandle) :=
  (Slots.slotOf (·.proto) st.handles this).bind fun i => st.handles[i]?.join.map (i, ·)

def sfsAllocFileHandle (st : Registries) : Option ℕ := Slots.freeSlot st.handles

/-- A handler looks for its handle first, and then works through a pointer to its slot, which may
end up free. -/
def onHandle (st : Registries) (this missing : Uintptr)
    (f : Option SfsPublishEntry → FileHandle → Option FileHandle × Reply) : Registries × Reply :=
  match st.sfsFileHandleLookup this with
  | none => (st, { status := missing })
  | some (i, slot) =>
    let (slot', reply) := f (st.sfsPublishLookup slot.owner) slot
    ({ st with handles := st.handles.set i slot' }, reply)

def sfsOpenVolume (st : Registries) (this : Uintptr) (outRoot : Bool) : Reply :=
  match st.sfsPublishLookup this with
  | none => { status := sfsEFINotFound }
  | some ent =>
    if outRoot = false then { status := sfsEFIInvalidParameter }
    else { status := sfsEFISuccess, handle := some ent.rootFileProto }

def sfsFileOpen (st : Registries) (this : Uintptr) (outNew : Bool) (fileName : Option (ℕ → UInt16))
    (openMode _attributes : Uintptr) (fresh : Uintptr) (fresh_ne : fresh ≠ 0) : Registries × Reply :=
  match st.sfsFileHandleLookup this with
  | none => (st, { status := sfsEFINotFound })
  | some (_, parent) =>
    match parent.openTarget (st.sfsPublishLookup parent.owner) outNew fileName openMode with
    | .error status => (st, { status := status })
    | .ok (full, isDir) =>
      match st.sfsAllocFileHandle with
      | none => (st, { status := sfsEFIOutOfResources })
      | some slot =>
        let entry : FileHandle :=
          { proto := fresh, owner := parent.owner, path := full, isDir := isDir, live := fresh_ne }
        ({ st with handles := st.handles.set slot (some entry) },
          { status := sfsEFISuccess, handle := some fresh })

/-- It always succeeds. -/
def sfsFileClose (st : Registries) (this : Uintptr) : Registries × Reply :=
  st.onHandle this sfsEFISuccess fun owner slot =>
    (if slot.isRoot owner then some slot else none, { status := sfsEFISuccess })

/-- Nothing is deleted, but the handle is closed. -/
def sfsFileDelete (st : Registries) (this : Uintptr) : Registries × Reply :=
  match st.sfsFileHandleLookup this with
  | none => (st, { status := sfsEFINotFound })
  | some _ => ((st.sfsFileClose this).1, { status := sfsEFIWarnDeleteFailure })

def sfsFileRead (st : Registries) (this : Uintptr) (bufferSize : Option Uintptr) (buffer : Bool) :
    Registries × Reply :=
  st.onHandle this sfsEFINotFound fun owner slot =>
    let (slot, reply) := slot.read owner bufferSize buffer
    (some slot, reply)

def sfsFileWrite (st : Registries) (this : Uintptr) : Registries × Reply :=
  st.onHandle this sfsEFINotFound fun _ slot => (some slot, { status := sfsEFIWriteProtected })

def sfsFileGetPosition (st : Registries) (this : Uintptr) (outPos : Bool) : Registries × Reply :=
  st.onHandle this sfsEFINotFound fun _ slot => (some slot, slot.getPosition outPos)

def sfsFileSetPosition (st : Registries) (this pos : Uintptr) : Registries × Reply :=
  st.onHandle this sfsEFINotFound fun owner slot =>
    let (slot, reply) := slot.setPosition owner pos
    (some slot, reply)

def sfsFileGetInfo (st : Registries) (this : Uintptr) (typeGUID : Option EFIGUID)
    (bufferSize : Option Uintptr) (buffer : Bool) : Registries × Reply :=
  st.onHandle this sfsEFINotFound fun owner slot =>
    (some slot, slot.getInfo owner typeGUID bufferSize buffer)

def sfsFileSetInfo (st : Registries) (this : Uintptr) : Registries × Reply :=
  st.onHandle this sfsEFINotFound fun _ slot => (some slot, { status := sfsEFIWriteProtected })

def sfsFileFlush (st : Registries) (this : Uintptr) : Registries × Reply :=
  st.onHandle this sfsEFINotFound fun _ slot => (some slot, { status := sfsEFISuccess })

def call (st : Registries) (c : Call) : Registries × Reply :=
  match c.op with
  | .openFile outNew fileName openMode attributes =>
    st.sfsFileOpen c.this outNew fileName openMode attributes c.fresh c.fresh_ne
  | .close => st.sfsFileClose c.this
  | .delete => st.sfsFileDelete c.this
  | .read bufferSize buffer => st.sfsFileRead c.this bufferSize buffer
  | .write => st.sfsFileWrite c.this
  | .getPosition outPos => st.sfsFileGetPosition c.this outPos
  | .setPosition pos => st.sfsFileSetPosition c.this pos
  | .getInfo typeGUID bufferSize buffer => st.sfsFileGetInfo c.this typeGUID bufferSize buffer
  | .setInfo => st.sfsFileSetInfo c.this
  | .flush => st.sfsFileFlush c.this

end Registries

/-! ## Publishing -/

inductive SfsErr
  | sfsNilFilesystem
  | noBootServices
  | sfsRegistryFull
  | sfsHandleRegistryFull
  | efi (status : Uintptr) (op : String)

/-- The file system, the addresses of the structures that are allocated for it, and the answer of the
firmware: a status and a handle. -/
structure PublishCall where
  fs : Option Filesystem
  bootServices : Bool
  proto : Uintptr
  rootProto : Uintptr
  proto_ne : proto ≠ 0
  rootProto_ne : rootProto ≠ 0
  status : Uintptr
  handle : Uintptr

def PublishCall.volume (c : PublishCall) (fs : Filesystem) : SfsPublishEntry :=
  ⟨c.proto, c.rootProto, fs, c.proto_ne, c.rootProto_ne⟩

def PublishCall.root (c : PublishCall) : FileHandle :=
  { proto := c.rootProto, owner := c.proto, path := str "/", isDir := true, live := c.rootProto_ne }

namespace Registries

def publishSFS (st : Registries) (c : PublishCall) : Registries × Except SfsErr Uintptr :=
  match c.fs with
  | none => (st, .error .sfsNilFilesystem)
  | some fs =>
    if c.bootServices = false then (st, .error .noBootServices)
    else
      match Slots.freeSlot st.volumes with
      | none => (st, .error .sfsRegistryFull)
      | some slot =>
        -- both slots are taken before the firmware is called
        let volumes := st.volumes.set slot (some (c.volume fs))
        match st.sfsAllocFileHandle with
        | none => (⟨volumes.set slot none, st.handles⟩, .error .sfsHandleRegistryFull)
        | some rootSlot =>
          let handles := st.handles.set rootSlot (some c.root)
          if c.status ≠ sfsEFISuccess then
            (⟨volumes.set slot none, handles.set rootSlot none⟩,
              .error (.efi c.status "InstallProtocolInterface(SFS)"))
          else (⟨volumes, handles⟩, .ok c.handle)

inductive Event
  | publish (c : PublishCall)
  | openVolume (this : Uintptr) (outRoot : Bool)
  | call (c : Call)

def step (st : Registries) : Event → Registries
  | .publish c => (st.publishSFS c).1
  | .openVolume .. => st
  | .call c => (st.call c).1

end Registries

end TamagoUefi.Sfs
