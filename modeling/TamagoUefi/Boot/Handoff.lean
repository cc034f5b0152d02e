import TamagoUefi.Oci.Fetch

/-!
# TamagoUefi.Boot.Handoff — the four boot paths and their chain of trust

From the parsed reference to the bytes a boot path passes to `LoadImage` or `PublishBlockIO`
(`phase2_oci_kernel_boot.go`, `phase2_dhcp_oci_menu.go`, `phase2_oci_freebsd_boot.go`).  A run that
ends in a `Handoff` has passed the bytes on; a `BootErr` is the line printed instead.

* `walk` is the index, manifest and layer walk that three of the paths share, under their own
  texts; `runOCIFreeBSDBootProbe` takes the first document for the manifest and has its own body.
* `BootChain` is the chain of trust from the reference down to the bytes.
* `bootPath_chain`: every link below the manifest is checked; the two above it are not, so the
  chain holds exactly when the registry was `Honest` about both documents.

Bringing up the link is left out, and so is what the paths do after the bytes are passed on.
gzip and `archive/tar` are part of the parameter `Board`.
-/

namespace TamagoUefi.Boot

open Go Lib Oci
open Lib.AskE

/-! ## The board -/

/-- An entry of a tar stream: its header, the content that can be read, and the error after it. -/
structure TarEntry where
  typeflag : UInt8
  name : Bytes
  size : ℤ
  content : Bytes
  readErr : Option Bytes
  deriving DecidableEq

/-- What `tar.Reader.Next` returns one after the other; `stop = none` is `io.EOF`. -/
structure TarStream where
  entries : List TarEntry
  stop : Option Bytes
  deriving DecidableEq

/-- The decompressor, the firmware's page allocator (its error) and `runtime.GOARCH`. -/
structure Board where
  gunzip : Bytes → Except Bytes TarStream
  allocatePages : ℕ → Option Bytes
  goarch : Bytes

/-- The line printed by a boot path that gives up, with the error it ends in. -/
inductive BootErr
  | fail (text : Bytes)
  | oci (text : Bytes) (cause : OciErr)
  | extract (text : Bytes) (cause : Bytes)
  /-- A Go panic: a negative slice length. -/
  | panicked
  deriving DecidableEq

/-- The printed lines start with the name of the probe. -/
def kernelBootLine (text : String) : Bytes := str "phase2-oci-kernel-boot: " ++ str text
def menuLine (text : String) : Bytes := str "phase2-dhcp-oci-menu: " ++ str text
def freebsdLine (text : String) : Bytes := str "phase3-oci-freebsd-boot: " ++ str text

/-- What a boot path runs in. -/
abbrev BootM (α : Type) : Type := AskE Request Reply BootErr α

/-- A step of the registry client, with the text its error is printed under. -/
def step {α : Type} (text : Bytes) (p : Net α) : BootM α := AskE.mapErr (.oci text) p

/-- The bytes passed on and the documents they come from. -/
structure Handoff where
  /-- The answer for the reference. -/
  rawIndex : Bytes
  /-- The index entry chosen by `PickPlatform`. -/
  picked : Option Descriptor
  rawManifest : Bytes
  target : Descriptor
  layer : Bytes
  image : Bytes
  deriving DecidableEq

/-! ## From the reference to the layer -/

/-- The texts of the shared walk. -/
structure Stages where
  parseRef : Bytes
  authenticate : Bytes
  fetchIndex : Bytes
  parseIndex : Bytes
  pickPlatform : Bytes
  fetchPicked : Bytes
  parseManifest : Bytes
  noLayers : Bytes

def kernelBootStages : Stages where
  parseRef := kernelBootLine "KERNEL-BOOT FAIL: ParseRef:"
  authenticate := kernelBootLine "KERNEL-BOOT FAIL: Authenticate:"
  fetchIndex := kernelBootLine "KERNEL-BOOT FAIL: FetchManifestRaw(index):"
  parseIndex := kernelBootLine "KERNEL-BOOT FAIL: ParseIndex:"
  pickPlatform := kernelBootLine "KERNEL-BOOT FAIL: PickPlatform:"
  fetchPicked := kernelBootLine "KERNEL-BOOT FAIL: FetchManifestRaw(picked):"
  parseManifest := kernelBootLine "KERNEL-BOOT FAIL: ParseManifest:"
  noLayers := kernelBootLine "KERNEL-BOOT FAIL: manifest has zero layers"

def menuStages : Stages where
  parseRef := menuLine "bootEntry FAIL: ParseRef(kernel):"
  authenticate := menuLine "bootEntry FAIL: Authenticate(kernel):"
  fetchIndex := menuLine "bootEntry FAIL: FetchManifestRaw(kernel/index):"
  parseIndex := menuLine "bootEntry FAIL: ParseIndex(kernel):"
  pickPlatform := menuLine "bootEntry FAIL: PickPlatform(kernel):"
  fetchPicked := menuLine "bootEntry FAIL: FetchManifestRaw(kernel/picked):"
  parseManifest := menuLine "bootEntry FAIL: ParseManifest(kernel):"
  noLayers := menuLine "bootEntry FAIL: kernel manifest has zero layers"

/-- `NewRegistry`: no token yet, and the ministack transport can stream. -/
def newRegistry (ref : Ref) : Registry := ⟨ref, [], true⟩

/-- The documents above a layer. -/
structure Walked where
  reg : Registry
  rawIndex : Bytes
  picked : Option Descriptor
  rawManifest : Bytes
  target : Descriptor

variable (x : Ext) (board : Board)

/-- The manifest below the first document.  The answer for a picked entry is taken as it comes. -/
def walkIndex (st : Stages) (reg : Registry) (rawIndex contentType : Bytes) :
    BootM (Option Descriptor × Bytes) :=
  if isIndex x rawIndex contentType then do
    let idx ← step st.parseIndex (AskE.ofExcept (parseIndex x rawIndex))
    let picked ← step st.pickPlatform
      (AskE.ofExcept (pickPlatform idx (str "linux") board.goarch))
    let (mraw, _) ← step st.fetchPicked (fetchManifestRaw reg picked.digest)
    pure (some picked, mraw)
  else pure (none, rawIndex)

/-- The first layer of a manifest. -/
def firstLayer (parseText noLayers raw : Bytes) : BootM Descriptor := do
  let m ← step parseText (AskE.ofExcept (parseManifest x raw))
  match m.layers with
  | [] => throw (.fail noLayers)
  | target :: _ => pure target

def walk (st : Stages) (target : Bytes) : BootM Walked := do
  let ref ← step st.parseRef (AskE.ofExcept (parseRef target))
  let reg ← step st.authenticate (authenticate (newRegistry ref))
  let (rawIndex, contentType) ← step st.fetchIndex (fetchManifestRaw reg ref.reference)
  let (picked, rawManifest) ← walkIndex x board st reg rawIndex contentType
  let layer ← firstLayer x st.parseManifest st.noLayers rawManifest
  pure ⟨reg, rawIndex, picked, rawManifest, layer⟩

/-! ## The kernel in a tar layer -/

def tarTypeReg : UInt8 := 0x30
def tarTypeRegA : UInt8 := 0
def efiPageSize : ℤ := 4096

/-- Tar names in container layers may start with `./`. -/
def normaliseName (name : Bytes) : Bytes :=
  if hasPrefix name (str "./") then name.drop 2 else name

/-- `io.ReadFull` of `n` bytes of an entry. -/
def readFull (e : TarEntry) (n : ℕ) : Except Bytes Bytes :=
  if n ≤ e.content.length then .ok (e.content.take n)
  else .error (e.readErr.getD (if e.content.isEmpty then str "EOF" else str "unexpected EOF"))

/-- Copy a found entry into firmware pages. -/
def copyEntry (e : TarEntry) : Except Bytes Bytes :=
  if e.size ≤ 0 then .error (str "vmlinuz tar entry has zero size")
  else
    let pages := (e.size + efiPageSize - 1) / efiPageSize
    match board.allocatePages pages.toNat with
    | some aerr => .error aerr
    | none =>
      match readFull e e.size.toNat with
      | .error rerr => .error rerr
      | .ok dst =>
        if dst.length ≠ e.size.toNat then .error (str "short read on vmlinuz tar entry")
        else .ok dst

/-- The tar loop: the first regular file with the name. -/
def findEntry (name : Bytes) (stop : Option Bytes) : List TarEntry → Except Bytes Bytes
  | [] => .error (stop.getD (str "vmlinuz entry not found in tar.gz layer"))
  | e :: rest =>
    if e.typeflag ≠ tarTypeReg ∧ e.typeflag ≠ tarTypeRegA then findEntry name stop rest
    else if normaliseName e.name ≠ name then findEntry name stop rest
    else copyEntry board e

/-- The second stage of `streamExtractVmlinuz`: gunzip the verified layer and walk it. -/
def extractVmlinuz (layer name : Bytes) : Except Bytes Bytes :=
  match board.gunzip layer with
  | .error gerr => .error gerr
  | .ok tr => findEntry board name tr.stop tr.entries

/-- `streamExtractVmlinuz` and its copy in the menu: the layer, and the file found in it. -/
def streamExtractVmlinuz (text : Bytes) (reg : Registry) (desc : Descriptor) (name : Bytes) :
    BootM (Bytes × Bytes) := do
  let (buf, _) ← step text (fetchBlobStream x bufferWriter reg desc [])
  let vmlinuz ← AskE.mapErr (.extract text) (AskE.ofExcept (extractVmlinuz board buf name))
  pure (buf, vmlinuz)

/-! ## The paths -/

/-- The two bytes a PE32+ image starts with. -/
def isMZ (payload : Bytes) : Bool := hasPrefix payload (str "MZ")

def kernelBootMaxLayerSize : ℤ := 64 * 1024 * 1024
def kernelBootVmlinuzName : Bytes := str "boot/vmlinuz"
def dhcpOCIMenuMaxLayerSize : ℤ := 64 * 1024 * 1024
def dhcpOCIMenuVmlinuzName : Bytes := str "boot/vmlinuz"
def freebsdBootMaxImageSize : ℤ := 768 * 1024 * 1024
def blockIOLogicalBlockSize : ℤ := 512

/-- MODE A: the layer itself is the image.  There is no size cap on this path. -/
def runKernelBootRealRegistry (kernelBootTargetRef : Bytes) : BootM Handoff := do
  let w ← walk x board kernelBootStages kernelBootTargetRef
  let (buf, _) ← step (kernelBootLine "KERNEL-BOOT FAIL: FetchBlobStream:")
    (fetchBlobStream x bufferWriter w.reg w.target [])
  if isMZ buf then pure ⟨w.rawIndex, w.picked, w.rawManifest, w.target, buf, buf⟩
  else throw (.fail (kernelBootLine "KERNEL-BOOT FAIL: streamed payload[0:2] is not 'MZ' (not a PE32+)"))

/-- A kernel boot from a tar layer: cap, extract, look at the magic. -/
def bootVmlinuz (st : Stages) (cap : ℤ) (tooLarge extractText name noMZ target : Bytes) :
    BootM Handoff := do
  let w ← walk x board st target
  if cap < w.target.size then throw (.fail tooLarge)
  else do
    let (layer, vmlinuz) ← streamExtractVmlinuz x board extractText w.reg w.target name
    if isMZ vmlinuz then pure ⟨w.rawIndex, w.picked, w.rawManifest, w.target, layer, vmlinuz⟩
    else throw (.fail noMZ)

/-- MODE C. -/
def runKernelBootLinuxKernel (kernelBootTargetRef : Bytes) : BootM Handoff :=
  bootVmlinuz x board kernelBootStages kernelBootMaxLayerSize
    (kernelBootLine "KERNEL-BOOT FAIL: layer size exceeds 64 MiB cap")
    (kernelBootLine "KERNEL-BOOT FAIL: streamExtractVmlinuz:") kernelBootVmlinuzName
    (kernelBootLine "KERNEL-BOOT FAIL: vmlinuz is not PE32+ (no MZ)") kernelBootTargetRef

/-- The menu's dispatch of an entry with this `KernelRef`. -/
def bootEntry (kernelRef : Bytes) : BootM Handoff :=
  bootVmlinuz x board menuStages dhcpOCIMenuMaxLayerSize
    (menuLine "bootEntry FAIL: kernel layer exceeds 64 MiB cap")
    (menuLine "bootEntry FAIL: streamExtractVmlinuz:") dhcpOCIMenuVmlinuzName
    (menuLine "bootEntry FAIL: vmlinuz is not PE32+ (no MZ)") kernelRef

/-- Padding up to the next block; `%` of Go is `Int.tmod`. -/
def tailPad (size : ℤ) : ℤ :=
  let rem := size.tmod blockIOLogicalBlockSize
  if rem ≠ 0 then blockIOLogicalBlockSize - rem else 0

def hasMBR (image : Bytes) : Bool :=
  512 ≤ image.length ∧ image.getD 510 0 = 0x55 ∧ image.getD 511 0 = 0xAA

def hasGPT (image : Bytes) : Bool :=
  520 ≤ image.length ∧ (image.drop 512).take 8 = str "EFI PART"

/-- The disk image path: the first document is parsed as the manifest, never as an index. -/
def runOCIFreeBSDBootProbe (freebsdBootTargetRef : Bytes) : BootM Handoff :=
  if freebsdBootTargetRef.isEmpty then
    throw (.fail (freebsdLine ("FREEBSD-BOOT FAIL: no freebsdBootTargetRef configured " ++
      "(runner must override via -X linker flag)")))
  else do
    let ref ← step (freebsdLine "FREEBSD-BOOT FAIL: ParseRef:")
      (AskE.ofExcept (parseRef freebsdBootTargetRef))
    let reg ← step (freebsdLine "FREEBSD-BOOT FAIL: Authenticate:") (authenticate (newRegistry ref))
    let (rawManifest, _) ← step (freebsdLine "FREEBSD-BOOT FAIL: FetchManifestRaw:")
      (fetchManifestRaw reg ref.reference)
    let target ← firstLayer x (freebsdLine "FREEBSD-BOOT FAIL: ParseManifest:")
      (freebsdLine "FREEBSD-BOOT FAIL: manifest has zero layers") rawManifest
    if freebsdBootMaxImageSize < target.size then
      throw (.fail (freebsdLine "FREEBSD-BOOT FAIL: layer size exceeds 768 MiB cap"))
    -- `make` and the reslice panic on a negative length
    else if target.size + tailPad target.size < 0 ∨ target.size < 0 then throw .panicked
    else do
      let (buf, n) ← step (freebsdLine "FREEBSD-BOOT FAIL: FetchBlobToBuffer:")
        (fetchBlobToBuffer x reg target (List.replicate target.size.toNat 0))
      let image := buf ++ List.replicate (tailPad target.size).toNat 0
      if hasMBR image then
        if hasGPT image then pure ⟨rawManifest, none, rawManifest, target, buf.take n, image⟩
        else throw (.fail
          (freebsdLine "FREEBSD-BOOT FAIL: streamed image missing 'EFI PART' GPT magic at LBA 1"))
      else throw (.fail (freebsdLine "FREEBSD-BOOT FAIL: streamed image missing MBR signature"))

inductive BootPath
  | realRegistry
  | linuxKernel
  | menuEntry
  | freeBSD
  deriving DecidableEq

namespace BootPath

/-- The path, for the reference text it was configured or asked with. -/
def run : BootPath → Bytes → BootM Handoff
  | realRegistry => runKernelBootRealRegistry x board
  | linuxKernel => runKernelBootLinuxKernel x board
  | menuEntry => bootEntry x board
  | freeBSD => runOCIFreeBSDBootProbe x

/-- Does the path look for an index? -/
def followsIndex : BootPath → Bool
  | freeBSD => false
  | _ => true

/-- How the bytes passed on are made of the layer. -/
def ImageOf (p : BootPath) (layer image : Bytes) : Prop :=
  match p with
  | realRegistry => image = layer
  | linuxKernel => extractVmlinuz board layer kernelBootVmlinuzName = .ok image
  | menuEntry => extractVmlinuz board layer dhcpOCIMenuVmlinuzName = .ok image
  | freeBSD => ∃ n, image = layer ++ List.replicate n 0

end BootPath

/-! ## The chain of trust -/

/-- The content type served at a position of a run. -/
def servedType (tr : List (Request × Reply)) (i : ℕ) : Bytes :=
  match tr[i]? with
  | none => []
  | some (_, r) => r.header (str "content-type")

/-- Each document is named by the digest above it, and the bytes passed on come from the layer. -/
structure BootChain (p : BootPath) (ref : Ref) (h : Handoff) : Prop where
  first : (∃ r, parseDigest ref.reference = .ok r) → HashesTo x h.rawIndex ref.reference
  chosen : ∀ d, h.picked = some d → ∃ idx, parseIndex x h.rawIndex = .ok idx ∧
    pickPlatform idx (str "linux") board.goarch = .ok d
  picked : ∀ d, h.picked = some d → HashesTo x h.rawManifest d.digest
  unpicked : h.picked = none → h.rawManifest = h.rawIndex
  names : ∃ m, parseManifest x h.rawManifest = .ok m ∧ m.layers.head? = some h.target
  layer : Stored x h.layer h.target
  image : p.ImageOf board h.layer h.image

/-- The registry answered the reference by digest, and the request for the entry its index leads
to, with documents that have these digests. -/
structure Honest (p : BootPath) (ref : Ref) (tr : List (Request × Reply)) : Prop where
  first : (∃ r, parseDigest ref.reference = .ok r) →
    HashesTo x (servedBody tr (firstDocAt tr)) ref.reference
  picked : p.followsIndex = true →
    isIndex x (servedBody tr (firstDocAt tr)) (servedType tr (firstDocAt tr)) = true →
    ∀ idx d, parseIndex x (servedBody tr (firstDocAt tr)) = .ok idx →
      pickPlatform idx (str "linux") board.goarch = .ok d →
      HashesTo x (servedBody tr (firstDocAt tr + 1)) d.digest

/-- How the documents of a run were found: the first is the answer for the reference; the manifest
is that document, or the next one when it was followed as an index. -/
structure Documents (follows : Bool) (tr : List (Request × Reply)) (rawIndex : Bytes)
    (picked : Option Descriptor) (rawManifest : Bytes) (target : Descriptor) : Prop where
  first : rawIndex = servedBody tr (firstDocAt tr)
  manifest :
    (picked = none ∧ rawManifest = rawIndex ∧
      (follows = true → isIndex x rawIndex (servedType tr (firstDocAt tr)) = false)) ∨
    (∃ idx d, follows = true ∧ isIndex x rawIndex (servedType tr (firstDocAt tr)) = true ∧
      parseIndex x rawIndex = .ok idx ∧ pickPlatform idx (str "linux") board.goarch = .ok d ∧
      picked = some d ∧ rawManifest = servedBody tr (firstDocAt tr + 1))
  names : ∃ m, parseManifest x rawManifest = .ok m ∧ m.layers.head? = some target

section
variable {x board}
variable {tr : List (Request × Reply)} {h : Handoff}

/-- Given how the documents were found, the chain needs the two documents to be right, no more. -/
theorem Documents.chain_iff {p : BootPath} {ref : Ref}
    (docs : Documents x board p.followsIndex tr h.rawIndex h.picked h.rawManifest h.target)
    (hlayer : Stored x h.layer h.target) (himage : p.ImageOf board h.layer h.image) :
    BootChain x board p ref h ↔ Honest x board p ref tr := by
  obtain ⟨hfirst, hman, hnames⟩ := docs
  constructor
  · intro hc
    refine ⟨fun hd => hfirst ▸ hc.first hd, fun hf hi idx d hidx hd => ?_⟩
    rw [← hfirst] at hi hidx
    obtain ⟨-, -, hno⟩ | ⟨idx', d', -, -, hidx', hd', hp, hm⟩ := hman
    · rw [hno hf] at hi
      cases hi
    · obtain rfl : idx = idx' := Except.ok.inj (hidx.symm.trans hidx')
      obtain rfl : d = d' := Except.ok.inj (hd.symm.trans hd')
      exact hm ▸ hc.picked d hp
  · intro hh
    have hfirst' : (∃ r, parseDigest ref.reference = .ok r) → HashesTo x h.rawIndex ref.reference :=
      fun hd => hfirst ▸ hh.first hd
    obtain ⟨hp, hm, -⟩ | ⟨idx, d, hf, hi, hidx, hd, hp, hm⟩ := hman
    · exact ⟨hfirst', fun d h' => (by rw [hp] at h'; cases h'),
        fun d h' => (by rw [hp] at h'; cases h'), fun _ => hm, hnames, hlayer, himage⟩
    · refine ⟨hfirst', fun d' h' => ?_, fun d' h' => ?_, fun h' => ?_, hnames, hlayer, himage⟩
      · rw [hp] at h'
        cases h'
        exact ⟨idx, hidx, hd⟩
      · rw [hp] at h'
        cases h'
        rw [hfirst] at hi hidx
        exact hm ▸ hh.picked hf hi idx d hidx hd
      · rw [hp] at h'
        cases h'

/-! ### The steps of a path -/

theorem yields_step {α : Type} {text : Bytes} {q : Net α} {a : α} :
    Yields (step text q) tr a ↔ Yields q tr a := yields_mapErr

theorem yields_step_ofExcept {α : Type} {text : Bytes} {r : Except OciErr α} {a : α} :
    Yields (step text (AskE.ofExcept r)) tr a ↔ tr = [] ∧ r = .ok a :=
  yields_step.trans yields_ofExcept

variable {d : Descriptor}

theorem yields_firstLayer {t₁ t₂ raw : Bytes} (h : Yields (firstLayer x t₁ t₂ raw) tr d) :
    tr = [] ∧ ∃ m, parseManifest x raw = .ok m ∧ m.layers.head? = some d := by
  unfold firstLayer at h
  obtain ⟨s₁, s₂, m, rfl, h₁, h₂⟩ := yields_bind.mp h
  obtain ⟨rfl, hm⟩ := yields_step_ofExcept.mp h₁
  cases hl : m.layers with
  | nil => rw [hl] at h₂; exact absurd h₂ yields_throw
  | cons d' rest =>
    rw [hl] at h₂
    obtain ⟨rfl, rfl⟩ := yields_pure.mp h₂
    exact ⟨rfl, m, hm, by rw [hl]; rfl⟩

variable {r r' : Registry} {t₁ t₂ : List (Request × Reply)}

theorem servedType_firstDoc {q : Request} {resp : Reply} (h : Yields (authenticate r) t₁ r') :
    servedType (t₁ ++ (q, resp) :: t₂) (firstDocAt (t₁ ++ (q, resp) :: t₂)) =
      resp.header (str "content-type") := by
  simp [firstDocAt_append h, servedType]

theorem servedBody_secondDoc {q q' : Request} {resp resp' : Reply} (h : Yields (authenticate r) t₁ r') :
    servedBody (t₁ ++ (q, resp) :: (q', resp') :: t₂)
      (firstDocAt (t₁ ++ (q, resp) :: (q', resp') :: t₂) + 1) = resp'.body := by
  simp [firstDocAt_append h, servedBody]

variable {target : Bytes}

/-- The beginning of every path: the reference, the registry and the document it names. -/
theorem yields_firstDocument {β : Type} {parseText authText fetchText : Bytes}
    {k : Registry → Bytes × Bytes → BootM β} {b : β}
    (h : Yields (do
      let ref ← step parseText (AskE.ofExcept (parseRef target))
      let reg ← step authText (authenticate (newRegistry ref))
      let doc ← step fetchText (fetchManifestRaw reg ref.reference)
      k reg doc) tr b) :
    ∃ ref reg t q resp t', Yields (authenticate (newRegistry ref)) t reg ∧ tr = t ++ (q, resp) :: t' ∧
      Yields (k reg (resp.body, resp.header (str "content-type"))) t' b := by
  obtain ⟨t₁, t₂, ref, rfl, h₁, h₂⟩ := yields_bind.mp h
  obtain ⟨rfl, -⟩ := yields_step_ofExcept.mp h₁
  obtain ⟨t₃, t₄, reg, rfl, h₃, h₄⟩ := yields_bind.mp h₂
  obtain ⟨t₅, t₆, doc, rfl, h₅, h₆⟩ := yields_bind.mp h₄
  obtain ⟨resp, rfl, -, -, rfl⟩ := yields_fetchManifestRaw (yields_step.mp h₅)
  exact ⟨ref, reg, t₃, _, resp, t₆, yields_step.mp h₃, rfl, h₆⟩

/-- **The shared walk** finds its documents in the run, whatever follows it. -/
theorem walk_documents {st : Stages} {w : Walked} (h : Yields (walk x board st target) tr w)
    (ts : List (Request × Reply)) :
    Documents x board true (tr ++ ts) w.rawIndex w.picked w.rawManifest w.target := by
  obtain ⟨ref, reg, t₁, q, resp, t₂, hauth, rfl, h₂⟩ := yields_firstDocument h
  obtain ⟨t₃, t₄, ⟨picked, mraw⟩, rfl, h₃, h₄⟩ := yields_bind.mp h₂
  obtain ⟨t₅, t₆, d, rfl, h₅, h₆⟩ := yields_bind.mp h₄
  obtain ⟨rfl, rfl⟩ := yields_pure.mp h₆
  obtain ⟨rfl, hm⟩ := yields_firstLayer h₅
  simp only [List.append_nil, List.append_assoc, List.cons_append]
  refine ⟨(servedBody_firstDoc hauth).symm, ?_, hm⟩
  rw [servedType_firstDoc hauth]
  unfold walkIndex at h₃
  split_ifs at h₃ with hi
  · obtain ⟨s₁, s₂, idx, rfl, k₁, k₂⟩ := yields_bind.mp h₃
    obtain ⟨rfl, hidx⟩ := yields_step_ofExcept.mp k₁
    obtain ⟨s₃, s₄, e, rfl, k₃, k₄⟩ := yields_bind.mp k₂
    obtain ⟨rfl, he⟩ := yields_step_ofExcept.mp k₃
    obtain ⟨s₅, s₆, doc', rfl, k₅, k₆⟩ := yields_bind.mp k₄
    obtain ⟨resp', rfl, -, -, rfl⟩ := yields_fetchManifestRaw (yields_step.mp k₅)
    obtain ⟨rfl, hpair⟩ := yields_pure.mp k₆
    obtain ⟨rfl, rfl⟩ := Prod.mk.inj hpair
    exact Or.inr ⟨idx, e, rfl, hi, hidx, he, rfl, (servedBody_secondDoc hauth).symm⟩
  · obtain ⟨rfl, hpair⟩ := yields_pure.mp h₃
    obtain ⟨rfl, rfl⟩ := Prod.mk.inj hpair
    exact Or.inl ⟨rfl, rfl, fun _ => by simpa using hi⟩

/-- **`bootVmlinuz`**, the body of `runKernelBootLinuxKernel` and `bootEntry`. -/
theorem bootVmlinuz_spec {st : Stages} {cap : ℤ} {t₁ t₂ t₃ name : Bytes}
    (hy : Yields (bootVmlinuz x board st cap t₁ t₂ name t₃ target) tr h) :
    Documents x board true tr h.rawIndex h.picked h.rawManifest h.target ∧
      Stored x h.layer h.target ∧ extractVmlinuz board h.layer name = .ok h.image := by
  unfold bootVmlinuz at hy
  obtain ⟨s₁, s₂, w, rfl, h₁, h₂⟩ := yields_bind.mp hy
  have hdocs := walk_documents h₁ s₂
  split_ifs at h₂ with hcap
  · exact absurd h₂ yields_throw
  · obtain ⟨s₃, s₄, ⟨layer, vmlinuz⟩, rfl, h₃, h₄⟩ := yields_bind.mp h₂
    unfold streamExtractVmlinuz at h₃
    obtain ⟨s₅, s₆, ⟨buf, n⟩, rfl, h₅, h₆⟩ := yields_bind.mp h₃
    obtain ⟨s₇, s₈, v, rfl, h₇, h₈⟩ := yields_bind.mp h₆
    obtain ⟨-, hpair⟩ := yields_pure.mp h₈
    obtain ⟨rfl, rfl⟩ := Prod.mk.inj hpair
    have hstored := fetchBlobStream_stored x (yields_step.mp h₅)
    obtain ⟨-, hext⟩ := yields_ofExcept.mp (yields_mapErr.mp h₇)
    dsimp only at h₄
    split_ifs at h₄ with hmz
    · obtain ⟨-, rfl⟩ := yields_pure.mp h₄
      exact ⟨hdocs, hstored, hext⟩
    · exact absurd h₄ yields_throw

theorem runKernelBootRealRegistry_spec (hy : Yields (runKernelBootRealRegistry x board target) tr h) :
    Documents x board true tr h.rawIndex h.picked h.rawManifest h.target ∧
      Stored x h.layer h.target ∧ h.image = h.layer := by
  unfold runKernelBootRealRegistry at hy
  obtain ⟨s₁, s₂, w, rfl, h₁, h₂⟩ := yields_bind.mp hy
  have hdocs := walk_documents h₁ s₂
  obtain ⟨s₃, s₄, ⟨buf, n⟩, rfl, h₃, h₄⟩ := yields_bind.mp h₂
  have hstored := fetchBlobStream_stored x (yields_step.mp h₃)
  dsimp only at h₄
  split_ifs at h₄ with hmz
  · obtain ⟨-, rfl⟩ := yields_pure.mp h₄
    exact ⟨hdocs, hstored, rfl⟩
  · exact absurd h₄ yields_throw

/-- A layer of a non-negative size read into a buffer of that size fills it. -/
theorem layer_length {b : Bytes} (hs : Stored x b d) (hd : ¬ d.size < 0)
    (hb : b.length ≤ (List.replicate d.size.toNat (0 : UInt8)).length) : b.length = d.size.toNat := by
  rw [List.length_replicate] at hb
  rcases lt_or_ge 0 d.size with h0 | h0
  · have := hs.2 h0
    omega
  · omega

theorem layer_fills {b : Bytes} (hs : Stored x b d) (hd : ¬ d.size < 0)
    (hb : b.length ≤ (List.replicate d.size.toNat (0 : UInt8)).length) :
    b ++ (List.replicate d.size.toNat (0 : UInt8)).drop b.length = b := by
  simp [layer_length hs hd hb]

theorem runOCIFreeBSDBootProbe_spec (hy : Yields (runOCIFreeBSDBootProbe x target) tr h) :
    Documents x board false tr h.rawIndex h.picked h.rawManifest h.target ∧
      Stored x h.layer h.target ∧ ∃ n, h.image = h.layer ++ List.replicate n 0 := by
  unfold runOCIFreeBSDBootProbe at hy
  split_ifs at hy with hempty
  · exact absurd hy yields_throw
  obtain ⟨ref, reg, t₁, q, resp, t₂, hauth, rfl, h₂⟩ := yields_firstDocument hy
  obtain ⟨t₃, t₄, d, rfl, h₃, h₄⟩ := yields_bind.mp h₂
  obtain ⟨rfl, hm⟩ := yields_firstLayer h₃
  split_ifs at h₄ with hcap hneg
  · exact absurd h₄ yields_throw
  · exact absurd h₄ yields_throw
  obtain ⟨t₅, t₆, ⟨buf, n⟩, rfl, h₅, h₆⟩ := yields_bind.mp h₄
  obtain ⟨b, hstored, hb, hbuf⟩ := fetchBlobToBuffer_stored x (yields_step.mp h₅)
  obtain ⟨rfl, rfl⟩ := Prod.mk.inj hbuf
  rw [layer_fills hstored (fun h0 => hneg (Or.inr h0)) hb] at h₆
  dsimp only at h₆
  split_ifs at h₆ with hmbr hgpt
  · obtain ⟨-, rfl⟩ := yields_pure.mp h₆
    refine ⟨⟨?_, Or.inl ⟨rfl, rfl, fun h0 => by cases h0⟩, hm⟩, ?_, ?_⟩
    · exact (servedBody_firstDoc hauth).symm
    · simpa using hstored
    · exact ⟨(tailPad d.size).toNat, by simp⟩
  · exact absurd h₆ yields_throw
  · exact absurd h₆ yields_throw

end

/-- **Chain of trust of the boot paths**: of the bytes a path passes on, the layer and what is made
of it are verified against the manifest; the manifest and the first document are whatever the
registry served, so the chain holds exactly when the registry was honest about both. -/
theorem bootPath_chain {p : BootPath} {target : Bytes} {ref : Ref} {tr : List (Request × Reply)}
    {h : Handoff} (_hr : parseRef target = .ok ref) (hy : Yields (p.run x board target) tr h) :
    BootChain x board p ref h ↔ Honest x board p ref tr := by
  cases p with
  | realRegistry =>
    obtain ⟨hdocs, hlayer, himage⟩ := runKernelBootRealRegistry_spec hy
    exact hdocs.chain_iff hlayer himage
  | linuxKernel =>
    obtain ⟨hdocs, hlayer, himage⟩ := bootVmlinuz_spec hy
    exact hdocs.chain_iff hlayer himage
  | menuEntry =>
    obtain ⟨hdocs, hlayer, himage⟩ := bootVmlinuz_spec hy
    exact hdocs.chain_iff hlayer himage
  | freeBSD =>
    obtain ⟨hdocs, hlayer, himage⟩ := runOCIFreeBSDBootProbe_spec hy
    exact hdocs.chain_iff hlayer himage

/-! ### A concrete run -/

/-- The layer of the example: an image of two bytes. -/
def toyLayer : Descriptor := ⟨[], digestFromBytes toyExt (str "MZ"), 2, none⟩

/-- The index entry of the example. -/
def toyEntry (digest : Bytes) : Descriptor :=
  ⟨[], digest, 0, some ⟨str "amd64", str "linux", []⟩⟩

/-- An environment with two documents: the index `I`, whose one entry has the given digest, and the
manifest `M` of `toyLayer`. -/
def bootExt (digest : Bytes) : Ext where
  sha256 := toyExt.sha256
  unmarshalIndex b := if b = str "I" then .ok ⟨2, [], [toyEntry digest]⟩ else .error (str "syntax")
  unmarshalManifest b :=
    if b = str "M" then .ok ⟨2, [], ⟨[], [], 0, none⟩, [toyLayer]⟩ else .error (str "syntax")
  unmarshalProbe b := if b = str "I" then .ok ⟨[], [toyEntry digest]⟩ else .error (str "syntax")

def toyBoard : Board := ⟨fun _ => .error (str "gzip: invalid header"), fun _ => none, str "amd64"⟩

def served (body : Bytes) : Reply := ⟨none, 200, [], [body]⟩

/-- The registry serves `I`, `M` and the layer, one after the other. -/
def bootTrace (digest : Bytes) : List (Request × Reply) :=
  let ref := toyRef (str "latest")
  [(getRequest (ref.manifestURL (str "latest")) manifestAcceptHeader [], served (str "I")),
    (getRequest (ref.manifestURL (str "latest")) manifestAcceptHeader [], served (str "I")),
    (getRequest (ref.manifestURL digest) manifestAcceptHeader [], served (str "M")),
    (⟨ref.blobURL toyLayer.digest, [], true⟩, served (str "MZ"))]

def bootHandoff (digest : Bytes) : Handoff :=
  ⟨str "I", some (toyEntry digest), str "M", toyLayer, str "MZ", str "MZ"⟩

/-- The reference is hidden here: with it at hand, every use of the run would evaluate it again. -/
theorem bootRun (digest : Bytes) : ∃ target, parseRef target = .ok (toyRef (str "latest")) ∧
    Yields (BootPath.realRegistry.run (bootExt digest) toyBoard target) (bootTrace digest)
      (bootHandoff digest) := by
  refine ⟨str "r.io/a", parseRef_toy, ?_⟩
  simp only [BootPath.run, runKernelBootRealRegistry, walk, parseRef_toy]
  exact Lib.Ask.runs_iff_exec.mpr rfl

/-- With the digest of `M` in the index the run is honest, and the chain holds. -/
theorem bootPath_chain_honest :
    BootChain (bootExt (digestFromBytes toyExt (str "M"))) toyBoard .realRegistry
      (toyRef (str "latest")) (bootHandoff (digestFromBytes toyExt (str "M"))) := by
  obtain ⟨target, hparse, hrun⟩ := bootRun (digestFromBytes toyExt (str "M"))
  refine (bootPath_chain _ _ hparse hrun).mpr ⟨?_, ?_⟩
  · rintro ⟨r, hr⟩
    cases hr
  · intro _ _ idx d hidx hd
    cases hidx
    cases hd
    exact ⟨hexEncode (toyExt.sha256 (str "M")), rfl, by decide⟩

/-- The picked manifest is not checked: an image is passed on although the manifest that names its
layer does not have the digest of the index entry. -/
theorem bootPath_chain_broken :
    ¬ ∀ (x : Ext) (board : Board) (p : BootPath) (target : Bytes) (ref : Ref)
      (tr : List (Request × Reply)) (h : Handoff), parseRef target = .ok ref →
      Yields (p.run x board target) tr h → BootChain x board p ref h := by
  intro h
  obtain ⟨target, hparse, hrun⟩ := bootRun wrongDigest
  have hc := h _ _ _ _ _ _ _ hparse hrun
  obtain ⟨hex, hd, hh⟩ := hc.picked _ rfl
  rw [← List.append_cancel_left (show str "sha256:" ++ _ = str "sha256:" ++ hex from hd)] at hh
  exact absurd hh (by decide)

end TamagoUefi.Boot
