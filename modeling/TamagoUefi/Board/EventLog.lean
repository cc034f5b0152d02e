import TamagoUefi.Board.BlockIo
import TamagoUefi.Disk.Gpt

/-!
# TamagoUefi.Board.EventLog — the event log of the firmware (`tcg2_protocol_tamago.go`)

The firmware answers `GetEventLog` with the address of the first and of the last entry of its log.  Where
the log ends is found by measuring the last entry, which is a legacy event if it is the first one and
otherwise an event with a list of digests of several sizes.

* `EventLog`: what a log is, `EventLog.bytes`.
* `tcg2EntrySize_last`: the last entry of a log in the memory is measured right.
* `getEventLog_whole`: the bytes of a log that a slice can hold.
-/

namespace TamagoUefi.Board.Tcg2

open Go Lib

/-! ## Reading the log -/

structure EFIError where
  status : Uintptr
  op : Bytes
  deriving DecidableEq

def efiStatusErrorBit : Uintptr := 0x8000000000000000

def readFirmwareU16LE (m : Memory) (addr : Uintptr) : ℕ := leNat (load m addr 2)

def readFirmwareU32LE (m : Memory) (addr : Uintptr) : ℕ := leNat (load m addr 4)

/-- The digest sizes of SHA-1, SHA-256, SHA-384, SHA-512 and SM3-256. -/
def tcg2DigestSize (algID : ℕ) : Option ℕ :=
  if algID = 0x0004 then some 20
  else if algID = 0x000B then some 32
  else if algID = 0x000C then some 48
  else if algID = 0x000D then some 64
  else if algID = 0x0012 then some 32
  else none

def unknownDigestAlg : EFIError := ⟨efiStatusErrorBit ||| 0x02, str "tcg2EntrySize: unknown digest alg"⟩

/-- The loop over `count` digests. -/
def digestLoop (m : Memory) : ℕ → Uintptr → Except EFIError Uintptr
  | 0, off => .ok off
  | count + 1, off =>
    match tcg2DigestSize (readFirmwareU16LE m off) with
    | none => .error unknownDigestAlg
    | some ds => digestLoop m count (off + 2 + BitVec.ofNat 64 ds)

/-- `PCRIndex`, `EventType` and a SHA-1 digest. -/
def legacyPrefix : ℕ := 4 + 4 + 20

def tcg2EntrySize (m : Memory) (location entry : Uintptr) : Except EFIError Uintptr :=
  if entry = location then
    .ok (BitVec.ofNat 64 (legacyPrefix + 4) +
      BitVec.ofNat 64 (readFirmwareU32LE m (entry + BitVec.ofNat 64 legacyPrefix)))
  else
    match digestLoop m (readFirmwareU32LE m (entry + 8)) (entry + 8 + 4) with
    | .error e => .error e
    | .ok off => .ok (off + 4 + BitVec.ofNat 64 (readFirmwareU32LE m off) - entry)

/-- `none` is a panic: a slice that goes round the end of the memory, or that cannot be allocated. -/
def readFirmwareBytes (m : Memory) (addr : Uintptr) (n : ℤ) : Option Bytes :=
  if n ≤ 0 then some []
  else if 2 ^ 64 < addr.toNat + n then none
  else if Disk.maxAlloc < n then none
  else some (load m addr n.toNat)

/-- What the firmware answers. -/
structure Answer where
  status : Uintptr
  location : Uintptr
  lastEntry : Uintptr
  truncated : UInt8

structure LogResult where
  log : Bytes
  truncated : Bool
  err : Option EFIError
  deriving DecidableEq

def getEventLog (m : Memory) (a : Answer) : Option LogResult :=
  if a.status &&& efiStatusErrorBit ≠ 0 then
    some ⟨[], false, some ⟨a.status, str "EFI_TCG2_PROTOCOL.GetEventLog"⟩⟩
  else
    let truncated := decide (a.truncated ≠ 0)
    if a.location = 0 then some ⟨[], truncated, none⟩
    else
      match tcg2EntrySize m a.location a.lastEntry with
      | .error e => some ⟨[], truncated, some e⟩
      | .ok lastSize =>
        let total := (a.lastEntry - a.location) + lastSize
        (readFirmwareBytes m a.location total.toInt).map fun log => ⟨log, truncated, none⟩

/-! ## Logs -/

structure Digest where
  alg : ℕ
  value : Bytes
  supported : tcg2DigestSize alg = some value.length

def Digest.bytes (d : Digest) : Bytes := leBytes 2 d.alg ++ d.value

def digestBytes (ds : List Digest) : Bytes := ds.flatMap Digest.bytes

/-- `TCG_PCR_EVENT`.  The front is `PCRIndex`, `EventType` and the digest. -/
structure LegacyEvent where
  front : Bytes
  event : Bytes
  length_front : front.length = legacyPrefix
  event_lt : event.length < 2 ^ 32

def LegacyEvent.bytes (e : LegacyEvent) : Bytes := e.front ++ (leBytes 4 e.event.length ++ e.event)

/-- `TCG_PCR_EVENT2`.  The front is `PCRIndex` and `EventType`. -/
structure Event2 where
  front : Bytes
  digests : List Digest
  event : Bytes
  length_front : front.length = 8
  count_lt : digests.length < 2 ^ 32
  event_lt : event.length < 2 ^ 32

def Event2.bytes (e : Event2) : Bytes :=
  e.front ++ (leBytes 4 e.digests.length ++ (digestBytes e.digests ++ (leBytes 4 e.event.length ++ e.event)))

/-- A crypto-agile log. -/
structure EventLog where
  header : LegacyEvent
  records : List Event2

namespace EventLog

def bytes (l : EventLog) : Bytes := l.header.bytes ++ l.records.flatMap Event2.bytes

/-- The last entry. -/
def lastBytes (l : EventLog) : Bytes :=
  match l.records.getLast? with
  | none => l.header.bytes
  | some e => e.bytes

/-- Where the last entry begins. -/
def lastOffset (l : EventLog) : ℕ := l.bytes.length - l.lastBytes.length

end EventLog

/-! ## Measuring -/

variable {alg n : ℕ}

theorem digestSize_alg_lt (h : tcg2DigestSize alg = some n) : alg < 2 ^ 16 := by
  by_contra hbig
  rw [tcg2DigestSize, if_neg (by omega), if_neg (by omega), if_neg (by omega), if_neg (by omega),
    if_neg (by omega)] at h
  cases h

theorem leNat_load {m : Memory} {a : Uintptr} {v : ℕ} (h : load m a (leBytes n v).length = leBytes n v)
    (hv : v < 256 ^ n) : leNat (load m a n) = v := by
  rw [length_leBytes] at h
  rw [h, leNat_leBytes hv]

section
variable {m : Memory}

theorem digestLoop_append (count : ℕ) : ∀ (ds : List Digest) (off : Uintptr),
    load m off (digestBytes ds).length = digestBytes ds →
    digestLoop m (ds.length + count) off =
      digestLoop m count (off + BitVec.ofNat 64 (digestBytes ds).length)
  | [], off, _ => by
    rw [List.length_nil, Nat.zero_add]
    exact congrArg (digestLoop m count) (BitVec.add_zero off).symm
  | d :: ds, off, h => by
    have hcons : digestBytes (d :: ds) = leBytes 2 d.alg ++ (d.value ++ digestBytes ds) := by
      rw [digestBytes, List.flatMap_cons, Digest.bytes, List.append_assoc]
      rfl
    rw [hcons] at h
    obtain ⟨halg, hrest⟩ := load_eq_append h
    rw [length_leBytes] at hrest
    have htail : load m (off + 2 + BitVec.ofNat 64 d.value.length) (digestBytes ds).length = digestBytes ds :=
      (load_eq_append hrest).2
    have hread : readFirmwareU16LE m off = d.alg := leNat_load halg (digestSize_alg_lt d.supported)
    rw [List.length_cons, Nat.succ_add, digestLoop, hread, d.supported]
    dsimp only
    rw [digestLoop_append count ds _ htail, hcons, List.length_append, List.length_append, length_leBytes,
      BitVec.ofNat_add, BitVec.ofNat_add, ← BitVec.add_assoc, ← BitVec.add_assoc]
    rfl

variable {location : Uintptr}

theorem tcg2EntrySize_legacy {e : LegacyEvent} (h : load m location e.bytes.length = e.bytes) :
    tcg2EntrySize m location location = .ok (BitVec.ofNat 64 e.bytes.length) := by
  obtain ⟨-, hrest⟩ := load_eq_append h
  obtain ⟨hsize, -⟩ := load_eq_append hrest
  rw [e.length_front] at hsize
  have hread : readFirmwareU32LE m (location + BitVec.ofNat 64 legacyPrefix) = e.event.length :=
    leNat_load hsize e.event_lt
  rw [tcg2EntrySize, if_pos rfl, hread, LegacyEvent.bytes, List.length_append, List.length_append,
    length_leBytes, e.length_front, ← Nat.add_assoc, BitVec.ofNat_add (legacyPrefix + 4)]

variable {count : ℕ} {entry : Uintptr} {front rest : Bytes}

theorem load_event2 {ds : Bytes} (hfront : front.length = 8) (hcount : count < 2 ^ 32)
    (h : load m entry (front ++ (leBytes 4 count ++ (ds ++ rest))).length = front ++ (leBytes 4 count ++ (ds ++ rest))) :
    
    readFirmwareU32LE m (entry + 8) = count ∧ load m (entry + 8 + 4) ds.length = ds ∧
      load m (entry + 8 + 4 + BitVec.ofNat 64 ds.length) rest.length = rest := by
  obtain ⟨-, h₁⟩ := load_eq_append h
  rw [hfront] at h₁
  obtain ⟨h₂, h₃⟩ := load_eq_append h₁
  rw [length_leBytes] at h₃
  exact ⟨leNat_load h₂ hcount, load_eq_append h₃⟩

theorem tcg2EntrySize_event2 {e : Event2} (hne : entry ≠ location)
    (h : load m entry e.bytes.length = e.bytes) :
    tcg2EntrySize m location entry = .ok (BitVec.ofNat 64 e.bytes.length) := by
  obtain ⟨hcount, hdigests, hrest⟩ := load_event2 e.length_front e.count_lt h
  have hloop := digestLoop_append 0 e.digests _ hdigests
  rw [Nat.add_zero, digestLoop] at hloop
  have hread : readFirmwareU32LE m (entry + 8 + 4 + BitVec.ofNat 64 (digestBytes e.digests).length) =
      e.event.length := leNat_load (load_eq_append hrest).1 e.event_lt
  rw [tcg2EntrySize, if_neg hne, hcount, hloop]
  dsimp only
  have hend : entry + 8 + 4 + BitVec.ofNat 64 (digestBytes e.digests).length + 4 +
      BitVec.ofNat 64 e.event.length = entry + BitVec.ofNat 64 e.bytes.length := by
    simp only [Event2.bytes, List.length_append, length_leBytes, e.length_front, BitVec.ofNat_add,
      ← BitVec.add_assoc]
    rfl
  rw [hread, hend, BitVec.add_comm, BitVec.add_sub_cancel]

/-- The digests before one that is not known are passed over. -/
theorem tcg2EntrySize_unknown {ds : List Digest} (hne : entry ≠ location) (hfront : front.length = 8)
    (hcount : count < 2 ^ 32) (hds : ds.length < count) (halg : alg < 2 ^ 16)
    (hunknown : tcg2DigestSize alg = none)
    (h : load m entry (front ++ (leBytes 4 count ++ (digestBytes ds ++ (leBytes 2 alg ++ rest)))).length = front ++ (leBytes 4 count ++ (digestBytes ds ++ (leBytes 2 alg ++ rest)))) :
    
    tcg2EntrySize m location entry = .error unknownDigestAlg := by
  obtain ⟨hread, hdigests, hrest⟩ := load_event2 hfront hcount h
  have hloop := digestLoop_append (count - ds.length) ds _ hdigests
  obtain ⟨k, hk⟩ := Nat.exists_eq_succ_of_ne_zero (Nat.sub_ne_zero_of_lt hds)
  have hfirst : readFirmwareU16LE m (entry + 8 + 4 + BitVec.ofNat 64 (digestBytes ds).length) = alg :=
    leNat_load (load_eq_append hrest).1 halg
  rw [Nat.add_sub_cancel' hds.le, hk, digestLoop, hfirst, hunknown] at hloop
  rw [tcg2EntrySize, if_neg hne, hread, hloop]

end

/-! ## The whole log -/

namespace EventLog

theorem header_pos (l : EventLog) : 0 < l.header.bytes.length := by
  rw [LegacyEvent.bytes, List.length_append, l.header.length_front]
  exact Nat.lt_of_lt_of_le (by decide) (Nat.le_add_right _ _)

theorem exists_front (l : EventLog) : ∃ front, l.bytes = front ++ l.lastBytes ∧ front.length = l.lastOffset ∧
    (front = [] ∧ l.lastBytes = l.header.bytes ∨ 0 < front.length ∧ ∃ e : Event2, l.lastBytes = e.bytes) := by
  obtain ⟨front, hbytes, hlast⟩ : ∃ front, l.bytes = front ++ l.lastBytes ∧
      (front = [] ∧ l.lastBytes = l.header.bytes ∨
        0 < front.length ∧ ∃ e : Event2, l.lastBytes = e.bytes) := by
    rcases List.eq_nil_or_concat l.records with hnil | ⟨init, e, hrec⟩
    · have hlast : l.lastBytes = l.header.bytes := by
        rw [lastBytes, hnil]
        rfl
      refine ⟨[], ?_, .inl ⟨rfl, hlast⟩⟩
      rw [bytes, hlast, hnil]
      exact List.append_nil _
    · rw [List.concat_eq_append] at hrec
      have hlast : l.lastBytes = e.bytes := by rw [lastBytes, hrec, List.getLast?_concat]
      refine ⟨l.header.bytes ++ init.flatMap Event2.bytes, ?_, .inr ⟨?_, e, hlast⟩⟩
      · rw [bytes, hlast, hrec, List.flatMap_append, List.append_assoc, List.flatMap_singleton]
      · rw [List.length_append]
        exact Nat.lt_of_lt_of_le l.header_pos (Nat.le_add_right _ _)
  refine ⟨front, hbytes, ?_, hlast⟩
  rw [lastOffset, hbytes, List.length_append, Nat.add_sub_cancel]

theorem length_bytes (l : EventLog) : l.lastOffset + l.lastBytes.length = l.bytes.length := by
  obtain ⟨front, hbytes, hfront, -⟩ := l.exists_front
  rw [hbytes, List.length_append, hfront]

end EventLog

section
variable {m : Memory} {location : Uintptr} {l : EventLog}

/-- **The last entry** of a log in the memory is measured right. -/
theorem tcg2EntrySize_last (hlen : l.bytes.length < 2 ^ 64) (h : load m location l.bytes.length = l.bytes) :
    tcg2EntrySize m location (location + BitVec.ofNat 64 l.lastOffset) =
      .ok (BitVec.ofNat 64 l.lastBytes.length) := by
  obtain ⟨front, hbytes, hfront, ⟨rfl, hlast⟩ | ⟨hpos, e, hlast⟩⟩ := l.exists_front
  · rw [hbytes, List.nil_append, hlast] at h
    have hsame : location + BitVec.ofNat 64 l.lastOffset = location := by
      rw [← hfront]
      exact BitVec.add_zero location
    rw [hsame, hlast, tcg2EntrySize_legacy h]
  · rw [hbytes, hlast] at h
    have hentry := (load_eq_append h).2
    rw [hfront] at hentry hpos
    have hoff : l.lastOffset < 2 ^ 64 := by
      have := l.length_bytes
      omega
    have hne : location + BitVec.ofNat 64 l.lastOffset ≠ location := fun heq => by
      have hdist := distance location hoff
      rw [heq, BitVec.sub_self] at hdist
      exact absurd hdist (Nat.ne_of_lt hpos)
    rw [hlast, tcg2EntrySize_event2 hne hentry]

theorem readFirmwareBytes_log (hmax : l.bytes.length ≤ Disk.maxAlloc)
    (hfit : location.toNat + l.bytes.length ≤ 2 ^ 64) (h : load m location l.bytes.length = l.bytes) :
    readFirmwareBytes m location (location + BitVec.ofNat 64 l.lastOffset - location +
        BitVec.ofNat 64 l.lastBytes.length).toInt = some l.bytes := by
  have hlen : l.bytes.length ≤ 2 ^ 48 := hmax
  have hpos : 0 < l.bytes.length := by
    rw [EventLog.bytes, List.length_append]
    exact Nat.lt_of_lt_of_le l.header_pos (Nat.le_add_right _ _)
  have htotal : location + BitVec.ofNat 64 l.lastOffset - location + BitVec.ofNat 64 l.lastBytes.length =
      BitVec.ofNat 64 l.bytes.length := by
    rw [BitVec.add_comm location, BitVec.add_sub_cancel, ← BitVec.ofNat_add, l.length_bytes]
  have hnat : (BitVec.ofNat 64 l.bytes.length).toNat = l.bytes.length := by
    rw [BitVec.toNat_ofNat, Nat.mod_eq_of_lt (by omega)]
  have htoInt : (BitVec.ofNat 64 l.bytes.length).toInt = l.bytes.length := by
    rw [BitVec.toInt_eq_toNat_of_lt (by omega), hnat]
  rw [htotal, readFirmwareBytes, htoInt, if_neg (by omega), if_neg (by omega), if_neg (by omega),
    Int.toNat_natCast, h]

end

/-- **The event log** is read as a whole if a slice can hold it. -/
theorem getEventLog_whole (m : Memory) (a : Answer) (hstatus : a.status &&& efiStatusErrorBit = 0) :
    (∀ l : EventLog, a.location ≠ 0 → load m a.location l.bytes.length = l.bytes →
      a.lastEntry = a.location + BitVec.ofNat 64 l.lastOffset → a.location.toNat + l.bytes.length ≤ 2 ^ 64 →
      l.bytes.length ≤ Disk.maxAlloc →
      getEventLog m a = some ⟨l.bytes, decide (a.truncated ≠ 0), none⟩) ∧
    (∀ (front rest : Bytes) (ds : List Digest) (alg count : ℕ), a.location ≠ 0 → a.lastEntry ≠ a.location →
      front.length = 8 → count < 2 ^ 32 → ds.length < count → alg < 2 ^ 16 → tcg2DigestSize alg = none →
      load m a.lastEntry (front ++ (leBytes 4 count ++ (digestBytes ds ++ (leBytes 2 alg ++ rest)))).length =
        front ++ (leBytes 4 count ++ (digestBytes ds ++ (leBytes 2 alg ++ rest))) →
      getEventLog m a = some ⟨[], decide (a.truncated ≠ 0), some unknownDigestAlg⟩) ∧
    (a.location = 0 → getEventLog m a = some ⟨[], decide (a.truncated ≠ 0), none⟩) := by
  have hok : ¬ a.status &&& efiStatusErrorBit ≠ 0 := not_not.mpr hstatus
  refine ⟨fun l hloc hload hlast hfit hmax => ?_, ?_, fun hloc => ?_⟩
  · have hlen : l.bytes.length < 2 ^ 64 := Nat.lt_of_le_of_lt hmax (by decide)
    rw [getEventLog, if_neg hok, if_neg hloc, hlast, tcg2EntrySize_last hlen hload]
    dsimp only
    rw [readFirmwareBytes_log hmax hfit hload, Option.map_some]
  · intro front rest ds alg count hloc hne hfront hcount hds halg hunknown hload
    rw [getEventLog, if_neg hok, if_neg hloc,
      tcg2EntrySize_unknown hne hfront hcount hds halg hunknown hload]
  · rw [getEventLog, if_neg hok, if_pos hloc]

/-! ### A log -/

/-- A memory with nothing but a log at the address 4096. -/
def memoryWith (b : Bytes) : Memory := fill (fun _ => 0) 4096 b.length fun i => b.getD i 0

theorem load_memoryWith {b : Bytes} (h : b.length ≤ 2 ^ 64) : load (memoryWith b) 4096 b.length = b := by
  rw [memoryWith, load_fill h]
  refine List.ext_getElem (by simp) fun i hi hi' => ?_
  simp [List.getD_eq_getElem?_getD, List.getElem?_eq_getElem hi']

def answerFor (l : EventLog) : Answer := ⟨0, 4096, 4096 + BitVec.ofNat 64 l.lastOffset, 0⟩

def plainHeader : LegacyEvent := ⟨List.replicate 28 0, [], rfl, by decide⟩

/-- A log with an event that has a SHA-256 digest. -/
def smallLog : EventLog :=
  ⟨plainHeader, [⟨List.replicate 8 1, [⟨0x000B, List.replicate 32 2, rfl⟩], [3, 4], rfl, by decide, by decide⟩]⟩

theorem getEventLog_small :
    getEventLog (memoryWith smallLog.bytes) (answerFor smallLog) = some ⟨smallLog.bytes, false, none⟩ :=
  (getEventLog_whole (memoryWith smallLog.bytes) (answerFor smallLog) rfl).1 smallLog (by decide)
    (load_memoryWith (by decide)) rfl (by decide) (by decide)

end TamagoUefi.Board.Tcg2
