import TamagoUefi.Net.Dns
import TamagoUefi.Net.Tcp4Demux

/-!
# TamagoUefi.Net.Tcp4Dial — dials, inbound segments and Close on one stack (`tcp4.go`)

Any number of dials and `Close` calls, interleaved at their critical sections, with the segments that
`handleTCP4` finds a connection for.  A connection has the number of its dial; the pointer that
`handleTCP4` takes from the table may be used after the entry is gone.

`Owned` is what the table is for: an entry belongs to a connection whose dial is in progress, or that
is its caller's and not closed yet.  `Close` gives the port back on the long path only: it returns at
once when `closed` is set, and an RST sets `closed` without touching the table.

* `TableClear` says which steps do no harm.
* `owned_iff`: the table is sound in every state of a run exactly when its steps do no harm.
* `owned_broken`: an RST between dial and `Close` leaves the entry behind.
-/

namespace TamagoUefi.Net

open Go Lib

/-! ## Dials -/

/-- `binary.BigEndian` on the first four and the next two bytes of the hardware address. -/
def tcp4InitialSeq (mac : Bytes) (localPort : UInt16) : Seq :=
  match mac with
  | m₀ :: m₁ :: m₂ :: m₃ :: m₄ :: m₅ :: _ =>
    let hi : BitVec 32 := m₀.toBitVec ++ m₁.toBitVec ++ m₂.toBitVec ++ m₃.toBitVec
    let lo : BitVec 16 := m₄.toBitVec ++ m₅.toBitVec
    hi ^^^ (lo.zeroExtend 32 <<< 16) ^^^ localPort.toBitVec.zeroExtend 32
  | _ => localPort.toBitVec.zeroExtend 32 ^^^ 0xCAFEBABE

/-- Where a dial stands; later, where its connection stands. -/
inductive Phase
  | idle
  /-- Past the checks, with the hardware address. -/
  | entered (mac : Bytes)
  /-- The connection has its port and is not in the table yet. -/
  | allocated
  /-- In the table, the SYN not sent yet. -/
  | registered
  /-- In the loop that waits for the SYN-ACK. -/
  | waiting
  /-- About to give the port back and return the error. -/
  | failing (e : DialErr)
  | failed (e : DialErr)
  /-- The connection is its caller's. -/
  | returned
  /-- A `Close` of its caller has returned. -/
  | closed
  deriving DecidableEq

/-- May the connection be in the table? -/
def Phase.owns : Phase → Bool
  | .registered | .waiting | .failing _ | .returned => true
  | _ => false

structure Dial where
  phase : Phase
  localPort : UInt16
  remoteIP : Bytes
  remotePort : UInt16
  conn : TCP4Conn

/-- Where a `Close` stands. -/
inductive CloseCall
  | idle
  /-- Waiting for the handshake of connection `k` to complete. -/
  | waiting (k : ℕ)
  /-- Connection `k` is marked closed; its port is not given back yet. -/
  | marked (k : ℕ)
  | done
  deriving DecidableEq

/-- A segment that `handleTCP4` has found a connection for. -/
structure Inbound where
  conn : ℕ
  header : TCP4Header
  payload : Bytes

structure Table where
  demux : Demux
  dials : ℕ → Dial
  closers : ℕ → CloseCall
  rx : ℕ → Option Inbound

open Table

inductive TableEvent
  /-- The checks of `dialTCP4Once`, with the local and the hardware address of the stack. -/
  | dial (k : ℕ) (dst : Bytes) (port : UInt16) (localIP : Option Bytes) (mac : Bytes)
  | alloc (k : ℕ)
  | register (k : ℕ)
  | sendSyn (k : ℕ) (g : Egress)
  /-- A round of the waiting loop. -/
  | poll (k : ℕ)
  | expire (k : ℕ)
  | release (k : ℕ)
  /-- The lookup of `handleTCP4`. -/
  | handle (n : ℕ) (src : Bytes) (srcPort dstPort : UInt16) (h : TCP4Header) (payload : Bytes)
  | deliver (n : ℕ)
  /-- The first locked step of `Close` of connection `k`. -/
  | close (i k : ℕ)
  | mark (i : ℕ)
  | releaseClosed (i : ℕ)
  | closeStack

variable {d : Dial} {j k : ℕ} {t : Table}

namespace Table

def start : Table where
  demux := .fresh
  dials _ := ⟨.idle, 0, [], 0, .dialed 0⟩
  closers _ := .idle
  rx _ := none

def setDial (t : Table) (k : ℕ) (d : Dial) : Table := { t with dials := Function.update t.dials k d }

def setPhase (t : Table) (k : ℕ) (s : Phase) : Table := t.setDial k { t.dials k with phase := s }

def setConn (t : Table) (k : ℕ) (c : TCP4Conn) : Table := t.setDial k { t.dials k with conn := c }

def setCloser (t : Table) (i : ℕ) (c : CloseCall) : Table :=
  { t with closers := Function.update t.closers i c }

def dial (t : Table) (k : ℕ) (dst : Bytes) (port : UInt16) (localIP : Option Bytes) (mac : Bytes) :
    Table :=
  match (t.dials k).phase with
  | .idle =>
    match to4 dst with
    | none => t.setPhase k (.failed .invalidAddr)
    | some d4 =>
      if t.demux.closed then t.setPhase k (.failed .stackClosed)
      else
        match localIP with
        | none => t.setPhase k (.failed .noLocalAddr)
        | some _ =>
          t.setDial k { t.dials k with phase := .entered mac, remoteIP := d4, remotePort := port }
  | _ => t

/-- Allocation, and the connection built with the port. -/
def alloc (t : Table) (k : ℕ) : Table :=
  match (t.dials k).phase with
  | .entered mac =>
    match t.demux.allocTCP4Port with
    | .error e => t.setPhase k (.failed e)
    | .ok (p, d) =>
      { t.setDial k
          { t.dials k with
            phase := .allocated, localPort := p, conn := .dialed (tcp4InitialSeq mac p) } with
        demux := d }
  | _ => t

def register (t : Table) (k : ℕ) : Table :=
  match (t.dials k).phase with
  | .allocated =>
    { t.setPhase k .registered with demux := t.demux.registerTCP4 (t.dials k).localPort k }
  | _ => t

/-- The SYN needs the stack to be open, like every frame. -/
def sendSyn (t : Table) (k : ℕ) (g : Egress) : Table :=
  match (t.dials k).phase with
  | .registered =>
    match sendSegment { g with closed := t.demux.closed } with
    | some e => t.setPhase k (.failing (.send e))
    | none => t.setPhase k .waiting
  | _ => t

def poll (t : Table) (k : ℕ) : Table :=
  match (t.dials k).phase with
  | .waiting =>
    if (t.dials k).conn.state = .established then t.setPhase k .returned
    else if (t.dials k).conn.closed then t.setPhase k (.failing .connRefused)
    else t
  | _ => t

def expire (t : Table) (k : ℕ) : Table :=
  match (t.dials k).phase with
  | .waiting => t.setPhase k (.failing .timeout)
  | _ => t

def release (t : Table) (k : ℕ) : Table :=
  match (t.dials k).phase with
  | .failing e =>
    { t.setPhase k (.failed e) with demux := t.demux.releaseTCP4 (t.dials k).localPort }
  | _ => t

/-- Both addresses are the four bytes of an IPv4 address. -/
def handle (t : Table) (n : ℕ) (src : Bytes) (srcPort dstPort : UInt16) (h : TCP4Header)
    (payload : Bytes) : Table :=
  match t.demux.tcp4Conns dstPort with
  | none => t
  | some k =>
    if (t.dials k).remoteIP ≠ src ∨ (t.dials k).remotePort ≠ srcPort then t
    else { t with rx := Function.update t.rx n (some ⟨k, h, payload⟩) }

def deliver (t : Table) (n : ℕ) : Table :=
  match t.rx n with
  | none => t
  | some ⟨k, h, payload⟩ =>
    { t.setConn k ((t.dials k).conn.deliverSegment h payload).1 with
      rx := Function.update t.rx n none }

/-- Only the caller of a dial that returned has the connection. -/
def close (t : Table) (i k : ℕ) : Table :=
  match t.closers i, (t.dials k).phase with
  | .idle, .returned | .idle, .closed =>
    if (t.dials k).conn.closed then (t.setPhase k .closed).setCloser i .done
    else (t.setConn k (t.dials k).conn.beginClose.1).setCloser i (.waiting k)
  | _, _ => t

/-- The handshake is complete, or the time is up. -/
def mark (t : Table) (i : ℕ) : Table :=
  match t.closers i with
  | .waiting k => (t.setConn k (t.dials k).conn.endClose).setCloser i (.marked k)
  | _ => t

def releaseClosed (t : Table) (i : ℕ) : Table :=
  match t.closers i with
  | .marked k =>
    { (t.setPhase k .closed).setCloser i .done with
      demux := t.demux.releaseTCP4 (t.dials k).localPort }
  | _ => t

def after (t : Table) : TableEvent → Table
  | .dial k dst port localIP mac => t.dial k dst port localIP mac
  | .alloc k => t.alloc k
  | .register k => t.register k
  | .sendSyn k g => t.sendSyn k g
  | .poll k => t.poll k
  | .expire k => t.expire k
  | .release k => t.release k
  | .handle n src srcPort dstPort h payload => t.handle n src srcPort dstPort h payload
  | .deliver n => t.deliver n
  | .close i k => t.close i k
  | .mark i => t.mark i
  | .releaseClosed i => t.releaseClosed i
  | .closeStack => { t with demux := { t.demux with closed := true } }

@[simp] theorem setDial_self (t : Table) (k : ℕ) (d : Dial) : (t.setDial k d).dials k = d :=
  Function.update_self ..

theorem setDial_of_ne (h : j ≠ k) : (t.setDial k d).dials j = t.dials j :=
  Function.update_of_ne h ..

end Table

/-! ## Steps -/

/-- The dial that takes the step. -/
def TableEvent.dialer : TableEvent → Option ℕ
  | .dial k _ _ _ _ | .alloc k | .register k | .sendSyn k _ | .poll k | .expire k | .release k =>
    some k
  | _ => none

/-- Is the connection its caller's, or has it been? -/
def Phase.handed : Phase → Bool
  | .returned | .closed => true
  | _ => false

/-- How far a dial can be with its port.  A connection that was reset is closed without a release. -/
def Dial.PortAt (d : Dial) (s : DialPort) : Prop :=
  match d.phase with
  | .idle | .entered _ => s = .idle
  | .allocated => s = .allocated d.localPort
  | .registered | .waiting | .failing _ | .returned => s = .registered d.localPort
  | .failed _ => s = .idle ∨ s = .released d.localPort
  | .closed => s = .registered d.localPort ∨ s = .released d.localPort

theorem Dial.portAt_closed {s : DialPort} (h : s = .registered d.localPort ∨ s = .released d.localPort) :
    { d with phase := .closed }.PortAt s := h

/-- The connection a `Close` is under way for. -/
def CloseCall.of : CloseCall → Option ℕ
  | .waiting k | .marked k => some k
  | .idle | .done => none

variable {s : Phase} {t' : Table}

namespace Table

/-- The port event of a step, if it is one. -/
def portEvents (t : Table) : TableEvent → List PortEvent
  | .alloc k => match (t.dials k).phase, t.demux.allocTCP4Port with
    | .entered _, .ok _ => [.alloc k]
    | _, _ => []
  | .register k => match (t.dials k).phase with
    | .allocated => [.register k]
    | _ => []
  | .release k => match (t.dials k).phase with
    | .failing _ => [.release k]
    | _ => []
  | .releaseClosed i => match t.closers i with
    | .marked k => [.release k]
    | _ => []
  | .closeStack => [.close]
  | _ => []

/-- Nothing the table depends on has changed. -/
structure Quiet (t t' : Table) : Prop where
  demux : t'.demux = t.demux
  phase : ∀ k, (t'.dials k).phase = (t.dials k).phase
  port : ∀ k, (t'.dials k).localPort = (t.dials k).localPort
  closer : ∀ i k, (t'.closers i).of = some k →
    (t.closers i).of = some k ∨ (t.dials k).phase.handed = true

theorem Quiet.refl (t : Table) : Quiet t t := ⟨rfl, fun _ => rfl, fun _ => rfl, fun _ _ => .inl⟩

theorem quiet_setConn (t : Table) (k : ℕ) (c : TCP4Conn) : Quiet t (t.setConn k c) := by
  refine ⟨rfl, fun j => ?_, fun j => ?_, fun _ _ => .inl⟩
  all_goals
    by_cases hj : j = k
    · subst hj
      rw [setConn, setDial_self]
    · rw [setConn, setDial_of_ne hj]

/-- A further `Close` of a closed connection. -/
theorem quiet_setPhase (hk : (t.dials k).phase = s) : Quiet t (t.setPhase k s) := by
  have hsame : { t.dials k with phase := s } = t.dials k := by rw [← hk]
  refine ⟨rfl, fun j => ?_, fun j => ?_, fun _ _ => .inl⟩
  all_goals
    rw [setPhase, hsame, setDial, Function.update_eq_self]

variable {c : CloseCall} {i : ℕ}

theorem setCloser_of (h : ((t.setCloser i c).closers j).of = some k) :
    (j = i ∧ c.of = some k) ∨ (t.closers j).of = some k := by
  by_cases hji : j = i
  · subst hji
    simp only [setCloser, Function.update_self] at h
    exact .inl ⟨rfl, h⟩
  · simp only [setCloser, Function.update_of_ne hji] at h
    exact .inr h

/-- A `Close` of a connection that is its caller's moves on. -/
theorem Quiet.setCloser (h : Quiet t t')
    (hc : ∀ k, c.of = some k → (t.closers i).of = some k ∨ (t.dials k).phase.handed = true) :
    Quiet t (t'.setCloser i c) := by
  refine ⟨h.demux, h.phase, h.port, fun j k hj => ?_⟩
  rcases setCloser_of hj with ⟨rfl, hnew⟩ | hold
  · exact hc k hnew
  · exact h.closer j k hold

end Table

/-- The changes a step can make, and the port event that it is. -/
inductive TableStep (t : Table) : TableEvent → List PortEvent → Table → Prop
  | quiet {e : TableEvent} {t' : Table} (h : t.Quiet t') : TableStep t e [] t'
  /-- A dial moves on without touching the table. -/
  | move {e : TableEvent} {k : ℕ} {d : Dial}
      (hport : ∀ s, (t.dials k).PortAt s → d.PortAt s)
      (howns : (t.dials k).phase.owns = true →
        d.phase.owns = true ∧ d.localPort = (t.dials k).localPort)
      (hd : d.phase ≠ .closed) : TableStep t e [] (t.setDial k d)
  | alloc {k : ℕ} {mac : Bytes} {p : UInt16} {m : Demux} {d : Dial}
      (hk : (t.dials k).phase = .entered mac) (ha : t.demux.allocTCP4Port = .ok (p, m))
      (hd : d.phase = .allocated) (hp : d.localPort = p) :
      TableStep t (.alloc k) [.alloc k] { t.setDial k d with demux := m }
  | register {k : ℕ} (hk : (t.dials k).phase = .allocated) :
      TableStep t (.register k) [.register k]
        { t.setPhase k .registered with demux := t.demux.registerTCP4 (t.dials k).localPort k }
  | release {k : ℕ} {err : DialErr} (hk : (t.dials k).phase = .failing err) :
      TableStep t (.release k) [.release k]
        { t.setPhase k (.failed err) with demux := t.demux.releaseTCP4 (t.dials k).localPort }
  /-- A `Close` that returns at once. -/
  | early {i k : ℕ} (hi : t.closers i = .idle) (hk : (t.dials k).phase = .returned)
      (hc : (t.dials k).conn.closed = true) :
      TableStep t (.close i k) [] ((t.setPhase k .closed).setCloser i .done)
  /-- A `Close` that gives the port back. -/
  | closed {i k : ℕ} (hi : t.closers i = .marked k) :
      TableStep t (.releaseClosed i) [.release k]
        { (t.setPhase k .closed).setCloser i .done with
          demux := t.demux.releaseTCP4 (t.dials k).localPort }
  | shut : TableStep t .closeStack [.close] { t with demux := { t.demux with closed := true } }

namespace Table

section
variable {t : Table} {e : TableEvent} {k : ℕ}

/-- A dial without a port fails, or passes the checks. -/
theorem step_out (h : ∀ s, (t.dials k).PortAt s → s = .idle) (hd : d.PortAt .idle)
    (hk : (t.dials k).phase.owns = false) : TableStep t e [] (t.setDial k d) := by
  refine .move (fun s hs => h s hs ▸ hd) (by simp [hk]) ?_
  intro hclosed
  simp [Dial.PortAt, hclosed] at hd

theorem step_stay (hk : (t.dials k).phase.owns = true) (hs : s.owns = true) :
    TableStep t e [] (t.setPhase k s) := by
  refine .move ?_ (fun _ => ⟨hs, rfl⟩) ?_
  · unfold Dial.PortAt
    cases hp : (t.dials k).phase <;> cases s <;> simp_all [Phase.owns]
  · rintro rfl
    cases hs

theorem step_dial (dst : Bytes) (port : UInt16) (localIP : Option Bytes) (mac : Bytes) :
    TableStep t e [] (t.dial k dst port localIP mac) := by
  unfold dial
  split
  case h_2 => exact .quiet (.refl t)
  case h_1 hk =>
    have hout : ∀ d : Dial, d.PortAt .idle → TableStep t e [] (t.setDial k d) := fun d hd =>
      step_out (by simp [Dial.PortAt, hk]) hd (by rw [hk]; rfl)
    split
    · exact hout _ (.inl rfl)
    · split_ifs
      · exact hout _ (.inl rfl)
      · split
        · exact hout _ (.inl rfl)
        · exact hout _ rfl

theorem step_alloc : TableStep t (.alloc k) (t.portEvents (.alloc k)) (t.alloc k) := by
  simp only [alloc, portEvents]
  cases hk : (t.dials k).phase with
  | entered mac =>
    cases ha : t.demux.allocTCP4Port with
    | error err =>
      change TableStep t _ [] (t.setDial k { t.dials k with phase := .failed err })
      exact step_out (by simp [Dial.PortAt, hk]) (.inl rfl) (by rw [hk]; rfl)
    | ok r => exact .alloc hk ha rfl rfl
  | _ => exact .quiet (.refl t)

theorem step_sendSyn (g : Egress) : TableStep t e [] (t.sendSyn k g) := by
  unfold sendSyn
  split
  case h_2 => exact .quiet (.refl t)
  case h_1 hk => split <;> exact step_stay (by rw [hk]; rfl) rfl

theorem step_poll : TableStep t e [] (t.poll k) := by
  unfold poll
  split
  case h_2 => exact .quiet (.refl t)
  case h_1 hk =>
    split_ifs
    · exact step_stay (by rw [hk]; rfl) rfl
    · exact step_stay (by rw [hk]; rfl) rfl
    · exact .quiet (.refl t)

theorem step_expire : TableStep t e [] (t.expire k) := by
  unfold expire
  split
  case h_1 hk => exact step_stay (by rw [hk]; rfl) rfl
  case h_2 => exact .quiet (.refl t)

end

theorem step_close (t : Table) (i k : ℕ) : TableStep t (.close i k) [] (t.close i k) := by
  have hlong : (t.dials k).phase.handed = true →
      Quiet t ((t.setConn k (t.dials k).conn.beginClose.1).setCloser i (.waiting k)) := by
    intro hk
    refine (quiet_setConn t k _).setCloser ?_
    rintro j ⟨⟩
    exact .inr hk
  unfold close
  split
  case h_1 hi hk =>
    split_ifs with hc
    · exact .early hi hk hc
    · exact .quiet (hlong (by rw [hk]; rfl))
  case h_2 hi hk =>
    split_ifs with hc
    · exact .quiet ((quiet_setPhase hk).setCloser nofun)
    · exact .quiet (hlong (by rw [hk]; rfl))
  case h_3 => exact .quiet (.refl t)

/-- **Every step** is one of these changes. -/
theorem after_step (t : Table) (e : TableEvent) : TableStep t e (t.portEvents e) (t.after e) := by
  cases e with
  | dial k dst port localIP mac => exact step_dial dst port localIP mac
  | alloc k => exact step_alloc
  | register k =>
    simp only [after, register, portEvents]
    split
    case h_1 hk => exact .register hk
    case h_2 => exact .quiet (.refl t)
  | sendSyn k g => exact step_sendSyn g
  | poll k => exact step_poll
  | expire k => exact step_expire
  | release k =>
    simp only [after, release, portEvents]
    split
    case h_1 err hk => exact .release hk
    case h_2 => exact .quiet (.refl t)
  | handle n src srcPort dstPort h payload =>
    refine .quiet ?_
    change Quiet t (t.handle n src srcPort dstPort h payload)
    unfold handle
    split
    · exact .refl t
    · split_ifs
      · exact .refl t
      · exact ⟨rfl, fun _ => rfl, fun _ => rfl, fun _ _ => .inl⟩
  | deliver n =>
    refine .quiet ?_
    change Quiet t (t.deliver n)
    unfold deliver
    split
    · exact .refl t
    · obtain ⟨h₁, h₂, h₃, h₄⟩ := quiet_setConn t _ _
      exact ⟨h₁, h₂, h₃, h₄⟩
  | close i k => exact step_close t i k
  | mark i =>
    refine .quiet ?_
    change Quiet t (t.mark i)
    unfold mark
    split
    case h_1 k hi =>
      exact (quiet_setConn t k _).setCloser fun j hj => .inl (by rwa [hi])
    case h_2 => exact .refl t
  | releaseClosed i =>
    simp only [after, releaseClosed, portEvents]
    split
    case h_1 k hi => exact .closed hi
    case h_2 => exact .quiet (.refl t)
  | closeStack => exact .shut

end Table

/-! ## Ownership -/

/-- An entry belongs to a connection with that port whose dial is in progress, or that is its
caller's and not closed yet. -/
def Owned (t : Table) : Prop :=
  ∀ p k, t.demux.tcp4Conns p = some k →
    (t.dials k).localPort = p ∧ (t.dials k).phase.owns = true

/-- A connection whose `Close` returns has given its port back, and a dial changes no entry of another
connection. -/
structure StepSound (t : Table) (e : TableEvent) (t' : Table) : Prop where
  freed : ∀ k, (t.dials k).phase ≠ .closed → (t'.dials k).phase = .closed →
    t'.demux.tcp4Conns (t'.dials k).localPort = none
  apart : ∀ k, e.dialer = some k → ∀ p j, j ≠ k →
    (t'.demux.tcp4Conns p = some j ↔ t.demux.tcp4Conns p = some j)

/-- The steps that do no harm: a `Close` that finds the connection closed already finds its port
free; a registration finds the port free; a failing dial finds no other connection under it. -/
def TableClear (t : Table) : TableEvent → Prop
  | .close i k =>
    t.closers i = .idle → (t.dials k).phase = .returned → (t.dials k).conn.closed = true →
      t.demux.tcp4Conns (t.dials k).localPort = none
  | .register k =>
    (t.dials k).phase = .allocated → t.demux.tcp4Conns (t.dials k).localPort = none
  | .release k =>
    ∀ err, (t.dials k).phase = .failing err →
      ∀ j, t.demux.tcp4Conns (t.dials k).localPort = some j → j = k
  | _ => True

namespace Table

theorem setPhase_port (t : Table) (j k : ℕ) (s : Phase) :
    ((t.setPhase k s).dials j).localPort = (t.dials j).localPort := by
  by_cases hj : j = k
  · subst hj
    rw [setPhase, setDial_self]
  · rw [setPhase, setDial_of_ne hj]

theorem setPhase_phase_of_ne (h : j ≠ k) : ((t.setPhase k s).dials j).phase = (t.dials j).phase := by
  rw [setPhase, setDial_of_ne h]

theorem setPhase_phase (t : Table) (k : ℕ) (s : Phase) : ((t.setPhase k s).dials k).phase = s := by
  rw [setPhase, setDial_self]

end Table

/-- Giving back the port of `k` takes every entry of `k` out of the table. -/
theorem owned_release (h : Owned t) {p : UInt16}
    (hp : (t.demux.releaseTCP4 (t.dials k).localPort).tcp4Conns p = some j) :
    j ≠ k ∧ t.demux.tcp4Conns p = some j := by
  obtain ⟨hne, hold⟩ := Demux.releaseTCP4_eq_some hp
  refine ⟨?_, hold⟩
  rintro rfl
  exact hne (h p j hold).1.symm

/-- A connection may leave the table together with its entries. -/
theorem owned_setPhase (h : Owned t) (hdials : t'.dials = (t.setPhase k s).dials)
    (hconns : ∀ p j, t'.demux.tcp4Conns p = some j → j ≠ k ∧ t.demux.tcp4Conns p = some j) : Owned t' := by
  intro p j hp
  obtain ⟨hne, hold⟩ := hconns p j hp
  rw [hdials, setPhase_port, setPhase_phase_of_ne hne]
  exact h p j hold

variable {m : Demux}

/-- A dial that moves stays in the table with its port, if it was there. -/
theorem owned_move (h : Owned t) (hm : m.tcp4Conns = t.demux.tcp4Conns)
    (howns : (t.dials k).phase.owns = true → d.phase.owns = true ∧ d.localPort = (t.dials k).localPort) :
    Owned { t.setDial k d with demux := m } := by
  intro p j hp
  change m.tcp4Conns p = some j at hp
  rw [hm] at hp
  obtain ⟨hport, hphase⟩ := h p j hp
  by_cases hj : j = k
  · subst hj
    change ((t.setDial j d).dials j).localPort = p ∧ ((t.setDial j d).dials j).phase.owns = true
    rw [setDial_self]
    exact ⟨(howns hphase).2.trans hport, (howns hphase).1⟩
  · change ((t.setDial k d).dials j).localPort = p ∧ ((t.setDial k d).dials j).phase.owns = true
    rw [setDial_of_ne hj]
    exact ⟨hport, hphase⟩

variable {e : TableEvent} {ps : List PortEvent}

theorem owned_step (h : Owned t) (hc : TableClear t e) (he : TableStep t e ps t') : Owned t' := by
  cases he with
  | shut => exact h
  | quiet hq =>
    intro p k hp
    rw [hq.demux] at hp
    rw [hq.phase, hq.port]
    exact h p k hp
  | move _ howns _ => exact owned_move h rfl howns
  | alloc hk ha _ _ =>
    exact owned_move h (Demux.allocTCP4Port_conns ha) (fun howns => by rw [hk] at howns; cases howns)
  | @register k hk =>
    intro p j hp
    change ((t.setPhase k .registered).dials j).localPort = p ∧
      ((t.setPhase k .registered).dials j).phase.owns = true
    rw [setPhase_port]
    by_cases hpk : p = (t.dials k).localPort
    · rw [hpk, Demux.registerTCP4_self] at hp
      cases hp
      rw [setPhase_phase]
      exact ⟨hpk.symm, rfl⟩
    · rw [Demux.registerTCP4_of_ne hpk] at hp
      obtain ⟨hport, hphase⟩ := h p j hp
      have hne : j ≠ k := by
        rintro rfl
        exact hpk hport.symm
      rw [setPhase_phase_of_ne hne]
      exact ⟨hport, hphase⟩
  | @release k err hk => exact owned_setPhase h rfl (fun p j hp => owned_release h hp)
  | @early i k hi hk hclosed =>
    refine owned_setPhase h rfl (fun p j hp => ⟨?_, hp⟩)
    -- the port is free, so the connection has no entry
    rintro rfl
    change t.demux.tcp4Conns p = some j at hp
    rw [← (h p j hp).1, hc hi hk hclosed] at hp
    cases hp
  | @closed i k hi => exact owned_setPhase h rfl (fun p j hp => owned_release h hp)

/-- Only the dial that moves can have become closed. -/
theorem eq_of_setPhase_closed (hj : (t.dials j).phase ≠ .closed)
    (hj' : ((t.setPhase k s).dials j).phase = .closed) : j = k := by
  by_contra hne
  rw [setPhase_phase_of_ne hne] at hj'
  exact hj hj'

theorem setPhase_ne_closed (hs : s ≠ .closed) (hj : (t.dials j).phase ≠ .closed) :
    ((t.setPhase k s).dials j).phase ≠ .closed := by
  intro hj'
  obtain rfl := eq_of_setPhase_closed hj hj'
  rw [setPhase_phase] at hj'
  exact hs hj'

theorem stepSound_move (hm : m.tcp4Conns = t.demux.tcp4Conns) (hd : d.phase ≠ .closed) :
    StepSound t e { t.setDial k d with demux := m } := by
  refine ⟨fun j hj hj' => ?_, fun _ _ p j _ => ?_⟩
  · change ((t.setDial k d).dials j).phase = .closed at hj'
    by_cases hjk : j = k
    · subst hjk
      rw [setDial_self] at hj'
      exact absurd hj' hd
    · rw [setDial_of_ne hjk] at hj'
      exact absurd hj' hj
  · change m.tcp4Conns p = some j ↔ _
    rw [hm]

theorem stepSound_of_clear (h : Owned t) (hc : TableClear t e) (he : TableStep t e ps t') :
    StepSound t e t' := by
  cases he with
  | shut => exact ⟨fun k hk hk' => absurd hk' hk, fun _ _ _ _ _ => Iff.rfl⟩
  | quiet hq =>
    refine ⟨fun k hk hk' => ?_, fun k _ p j _ => by rw [hq.demux]⟩
    rw [hq.phase] at hk'
    exact absurd hk' hk
  | move _ _ hd => exact stepSound_move rfl hd
  | alloc hk ha hd _ => exact stepSound_move (Demux.allocTCP4Port_conns ha) (by simp [hd])
  | @register k hk =>
    refine ⟨fun j hj hj' => absurd hj' (setPhase_ne_closed (by simp) hj), ?_⟩
    rintro _ ⟨⟩ p j hne
    by_cases hp : p = (t.dials k).localPort
    · rw [hp, Demux.registerTCP4_self, hc hk]
      simpa using hne.symm
    · rw [Demux.registerTCP4_of_ne hp]
  | @release k err hk =>
    refine ⟨fun j hj hj' => absurd hj' (setPhase_ne_closed (by simp) hj), ?_⟩
    rintro _ ⟨⟩ p j hne
    refine ⟨fun hp => (owned_release h hp).2, fun hp => ?_⟩
    have hpk : p ≠ (t.dials k).localPort := by
      rintro rfl
      exact hne (hc err hk j hp)
    rwa [Demux.releaseTCP4_of_ne hpk]
  | @early i k hi hk hclosed =>
    refine ⟨fun j hj hj' => ?_, fun _ hd => by cases hd⟩
    obtain rfl := eq_of_setPhase_closed hj hj'
    change t.demux.tcp4Conns ((t.setPhase j .closed).dials j).localPort = none
    rw [setPhase_port]
    exact hc hi hk hclosed
  | @closed i k hi =>
    refine ⟨fun j hj hj' => ?_, fun _ hd => by cases hd⟩
    obtain rfl := eq_of_setPhase_closed hj hj'
    change (t.demux.releaseTCP4 (t.dials j).localPort).tcp4Conns
      ((t.setPhase j .closed).dials j).localPort = none
    rw [setPhase_port, Demux.releaseTCP4_self]

/-- A harmful step shows. -/
theorem clear_of_stepSound (h : Owned t) (hs : StepSound t e (t.after e)) : TableClear t e := by
  cases e with
  | close i k =>
    intro hi hk hc
    have hafter : t.after (.close i k) = (t.setPhase k .closed).setCloser i .done := by
      simp only [after, close, hi, hk, hc, if_true]
    rw [hafter] at hs
    have hfree := hs.freed k (by simp [hk]) (setPhase_phase t k .closed)
    change t.demux.tcp4Conns ((t.setPhase k .closed).dials k).localPort = none at hfree
    rwa [setPhase_port] at hfree
  | register k =>
    intro hk
    have hafter : (t.after (.register k)).demux = t.demux.registerTCP4 (t.dials k).localPort k := by
      simp only [after, register, hk]
    cases hp : t.demux.tcp4Conns (t.dials k).localPort with
    | none => rfl
    | some j =>
      have hne : j ≠ k := by
        rintro rfl
        have := (h _ j hp).2
        rw [hk] at this
        cases this
      have hkept := (hs.apart k rfl _ j hne).mpr hp
      rw [hafter, Demux.registerTCP4_self] at hkept
      exact absurd (Option.some.inj hkept).symm hne
  | release k =>
    intro err hk j hp
    by_contra hne
    have hafter : (t.after (.release k)).demux = t.demux.releaseTCP4 (t.dials k).localPort := by
      simp only [after, release, hk]
    have hkept := (hs.apart k rfl _ j hne).mpr hp
    rw [hafter, Demux.releaseTCP4_self] at hkept
    cases hkept
  | dial | alloc | sendSyn | poll | expire | handle | deliver | mark | releaseClosed | closeStack =>
    trivial

/-! ## Runs -/

/-- Is it a step of the receive path? -/
def TableEvent.inbound : TableEvent → Bool
  | .handle .. | .deliver _ => true
  | _ => false

/-- The receive path reads the table only. -/
theorem conns_inbound (he : e.inbound = true) : (t.after e).demux.tcp4Conns = t.demux.tcp4Conns := by
  have hstep := t.after_step e
  generalize t.portEvents e = ps, t.after e = t' at hstep
  cases hstep with
  | quiet hq => rw [hq.demux]
  | move => rfl
  | alloc | register | release | early | closed | shut => cases he

section
variable {es : List TableEvent} (hmeets : RunMeets after TableClear .start es)
include hmeets

variable {es' : List TableEvent}

theorem owned_run (hp : es' <+: es) : Owned (runFrom after .start es') :=
  RunMeets.invariant (fun t e h hc => owned_step h hc (t.after_step e)) (by rintro p k ⟨⟩) hmeets es' hp

theorem stepSound_run (hp : es' ++ [e] <+: es) :
    StepSound (runFrom after .start es') e (runFrom after .start (es' ++ [e])) := by
  rw [runFrom_append]
  exact stepSound_of_clear (owned_run hmeets ((List.prefix_append _ _).trans hp))
    (runMeets_iff.mp hmeets es' e hp) (after_step _ e)

variable {es₁ : List TableEvent}

/-- While only dial `k` and inbound segments move, the entries of the other connections stay. -/
theorem others_run (hj : j ≠ k) (es₂ : List TableEvent) (hp : es₁ ++ es₂ <+: es)
    (hk : ∀ e ∈ es₂, e.dialer = some k ∨ e.inbound = true) (p : UInt16) :
    (runFrom after .start (es₁ ++ es₂)).demux.tcp4Conns p = some j ↔
      (runFrom after .start es₁).demux.tcp4Conns p = some j := by
  induction es₂ using List.reverseRecOn with
  | nil => rw [List.append_nil]
  | append_singleton es₂ e ih =>
    rw [← List.append_assoc] at hp ⊢
    have hrest := ih ((List.prefix_append _ _).trans hp) (fun e' he' => hk e' (by simp [he']))
    rw [← hrest]
    rcases hk e (by simp) with hd | hin
    · exact (stepSound_run hmeets hp).apart k hd p j hj
    · rw [runFrom_append, runFrom_cons, runFrom_nil, conns_inbound hin]

/-- A failed dial leaves the table as it found it. -/
theorem failed_run {err : DialErr} {es₂ : List TableEvent} (hp : es₁ ++ es₂ <+: es)
    (hk : ∀ e ∈ es₂, e.dialer = some k ∨ e.inbound = true)
    (hidle : ((runFrom after .start es₁).dials k).phase = .idle)
    (hfailed : ((runFrom after .start (es₁ ++ es₂)).dials k).phase = .failed err) :
    (runFrom after .start (es₁ ++ es₂)).demux.tcp4Conns =
      (runFrom after .start es₁).demux.tcp4Conns := by
  have howned₁ := owned_run hmeets ((List.prefix_append _ _).trans hp)
  have howned₂ := owned_run hmeets hp
  funext p
  ext j
  by_cases hj : j = k
  · subst hj
    constructor
    · intro h
      have := (howned₂ p j h).2
      rw [hfailed] at this
      cases this
    · intro h
      have := (howned₁ p j h).2
      rw [hidle] at this
      cases this
  · exact others_run hmeets hj es₂ hp hk p

end

/-- **Ownership of the table**, with ports given back by `Close` and by failed dials, throughout a
run: exactly when no step of the run does harm. -/
theorem owned_iff (es : List TableEvent) :
    ((∀ es', es' <+: es → Owned (runFrom Table.after .start es')) ∧
      (∀ es' e, es' ++ [e] <+: es →
        StepSound (runFrom Table.after .start es') e (runFrom Table.after .start (es' ++ [e]))) ∧
      ∀ k err es₁ es₂, es₁ ++ es₂ <+: es → (∀ e ∈ es₂, e.dialer = some k ∨ e.inbound = true) →
        ((runFrom Table.after .start es₁).dials k).phase = .idle →
        ((runFrom Table.after .start (es₁ ++ es₂)).dials k).phase = .failed err →
        (runFrom Table.after .start (es₁ ++ es₂)).demux.tcp4Conns =
          (runFrom Table.after .start es₁).demux.tcp4Conns) ↔
      RunMeets Table.after TableClear .start es := by
  constructor
  · rintro ⟨howned, hsound, -⟩
    rw [runMeets_iff]
    intro es' e hp
    have hstep := hsound es' e hp
    rw [runFrom_append] at hstep
    exact clear_of_stepSound (howned es' ((List.prefix_append _ _).trans hp)) hstep
  · intro hmeets
    exact ⟨fun es' hp => owned_run hmeets hp, fun es' e hp => stepSound_run hmeets hp,
      fun k err es₁ es₂ hp hk hidle hfailed => failed_run hmeets hp hk hidle hfailed⟩

/-- A dial to 10.0.2.2 port 80 that succeeds; then an RST, and `Close`. -/
def resetRun : List TableEvent :=
  [.dial 0 [10, 0, 2, 2] 80 (some [10, 0, 2, 15]) nicMAC, .alloc 0, .register 0, .sendSyn 0 .clear,
    .handle 0 [10, 0, 2, 2] 80 49152
      ⟨0, tcp4InitialSeq nicMAC 49152 + 1, tcpFlagSYN ||| tcpFlagACK, 65535⟩ [], .deliver 0, .poll 0,
    .handle 0 [10, 0, 2, 2] 80 49152 ⟨1, tcp4InitialSeq nicMAC 49152 + 1, tcpFlagRST, 65535⟩ [],
    .deliver 0,
    .close 0 0]

/-- After an RST `Close` returns at once, and port 49152 stays taken by a closed connection. -/
theorem owned_broken : ¬ ∀ es : List TableEvent, Owned (runFrom Table.after .start es) := by
  intro h
  have hentry : (runFrom after .start resetRun).demux.tcp4Conns 49152 = some 0 := by
    decide +kernel
  have hphase : ((runFrom after .start resetRun).dials 0).phase = .closed := by
    decide +kernel
  have howns := (h _ 49152 0 hentry).2
  rw [hphase] at howns
  cases howns

end TamagoUefi.Net
