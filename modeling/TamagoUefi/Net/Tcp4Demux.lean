import Mathlib.Data.List.Range
import TamagoUefi.Net.Tcp4Threads

/-!
# TamagoUefi.Net.Tcp4Demux — ephemeral ports (`tcp4.go`)

The demultiplexing table of a stack, and the three steps by which a dial gets a port and gives it
back.  A connection is known by the number of its dial.

Allocation and registration are two critical sections: a port that is allocated but not registered
is not in the table, and only the rover keeps a second allocation away from it.  The rover runs
modulo 16383 and the ports modulo 16382, so that the rover values 16382 and 0, which follow each
other, stand for the same port.

A dial may release its port more than once: two `Close` calls that overlap both do, and the later one
deletes whatever entry is under the port by then.

* `allocTCP4Port_eq_ok`: the port found is the first one of the scan that is not in the table.
* `unshared_iff`: where no release takes out another dial's entry, dials share no port exactly when no
  scan reaches a port that waits for its registration.
* `unshared_broken`: after 16382 dials one after the other, two dials at once share port 49152.
-/

namespace TamagoUefi.Net

open Go Lib
open Function (update update_apply update_of_ne update_self)

/-! ## The table -/

/-- The errors of `dialTCP4Once`. -/
inductive DialErr
  | invalidAddr
  | stackClosed
  | noLocalAddr
  | portInUse
  | send (e : SendErr)
  | connRefused
  | timeout
  deriving DecidableEq

/-- The fields of a stack that its TCP connections share. -/
structure Demux where
  closed : Bool
  tcp4Conns : UInt16 → Option ℕ
  tcp4PortRover : UInt16

open Demux

variable {d : Demux}

namespace Demux

/-- The port tried in round `i`. -/
def probe (d : Demux) (i : ℕ) : UInt16 :=
  49152 + (d.tcp4PortRover + UInt16.ofNat i) % (16383 - 1)

def free (d : Demux) (p : UInt16) : Bool := (d.tcp4Conns p).isNone

def allocTCP4Port (d : Demux) : Except DialErr (UInt16 × Demux) :=
  if d.closed then .error .stackClosed
  else
    match (List.range 1024).find? (fun i => d.free (d.probe i)) with
    | some i =>
      .ok (d.probe i, { d with tcp4PortRover := (d.tcp4PortRover + UInt16.ofNat i + 1) % 16383 })
    | none => .error .portInUse

def registerTCP4 (d : Demux) (p : UInt16) (i : ℕ) : Demux :=
  { d with tcp4Conns := update d.tcp4Conns p (some i) }

def releaseTCP4 (d : Demux) (p : UInt16) : Demux :=
  { d with tcp4Conns := update d.tcp4Conns p none }

/-- A stack before its first dial. -/
def fresh : Demux := ⟨false, fun _ => none, 0⟩

section
variable {d : Demux} {p q : UInt16} {i : ℕ}

@[simp] theorem registerTCP4_self : (d.registerTCP4 p i).tcp4Conns p = some i :=
  update_self ..

theorem registerTCP4_of_ne (h : q ≠ p) : (d.registerTCP4 p i).tcp4Conns q = d.tcp4Conns q :=
  update_of_ne h ..

@[simp] theorem releaseTCP4_self : (d.releaseTCP4 p).tcp4Conns p = none :=
  update_self ..

theorem releaseTCP4_of_ne (h : q ≠ p) : (d.releaseTCP4 p).tcp4Conns q = d.tcp4Conns q :=
  update_of_ne h ..

theorem releaseTCP4_eq_some (h : (d.releaseTCP4 p).tcp4Conns q = some i) :
    q ≠ p ∧ d.tcp4Conns q = some i := by
  have hne : q ≠ p := by
    rintro rfl
    rw [releaseTCP4_self] at h
    cases h
  rw [releaseTCP4_of_ne hne] at h
  exact ⟨hne, h⟩

end

variable {p : UInt16}

theorem free_iff : d.free p = true ↔ d.tcp4Conns p = none := by
  simp [free]

variable {d' : Demux}

/-- **`allocTCP4Port`** finds the first free port of the scan. -/
theorem allocTCP4Port_eq_ok :
    d.allocTCP4Port = .ok (p, d') ↔
      d.closed = false ∧ ∃ n < 1024, p = d.probe n ∧ d.free p = true ∧
        (∀ m < n, d.free (d.probe m) = false) ∧
        d' = { d with tcp4PortRover := (d.tcp4PortRover + UInt16.ofNat n + 1) % 16383 } := by
  unfold allocTCP4Port
  by_cases hc : d.closed = true
  · simp [hc]
  rw [if_neg hc]
  have hopen : d.closed = false := by simpa using hc
  cases hf : (List.range 1024).find? (fun i => d.free (d.probe i)) with
  | none =>
    rw [List.find?_range_eq_none] at hf
    simp only [reduceCtorEq, false_iff]
    rintro ⟨-, n, hn, rfl, hfree, -⟩
    exact absurd (hf n hn) (by simp [hfree])
  | some i =>
    rw [List.find?_range_eq_some] at hf
    obtain ⟨hfree, hi, hbefore⟩ := hf
    simp only [Except.ok.injEq, Prod.mk.injEq]
    constructor
    · rintro ⟨rfl, rfl⟩
      exact ⟨hopen, i, List.mem_range.mp hi, rfl, hfree, fun m hm => by simpa using hbefore m hm, rfl⟩
    · rintro ⟨-, n, hn, rfl, hnfree, hnbefore, rfl⟩
      -- both are the first free round
      have hni : n = i := by
        rcases Nat.lt_trichotomy n i with hlt | heq | hgt
        · exact absurd (hbefore n hlt) (by simp [hnfree])
        · exact heq
        · exact absurd (hnbefore i hgt) (by simp [hfree])
      subst hni
      exact ⟨rfl, rfl⟩

theorem allocTCP4Port_conns (h : d.allocTCP4Port = .ok (p, d')) : d'.tcp4Conns = d.tcp4Conns := by
  obtain ⟨-, n, -, -, -, -, rfl⟩ := allocTCP4Port_eq_ok.mp h
  rfl

theorem probe_range (d : Demux) (n : ℕ) : 49152 ≤ d.probe n ∧ d.probe n ≤ 65535 := by
  unfold probe
  have hmod := (d.tcp4PortRover + UInt16.ofNat n).toNat_mod 16382
  grind

end Demux

/-! ## Dials -/

/-- How far a dial is with its port. -/
inductive DialPort
  | idle
  | allocated (p : UInt16)
  | registered (p : UInt16)
  | released (p : UInt16)
  deriving DecidableEq

namespace DialPort

/-- The port of a dial between allocation and release. -/
def held : DialPort → Option UInt16
  | .allocated p | .registered p => some p
  | .idle | .released _ => none

/-- The port a dial was given. -/
def given : DialPort → Option UInt16
  | .allocated p | .registered p | .released p => some p
  | .idle => none

end DialPort

structure Ports where
  demux : Demux
  dials : ℕ → DialPort

open Ports

inductive PortEvent
  | alloc (i : ℕ)
  | register (i : ℕ)
  | release (i : ℕ)
  /-- `Stack.Close` -/
  | close
  deriving DecidableEq

variable {i j : ℕ} {s : DialPort} {t : Ports}

namespace Ports

def start : Ports := ⟨.fresh, fun _ => .idle⟩

def setDial (t : Ports) (i : ℕ) (s : DialPort) : Ports :=
  { t with dials := update t.dials i s }

def after (t : Ports) : PortEvent → Ports
  | .alloc i =>
    match t.dials i, t.demux.allocTCP4Port with
    | .idle, .ok (p, d) => { t.setDial i (.allocated p) with demux := d }
    | _, _ => t
  | .register i =>
    match t.dials i with
    | .allocated p => { t.setDial i (.registered p) with demux := t.demux.registerTCP4 p i }
    | _ => t
  | .release i =>
    match t.dials i with
    | .registered p | .released p => { t.setDial i (.released p) with demux := t.demux.releaseTCP4 p }
    | _ => t
  | .close => { t with demux := { t.demux with closed := true } }

/-- The changes a step can make. -/
inductive PortStep (t : Ports) : PortEvent → Ports → Prop
  | same {e : PortEvent} : PortStep t e t
  | alloc {i n : ℕ} {rover : UInt16} (hi : t.dials i = .idle) (hopen : t.demux.closed = false)
      (hn : n < 1024)
      (hfree : t.demux.free (t.demux.probe n) = true)
      (hbefore : ∀ m < n, t.demux.free (t.demux.probe m) = false) :
      PortStep t (.alloc i)
        { t.setDial i (.allocated (t.demux.probe n)) with
          demux := { t.demux with tcp4PortRover := rover } }
  | register {i : ℕ} {p : UInt16} (hi : t.dials i = .allocated p) :
      PortStep t (.register i)
        { t.setDial i (.registered p) with demux := t.demux.registerTCP4 p i }
  | release {i : ℕ} {p : UInt16} (hi : t.dials i = .registered p ∨ t.dials i = .released p) :
      PortStep t (.release i)
        { t.setDial i (.released p) with demux := t.demux.releaseTCP4 p }
  | close : PortStep t .close { t with demux := { t.demux with closed := true } }

theorem after_step (t : Ports) (e : PortEvent) : PortStep t e (t.after e) := by
  cases e with
  | alloc i =>
    unfold after
    dsimp only
    split
    case h_1 p d hi ha =>
      obtain ⟨hopen, n, hn, rfl, hfree, hbefore, rfl⟩ := allocTCP4Port_eq_ok.mp ha
      exact .alloc hi hopen hn hfree hbefore
    case h_2 => exact .same
  | register i =>
    unfold after
    dsimp only
    split
    case h_1 p hi => exact .register hi
    case h_2 => exact .same
  | release i =>
    unfold after
    dsimp only
    split
    case h_1 p hi => exact .release (.inl hi)
    case h_2 p hi => exact .release (.inr hi)
    case h_3 => exact .same
  | close => exact .close

@[simp] theorem setDial_self (t : Ports) (i : ℕ) (s : DialPort) : (t.setDial i s).dials i = s :=
  update_self ..

theorem setDial_of_ne (h : j ≠ i) : (t.setDial i s).dials j = t.dials j :=
  update_of_ne h ..

theorem ne_of_dials {s' : DialPort} (hi : t.dials i = s) (hj : t.dials j = s') (h : s' ≠ s) : j ≠ i := by
  rintro rfl
  exact h (hj.symm.trans hi)

/-- What is true of the ports given out before a step, and of the one given to the dial that moves,
is true after it. -/
theorem given_setDial {R : UInt16 → Prop} (h : ∀ j p, (t.dials j).given = some p → R p)
    (hs : ∀ p, s.given = some p → R p) : ∀ j p, ((t.setDial i s).dials j).given = some p → R p := by
  intro j p hp
  by_cases hj : j = i
  · subst hj
    rw [setDial_self] at hp
    exact hs p hp
  · rw [setDial_of_ne hj] at hp
    exact h j p hp

end Ports

/-! ## Uniqueness -/

/-- No two dials hold one port, and the ports given out are ephemeral. -/
structure Unshared (t : Ports) : Prop where
  distinct : ∀ i j p, (t.dials i).held = some p → (t.dials j).held = some p → i = j
  range : ∀ i p, (t.dials i).given = some p → 49152 ≤ p ∧ p ≤ 65535

/-- The scan of an allocation ends before any port that waits for its registration. -/
def ScanClear (t : Ports) : PortEvent → Prop
  | .alloc i =>
    t.dials i = .idle → t.demux.closed = false →
      ∀ j n, n < 1024 → t.dials j = .allocated (t.demux.probe n) →
        ∃ m < n, t.demux.free (t.demux.probe m) = true
  | _ => True

/-- A release finds no other dial's entry under its port. -/
def ReleaseClear (t : Ports) : PortEvent → Prop
  | .release i => ∀ p, t.dials i = .registered p ∨ t.dials i = .released p →
      ∀ j, t.demux.tcp4Conns p = some j → j = i
  | _ => True

/-- What holds in every run: an entry belongs to the dial that registered it, and the ports given out
are ephemeral. -/
structure Entries (t : Ports) : Prop where
  owned : ∀ p i, t.demux.tcp4Conns p = some i → t.dials i = .registered p
  range : ∀ i p, (t.dials i).given = some p → 49152 ≤ p ∧ p ≤ 65535

variable {e : PortEvent} {t' : Ports}

theorem entries_step (h : Entries t) (he : t.PortStep e t') : Entries t' := by
  cases he with
  | same => exact h
  | close => exact ⟨h.owned, h.range⟩
  | @alloc i n rover hi hc hn hfree hbefore =>
    refine ⟨fun p j hp => ?_, given_setDial h.range ?_⟩
    · have hj := h.owned p j hp
      exact (setDial_of_ne (ne_of_dials hi hj (by simp))).trans hj
    · rintro p ⟨⟩
      exact t.demux.probe_range n
  | @register i p hi =>
    refine ⟨fun q j hq => ?_, given_setDial h.range (fun q hq => h.range i q (by rw [hi]; exact hq))⟩
    by_cases hqp : q = p
    · subst hqp
      rw [registerTCP4_self] at hq
      cases hq
      exact setDial_self ..
    · rw [registerTCP4_of_ne hqp] at hq
      have hj := h.owned q j hq
      exact (setDial_of_ne (ne_of_dials hi hj (by simp))).trans hj
  | @release i p hi =>
    have hgiven : (t.dials i).given = some p := by rcases hi with hi | hi <;> rw [hi] <;> rfl
    refine ⟨fun q j hq => ?_, given_setDial h.range (fun q hq => h.range i q (hgiven.trans hq))⟩
    obtain ⟨hqp, hold⟩ := releaseTCP4_eq_some hq
    have hj := h.owned q j hold
    have hne : j ≠ i := by
      rintro rfl
      rw [hj] at hgiven
      exact hqp (Option.some.inj hgiven)
    exact (setDial_of_ne hne).trans hj

/-- What holds while the scans are clear: no two dials hold one port, and a registered port is in the
table. -/
structure Exclusive (t : Ports) : Prop where
  distinct : ∀ i j p, (t.dials i).held = some p → (t.dials j).held = some p → i = j
  entered : ∀ i p, t.dials i = .registered p → t.demux.tcp4Conns p = some i

/-- A dial that moves and holds no port, or the one it held before. -/
theorem distinct_setDial (h : ∀ i j p, (t.dials i).held = some p → (t.dials j).held = some p → i = j)
    (hs : ∀ p, s.held = some p → ∀ j, j ≠ i → (t.dials j).held ≠ some p) :
    ∀ j k p, ((t.setDial i s).dials j).held = some p → ((t.setDial i s).dials k).held = some p →
      j = k := by
  intro j k p hj hk
  by_cases hji : j = i
  · by_cases hki : k = i
    · rw [hji, hki]
    · rw [hji, setDial_self] at hj
      rw [setDial_of_ne hki] at hk
      exact absurd hk (hs p hj k hki)
  · rw [setDial_of_ne hji] at hj
    by_cases hki : k = i
    · rw [hki, setDial_self] at hk
      exact absurd hj (hs p hk j hji)
    · rw [setDial_of_ne hki] at hk
      exact h j k p hj hk

/-- The registered dials after a move: the one that moved, and the others as before. -/
theorem entered_setDial (hs : ∀ p, s = .registered p → d.tcp4Conns p = some i)
    (h : ∀ j, j ≠ i → ∀ p, t.dials j = .registered p → d.tcp4Conns p = some j) :
    ∀ j p, (t.setDial i s).dials j = .registered p → d.tcp4Conns p = some j := by
  intro j p hj
  by_cases hji : j = i
  · subst hji
    rw [setDial_self] at hj
    exact hs p hj
  · rw [setDial_of_ne hji] at hj
    exact h j hji p hj

theorem exclusive_step (h : Exclusive t) (hc : ScanClear t e ∧ ReleaseClear t e) (he : t.PortStep e t') :
    Exclusive t' := by
  cases he with
  | same => exact h
  | close => exact ⟨h.distinct, h.entered⟩
  | @alloc i n rover hi hopen hn hfree hbefore =>
    refine ⟨distinct_setDial h.distinct ?_, entered_setDial nofun (fun j _ => h.entered j)⟩
    rintro p ⟨⟩ j hji hheld
    cases hj : t.dials j with
    | idle | released => simp [hj, DialPort.held] at hheld
    | allocated q =>
      -- the scan would have ended before a port that waits
      obtain rfl : q = t.demux.probe n := by simpa [hj, DialPort.held] using hheld
      obtain ⟨m, hm, hmfree⟩ := hc.1 hi hopen j n hn hj
      exact absurd hmfree (by simp [hbefore m hm])
    | registered q =>
      obtain rfl : q = t.demux.probe n := by simpa [hj, DialPort.held] using hheld
      have hentry := h.entered j _ hj
      rw [free_iff, hentry] at hfree
      cases hfree
  | @register i p hi =>
    have hheld : (t.dials i).held = some p := by rw [hi]; rfl
    have hother : ∀ q, (DialPort.registered p).held = some q → ∀ j, j ≠ i →
        (t.dials j).held ≠ some q := by
      rintro q ⟨⟩ j hji hj
      exact hji (h.distinct j i p hj hheld)
    refine ⟨distinct_setDial h.distinct hother, entered_setDial ?_ ?_⟩
    · rintro q ⟨⟩
      exact registerTCP4_self
    · intro j hji q hj
      have hqp : q ≠ p := by
        rintro rfl
        exact hother q rfl j hji (by rw [hj]; rfl)
      rw [registerTCP4_of_ne hqp]
      exact h.entered j q hj
  | @release i p hi =>
    refine ⟨distinct_setDial h.distinct nofun, entered_setDial nofun ?_⟩
    intro j hji q hj
    have hqp : q ≠ p := by
      rintro rfl
      exact hji (hc.2 q hi j (h.entered j q hj))
    rw [releaseTCP4_of_ne hqp]
    exact h.entered j q hj

theorem entries_run (es : List PortEvent) : Entries (runFrom after .start es) := by
  refine run_invariant (fun t e h => entries_step h (t.after_step e)) ⟨?_, ?_⟩ es
  · rintro p i ⟨⟩
  · rintro i p ⟨⟩

/-- A scan that is not clear ends in a port that another dial holds. -/
theorem not_unshared_of_scan {n : ℕ} (hent : Entries t) (hun : Unshared t) (hi : t.dials i = .idle)
    (hopen : t.demux.closed = false) (hn : n < 1024) (hj : t.dials j = .allocated (t.demux.probe n))
    (hscan : ∀ m < n, t.demux.free (t.demux.probe m) = false) : ¬ Unshared (t.after (.alloc i)) := by
  -- the port is not in the table: its owner would hold it too
  have hfree : t.demux.free (t.demux.probe n) = true := by
    rw [free_iff]
    cases hk : t.demux.tcp4Conns (t.demux.probe n) with
    | none => rfl
    | some k =>
      have hreg := hent.owned _ k hk
      have hkj := hun.distinct k j (t.demux.probe n) (by rw [hreg]; rfl) (by rw [hj]; rfl)
      rw [hkj, hj] at hreg
      cases hreg
  obtain ⟨d', ha⟩ : ∃ d', t.demux.allocTCP4Port = .ok (t.demux.probe n, d') :=
    ⟨_, allocTCP4Port_eq_ok.mpr ⟨hopen, n, hn, rfl, hfree, hscan, rfl⟩⟩
  have hafter : t.after (.alloc i) = { t.setDial i (.allocated (t.demux.probe n)) with demux := d' } := by
    simp only [after, hi, ha]
  have hji : j ≠ i := ne_of_dials hi hj (by simp)
  intro hun'
  rw [hafter] at hun'
  refine hji (hun'.distinct j i (t.demux.probe n) ?_ ?_)
  · change ((t.setDial i _).dials j).held = _
    rw [setDial_of_ne hji, hj]
    rfl
  · change ((t.setDial i _).dials i).held = _
    rw [setDial_self]
    rfl

/-- A stack with no connection. -/
def Demux.empty (rover : UInt16) : Demux := { fresh with tcp4PortRover := rover }

theorem allocTCP4Port_empty (rover : UInt16) :
    (empty rover).allocTCP4Port =
      .ok (49152 + rover % 16382, .empty ((rover + 1) % 16383)) := by
  refine allocTCP4Port_eq_ok.mpr ⟨rfl, 0, by decide, ?_, rfl, nofun, ?_⟩
  · simp [probe, empty]
  · simp [empty]

theorem after_alloc_empty {rover : UInt16} (hd : t.demux = .empty rover) (hi : t.dials i = .idle) :
    t.after (.alloc i) =
      ⟨.empty ((rover + 1) % 16383), update t.dials i (.allocated (49152 + rover % 16382))⟩ := by
  simp only [after, hi, hd, allocTCP4Port_empty, setDial]

theorem exclusive_run {es es' : List PortEvent} (hscan : RunMeets after ScanClear .start es)
    (hrelease : RunMeets after ReleaseClear .start es) (hp : es' <+: es) :
    Exclusive (runFrom after .start es') := by
  have hstart : Exclusive .start := by
    constructor
    · rintro i j p ⟨⟩
    · rintro i p ⟨⟩
  exact RunMeets.invariant (fun t e h hc => exclusive_step h hc (t.after_step e)) hstart
    (hscan.and hrelease) es' hp

/-- **Ephemeral port uniqueness**, in every state of a run whose releases take out no other dial's
entry: exactly when no scan of the run reaches a port that waits for its registration. -/
theorem unshared_iff (es : List PortEvent) (hrelease : RunMeets Ports.after ReleaseClear .start es) :
    (∀ es', es' <+: es → Unshared (runFrom Ports.after .start es')) ↔
      RunMeets Ports.after ScanClear .start es := by
  constructor
  · intro hun
    rw [runMeets_iff]
    intro es' e hp
    cases e with
    | register | release | close => trivial
    | alloc i =>
      intro hi hopen j n hn hj
      by_contra hnone
      have hbefore := hun es' ((List.prefix_append _ _).trans hp)
      refine not_unshared_of_scan (entries_run es') hbefore hi hopen hn hj ?_ ?_
      · intro m hm
        by_contra hfree
        exact hnone ⟨m, hm, by simpa using hfree⟩
      · have hafter := hun _ hp
        rwa [runFrom_append] at hafter
  · intro hmeets es' hp
    exact ⟨(exclusive_run hmeets hrelease hp).distinct, (entries_run es').range⟩

/-- A dial that is closed by two calls at once, and the next dial. -/
def closedTwice : List PortEvent := [.alloc 0, .register 0, .release 0, .release 0, .alloc 1]

theorem unshared_closedTwice : RunMeets Ports.after ReleaseClear .start closedTwice ∧
    ∀ es', es' <+: closedTwice → Unshared (runFrom Ports.after .start es') := by
  have hidle : ∀ j, start.dials j = .idle := fun _ => rfl
  have hfirst := after_alloc_empty (t := .start) (i := 0) rfl rfl
  have hclear : RunMeets after ReleaseClear .start closedTwice := by
    simp only [closedTwice, RunMeets, hfirst]
    simp [ReleaseClear, after, setDial, registerTCP4, releaseTCP4, empty, fresh, update_apply]
  refine ⟨hclear, (unshared_iff closedTwice hclear).mpr ?_⟩
  simp only [closedTwice, RunMeets, hfirst]
  simp +contextual [ScanClear, after, setDial, registerTCP4, releaseTCP4, empty, fresh, update_apply,
    hidle, ite_eq_iff]

/-! ## The clash -/

/-- `n` dials one after the other. -/
def oneByOne : ℕ → List PortEvent
  | 0 => []
  | n + 1 => oneByOne n ++ [.alloc n, .register n, .release n]

/-- Each of them moves the rover on by one and leaves the table empty. -/
theorem runFrom_oneByOne : ∀ n ≤ 16382,
    (runFrom after .start (oneByOne n)).demux = .empty (UInt16.ofNat n) ∧
      ∀ i, n ≤ i → (runFrom after .start (oneByOne n)).dials i = .idle
  | 0, _ => ⟨rfl, fun _ _ => rfl⟩
  | n + 1, hn => by
    obtain ⟨hd, hidle⟩ := runFrom_oneByOne n (by omega)
    have hrover : (UInt16.ofNat n + 1) % 16383 = UInt16.ofNat (n + 1) := by
      apply UInt16.toNat.inj
      simp only [UInt16.toNat_mod, UInt16.toNat_add, UInt16.toNat_ofNat']
      simp
      omega
    rw [oneByOne, runFrom_append]
    generalize runFrom after .start (oneByOne n) = t at hd hidle
    rw [runFrom_cons, after_alloc_empty hd (hidle n le_rfl), hrover]
    refine ⟨?_, ?_⟩
    · simp [after, setDial, registerTCP4, releaseTCP4, empty,
        fresh]
    · intro i hi
      have hne : i ≠ n := by omega
      simp [after, setDial, hne, hidle i (by omega)]

/-- After 16382 dials the rover stands at 16382, and the next two ports are both 49152. -/
theorem unshared_broken : ¬ ∀ es : List PortEvent, Unshared (runFrom Ports.after .start es) := by
  intro h
  obtain ⟨hd, hidle⟩ := runFrom_oneByOne 16382 le_rfl
  have hun := h (oneByOne 16382 ++ [.alloc 16382, .alloc 16383])
  rw [runFrom_append] at hun
  generalize runFrom after .start (oneByOne 16382) = t at hd hidle hun
  have hfirst := after_alloc_empty hd (hidle 16382 le_rfl)
  have hsecond := after_alloc_empty (t := t.after (.alloc 16382)) (i := 16383) (by rw [hfirst])
    (by rw [hfirst]; simp [hidle 16383 (by omega)])
  rw [runFrom_cons, runFrom_cons, runFrom_nil, hsecond, hfirst] at hun
  have heq := hun.distinct 16382 16383 49152 (by simp; decide) (by simp; decide)
  omega

end TamagoUefi.Net
