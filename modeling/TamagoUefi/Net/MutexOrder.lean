import Mathlib.Data.Fintype.Order
import Mathlib.Order.Fin.Basic
import TamagoUefi.Net.Mutexes

/-!
# TamagoUefi.Net.MutexOrder — goroutines do not block each other

* `keeps_…`: each function takes mutexes in the order of `Mutex.rank`, connections first, then the stack, and
  gives them back.
* `no_deadlock`: so any number of goroutines with any calls can go on.
-/

namespace TamagoUefi.Net

open Lib Locking

/-! ## The order of the mutexes -/

namespace Routine

open Mutex (rank)

section
variable {H : Set Mutex} (h : Above rank H .stack)
include h

theorem keeps_handleARPFrame : Keeps rank H handleARPFrame := by
  refine keeps_guard ?_
  refine obeys_call (keeps_locked h (keeps_run _)) fun _ => ?_
  refine keeps_guard ?_
  refine keeps_guard ?_
  refine keeps_guard ?_
  exact keeps_before (keeps_run _)

theorem keeps_awaitARP : Keeps rank H awaitARP := by
  refine obeys_take h ?_
  refine obeys_guard h.notMem ?_
  refine obeys_release h.notMem ?_
  refine keeps_guard ?_
  refine obeys_run fun kind => ?_
  split
  · exact keeps_before (keeps_handleARPFrame h)
  · exact keeps_pure _

theorem keeps_resolveARP : Keeps rank H resolveARP := by
  refine keeps_guard ?_
  refine obeys_take h ?_
  refine obeys_guard h.notMem ?_
  refine obeys_run fun _ => obeys_release h.notMem ?_
  refine keeps_guard ?_
  refine keeps_guard ?_
  refine keeps_guard ?_
  refine obeys_run fun n => ?_
  exact keeps_before (keeps_rounds (keeps_awaitARP h) n)

theorem keeps_sendIPv4Frame : Keeps rank H sendIPv4Frame := by
  refine obeys_take h ?_
  refine obeys_guard h.notMem ?_
  refine obeys_run fun found => obeys_run fun _ => obeys_release h.notMem ?_
  split_ifs
  · exact keeps_pure _
  refine obeys_branch (keeps_resolveARP h) (keeps_pure _) ?_
  exact keeps_guard (keeps_run _)

theorem keeps_nextIPID : Keeps rank H nextIPID := keeps_locked h (keeps_run _)

theorem keeps_sendUDP4 : Keeps rank H sendUDP4 := by
  refine keeps_guard ?_
  refine obeys_take h ?_
  refine obeys_guard h.notMem ?_
  refine obeys_run fun _ => obeys_run fun _ => obeys_release h.notMem ?_
  refine keeps_guard ?_
  refine obeys_call (keeps_nextIPID h) fun _ => ?_
  refine keeps_guard ?_
  refine obeys_test ?_ (keeps_sendIPv4Frame h)
  exact keeps_guard (keeps_run _)

theorem keeps_sendSegment : Keeps rank H sendSegment := by
  refine keeps_guard ?_
  refine obeys_call (keeps_nextIPID h) fun _ => ?_
  exact keeps_guard (keeps_sendIPv4Frame h)

theorem keeps_acceptSegmentLocked : Keeps rank H acceptSegmentLocked := by
  have hsend : Keeps rank H (do let _ ← sendSegment) :=
    keeps_before (keeps_sendSegment h)
  refine obeys_test (obeys_run fun _ => hsend) ?_
  exact obeys_test (obeys_run fun _ => hsend) hsend

theorem keeps_deliverData : Keeps rank H deliverData := by
  refine keeps_guard ?_
  have hrest : Keeps rank H (do
      if ← test .carriesStream then
        acceptSegmentLocked
      set) :=
    obeys_test (obeys_call (keeps_acceptSegmentLocked h) fun _ => keeps_run _) (keeps_run _)
  exact obeys_test (obeys_run fun _ => hrest) hrest

theorem keeps_deliverSegmentLocked : Keeps rank H deliverSegmentLocked := by
  refine keeps_guard ?_
  refine obeys_test (keeps_before (keeps_run _)) ?_
  refine obeys_run fun _ => obeys_run fun st => ?_
  cases st with
  | synSent =>
    refine keeps_guard ?_
    refine keeps_guard ?_
    refine obeys_run fun _ => ?_
    exact keeps_before (keeps_sendSegment h)
  | established => exact keeps_deliverData h
  | finWait1 => exact keeps_deliverData h
  | finWait2 => exact keeps_deliverData h
  | closeWait => exact keeps_deliverData h
  | lastAck => exact obeys_test (keeps_run _) (keeps_pure _)
  | closing => exact obeys_test (keeps_run _) (keeps_pure _)
  | timeWait => exact keeps_pure _
  | closed => exact keeps_pure _

end

/-- With the mutex of a connection held, the one of the stack may be taken. -/
theorem above_tcp4 (c : ℕ) : Above rank (insert (.tcp4 c) ∅) .stack := by
  rintro _ (rfl | hm)
  · exact Fin.zero_lt_one
  · exact hm.elim

theorem keeps_deliverSegment (c : ℕ) : Keeps rank ∅ (deliverSegment c) :=
  keeps_locked (above_empty _) (keeps_deliverSegmentLocked (above_tcp4 c))

theorem keeps_handleTCP4 : Keeps rank ∅ handleTCP4 := by
  refine keeps_guard ?_
  refine keeps_guard ?_
  refine obeys_call (keeps_op _) fun conn => ?_
  cases conn with
  | none => exact keeps_pure _
  | some c => exact keeps_guard (keeps_deliverSegment c)

theorem keeps_deliver (c : ℕ) : Keeps rank ∅ (deliver c) := by
  refine enter_guard ?_
  exact leave (keeps_run _)

theorem keeps_handleUDP4 : Keeps rank ∅ handleUDP4 := by
  refine keeps_guard ?_
  refine obeys_call (keeps_op _) fun conn => ?_
  cases conn with
  | none => exact keeps_pure _
  | some c => exact keeps_deliver c

theorem keeps_handleICMP : Keeps rank ∅ handleICMP := by
  refine obeys_run fun kind => ?_
  split
  · exact obeys_branch (keeps_op _) (keeps_run _) (keeps_pure _)
  · refine obeys_call (keeps_nextIPID (above_empty _)) fun _ => ?_
    refine keeps_guard ?_
    exact keeps_before (keeps_sendIPv4Frame (above_empty _))
  · exact keeps_pure _

/-- **Frames** are handled with no mutex held. -/
theorem keeps_dispatch : Keeps rank ∅ dispatch := by
  refine obeys_run fun kind => ?_
  split
  · refine obeys_call (keeps_op _) fun _ => ?_
    exact obeys_run fun _ => keeps_handleARPFrame (above_empty _)
  · refine obeys_run fun kind => ?_
    split
    · exact keeps_handleICMP
    · exact keeps_handleUDP4
    · exact keeps_handleTCP4
    · exact keeps_pure _
  · exact keeps_pure _

theorem keeps_pumpOne {α : Type} : Keeps rank ∅ (pumpOne : Routine (Option α)) :=
  obeys_test (keeps_pure _) (keeps_before keeps_dispatch)

/-- A wait, up to its deadline. -/
theorem keeps_await {α β : Type} {body : Routine (Option α)} (hbody : Keeps rank ∅ body)
    {f : Option α → Routine β} (hf : ∀ r, Keeps rank ∅ (f r)) :
    Keeps rank ∅ (do let r ← rounds body (← deadline); f r) :=
  obeys_run fun n => obeys_call (keeps_rounds hbody n) hf

theorem keeps_rxLoop : Keeps rank ∅ rxLoop := by
  refine keeps_await ?_ fun _ => keeps_pure _
  refine keeps_guard ?_
  refine obeys_test (keeps_before (keeps_run _)) ?_
  exact keeps_before keeps_dispatch

/-! ### TCP -/

section
variable (c : ℕ)

theorem keeps_sendSegmentExt : Keeps rank ∅ (sendSegmentExt c) :=
  keeps_locked (above_empty _) (keeps_sendSegment (above_tcp4 c))

theorem keeps_setDeadline : Keeps rank ∅ (setDeadline c) := keeps_op _

theorem keeps_read : Keeps rank ∅ (read c) := by
  refine enter_guard ?_
  refine leave (keeps_await ?_ fun _ => keeps_pure _)
  refine obeys_take (above_empty _) ?_
  refine obeys_test ?_ ?_
  · exact obeys_run fun _ => leave (keeps_pure _)
  refine leave_guard ?_
  refine leave_guard ?_
  exact leave keeps_pumpOne

theorem keeps_sendAndAwaitAck : Keeps rank ∅ (sendAndAwaitAck c) := by
  refine obeys_call (keeps_setDeadline c) fun _ => ?_
  refine obeys_branch (keeps_sendSegmentExt c) (keeps_pure _) ?_
  refine keeps_await ?_ fun _ => keeps_pure _
  refine enter_guard ?_
  refine leave_guard ?_
  refine leave ?_
  refine obeys_test ?_ keeps_pumpOne
  refine keeps_guard ?_
  exact obeys_branch (keeps_sendSegmentExt c) (keeps_pure _) keeps_pumpOne

theorem keeps_write : Keeps rank ∅ (write c) := by
  refine enter_guard ?_
  refine leave (keeps_await ?_ fun _ => keeps_pure _)
  exact obeys_branch (keeps_sendAndAwaitAck c) (keeps_pure _) (keeps_pure _)

theorem keeps_closeTail : Keeps rank ∅ (closeTail c) := by
  refine keeps_await ?_ fun _ => ?_
  · refine obeys_call (keeps_op _) fun st => ?_
    split
    · exact keeps_pure _
    · exact keeps_pure _
    · exact keeps_pumpOne
  · refine obeys_call (keeps_setDeadline c) fun _ => ?_
    exact keeps_op _

theorem keeps_close : Keeps rank ∅ (close c) := by
  have hfin : Keeps rank ∅ (do let _ ← sendSegmentExt c; closeTail c) :=
    obeys_call (keeps_sendSegmentExt c) fun _ => keeps_closeTail c
  refine enter_guard ?_
  refine obeys_call (keeps_run _) fun st => ?_
  split
  · exact obeys_run fun _ => leave hfin
  · exact obeys_run fun _ => leave hfin
  · exact leave (keeps_closeTail c)

end

theorem keeps_releaseTCP4 : Keeps rank ∅ releaseTCP4 := keeps_op _

theorem keeps_awaitSynAck (c : ℕ) : Keeps rank ∅ (awaitSynAck c) := by
  refine obeys_call (keeps_locked (above_empty _) ?_) fun o => ?_
  · exact obeys_run fun _ => keeps_before (keeps_run _)
  · obtain ⟨st, closed⟩ := o
    dsimp only
    split_ifs
    · exact keeps_pure _
    · exact keeps_before keeps_releaseTCP4
    · exact keeps_pumpOne

theorem keeps_dialTCP4Once : Keeps rank ∅ dialTCP4Once := by
  refine keeps_guard ?_
  refine enter_guard ?_
  refine leave_guard ?_
  refine obeys_run fun _ => leave ?_
  have halloc : Keeps rank ∅ allocTCP4Port := by
    refine keeps_locked (above_empty _) ?_
    refine keeps_guard ?_
    exact keeps_guard (keeps_before (keeps_run _))
  refine obeys_branch halloc (keeps_pure _) ?_
  refine obeys_run fun c => ?_
  refine obeys_call (keeps_op _) fun _ => ?_
  refine obeys_branch (keeps_sendSegmentExt c) (keeps_before keeps_releaseTCP4) ?_
  refine keeps_await (keeps_awaitSynAck c) fun r => ?_
  cases r with
  | none => exact keeps_before keeps_releaseTCP4
  | some r => exact keeps_pure _

theorem keeps_withRetry {once : Routine (Option ℕ)} (h : Keeps rank ∅ once) : Keeps rank ∅ (withRetry once) := by
  refine keeps_await ?_ fun _ => keeps_pure _
  refine obeys_call h fun r => ?_
  cases r with
  | some c => exact keeps_pure _
  | none =>
    refine keeps_guard ?_
    exact keeps_guard (keeps_before (keeps_run _))

theorem keeps_dialTCP4 : Keeps rank ∅ dialTCP4 := keeps_withRetry keeps_dialTCP4Once

/-! ### UDP, DNS, ping and TLS -/

theorem keeps_openUDP4 : Keeps rank ∅ openUDP4 := by
  refine keeps_locked (above_empty _) ?_
  refine keeps_guard ?_
  refine keeps_guard ?_
  exact obeys_run fun _ => keeps_before (keeps_run _)

section
variable (c : ℕ)

theorem keeps_setReadDeadline : Keeps rank ∅ (setReadDeadline c) := keeps_op _

theorem keeps_readFrom : Keeps rank ∅ (readFrom c) := by
  refine enter_guard ?_
  refine leave (keeps_await ?_ fun _ => keeps_pure _)
  refine keeps_guard ?_
  exact keeps_guard keeps_pumpOne

theorem keeps_writeTo : Keeps rank ∅ (writeTo c) := by
  refine keeps_guard ?_
  refine keeps_guard ?_
  refine enter_guard ?_
  exact leave (keeps_sendUDP4 (above_empty _))

theorem keeps_closeUDP4 : Keeps rank ∅ (closeUDP4 c) := by
  refine enter_guard ?_
  refine obeys_run fun _ => leave ?_
  exact obeys_call (keeps_op _) fun _ => keeps_run _

theorem keeps_query : Keeps rank ∅ (query c) := by
  refine keeps_guard ?_
  refine obeys_branch (keeps_writeTo c) (keeps_pure _) ?_
  refine keeps_await ?_ fun _ => keeps_pure _
  refine obeys_call (keeps_setReadDeadline c) fun _ => ?_
  refine obeys_branch (keeps_readFrom c) (keeps_pure _) ?_
  exact keeps_guard (keeps_before (keeps_run _))

theorem keeps_handshake : Keeps rank ∅ (handshake c) := by
  refine keeps_await ?_ fun _ => keeps_pure _
  refine obeys_run fun move => ?_
  cases move with
  | read => exact keeps_before (keeps_read c)
  | write => exact keeps_before (keeps_write c)
  | done ok => exact keeps_pure _

end

theorem keeps_openRound : Keeps rank ∅ openRound := by
  refine obeys_call keeps_openUDP4 fun r => ?_
  split
  · exact keeps_pure _
  · exact keeps_pure _
  · exact keeps_pure _

theorem keeps_resolveA : Keeps rank ∅ resolveA := by
  refine keeps_guard ?_
  refine enter_guard ?_
  refine obeys_run fun _ => leave ?_
  refine obeys_call (keeps_rounds keeps_openRound 1024) fun r => ?_
  split
  next c =>
    refine obeys_call (keeps_query c) fun _ => ?_
    exact keeps_before (keeps_closeUDP4 c)
  · exact keeps_pure _

theorem keeps_cleanup : Keeps rank ∅ cleanup := keeps_op _

theorem keeps_pingOnce : Keeps rank ∅ pingOnce := by
  refine keeps_guard ?_
  refine enter_guard ?_
  refine leave_guard ?_
  refine obeys_run fun _ => leave ?_
  refine obeys_test (keeps_before keeps_cleanup) ?_
  refine obeys_branch (keeps_sendIPv4Frame (above_empty _)) (keeps_before keeps_cleanup) ?_
  refine keeps_await ?_ fun r => ?_
  · refine keeps_guard ?_
    exact obeys_test (keeps_before keeps_cleanup) keeps_pumpOne
  · cases r with
    | some _ => exact keeps_pure _
    | none => exact keeps_cleanup

theorem keeps_resolveHost : Keeps rank ∅ resolveHost := by
  refine obeys_test (keeps_run _) ?_
  exact keeps_guard keeps_resolveA

theorem keeps_dialTLSOnce : Keeps rank ∅ dialTLSOnce := by
  refine keeps_guard ?_
  refine obeys_branch keeps_resolveHost (keeps_pure _) ?_
  refine obeys_call keeps_dialTCP4 fun r => ?_
  cases r with
  | none => exact keeps_pure _
  | some c =>
    refine obeys_test (keeps_before (keeps_close c)) ?_
    refine obeys_call (keeps_setDeadline c) fun _ => ?_
    refine obeys_branch (keeps_handshake c) (keeps_before (keeps_close c)) ?_
    exact keeps_before (keeps_setDeadline c)

theorem keeps_dialTLS : Keeps rank ∅ dialTLS := keeps_withRetry keeps_dialTLSOnce

end Routine

open Routine Mutex

theorem StackCall.keeps_routine (c : StackCall) : Keeps rank ∅ c.routine := by
  cases c with
  | rxLoop => exact keeps_rxLoop
  | dialTCP4 => exact keeps_before keeps_dialTCP4
  | dialTLS => exact keeps_before keeps_dialTLS
  | read c => exact keeps_read c
  | write c => exact keeps_write c
  | close c => exact keeps_close c
  | setDeadline c => exact keeps_setDeadline c
  | openUDP4 => exact keeps_before keeps_openUDP4
  | readFrom c => exact keeps_before (keeps_readFrom c)
  | writeTo c => exact keeps_before (keeps_writeTo c)
  | closeUDP4 c => exact keeps_closeUDP4 c
  | setReadDeadline c => exact keeps_setReadDeadline c
  | resolveA => exact keeps_before keeps_resolveA
  | pingOnce => exact keeps_pingOnce

theorem keeps_goroutine : ∀ cs, Keeps rank ∅ (goroutine cs)
  | [] => keeps_pure _
  | c :: cs => obeys_call c.keeps_routine fun _ => keeps_goroutine cs

/-- The goroutines before their first step. -/
def goroutines {ι σ : Type} (calls : ι → List StackCall) (d : σ) : Threads ι Mutex σ MutexOp.Res where
  prog i := goroutine (calls i)
  owner _ := none
  data := d

open Threads in
/-- **No deadlock**: whatever the calls and whatever the tests and the link answer, no goroutine waits for a
connection with the stack's mutex held, for a mutex it holds, or holds two connections, and some goroutine
that waits or holds can go on. -/
theorem no_deadlock {ι σ : Type} [DecidableEq ι] (D : Meaning ι σ MutexOp.Res) (hD : D.Total)
    (calls : ι → List StackCall) (d : σ) (s : Threads ι Mutex σ MutexOp.Res)
    (hs : Reachable D (goroutines calls d) s) :
    (∀ i m, m ≠ .stack → s.Waits i m → ¬ s.Holds i .stack) ∧
      (∀ i m m', m ≠ .stack → m' ≠ .stack → s.Holds i m → s.Holds i m' → m = m') ∧
      (∀ i m, s.Waits i m → ¬ s.Holds i m) ∧
      (∀ i, s.Engaged i → ∃ j, s.Engaged j ∧ ∃ s', Step D j s s') := by
  have horderly : Orderly rank s :=
    (orderly_start rank (fun i => keeps_goroutine (calls i)) d).of_reachable hs
  have hconn : ∀ m : Mutex, m ≠ .stack → rank m = 0 := by
    intro m hm
    cases m with
    | stack => exact absurd rfl hm
    | tcp4 c => rfl
    | udp4 c => rfl
  refine ⟨?_, ?_, ?_, ?_⟩
  · intro i m hm hw hh
    have hlt := horderly.above hw _ hh
    rw [hconn m hm] at hlt
    exact absurd hlt (Fin.not_lt_zero _)
  · intro i m m' hm hm' hh hh'
    exact horderly.distinct i hh hh' (by rw [hconn m hm, hconn m' hm'])
  · intro i m hw hh
    exact (horderly.above hw).notMem hh
  · intro i hi
    exact horderly.progress hD hi

/-- Operations with any result. -/
def anyAnswer : Meaning Bool Unit MutexOp.Res := fun _ _ _ _ _ => True

theorem total_anyAnswer : anyAnswer.Total := by
  intro i o d
  cases o with
  | test c => exact ⟨false, d, trivial⟩
  | link c => exact ⟨false, d, trivial⟩
  | parseEthernet => exact ⟨none, d, trivial⟩
  | parseIPv4 => exact ⟨none, d, trivial⟩
  | parseICMPEcho => exact ⟨none, d, trivial⟩
  | lookup => exact ⟨none, d, trivial⟩
  | newConn => exact ⟨(0 : ℕ), d, trivial⟩
  | tcpState => exact ⟨Tcp4State.closed, d, trivial⟩
  | set => exact ⟨(), d, trivial⟩
  | sleep => exact ⟨(), d, trivial⟩
  | deadline => exact ⟨(0 : ℕ), d, trivial⟩
  | tlsNext => exact ⟨TLSMove.read, d, trivial⟩

/-- One goroutine closes a connection, the other opens a socket. -/
def contenders : Bool → List StackCall
  | false => [.close 0]
  | true => [.openUDP4]

open Threads in
/-- The first holds its connection and waits for the stack's mutex, which the second holds. -/
theorem no_deadlock_contended : ∃ s : Threads Bool Mutex Unit MutexOp.Res,
    Reachable anyAnswer (goroutines contenders ()) s ∧ s.Holds false (.tcp4 0) ∧ s.Waits false .stack ∧
      s.Holds true .stack ∧ ∃ j, s.Engaged j ∧ ∃ s', Step anyAnswer j s s' := by
  have h₀ : Reachable anyAnswer (goroutines contenders ()) (goroutines contenders ()) := .refl
  have h₁ := h₀.step (i := false) (.lock rfl rfl)
  have h₂ := h₁.step (i := false) (.act (r := false) (d := ()) rfl trivial)
  have h₃ := h₂.step (i := false) (.act (r := Tcp4State.established) (d := ()) rfl trivial)
  have h₄ := h₃.step (i := false) (.act (r := ()) (d := ()) rfl trivial)
  have h₅ := h₄.step (i := false) (.unlock rfl (by decide))
  have h₆ := h₅.step (i := false) (.lock rfl rfl)
  have h₇ := h₆.step (i := false) (.act (r := true) (d := ()) rfl trivial)
  have h₈ := h₇.step (i := true) (.lock rfl rfl)
  refine ⟨_, h₈, rfl, ⟨_, rfl⟩, rfl, ?_⟩
  exact (no_deadlock anyAnswer total_anyAnswer contenders () _ h₈).2.2.2 false ⟨.stack, .inl ⟨_, rfl⟩⟩

open Threads in
/-- **Every mutex is given back by the goroutine that took it**: one that unlocks a mutex holds it, and one that
has made its calls holds none. -/
theorem unlocks_own {ι σ : Type} [DecidableEq ι] (D : Meaning ι σ MutexOp.Res) (calls : ι → List StackCall)
    (d : σ) (s : Threads ι Mutex σ MutexOp.Res) (hs : Reachable D (goroutines calls d) s) :
    (∀ i m k, s.prog i = .unlock m k → s.Holds i m) ∧ ∀ i, s.prog i = .ret () → s.held i = ∅ := by
  have hobeys := ((orderly_start rank (fun i => keeps_goroutine (calls i)) d).of_reachable hs).obeys
  constructor
  · intro i m k hp
    have hi := hobeys i
    rw [hp] at hi
    exact hi.1
  · intro i hp
    have hi := hobeys i
    rw [hp] at hi
    exact hi

open Threads in
/-- `Close` on a connection that is closed already, up to the unlock. -/
theorem unlocks_own_closed : ∃ s : Threads Bool Mutex Unit MutexOp.Res,
    Reachable anyAnswer (goroutines contenders ()) s ∧ (∃ k, s.prog false = .unlock (.tcp4 0) k) ∧
      s.Holds false (.tcp4 0) := by
  have h₀ : Reachable anyAnswer (goroutines contenders ()) (goroutines contenders ()) := .refl
  have h₁ := h₀.step (i := false) (.lock rfl rfl)
  have h₂ := h₁.step (i := false) (.act (r := true) (d := ()) rfl trivial)
  exact ⟨_, h₂, ⟨_, rfl⟩, (unlocks_own anyAnswer contenders () _ h₂).1 false _ _ rfl⟩

end TamagoUefi.Net
