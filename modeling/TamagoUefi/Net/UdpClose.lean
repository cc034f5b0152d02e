import TamagoUefi.Lib.Run
import TamagoUefi.Net.Stack

/-!
# TamagoUefi.Net.UdpClose — closing a socket while datagrams arrive (`udp4.go`, `stack.go`)

`handleUDP4` looks the socket up under the mutex of the stack, reads `closed` under the mutex of the
socket, and sends on its queue under neither.  `Close` sets `closed`, takes the socket out of the
table and closes the queue.  A send on a closed channel is a panic.

* `Socket.after` is one step of one of the threads: any number of `handleUDP4` calls, a `Close`, and
  readers of the queue.  A run is any interleaving of such steps.
* `Safe` is the invariant: once the queue is closed, no call stands between its look at `closed` and
  its last send.  Every step keeps it, if `Close` closes the queue at a moment when it holds.
* `Doomed`: a call that stands there at that moment can only panic.
* `handled_alone`: a call that nothing comes between does what `Stack.deliver` does.
-/

namespace TamagoUefi.Net

open Go Lib

/-! ## Channels -/

/-- A buffered channel. -/
structure Chan (α : Type) (cap : ℕ) where
  buf : List α
  closed : Bool
  length_le : buf.length ≤ cap

/-- How a `select` with one send and a `default` ends. -/
inductive Attempt (α : Type) (cap : ℕ)
  | sent (c : Chan α cap)
  /-- The buffer is full. -/
  | default
  /-- The channel is closed. -/
  | panic

namespace Chan

variable {α : Type} {cap : ℕ}

def trySend (c : Chan α cap) (a : α) : Attempt α cap :=
  if c.closed then .panic
  else if h : c.buf.length < cap then
    .sent { c with
      buf := c.buf ++ [a]
      length_le := by rw [List.length_append, List.length_singleton]; exact h }
  else .default

/-- `select` with one receive and a `default`: what was received is dropped. -/
def tryRecv (c : Chan α cap) : Chan α cap :=
  { c with
    buf := c.buf.tail
    length_le := by
      have := c.length_le
      rw [List.length_tail]
      omega }

def close (c : Chan α cap) : Chan α cap := { c with closed := true }

variable {c : Chan α cap} {a : α}

theorem trySend_open (h : c.closed = false) : c.trySend a ≠ .panic := by
  unfold trySend
  rw [if_neg (by simp [h])]
  split <;> nofun

theorem trySend_closed (h : c.closed = true) : c.trySend a = .panic := by
  rw [trySend, if_pos h]

theorem trySend_room (h : c.closed = false) (hroom : c.buf.length < cap) (a : α) :
    ∃ c', c.trySend a = .sent c' ∧ c'.buf = c.buf ++ [a] := by
  rw [trySend, if_neg (by simp [h]), dif_pos hroom]
  exact ⟨_, rfl, rfl⟩

theorem trySend_full (h : c.closed = false) (hfull : ¬ c.buf.length < cap) (a : α) :
    c.trySend a = .default := by
  rw [trySend, if_neg (by simp [h]), dif_neg hfull]

theorem trySend_sent {c' : Chan α cap} (h : c.trySend a = .sent c') : c'.closed = c.closed := by
  unfold trySend at h
  split_ifs at h
  obtain rfl := Attempt.sent.inj h
  rfl

end Chan

/-! ## The threads -/

/-- Where a call of `handleUDP4` with a parsed datagram stands. -/
inductive Handler
  | parsed (dg : UDP4Datagram)
  /-- The socket was in the table. -/
  | found (dg : UDP4Datagram)
  /-- It was not closed. -/
  | checked (dg : UDP4Datagram)
  /-- Its queue was full. -/
  | full (dg : UDP4Datagram)
  /-- The oldest datagram has made room. -/
  | retry (dg : UDP4Datagram)
  | done
  | panicked
  deriving DecidableEq

/-- Where the call of `Close` stands. -/
inductive Closing
  | called
  /-- `closed` is set. -/
  | marked
  /-- The port is free again. -/
  | released
  | done
  deriving DecidableEq

/-- A socket, whether it is in the table of the stack, and the calls that found or may find it. -/
structure Socket (ι : Type) where
  bound : Bool
  closed : Bool
  queue : Chan UDP4Datagram udp4QueueDepth
  handlers : ι → Handler
  closing : Closing

open Socket

inductive Step (ι : Type)
  | lookup (i : ι)
  | check (i : ι)
  | send (i : ι)
  | drop (i : ι)
  | resend (i : ι)
  /-- A reader takes a datagram. -/
  | read
  | mark
  | release
  | closeQueue

namespace Socket

variable {ι : Type} [DecidableEq ι]

def put (s : Socket ι) (i : ι) (h : Handler) : Socket ι :=
  { s with handlers := Function.update s.handlers i h }

/-- A step that its thread cannot take changes nothing. -/
def after (s : Socket ι) : Step ι → Socket ι
  | .lookup i =>
    match s.handlers i with
    | .parsed dg => s.put i (if s.bound then .found dg else .done)
    | _ => s
  | .check i =>
    match s.handlers i with
    | .found dg => s.put i (if s.closed then .done else .checked dg)
    | _ => s
  | .send i =>
    match s.handlers i with
    | .checked dg =>
      match s.queue.trySend dg with
      | .sent q => { s with queue := q }.put i .done
      | .default => s.put i (.full dg)
      | .panic => s.put i .panicked
    | _ => s
  | .drop i =>
    match s.handlers i with
    | .full dg => { s with queue := s.queue.tryRecv }.put i (.retry dg)
    | _ => s
  | .resend i =>
    match s.handlers i with
    | .retry dg =>
      match s.queue.trySend dg with
      | .sent q => { s with queue := q }.put i .done
      | .default => s.put i .done
      | .panic => s.put i .panicked
    | _ => s
  | .read => { s with queue := s.queue.tryRecv }
  | .mark =>
    match s.closing with
    | .called => { s with closed := true, closing := if s.closed then .done else .marked }
    | _ => s
  | .release =>
    match s.closing with
    | .marked => { s with bound := false, closing := .released }
    | _ => s
  | .closeQueue =>
    match s.closing with
    | .released => { s with queue := s.queue.close, closing := .done }
    | _ => s

/-- An open socket with these datagrams in its queue, when the calls begin. -/
def opened (buf : List UDP4Datagram) (h : buf.length ≤ udp4QueueDepth) (dgs : ι → UDP4Datagram) :
    Socket ι where
  bound := true
  closed := false
  queue := ⟨buf, false, h⟩
  handlers i := .parsed (dgs i)
  closing := .called

end Socket

/-- The call has looked at `closed` and may still send. -/
def Handler.InFlight : Handler → Prop
  | .checked _ | .full _ | .retry _ => True
  | _ => False

/-- If this step closes the queue, no call is about to send on it. -/
def Quiet {ι : Type} (s : Socket ι) : Step ι → Prop
  | .closeQueue => s.closing = .released → ∀ i, ¬ (s.handlers i).InFlight
  | _ => True

/-! ## What one step can do -/

namespace Socket

variable {ι : Type} [DecidableEq ι] {s : Socket ι} {e : Step ι} {i : ι}

@[simp] theorem put_self (s : Socket ι) (i : ι) (h : Handler) : (s.put i h).handlers i = h :=
  Function.update_self ..

theorem put_of_ne (s : Socket ι) {i j : ι} (h : Handler) (hne : j ≠ i) :
    (s.put i h).handlers j = s.handlers j := Function.update_of_ne hne ..

/-- A step that is about the socket or about one call. -/
inductive Effect (s : Socket ι) : Step ι → Socket ι → Prop
  | none (e : Step ι) : Effect s e s
  /-- A reader. -/
  | read : Effect s .read { s with queue := s.queue.tryRecv }
  | mark (h : s.closing = .called) :
      Effect s .mark { s with closed := true, closing := if s.closed then .done else .marked }
  | release (h : s.closing = .marked) :
      Effect s .release { s with bound := false, closing := .released }
  | closeQueue (h : s.closing = .released) :
      Effect s .closeQueue { s with queue := s.queue.close, closing := .done }
  /-- A call that has not looked at `closed` yet, or has found it set. -/
  | before (e : Step ι) (i : ι) (h : Handler) (hi : ¬ (s.handlers i).InFlight)
      (hi' : s.handlers i ≠ .panicked) (hh : h.InFlight → s.closed = false) (hp : h ≠ .panicked) :
      Effect s e (s.put i h)
  /-- A call that has, and does not use a closed queue. -/
  | flight (e : Step ι) (i : ι) (h : Handler) (q : Chan UDP4Datagram udp4QueueDepth)
      (hi : (s.handlers i).InFlight) (hq : q.closed = s.queue.closed) (hp : h ≠ .panicked)
      (hh : s.queue.closed = true → h.InFlight) : Effect s e ({ s with queue := q }.put i h)
  /-- A call that has, and does. -/
  | panic (e : Step ι) (i : ι) (hi : (s.handlers i).InFlight) (hq : s.queue.closed = true) :
      Effect s e (s.put i .panicked)

variable {h : Handler}

/-- A send on the queue, by a call in flight that goes on to `h` if there is no room. -/
theorem effect_trySend (e : Step ι) (dg : UDP4Datagram) (hi : (s.handlers i).InFlight) (hp : h ≠ .panicked) :
    Effect s e (match s.queue.trySend dg with
      | .sent q => { s with queue := q }.put i .done
      | .default => s.put i h
      | .panic => s.put i .panicked) := by
  cases hclosed : s.queue.closed with
  | true =>
    rw [Chan.trySend_closed hclosed]
    exact .panic e i hi hclosed
  | false =>
    have hno : s.queue.closed = true → ∀ h : Handler, h.InFlight := fun hc => by
      rw [hclosed] at hc
      cases hc
    cases hsend : s.queue.trySend dg with
    | sent q => exact .flight e i .done q hi (Chan.trySend_sent hsend) nofun fun hc => hno hc _
    | default => exact .flight e i h s.queue hi rfl hp fun hc => hno hc _
    | panic => exact absurd hsend (Chan.trySend_open hclosed)

/-- **What a step can do.** -/
theorem after_effect (s : Socket ι) (e : Step ι) : Effect s e (s.after e) := by
  cases e with
  | lookup i =>
    unfold after
    dsimp only
    split
    next dg hi =>
      refine .before _ i _ (by rw [hi]; exact id) (by rw [hi]; nofun) ?_ ?_
      · split_ifs <;> exact False.elim
      · split_ifs <;> nofun
    · exact .none _
  | check i =>
    unfold after
    dsimp only
    split
    next dg hi =>
      refine .before _ i _ (by rw [hi]; exact id) (by rw [hi]; nofun) ?_ ?_
      · split_ifs with hclosed
        · exact False.elim
        · exact fun _ => by simpa using hclosed
      · split_ifs <;> nofun
    · exact .none _
  | send i =>
    unfold after
    dsimp only
    split
    next dg hi => exact effect_trySend _ dg (by rw [hi]; trivial) nofun
    · exact .none _
  | drop i =>
    unfold after
    dsimp only
    split
    next dg hi => exact .flight _ i _ _ (by rw [hi]; trivial) rfl nofun fun _ => trivial
    · exact .none _
  | resend i =>
    unfold after
    dsimp only
    split
    next dg hi => exact effect_trySend _ dg (by rw [hi]; trivial) nofun
    · exact .none _
  | read => exact .read
  | mark =>
    unfold after
    dsimp only
    split
    next h => exact .mark h
    · exact .none _
  | release =>
    unfold after
    dsimp only
    split
    next h => exact .release h
    · exact .none _
  | closeQueue =>
    unfold after
    dsimp only
    split
    next h => exact .closeQueue h
    · exact .none _

/-! ## Safe runs -/

/-- No call has panicked, and none will: behind a closed queue nothing is in flight. -/
structure Safe (s : Socket ι) : Prop where
  no_panic : ∀ i, s.handlers i ≠ .panicked
  landed : s.queue.closed = true → ∀ i, ¬ (s.handlers i).InFlight
  marked : s.closing ≠ .called → s.closed = true
  queue_marked : s.queue.closed = true → s.closed = true

omit [DecidableEq ι] in
theorem safe_opened {buf : List UDP4Datagram} (h : buf.length ≤ udp4QueueDepth)
    (dgs : ι → UDP4Datagram) : Safe (opened buf h dgs) where
  no_panic _ := nofun
  landed := nofun
  marked hne := absurd rfl hne
  queue_marked := nofun

theorem Safe.put (hs : Safe s) (hp : h ≠ .panicked)
    (hl : s.queue.closed = true → ¬ h.InFlight) : Safe (s.put i h) where
  no_panic j := by
    by_cases hj : j = i
    · subst hj
      rw [put_self]
      exact hp
    · rw [put_of_ne s h hj]
      exact hs.no_panic j
  landed hclosed j := by
    by_cases hj : j = i
    · subst hj
      rw [put_self]
      exact hl hclosed
    · rw [put_of_ne s h hj]
      exact hs.landed hclosed j
  marked := hs.marked
  queue_marked := hs.queue_marked

variable {q : Chan UDP4Datagram udp4QueueDepth}

omit [DecidableEq ι] in
theorem Safe.setQueue (hs : Safe s) (hq : q.closed = s.queue.closed) : Safe { s with queue := q } where
  no_panic := hs.no_panic
  landed hclosed := hs.landed (hq ▸ hclosed)
  marked := hs.marked
  queue_marked hclosed := hs.queue_marked (hq ▸ hclosed)

theorem safe_step (hs : Safe s) (hquiet : Quiet s e) : Safe (s.after e) := by
  have heffect := after_effect s e
  generalize s.after e = s' at heffect
  cases heffect with
  | none => exact hs
  | read => exact hs.setQueue rfl
  | mark _ => exact ⟨hs.no_panic, hs.landed, fun _ => rfl, fun _ => rfl⟩
  | release h =>
    have hmarked : s.closed = true := hs.marked (by rw [h]; nofun)
    exact ⟨hs.no_panic, hs.landed, fun _ => hmarked, hs.queue_marked⟩
  | closeQueue h =>
    have hmarked : s.closed = true := hs.marked (by rw [h]; nofun)
    exact ⟨hs.no_panic, fun _ => hquiet h, fun _ => hmarked, fun _ => hmarked⟩
  | before _ i h _ _ hh hp =>
    refine hs.put hp fun hclosed hflight => ?_
    rw [hs.queue_marked hclosed] at hh
    exact absurd (hh hflight) nofun
  | flight _ i h q hi hq hp hh =>
    refine (hs.setQueue hq).put hp fun hclosed => ?_
    exact absurd hi (hs.landed (hq ▸ hclosed) i)
  | panic _ i hi hq => exact absurd hi (hs.landed hq i)

/-! ## Runs that are not -/

/-- The queue is closed and this call is in flight, or has panicked. -/
def Doomed (i : ι) (s : Socket ι) : Prop :=
  s.queue.closed = true ∧ ((s.handlers i).InFlight ∨ s.handlers i = .panicked)

theorem doomed_put {s : Socket ι} (hs : Doomed i s) {j : ι}
    (hj : j = i → h.InFlight ∨ h = .panicked) : Doomed i (s.put j h) := by
  refine ⟨hs.1, ?_⟩
  by_cases hij : i = j
  · subst hij
    rw [put_self]
    exact hj rfl
  · rw [put_of_ne s h hij]
    exact hs.2

theorem doomed_step (hs : Doomed i s) : Doomed i (s.after e) := by
  have heffect := after_effect s e
  generalize s.after e = s' at heffect
  cases heffect with
  | none => exact hs
  | read => exact hs
  | mark _ => exact hs
  | release _ => exact hs
  | closeQueue _ => exact ⟨rfl, hs.2⟩
  | before _ j h hj hj' _ _ =>
    refine doomed_put hs fun hji => ?_
    subst hji
    rcases hs.2 with hflight | hpanic
    · exact absurd hflight hj
    · exact absurd hpanic hj'
  | flight _ j h q _ hq _ hh =>
    have hs' : Doomed i { s with queue := q } := ⟨hq.trans hs.1, hs.2⟩
    exact doomed_put hs' fun _ => .inl (hh hs.1)
  | panic _ j _ _ => exact doomed_put hs fun _ => .inr rfl

/-! ## A call that nothing comes between -/

/-- All steps of a call. -/
def whole (i : ι) : List (Step ι) := [.lookup i, .check i, .send i, .drop i, .resend i]

variable {dg : UDP4Datagram}

/-- The steps behind the look at `closed`, on an open queue. -/
theorem sent_alone (hi : s.handlers i = .checked dg) (hq : s.queue.closed = false) :
    (runFrom after s [.send i, .drop i, .resend i]).queue.buf =
      (if s.queue.buf.length < udp4QueueDepth then s.queue.buf else s.queue.buf.tail) ++ [dg] := by
  simp only [runFrom_cons, runFrom_nil]
  by_cases hroom : s.queue.buf.length < udp4QueueDepth
  · obtain ⟨q, hsend, hbuf⟩ := Chan.trySend_room hq hroom dg
    simp only [after, hi, hsend, put_self, if_pos hroom]
    exact hbuf
  · -- one datagram makes room for this one
    have htail : s.queue.tryRecv.buf.length < udp4QueueDepth := by
      have hle := s.queue.length_le
      show s.queue.buf.tail.length < _
      rw [List.length_tail]
      simp only [udp4QueueDepth] at hroom hle ⊢
      omega
    obtain ⟨q, hsend, hbuf⟩ := Chan.trySend_room (c := s.queue.tryRecv) hq htail dg
    have hfull := Chan.trySend_full hq hroom dg
    simp only [after, hi, hfull, put, Function.update_self, hsend, if_neg hroom]
    exact hbuf

/-- **A call on its own** leaves the queue that `Stack.deliver` leaves. -/
theorem handled_alone (hi : s.handlers i = .parsed dg) (hb : s.bound = true) (ho : s.closed = false)
    (hq : s.queue.closed = false) (st : Stack) (port : UInt16) :
    (st.deliver port ⟨s.closed, s.queue.buf⟩ dg).stack.udp4Conns port =
      some ⟨false, (runFrom after s (whole i)).queue.buf⟩ := by
  have hrun : runFrom after s (whole i) =
      runFrom after ((s.put i (.found dg)).put i (.checked dg)) [.send i, .drop i, .resend i] := by
    simp [whole, after, hi, hb, put, ho]
  rw [hrun, sent_alone (put_self (s.put i (.found dg)) i (.checked dg)) hq, Stack.deliver,
    if_neg (by simp [ho])]
  simp only [Function.update_self, ho]
  rfl

/-- Datagrams that are told apart by their payload. -/
def numbered (k : ℕ) : UDP4Datagram := ⟨[10, 0, 2, 2], 67, [.ofNat k]⟩

/-- A stack that knows nothing. -/
def bare : Stack := ⟨false, [], ⟨none, none, none⟩, fun _ => none, fun _ => none, fun _ => none, fun _ => none,
  0, 0, [], fun _ => none⟩

/-- A datagram for an empty queue, and one for a full queue, where the oldest is dropped. -/
theorem handled_alone_empty_full :
    (bare.deliver 68 ⟨false, []⟩ (numbered 0)).stack.udp4Conns 68 = some ⟨false, [numbered 0]⟩ ∧
      (bare.deliver 68 ⟨false, (List.range 16).map numbered⟩ (numbered 16)).stack.udp4Conns 68 =
        some ⟨false, (List.range' 1 16).map numbered⟩ :=
  ⟨handled_alone (s := .opened [] (Nat.zero_le _) fun _ => numbered 0) (i := ()) rfl rfl rfl rfl _ _,
    handled_alone (s := .opened ((List.range 16).map numbered) (by decide) fun _ => numbered 16) (i := ())
      rfl rfl rfl rfl _ _⟩

end Socket

/-! ## Delivery and Close -/

section
variable {ι : Type} [DecidableEq ι]

/-- No call has sent on the closed queue, in any state of the run. -/
def NeverPanics (s : Socket ι) (es : List (Step ι)) : Prop :=
  ∀ es', es' <+: es → ∀ i, (runFrom Socket.after s es').handlers i ≠ .panicked

/-- A run in which the queue is closed while a call is in flight, and in which that call is not left
in flight, panics. -/
theorem quiet_of_neverPanics : ∀ {es : List (Step ι)} {s : Socket ι}, NeverPanics s es →
    (∀ i, ¬ ((runFrom Socket.after s es).handlers i).InFlight) → RunMeets Socket.after Quiet s es
  | [], _, _, _ => trivial
  | e :: es, s, hnever, hend => by
    have hrest : NeverPanics (s.after e) es := fun es' hes' =>
      hnever (e :: es') (List.cons_prefix_cons.mpr ⟨rfl, hes'⟩)
    refine ⟨?_, quiet_of_neverPanics hrest hend⟩
    rcases e with i | i | i | i | i | _ | _ | _ | _
    case closeQueue =>
      intro hreleased i hflight
      have hclosed : s.after .closeQueue = { s with queue := s.queue.close, closing := .done } := by
        simp only [after, hreleased]
      have hdoomed : Socket.Doomed i (s.after .closeQueue) := by
        rw [hclosed]
        exact ⟨rfl, .inl hflight⟩
      -- it is doomed from here to the end
      obtain ⟨-, hflight' | hpanic⟩ :=
        run_invariant (fun s e hs => Socket.doomed_step hs) hdoomed es
      · exact hend i hflight'
      · exact hnever _ List.prefix_rfl i hpanic
    all_goals trivial

/-- **Delivery and Close do not clash** in a run in which the queue is closed while no call is in
flight; and in a run that leaves no call in flight there is no other way. -/
theorem deliver_close (buf : List UDP4Datagram) (hbuf : buf.length ≤ udp4QueueDepth)
    (dgs : ι → UDP4Datagram) (es : List (Step ι)) :
    (RunMeets Socket.after Quiet (.opened buf hbuf dgs) es →
      NeverPanics (.opened buf hbuf dgs) es) ∧
    ((∀ i, ¬ ((runFrom Socket.after (.opened buf hbuf dgs) es).handlers i).InFlight) →
      NeverPanics (.opened buf hbuf dgs) es →
      RunMeets Socket.after Quiet (.opened buf hbuf dgs) es) := by
  refine ⟨fun hquiet es' hes' => ?_, fun hend hnever => quiet_of_neverPanics hnever hend⟩
  have hsafe := RunMeets.invariant (I := Socket.Safe) (fun s e => safe_step)
    (safe_opened hbuf dgs) hquiet es' hes'
  exact hsafe.no_panic

end

/-- A datagram is delivered, then the socket is closed. -/
theorem deliver_then_close :
    NeverPanics (.opened [] (Nat.zero_le _) fun _ : Unit => ⟨[10, 0, 2, 2], 53, []⟩)
      [.lookup (), .check (), .send (), .mark, .release, .closeQueue] := by
  refine (deliver_close _ _ _ _).1 ?_
  exact ⟨trivial, trivial, trivial, trivial, trivial, fun _ _ hflight => hflight, trivial⟩

/-- The socket is closed between the look at `closed` and the send. -/
theorem close_before_send :
    ¬ NeverPanics (.opened [] (Nat.zero_le _) fun _ : Unit => ⟨[10, 0, 2, 2], 53, []⟩)
      [.lookup (), .check (), .mark, .release, .closeQueue, .send ()] := by
  intro hnever
  exact hnever _ List.prefix_rfl () (by decide)

end TamagoUefi.Net
