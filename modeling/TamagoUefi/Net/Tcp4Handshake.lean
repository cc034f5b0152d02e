import TamagoUefi.Net.Tcp4Dial

/-!
# TamagoUefi.Net.Tcp4Handshake — what a dial sees of its handshake (`tcp4.go`)

`dialTCP4Once` waits for ESTABLISHED by looking at the state now and then, while inbound segments move
it.  A FIN that arrives between the SYN-ACK and the next look moves it on to CLOSE_WAIT, which the dial
takes for a handshake that is not complete; it waits until its time is up.

* `Dialing`: the states of a connection during its dial, as long as no RST comes.
* `DialMove`: what a step of the stack can do to one dial.
* `handshake_reported_iff`: the next look returns the connection exactly when no FIN has been taken; and if
  one has, no later look does.
-/

namespace TamagoUefi.Net

open Go Lib

/-! ## The connection -/

namespace RecvSide

/-- The FIN of the peer is not forgotten. -/
theorem peerFinSeen_accept {r : RecvSide} (h : r.peerFinSeen = true) (seq : Seq) (payload : Bytes)
    (fin : Bool) : (r.accept seq payload fin).peerFinSeen = true := by
  unfold accept
  split_ifs
  · refine drain_rule (P := fun r => r.peerFinSeen = true) (fun _ h => ?_) _ (by simp [absorb, h])
    simp [absorb, unpark, h]
  · exact h
  · exact h

end RecvSide

variable {h : TCP4Header}

namespace TCP4Conn

/-- A connection whose dial is in progress, and that no RST has closed. -/
structure Dialing (c : TCP4Conn) : Prop where
  opened : c.closed = false
  state : (c.state = .synSent ∧ c.peerFinSeen = false) ∨ (c.state = .established ∧ c.peerFinSeen = false) ∨
    (c.state = .closeWait ∧ c.peerFinSeen = true)

variable {c : TCP4Conn}

theorem peerFinSeen_acceptData (hfin : c.peerFinSeen = true) (h : TCP4Header)
    (payload : Bytes) : (c.acceptData h payload).1.peerFinSeen = true := by
  unfold acceptData
  split_ifs
  · exact RecvSide.peerFinSeen_accept hfin _ _ _
  · exact hfin

@[simp] theorem acceptData_closed (c : TCP4Conn) (h : TCP4Header) (payload : Bytes) :
    (c.acceptData h payload).1.closed = c.closed := by
  unfold acceptData
  split_ifs <;> rfl

@[simp] theorem advanceUna_closed (c : TCP4Conn) (ack : Seq) : (c.advanceUna ack).closed = c.closed := by
  unfold advanceUna
  split_ifs <;> rfl

/-- ESTABLISHED and CLOSE_WAIT, after an acknowledgement. -/
theorem Dialing.dataArm (hc : Dialing c) (hs : c.state ≠ .synSent) (h : TCP4Header)
    (payload : Bytes) : Dialing (c.dataArm h payload).1 := by
  unfold TCP4Conn.dataArm
  split_ifs with hack
  · refine ⟨by simpa using hc.opened, ?_⟩
    dsimp only
    rcases hc.state with ⟨hsyn, -⟩ | ⟨hest, -⟩ | ⟨hwait, hfin⟩
    · exact absurd hsyn hs
    · cases hseen : ((c.advanceUna h.ack).acceptData h payload).1.peerFinSeen with
      | true => simp [nextState, hest, hseen]
      | false => simp [nextState, hest, hseen]
    · have hseen : ((c.advanceUna h.ack).acceptData h payload).1.peerFinSeen = true :=
        peerFinSeen_acceptData (by rw [advanceUna_recv]; exact hfin) h payload
      simp [nextState, hwait, hseen]
  · exact hc

theorem Dialing.stateArm (hc : Dialing c) (h : TCP4Header) (payload : Bytes) :
    Dialing (c.stateArm h payload).1 := by
  unfold TCP4Conn.stateArm
  rcases hc.state with ⟨hs, hfin⟩ | ⟨hs, -⟩ | ⟨hs, -⟩
  · simp only [hs]
    unfold synArm
    split_ifs
    · exact ⟨hc.opened, .inr (.inl ⟨rfl, hfin⟩)⟩
    · exact hc
  · simp only [hs]
    exact hc.dataArm (by simp [hs]) h payload
  · simp only [hs]
    exact hc.dataArm (by simp [hs]) h payload

/-- **A segment** keeps a dial in progress, unless it is an RST. -/
theorem Dialing.deliver (hc : Dialing c) (hr : h.has tcpFlagRST = false) (payload : Bytes) :
    Dialing (c.deliverSegment h payload).1 := by
  have hw : Dialing { c with sndWnd := h.window } := ⟨hc.opened, hc.state⟩
  unfold deliverSegment
  rw [if_neg (by simp [hc.opened]), if_neg (by simp [hr])]
  exact hw.stateArm h payload

/-- SYN-ACK for the SYN of `c`. -/
structure SynAck (c : TCP4Conn) (h : TCP4Header) : Prop where
  syn : h.has tcpFlagSYN = true
  ack : h.has tcpFlagACK = true
  number : h.ack = c.sndNxt

theorem Dialing.synAck (hc : Dialing c) (hr : h.has tcpFlagRST = false) (hack : SynAck c h)
    (payload : Bytes) : (c.deliverSegment h payload).1.state ≠ .synSent := by
  by_cases hs : c.state = .synSent
  · unfold deliverSegment
    rw [if_neg (by simp [hc.opened]), if_neg (by simp [hr])]
    simp only [TCP4Conn.stateArm, hs, synArm, hack.syn, hack.ack, hack.number]
    simp
  · exact deliverSegment_ne_synSent hs h payload

theorem peerFinSeen_deliver (hfin : c.peerFinSeen = true) (h : TCP4Header)
    (payload : Bytes) : (c.deliverSegment h payload).1.peerFinSeen = true := by
  have hstep := (c.deliverSegment_delivered h payload).recv
  generalize c.deliverSegment h payload = res at hstep
  obtain ⟨c', sent⟩ := res
  dsimp only at hstep ⊢
  cases hstep with
  | idle hr _ => rw [hr, hfin]
  | handshake _ _ hr => rw [hr, hfin]
  | data _ _ _ hr =>
    rw [hr]
    exact RecvSide.peerFinSeen_accept hfin _ _ _

/-- A connection that a dial does not take any more: in CLOSE_WAIT, or closed by an RST. -/
def Lost (c : TCP4Conn) : Prop := (Dialing c ∧ c.peerFinSeen = true) ∨ (c.closed = true ∧ c.state = .closed)

theorem Lost.ne_established (h : Lost c) : c.state ≠ .established := by
  rcases h with ⟨hd, hfin⟩ | ⟨-, hs⟩
  · rcases hd.state with ⟨hs, -⟩ | ⟨-, hno⟩ | ⟨hs, -⟩
    · simp [hs]
    · simp [hfin] at hno
    · simp [hs]
  · simp [hs]

theorem Lost.deliver (hc : Lost c) (h : TCP4Header) (payload : Bytes) :
    Lost (c.deliverSegment h payload).1 := by
  rcases hc with ⟨hd, hfin⟩ | ⟨hclosed, hs⟩
  · cases hr : h.has tcpFlagRST with
    | false => exact .inl ⟨hd.deliver hr payload, peerFinSeen_deliver hfin h payload⟩
    | true =>
      unfold deliverSegment
      rw [if_neg (by simp [hd.opened]), if_pos hr]
      exact .inr ⟨rfl, rfl⟩
  · unfold deliverSegment
    rw [if_pos hclosed]
    exact .inr ⟨hclosed, hs⟩

end TCP4Conn

/-! ## One dial -/

/-- Not in the table yet. -/
def Phase.unlisted : Phase → Bool
  | .idle | .entered _ | .allocated => true
  | _ => false

/-- Given up. -/
def Phase.over : Phase → Bool
  | .failing _ | .failed _ => true
  | _ => false

variable {s : Phase}

theorem Phase.unlisted_of_handed (h : s.handed = true) : s.unlisted = false := by
  cases s <;> first | rfl | cases h

theorem Phase.of_over (h : s.over = true) : s.unlisted = false ∧ s.handed = false ∧ s ≠ .registered := by
  cases s with
  | failing | failed => exact ⟨rfl, rfl, by simp⟩
  | _ => cases h

/-- What a step can do to the dial `k`. -/
inductive DialMove (t : Table) (k : ℕ) : TableEvent → Dial → Prop
  | same {e : TableEvent} : DialMove t k e (t.dials k)
  /-- Towards the table. -/
  | enter {e : TableEvent} {d : Dial} (hp : (t.dials k).phase.unlisted = true)
      (hd : d.phase.unlisted = true) (hc : d.phase = .allocated → ∃ iss, d.conn = .dialed iss) :
      DialMove t k e d
  | register {e : TableEvent} (hp : (t.dials k).phase = .allocated) :
      DialMove t k e { t.dials k with phase := .registered }
  | syn {e : TableEvent} (hp : (t.dials k).phase = .registered) :
      DialMove t k e { t.dials k with phase := .waiting }
  | success (hp : (t.dials k).phase = .waiting) (hs : (t.dials k).conn.state = .established) :
      DialMove t k (.poll k) { t.dials k with phase := .returned }
  | fail {e : TableEvent} {s : Phase} (hp : (t.dials k).phase.handed = false) (hs : s.over = true) :
      DialMove t k e { t.dials k with phase := s }
  | deliver {n : ℕ} {h : TCP4Header} {payload : Bytes} (hrx : t.rx n = some ⟨k, h, payload⟩) :
      DialMove t k (.deliver n)
        { t.dials k with conn := ((t.dials k).conn.deliverSegment h payload).1 }
  | close {e : TableEvent} {d : Dial} (hp : (t.dials k).phase.handed = true)
      (hd : d.phase.handed = true) : DialMove t k e d

variable {e : TableEvent} {k : ℕ} {t : Table}

namespace Table

/-- The table and the receive path know registered connections only, and only those that were handed
out are closed by their callers. -/
structure Sane (t : Table) : Prop where
  conns : ∀ p k, t.demux.tcp4Conns p = some k → (t.dials k).phase.unlisted = false
  rx : ∀ n i, t.rx n = some i → (t.dials i.conn).phase.unlisted = false
  closers : ∀ i k, (t.closers i).of = some k → (t.dials k).phase.handed = true

theorem dialMove_setDial {d : Dial} (h : DialMove t k e d) (j : ℕ) :
    DialMove t j e ((t.setDial k d).dials j) := by
  by_cases hj : j = k
  · subst hj
    rwa [setDial_self]
  · rw [setDial_of_ne hj]
    exact .same

section
variable (t : Table) (k j : ℕ) {e : TableEvent}

theorem dialMove_dial (dst : Bytes) (port : UInt16) (localIP : Option Bytes) (mac : Bytes) :
    DialMove t j e ((t.dial k dst port localIP mac).dials j) := by
  unfold dial
  split
  case h_2 => exact .same
  case h_1 hk =>
    have hfail : ∀ err, DialMove t k e { t.dials k with phase := .failed err } :=
      fun err => .fail (by rw [hk]; rfl) rfl
    split
    · exact dialMove_setDial (hfail _) j
    · split_ifs
      · exact dialMove_setDial (hfail _) j
      · split
        · exact dialMove_setDial (hfail _) j
        · exact dialMove_setDial (.enter (by rw [hk]; rfl) rfl (fun h => by cases h)) j

theorem dialMove_alloc : DialMove t j e ((t.alloc k).dials j) := by
  unfold alloc
  split
  case h_2 => exact .same
  case h_1 mac hk =>
    split
    · exact dialMove_setDial (.fail (by rw [hk]; rfl) rfl) j
    · exact dialMove_setDial (.enter (by rw [hk]; rfl) rfl fun _ => ⟨_, rfl⟩) j

theorem dialMove_sendSyn (g : Egress) : DialMove t j e ((t.sendSyn k g).dials j) := by
  unfold sendSyn
  split
  case h_2 => exact .same
  case h_1 hk =>
    split
    · exact dialMove_setDial (.fail (by rw [hk]; rfl) rfl) j
    · exact dialMove_setDial (.syn hk) j

theorem dialMove_poll : DialMove t j (.poll k) ((t.poll k).dials j) := by
  unfold poll
  split
  case h_2 => exact .same
  case h_1 hk =>
    split_ifs with hs hc
    · exact dialMove_setDial (.success hk hs) j
    · exact dialMove_setDial (.fail (by rw [hk]; rfl) rfl) j
    · exact .same

theorem dialMove_deliver (n : ℕ) : DialMove t j (.deliver n) ((t.deliver n).dials j) := by
  unfold deliver
  split
  case h_1 => exact .same
  case h_2 i h payload hrx => exact dialMove_setDial (.deliver hrx) j

theorem dialMove_close (i : ℕ) : DialMove t j e ((t.close i k).dials j) := by
  unfold close
  split
  case h_1 hi hk | h_2 hi hk =>
    split_ifs with hc
    · exact dialMove_setDial (.close (by rw [hk]; rfl) rfl) j
    · exact dialMove_setDial (.close (by rw [hk]; rfl) (by rw [hk]; rfl)) j
  case h_3 => exact .same

end

/-- **Every step** does one of these to every dial. -/
theorem after_dialMove (hsane : t.Sane) (e : TableEvent) (j : ℕ) : DialMove t j e ((t.after e).dials j) := by
  cases e with
  | dial k dst port localIP mac => exact t.dialMove_dial k j dst port localIP mac
  | alloc k => exact t.dialMove_alloc k j
  | register k =>
    change DialMove t j _ ((t.register k).dials j)
    unfold register
    split
    case h_1 hk => exact dialMove_setDial (.register hk) j
    case h_2 => exact .same
  | sendSyn k g => exact t.dialMove_sendSyn k j g
  | poll k => exact t.dialMove_poll k j
  | expire k =>
    change DialMove t j _ ((t.expire k).dials j)
    unfold expire
    split
    case h_1 hk => exact dialMove_setDial (.fail (by rw [hk]; rfl) rfl) j
    case h_2 => exact .same
  | release k =>
    change DialMove t j _ ((t.release k).dials j)
    unfold release
    split
    case h_1 err hk => exact dialMove_setDial (.fail (by rw [hk]; rfl) rfl) j
    case h_2 => exact .same
  | handle n src srcPort dstPort h payload =>
    change DialMove t j _ ((t.handle n src srcPort dstPort h payload).dials j)
    unfold handle
    split
    · exact .same
    · split_ifs
      · exact .same
      · exact .same
  | deliver n => exact t.dialMove_deliver j n
  | close i k => exact t.dialMove_close k j i
  | mark i =>
    change DialMove t j _ ((t.mark i).dials j)
    unfold mark
    split
    case h_1 k hi =>
      have hk := hsane.closers i k (by rw [hi]; rfl)
      exact dialMove_setDial (d := { t.dials k with conn := (t.dials k).conn.endClose }) (.close hk hk) j
    case h_2 => exact .same
  | releaseClosed i =>
    change DialMove t j _ ((t.releaseClosed i).dials j)
    unfold releaseClosed
    split
    case h_1 k hi => exact dialMove_setDial (.close (hsane.closers i k (by rw [hi]; rfl)) rfl) j
    case h_2 => exact .same
  | closeStack => exact .same

end Table

namespace DialMove

variable {t : Table} {k : ℕ} {e : TableEvent} {d : Dial}

/-- No dial leaves the table's reach again. -/
theorem listed (h : DialMove t k e d) (hk : (t.dials k).phase.unlisted = false) : d.phase.unlisted = false := by
  cases h with
  | same => exact hk
  | enter hp _ _ => simp [hp] at hk
  | register | syn | success => rfl
  | fail _ hs => exact (Phase.of_over hs).1
  | deliver => exact hk
  | close _ hd => exact Phase.unlisted_of_handed hd

theorem handed (h : DialMove t k e d) (hk : (t.dials k).phase.handed = true) : d.phase.handed = true := by
  cases h with
  | same => exact hk
  | enter hp _ _ => simp [Phase.unlisted_of_handed hk] at hp
  | register hp | syn hp | success hp _ =>
    rw [hp] at hk
    cases hk
  | fail hp _ => simp [hp] at hk
  | deliver => exact hk
  | close _ hd => exact hd

theorem unlisted_of (h : DialMove t k e d) (hd : d.phase.unlisted = true) : (t.dials k).phase.unlisted = true := by
  by_contra hk
  rw [h.listed (by simpa using hk)] at hd
  cases hd

/-- A dial with a port has it from this step, or has not moved. -/
theorem allocated_of (h : DialMove t k e d)
    (he : ∀ n hd payload, e = .deliver n → t.rx n ≠ some ⟨k, hd, payload⟩) (hd : d.phase = .allocated) :
    ((t.dials k).phase = .allocated ∧ d = t.dials k) ∨ ∃ iss, d.conn = .dialed iss := by
  cases h with
  | same => exact .inl ⟨hd, rfl⟩
  | enter _ _ hc => exact .inr (hc hd)
  | deliver hrx => exact absurd hrx (he _ _ _ rfl)
  | register | syn | success => cases hd
  | @fail _ s _ hs =>
    obtain rfl : s = .allocated := hd
    cases hs
  | close _ hd' =>
    rw [hd] at hd'
    cases hd'

/-- A step to a dial that waits leaves its connection alone. -/
theorem dialing_of (h : DialMove t k e d)
    (he : ∀ n hd payload, e = .deliver n → t.rx n ≠ some ⟨k, hd, payload⟩)
    (hd : d.phase = .registered ∨ d.phase = .waiting) :
    d.conn = (t.dials k).conn ∧ ((t.dials k).phase = .allocated ∨
      (t.dials k).phase = .registered ∨ (t.dials k).phase = .waiting) := by
  cases h with
  | same => exact ⟨rfl, .inr hd⟩
  | enter _ hd' _ =>
    rcases hd with hd | hd
    all_goals
      rw [hd] at hd'
      cases hd'
  | deliver hrx => exact absurd hrx (he _ _ _ rfl)
  | register hp => exact ⟨rfl, .inl hp⟩
  | syn hp => exact ⟨rfl, .inr (.inl hp)⟩
  | success =>
    rcases hd with hd | hd
    all_goals cases hd
  | @fail _ s _ hs =>
    obtain rfl | rfl : s = .registered ∨ s = .waiting := hd
    all_goals cases hs
  | close _ hd' =>
    rcases hd with hd | hd
    all_goals
      rw [hd] at hd'
      cases hd'

end DialMove

variable {n : ℕ}

namespace Table

theorem conns_after {p : UInt16} (h : (t.after e).demux.tcp4Conns p = some k) :
    t.demux.tcp4Conns p = some k ∨ ((t.after e).dials k).phase.unlisted = false := by
  have hstep := t.after_step e
  generalize t.portEvents e = ps, t.after e = t' at hstep h
  cases hstep with
  | quiet hq => exact .inl (hq.demux ▸ h)
  | alloc _ ha _ _ => exact .inl (Demux.allocTCP4Port_conns ha ▸ h)
  | @register j hj =>
    by_cases hp : p = (t.dials j).localPort
    · rw [hp, Demux.registerTCP4_self] at h
      cases h
      exact .inr (by rw [setPhase_phase]; rfl)
    · rw [Demux.registerTCP4_of_ne hp] at h
      exact .inl h
  | release | closed => exact .inl (Demux.releaseTCP4_eq_some h).2
  | move | early | shut => exact .inl h

variable {e : TableEvent}

theorem rx_frame (t : Table) (he : e.inbound = false) : (t.after e).rx = t.rx := by
  cases e
  case handle | deliver => cases he
  all_goals
    simp only [after, dial, alloc, register, sendSyn, poll, expire, release, close, mark, releaseClosed]
    repeat' split
    all_goals rfl

theorem eq_of_update {α : Type} {f : ℕ → α} {a b : ℕ} {v x : α} (h : Function.update f a v b = x) :
    (b = a ∧ v = x) ∨ f b = x := by
  by_cases hb : b = a
  · subst hb
    rw [Function.update_self] at h
    exact .inl ⟨rfl, h⟩
  · rw [Function.update_of_ne hb] at h
    exact .inr h

variable {t : Table}

theorem rx_after {i : Inbound} (h : (t.after e).rx n = some i) :
    t.rx n = some i ∨ ∃ p, t.demux.tcp4Conns p = some i.conn := by
  cases e with
  | handle m src srcPort dstPort hd payload =>
    simp only [after, handle] at h
    split at h
    next => exact .inl h
    next k hk =>
      split_ifs at h
      · exact .inl h
      · rcases eq_of_update h with ⟨-, hnew⟩ | hold
        · cases hnew
          exact .inr ⟨dstPort, hk⟩
        · exact .inl hold
  | deliver m =>
    simp only [after, deliver] at h
    split at h
    · exact .inl h
    · rcases eq_of_update h with ⟨-, hnew⟩ | hold
      · cases hnew
      · exact .inl hold
  | dial | alloc | register | sendSyn | poll | expire | release | close | mark | releaseClosed | closeStack =>
    rw [t.rx_frame rfl] at h
    exact .inl h

/-- A `Close` is of a connection that was handed out. -/
theorem closers_after {i : ℕ} (h : ((t.after e).closers i).of = some k) :
    (t.closers i).of = some k ∨ (t.dials k).phase.handed = true := by
  have hstep := t.after_step e
  generalize t.portEvents e = ps, t.after e = t' at hstep h
  cases hstep with
  | quiet hq => exact hq.closer i k h
  | early | closed => exact (setCloser_of h).elim (fun hnew => nomatch hnew.2) .inl
  | move | alloc | register | release | shut => exact .inl h

theorem sane_start : Sane start where
  conns _ _ h := by cases h
  rx _ _ h := by cases h
  closers _ _ h := by cases h

theorem sane_step (h : t.Sane) (e : TableEvent) : (t.after e).Sane where
  conns p k hp :=
    (conns_after hp).elim (fun hold => (after_dialMove h e k).listed (h.conns p k hold)) id
  rx n i hi := by
    refine (after_dialMove h e i.conn).listed ?_
    rcases rx_after hi with hold | ⟨p, hp⟩
    · exact h.rx n i hold
    · exact h.conns p i.conn hp
  closers i k hi := by
    refine (after_dialMove h e k).handed ?_
    rcases closers_after hi with hold | hk
    · exact h.closers i k hold
    · exact hk

theorem sane_run (es : List TableEvent) : Sane (runFrom after start es) :=
  run_invariant (I := Sane) (fun _ e h => sane_step h e) sane_start es

end Table

/-! ## What was delivered -/

/-- The state after these events. -/
def stackAfter (es : List TableEvent) : Table := runFrom Table.after .start es

theorem stackAfter_concat (es : List TableEvent) (e : TableEvent) :
    stackAfter (es ++ [e]) = (stackAfter es).after e := runFrom_append ..

/-- The segment `h` was delivered to connection `k`, which was `c` then. -/
def DeliveredTo (es : List TableEvent) (k : ℕ) (c : TCP4Conn) (h : TCP4Header) : Prop :=
  ∃ es₁ n payload, es₁ ++ [.deliver n] <+: es ∧ (stackAfter es₁).rx n = some ⟨k, h, payload⟩ ∧
    ((stackAfter es₁).dials k).conn = c

variable {es : List TableEvent}

theorem deliveredTo_concat {c : TCP4Conn} :
    DeliveredTo (es ++ [e]) k c h ↔ DeliveredTo es k c h ∨
      ∃ n payload, e = .deliver n ∧ (stackAfter es).rx n = some ⟨k, h, payload⟩ ∧
        ((stackAfter es).dials k).conn = c := by
  unfold DeliveredTo
  simp only [List.prefix_concat_iff]
  constructor
  · rintro ⟨es₁, n, payload, heq | hp, hrx, hc⟩
    · obtain ⟨rfl, hlast⟩ := List.append_inj' heq rfl
      exact .inr ⟨n, payload, (List.singleton_inj.mp hlast).symm, hrx, hc⟩
    · exact .inl ⟨es₁, n, payload, hp, hrx, hc⟩
  · rintro (⟨es₁, n, payload, hp, hrx, hc⟩ | ⟨n, payload, rfl, hrx, hc⟩)
    · exact ⟨es₁, n, payload, .inr hp, hrx, hc⟩
    · exact ⟨es, n, payload, .inl rfl, hrx, hc⟩

/-- The SYN-ACK was delivered, and no RST. -/
structure Handshaken (es : List TableEvent) (k : ℕ) : Prop where
  synAck : ∃ c h, DeliveredTo es k c h ∧ c.SynAck h
  noReset : ∀ c h, DeliveredTo es k c h → h.has tcpFlagRST = false

/-- A dial against the segments delivered to it. -/
structure DialTrace (es : List TableEvent) (k : ℕ) : Prop where
  unlisted : ((stackAfter es).dials k).phase.unlisted = true → ∀ c h, ¬ DeliveredTo es k c h
  allocated : ((stackAfter es).dials k).phase = .allocated →
    ∃ iss, ((stackAfter es).dials k).conn = .dialed iss
  dialing : ((stackAfter es).dials k).phase = .registered ∨ ((stackAfter es).dials k).phase = .waiting →
    ((stackAfter es).dials k).conn.Dialing ∧
      ((∃ c h, DeliveredTo es k c h ∧ c.SynAck h) → ((stackAfter es).dials k).conn.state ≠ .synSent)

theorem dialTrace_nil (k : ℕ) : DialTrace [] k where
  unlisted _ c h := by
    rintro ⟨es₁, n, payload, hp, -⟩
    simp at hp
  allocated h := by cases h
  dialing h := by rcases h with h | h <;> cases h

section
variable {es : List TableEvent} {k : ℕ}

theorem DialTrace.deliver (h : DialTrace es k) {hd : TCP4Header} {payload : Bytes}
    (hrx : (stackAfter es).rx n = some ⟨k, hd, payload⟩) (hr : hd.has tcpFlagRST = false) :
    DialTrace (es ++ [.deliver n]) k := by
  have hlisted : ((stackAfter es).dials k).phase.unlisted = false := (Table.sane_run es).rx n _ hrx
  have hafter : (stackAfter (es ++ [.deliver n])).dials k = { (stackAfter es).dials k with
      conn := (((stackAfter es).dials k).conn.deliverSegment hd payload).1 } := by
    rw [stackAfter_concat]
    change ((stackAfter es).deliver n).dials k = _
    rw [Table.deliver, hrx]
    exact Table.setDial_self ..
  constructor
  · intro hphase
    rw [hafter] at hphase
    cases hlisted.symm.trans hphase
  · intro hphase
    rw [hafter] at hphase
    rw [show ((stackAfter es).dials k).phase = .allocated from hphase] at hlisted
    cases hlisted
  · intro hphase
    rw [hafter] at hphase ⊢
    obtain ⟨hdialing, hsyn⟩ := h.dialing hphase
    refine ⟨hdialing.deliver hr payload, ?_⟩
    rintro ⟨c, hd', hdel, hack⟩
    rcases deliveredTo_concat.mp hdel with hold | ⟨n', payload', heq, hrx', hc⟩
    · exact TCP4Conn.deliverSegment_ne_synSent (hsyn ⟨c, hd', hold, hack⟩) hd payload
    · cases heq
      rw [hrx] at hrx'
      cases hrx'
      subst hc
      exact hdialing.synAck hr hack payload

theorem DialTrace.move (h : DialTrace es k)
    (he : ∀ n hd payload, e = .deliver n → (stackAfter es).rx n ≠ some ⟨k, hd, payload⟩) :
    DialTrace (es ++ [e]) k := by
  have hhist : ∀ {c hd}, DeliveredTo (es ++ [e]) k c hd ↔ DeliveredTo es k c hd := by
    intro c hd
    rw [deliveredTo_concat]
    refine ⟨?_, .inl⟩
    rintro (hold | ⟨n, payload, rfl, hrx, -⟩)
    · exact hold
    · exact absurd hrx (he n hd payload rfl)
  have hmove := Table.after_dialMove (Table.sane_run es) e k
  change DialMove (stackAfter es) k e (((stackAfter es).after e).dials k) at hmove
  rw [← stackAfter_concat] at hmove
  constructor
  · simp only [hhist]
    exact fun hphase => h.unlisted (hmove.unlisted_of hphase)
  · intro hphase
    rcases hmove.allocated_of he hphase with ⟨hp, heq⟩ | hc
    · rw [heq]
      exact h.allocated hp
    · exact hc
  · simp only [hhist]
    intro hphase
    obtain ⟨hconn, hp | hp⟩ := hmove.dialing_of he hphase
    · -- just registered: nothing can have been delivered before
      rw [hconn]
      obtain ⟨iss, hc⟩ := h.allocated hp
      refine ⟨by rw [hc]; exact ⟨rfl, .inl ⟨rfl, rfl⟩⟩, ?_⟩
      rintro ⟨c, hd, hdel, -⟩
      exact absurd hdel (h.unlisted (by rw [hp]; rfl) c hd)
    · rw [hconn]
      exact h.dialing hp

theorem dialTrace_run (es : List TableEvent) (k : ℕ)
    (hr : ∀ c h, DeliveredTo es k c h → h.has tcpFlagRST = false) : DialTrace es k := by
  induction es using List.reverseRecOn with
  | nil => exact dialTrace_nil k
  | append_singleton es e ih =>
    have htrace := ih fun c h hdel => hr c h (deliveredTo_concat.mpr (.inl hdel))
    by_cases hdel : ∃ n hd payload, e = .deliver n ∧ (stackAfter es).rx n = some ⟨k, hd, payload⟩
    · obtain ⟨n, hd, payload, rfl, hrx⟩ := hdel
      exact htrace.deliver hrx (hr _ hd (deliveredTo_concat.mpr (.inr ⟨n, payload, rfl, hrx, rfl⟩)))
    · push Not at hdel
      exact htrace.move hdel

end

/-! ## The result -/

/-- A dial that will not return its connection. -/
def Doomed (k : ℕ) (t : Table) : Prop :=
  (t.dials k).phase.over = true ∨ ((t.dials k).phase = .waiting ∧ (t.dials k).conn.Lost)

theorem Doomed.phase (h : Doomed k t) :
    (t.dials k).phase.unlisted = false ∧ (t.dials k).phase.handed = false ∧
      (t.dials k).phase ≠ .registered := by
  rcases h with ho | ⟨hw, -⟩
  · exact Phase.of_over ho
  · simp [hw, Phase.unlisted, Phase.handed]

theorem doomed_step (hsane : t.Sane) (h : Doomed k t) (e : TableEvent) : Doomed k (t.after e) := by
  obtain ⟨hlisted, hhanded, hregistered⟩ := h.phase
  have hmove := Table.after_dialMove hsane e k
  unfold Doomed at h ⊢
  generalize (t.after e).dials k = d at hmove
  cases hmove with
  | same => exact h
  | enter hp _ _ => simp [hp] at hlisted
  | register hp => simp [hp, Phase.unlisted] at hlisted
  | syn hp => exact absurd hp hregistered
  | success hp hs =>
    rcases h with ho | ⟨-, hl⟩
    · rw [hp] at ho
      cases ho
    · exact absurd hs hl.ne_established
  | fail _ hs => exact .inl hs
  | @deliver n hd payload _ =>
    rcases h with ho | ⟨hw, hl⟩
    · exact .inl ho
    · exact .inr ⟨hw, hl.deliver hd payload⟩
  | close hp _ => simp [hp] at hhanded

theorem doomed_run (h : Doomed k (stackAfter es)) (es' : List TableEvent) :
    Doomed k (stackAfter (es ++ es')) := by
  induction es' using List.reverseRecOn with
  | nil => rwa [List.append_nil]
  | append_singleton es' e ih =>
    rw [← List.append_assoc, stackAfter_concat]
    exact doomed_step (Table.sane_run _) ih e

theorem Handshaken.state (h : Handshaken es k) (hwait : ((stackAfter es).dials k).phase = .waiting) :
    ((stackAfter es).dials k).conn.Dialing ∧ ((stackAfter es).dials k).conn.state ≠ .synSent := by
  obtain ⟨hdialing, hsyn⟩ := (dialTrace_run es k h.noReset).dialing (.inr hwait)
  exact ⟨hdialing, hsyn h.synAck⟩

/-- **A completed handshake** is reported at the next look exactly when no FIN has been taken; one that
has been taken is the end of the dial. -/
theorem handshake_reported_iff (es : List TableEvent) (k : ℕ) (h : Handshaken es k)
    (hwait : ((stackAfter es).dials k).phase = .waiting) :
    (((stackAfter (es ++ [.poll k])).dials k).phase = .returned ↔
      ((stackAfter es).dials k).conn.peerFinSeen = false) ∧
    (((stackAfter es).dials k).conn.peerFinSeen = true →
      ∀ es', ((stackAfter (es ++ es')).dials k).phase ≠ .returned) := by
  obtain ⟨hdialing, hsyn⟩ := h.state hwait
  have hdoomed : ((stackAfter es).dials k).conn.peerFinSeen = true →
      ∀ es', ((stackAfter (es ++ es')).dials k).phase ≠ .returned := by
    intro hfin es' hret
    have hphase := (doomed_run (.inr ⟨hwait, .inl ⟨hdialing, hfin⟩⟩) es').phase.2.1
    rw [hret] at hphase
    cases hphase
  refine ⟨⟨fun hret => ?_, fun hfin => ?_⟩, hdoomed⟩
  · by_contra hfin
    exact hdoomed (by simpa using hfin) [.poll k] hret
  · have hest : ((stackAfter es).dials k).conn.state = .established := by
      rcases hdialing.state with ⟨hs, -⟩ | ⟨hs, -⟩ | ⟨-, hseen⟩
      · exact absurd hs hsyn
      · exact hs
      · simp [hfin] at hseen
    rw [stackAfter_concat]
    change (((stackAfter es).poll k).dials k).phase = .returned
    rw [Table.poll, hwait]
    dsimp only
    rw [if_pos hest, Table.setPhase_phase]

/-! ### Two runs -/

def synAckHeader : TCP4Header :=
  ⟨0, tcp4InitialSeq nicMAC 49152 + 1, tcpFlagSYN ||| tcpFlagACK, 65535⟩

def finHeader : TCP4Header :=
  ⟨1, tcp4InitialSeq nicMAC 49152 + 1, tcpFlagFIN ||| tcpFlagACK, 65535⟩

/-- A dial to 10.0.2.2 port 80 whose SYN is answered. -/
def answeredRun : List TableEvent :=
  [.dial 0 [10, 0, 2, 2] 80 (some [10, 0, 2, 15]) nicMAC, .alloc 0, .register 0, .sendSyn 0 .clear,
    .handle 0 [10, 0, 2, 2] 80 49152 synAckHeader []]

/-- The SYN-ACK is delivered, and a FIN arrives behind it. -/
def finishedRun : List TableEvent :=
  answeredRun ++ [.deliver 0] ++ [.handle 0 [10, 0, 2, 2] 80 49152 finHeader []]

/-- No RST so far, and none with the next segment. -/
theorem noReset_deliver (hd : TCP4Header) (hr : ∀ c h, DeliveredTo es k c h → h.has tcpFlagRST = false)
    (hrx : ((stackAfter es).rx n).map (·.header) = some hd) (hhd : hd.has tcpFlagRST = false) (c : TCP4Conn)
    (h : TCP4Header) (hdel : DeliveredTo (es ++ [.deliver n]) k c h) : h.has tcpFlagRST = false := by
  rcases deliveredTo_concat.mp hdel with hold | ⟨n', payload, heq, hrx', -⟩
  · exact hr c h hold
  · cases heq
    rw [hrx'] at hrx
    obtain rfl : h = hd := Option.some.inj hrx
    exact hhd

theorem not_deliveredTo (es : List TableEvent) (hes : ∀ n, TableEvent.deliver n ∉ es) (k : ℕ)
    (c : TCP4Conn) (h : TCP4Header) : ¬ DeliveredTo es k c h := by
  rintro ⟨es₁, n, payload, hp, -⟩
  exact hes n (hp.subset (by simp))

theorem answeredRun_handshaken : Handshaken (answeredRun ++ [.deliver 0]) 0 := by
  have hmap : ((stackAfter answeredRun).rx 0).map (fun i => (i.conn, i.header)) = some (0, synAckHeader) := by
    decide +kernel
  have hconn : ((stackAfter answeredRun).dials 0).conn.sndNxt = synAckHeader.ack := by decide +kernel
  obtain ⟨⟨k, hd, payload⟩, hrx, heq⟩ := Option.map_eq_some_iff.mp hmap
  obtain ⟨rfl, rfl⟩ := Prod.mk.inj heq
  have hnone := not_deliveredTo answeredRun (by simp [answeredRun]) 0
  constructor
  · exact ⟨_, synAckHeader, deliveredTo_concat.mpr (.inr ⟨0, payload, rfl, hrx, rfl⟩),
      ⟨by decide, by decide, hconn.symm⟩⟩
  · exact noReset_deliver synAckHeader (fun c h hdel => absurd hdel (hnone c h)) (by rw [hrx]; rfl) (by decide)

/-- Without a FIN the connection is returned. -/
theorem handshake_reported_answered :
    Handshaken (answeredRun ++ [.deliver 0]) 0 ∧
      ((stackAfter (answeredRun ++ [.deliver 0])).dials 0).phase = .waiting ∧
      ((stackAfter (answeredRun ++ [.deliver 0] ++ [.poll 0])).dials 0).phase = .returned := by
  have hwait : ((stackAfter (answeredRun ++ [.deliver 0])).dials 0).phase = .waiting := by decide +kernel
  refine ⟨answeredRun_handshaken, hwait, ?_⟩
  exact ((handshake_reported_iff _ 0 answeredRun_handshaken hwait).1).mpr (by decide +kernel)

/-- With a FIN that is delivered before the next look it is not. -/
theorem handshake_unreported : ¬ ∀ (es : List TableEvent) (k : ℕ), Handshaken es k →
    ((stackAfter es).dials k).phase = .waiting →
      ((stackAfter (es ++ [.poll k])).dials k).phase = .returned := by
  intro h
  have hhist : Handshaken (finishedRun ++ [.deliver 0]) 0 := by
    have hsyn := answeredRun_handshaken
    obtain ⟨c, hd, hdel, hack⟩ := hsyn.synAck
    refine ⟨⟨c, hd, ?_, hack⟩, ?_⟩
    · exact deliveredTo_concat.mpr (.inl (deliveredTo_concat.mpr (.inl hdel)))
    · refine noReset_deliver finHeader (fun c h hdel => ?_) (by decide +kernel) (by decide)
      rcases deliveredTo_concat.mp hdel with hold | ⟨n, payload, heq, -⟩
      · exact hsyn.noReset c h hold
      · cases heq
  have hret := h _ 0 hhist (by decide +kernel)
  revert hret
  decide +kernel

end TamagoUefi.Net
