import TamagoUefi.Net.Tcp4Threads

/-!
# TamagoUefi.Net.Tcp4Windows — the two windows of a connection (`tcp4.go`)

**The peer's window.**  `deliverSegment` stores it in `sndWnd`, and no other function reads the field:
`Write` cuts its argument at the MSS and sends each piece at once.  `peerWindow_iff` says that the
bytes stay inside the window exactly when each piece happens to.

**Our window.**  `rcvWnd` is set when the connection is dialed and never again (`rcvWnd_run`), so every
acknowledgement advertises 32 KiB, however much is queued.  `acceptSegmentLocked` takes what comes next
and parks what is ahead, wherever it lies.  `ownWindow_iff` says which segments keep the queue within
the window.
-/

namespace TamagoUefi.Net

open Go Lib RecvSide

/-! ## The peer's window -/

/-- The first number behind the window of the peer. -/
def TCP4Conn.edge (c : TCP4Conn) : Seq := c.sndUna + c.sndWnd.zeroExtend 32

namespace Threads

/-- In this step the segment `f`, which follows the first `written` bytes of `p`, is sent for the first
time. -/
structure FirstSend (t : Threads) (e : ThreadEvent) (p : Bytes) (written : ℕ) (f : Flight) : Prop where
  begun : t.writer = .flying p written f .begun
  sent : ∃ g, e = .transmit g ∧ sendSegment g = none

/-- All its bytes have numbers below the edge. -/
def InPeerWindow (t : Threads) (e : ThreadEvent) : Prop :=
  ∀ p written f, t.FirstSend e p written f →
    ∀ i < f.segment.length, seqLT (pos f.seq i) t.conn.edge = true

/-- The `Window` of the last segment that was accepted has room for what is in flight and for a full
segment, or for the rest of the argument; or the peer has acknowledged what was not sent yet. -/
def PeerHasRoom (t : Threads) (e : ThreadEvent) : Prop :=
  ∀ p written f, t.FirstSend e p written f →
    let flight := (f.seq - t.conn.sndUna).toNat
    let len := min tcp4DefaultMSS (p.length - written)
    flight + len ≤ t.conn.sndWnd.toNat ∨
      (t.conn.sndWnd.toNat + 2 ^ 31 ≤ flight ∧ flight + len ≤ t.conn.sndWnd.toNat + 2 ^ 32)

/-- `Write` cuts at the MSS. -/
def CutAtMSS (t : Threads) : Prop :=
  ∀ p written f stage, t.writer = .flying p written f stage →
    written < p.length ∧ f.segment = (p.drop written).take tcp4DefaultMSS

variable {t : Threads}

theorem CutAtMSS.length_eq (h : CutAtMSS t) {p : Bytes} {written : ℕ} {f : Flight} {stage : Stage}
    (hw : t.writer = .flying p written f stage) :
    f.segment.length = min tcp4DefaultMSS (p.length - written) := by
  rw [(h p written f stage hw).2, List.length_take, List.length_drop]

theorem cutAtMSS_nextSegment (h : CutAtMSS t) : CutAtMSS t.nextSegment := by
  unfold nextSegment
  split
  case h_2 => exact h
  case h_1 p n hw =>
    dsimp only
    split_ifs with hlt
    · rintro _ _ _ _ ⟨⟩
      exact ⟨hlt, rfl⟩
    · rintro _ _ _ _ ⟨⟩

theorem cutAtMSS_step (h : CutAtMSS t) (e : ThreadEvent) : CutAtMSS (t.after e) := by
  have heff := t.after_effect e
  generalize ht' : t.after e = t' at heff
  cases heff with
  | same | conn | fin | finSent | closer | finish => exact h
  | enter hw => rintro _ _ _ _ ⟨⟩
  | ret => rintro _ _ _ _ ⟨⟩
  | acked => rintro _ _ _ _ ⟨⟩
  | begin =>
    rw [← ht']
    exact cutAtMSS_nextSegment h
  | send hw _ =>
    rintro _ _ _ _ ⟨⟩
    exact h _ _ _ _ hw
  | wait hw _ _ =>
    rintro _ _ _ _ ⟨⟩
    exact h _ _ _ _ hw

/-- The room is asked for without a look at the window: what a step sends is as long as it was cut. -/
theorem inPeerWindow_iff (h : CutAtMSS t) (e : ThreadEvent) : t.InPeerWindow e ↔ t.PeerHasRoom e := by
  unfold InPeerWindow PeerHasRoom
  refine forall₄_congr fun p written f hf => ?_
  have hlen := h.length_eq hf.begun
  have hlt := (h _ _ _ _ hf.begun).1
  have hmss : tcp4DefaultMSS = 1460 := rfl
  have hwnd := t.conn.sndWnd.isLt
  have hflight := (f.seq - t.conn.sndUna).isLt
  -- the room behind the segment, from what is in flight
  have hroom : (t.conn.edge - f.seq).toNat =
      (t.conn.sndWnd.toNat + 2 ^ 32 - (f.seq - t.conn.sndUna).toNat) % 2 ^ 32 := by
    simp only [TCP4Conn.edge, BitVec.toNat_sub, BitVec.toNat_add, BitVec.truncate_eq_setWidth,
      BitVec.toNat_setWidth]
    omega
  dsimp only
  rw [← hlen]
  refine (forall_serialLT_pos_iff (by omega) (by omega) (by decide)).trans ?_
  omega

end Threads

open Threads in
/-- **The peer's window**: in every run its bounds are kept exactly when each segment, cut without
regard to them, fits. -/
theorem peerWindow_iff (c : TCP4Conn) (es : List ThreadEvent) :
    RunMeets Threads.after InPeerWindow (.start c) es ↔
      RunMeets Threads.after PeerHasRoom (.start c) es := by
  refine runMeets_congr (I := CutAtMSS) (fun t e h => inPeerWindow_iff h e)
    (fun t e h _ => cutAtMSS_step h e) ?_
  rintro _ _ _ _ ⟨⟩

/-- A peer that answers the SYN with a closed window, and a `Write` of one byte. -/
def closedWindowRun : List ThreadEvent :=
  [.deliver ⟨0, 1, tcpFlagSYN ||| tcpFlagACK, 0⟩ [], .write [0], .nextSegment, .transmit .clear]

theorem peerWindow_broken :
    ¬ RunMeets Threads.after Threads.InPeerWindow (.start (.dialed 0)) closedWindowRun := by
  intro h
  have hlast := h.2.2.2.1 [0] 0 ⟨0, 1, 1, [0]⟩ ⟨rfl, .clear, rfl, rfl⟩ 0 (by decide)
  revert hlast
  decide

/-! ## Our window -/

namespace RecvSide

/-- Bytes that are queued for `Read`, or parked. -/
def held (r : RecvSide) : ℕ := r.rxQueue.length + (r.reassembly.map (·.payload.length)).sum

/-- The bytes of a segment that lie inside the window. -/
def inside (r : RecvSide) (seq : Seq) (len : ℕ) : ℕ :=
  (List.range len).countP fun i => (pos seq i - r.rcvNxt).toNat < r.rcvWnd.toNat

/-- The bytes that `drain` promotes. -/
def promoted : ℕ → RecvSide → ℕ
  | 0, _ => 0
  | n + 1, r =>
    match r.reassembly.find? r.isNext with
    | none => 0
    | some e => e.payload.length + promoted n (r.unpark.absorb e.payload e.fin)

/-- The bytes that become contiguous with a segment that is next. -/
def follows (r : RecvSide) (payload : Bytes) (fin : Bool) : ℕ :=
  promoted r.reassembly.length (r.absorb payload fin)

theorem length_rxQueue_drain : ∀ (n : ℕ) (r : RecvSide),
    (drain n r).rxQueue.length = r.rxQueue.length + promoted n r
  | 0, r => rfl
  | n + 1, r => by
    rw [drain, promoted]
    cases hf : r.reassembly.find? r.isNext with
    | none => rfl
    | some e =>
      rw [length_rxQueue_drain n]
      change (r.rxQueue ++ e.payload).length + _ = _
      rw [List.length_append, Nat.add_assoc]

theorem sum_eraseP_of_find {l : List ReassemblyEntry} {q : ReassemblyEntry → Bool} {e : ReassemblyEntry}
    (h : l.find? q = some e) :
    e.payload.length + ((l.eraseP q).map (·.payload.length)).sum = (l.map (·.payload.length)).sum := by
  obtain ⟨hq, as, bs, rfl, has⟩ := List.find?_eq_some_iff_append.mp h
  rw [List.eraseP_append_right _ (by simpa using has), List.eraseP_cons_of_pos hq]
  simp only [List.map_append, List.map_cons, List.sum_append, List.sum_cons]
  omega

theorem held_absorb (r : RecvSide) (payload : Bytes) (fin : Bool) :
    (r.absorb payload fin).held = r.held + payload.length := by
  simp only [held, absorb, List.length_append]
  omega

/-- Promotions move bytes from the parked to the queued ones. -/
theorem held_drain (n : ℕ) (r : RecvSide) : (drain n r).held = r.held := by
  refine drain_rule (P := fun r' => r'.held = r.held) (fun hf h => ?_) n rfl
  have hsum := sum_eraseP_of_find hf
  rw [held_absorb, ← h]
  simp only [held, unpark]
  omega

@[simp] theorem rcvWnd_drain (n : ℕ) (r : RecvSide) : (drain n r).rcvWnd = r.rcvWnd :=
  drain_rule (P := fun r' => r'.rcvWnd = r.rcvWnd) (fun _ h => h) n rfl

@[simp] theorem rcvWnd_accept (r : RecvSide) (seq : Seq) (payload : Bytes) (fin : Bool) :
    (r.accept seq payload fin).rcvWnd = r.rcvWnd := by
  unfold accept
  split_ifs
  · exact rcvWnd_drain _ _
  · rfl
  · rfl

theorem le_countP_range_iff {len : ℕ} {q : ℕ → Bool} :
    len ≤ (List.range len).countP q ↔ ∀ i < len, q i = true := by
  have hle := List.countP_le_length (l := List.range len) (p := q)
  have heq := List.countP_eq_length (l := List.range len) (p := q)
  simp only [List.length_range, List.mem_range] at hle heq
  rw [← heq]
  omega

/-- All bytes of a segment lie inside when the last one does. -/
theorem le_inside_iff (r : RecvSide) (seq : Seq) (len : ℕ) :
    len ≤ r.inside seq len ↔ len = 0 ∨ (seq - r.rcvNxt).toNat + len ≤ r.rcvWnd.toNat := by
  have hW := r.rcvWnd.isLt
  have hall : len ≤ r.inside seq len ↔
      ∀ i < len, ((seq - r.rcvNxt).toNat + i) % 2 ^ 32 < r.rcvWnd.toNat := by
    have hoff : ∀ i, (pos seq i - r.rcvNxt).toNat = ((seq - r.rcvNxt).toNat + i) % 2 ^ 32 := by
      intro i
      simp only [pos, BitVec.toNat_sub, BitVec.toNat_add, BitVec.toNat_ofNat]
      omega
    rw [inside, le_countP_range_iff]
    simp only [decide_eq_true_eq, hoff]
  rw [hall]
  constructor
  · intro h
    by_contra hnot
    push Not at hnot
    -- the first byte behind the window
    have h0 := h 0 (Nat.pos_of_ne_zero hnot.1)
    have hlast := h (r.rcvWnd.toNat - (seq - r.rcvNxt).toNat)
    omega
  · rintro (rfl | h) i hi
    · omega
    · omega

/-- A segment that is next: all of it is queued, and what it makes contiguous. -/
theorem accept_next_iff {r : RecvSide} {seq : Seq} (hseq : seq = r.rcvNxt) (payload : Bytes) (fin : Bool) :
    ((r.accept seq payload fin).rxQueue.length ≤ r.rcvWnd.toNat ∧
      (r.accept seq payload fin).held ≤ r.held + r.inside seq payload.length) ↔
      r.rxQueue.length + payload.length + r.follows payload fin ≤ r.rcvWnd.toNat := by
  have hqueue : (r.accept seq payload fin).rxQueue.length =
      r.rxQueue.length + payload.length + r.follows payload fin := by
    rw [accept, if_pos hseq, drainReassemblyLocked, length_rxQueue_drain]
    exact congrArg (· + _) List.length_append
  have hheld : (r.accept seq payload fin).held = r.held + payload.length := by
    rw [accept, if_pos hseq, drainReassemblyLocked, held_drain, held_absorb]
  have hzero : (seq - r.rcvNxt).toNat = 0 := by rw [hseq, BitVec.sub_self]; rfl
  rw [hqueue, hheld, Nat.add_le_add_iff_left, le_inside_iff, hzero]
  omega

/-- One that is ahead is parked as a whole. -/
theorem accept_ahead_iff {r : RecvSide} {seq : Seq} (hne : seq ≠ r.rcvNxt)
    (hq : r.rxQueue.length ≤ r.rcvWnd.toNat) (payload : Bytes) (fin : Bool) :
    ((r.accept seq payload fin).rxQueue.length ≤ r.rcvWnd.toNat ∧
      (r.accept seq payload fin).held ≤ r.held + r.inside seq payload.length) ↔
      (seqGT seq r.rcvNxt = true → r.reassembly.length < tcp4ReassemblyDepth → payload ≠ [] →
        (seq - r.rcvNxt).toNat + payload.length ≤ r.rcvWnd.toNat) := by
  rw [accept, if_neg hne]
  split_ifs with hpark
  · have hheld : (r.park ⟨seq, payload, fin⟩).held = r.held + payload.length := by
      simp [held, park, Nat.add_assoc]
    rw [hheld, Nat.add_le_add_iff_left, le_inside_iff, List.length_eq_zero_iff]
    simp only [hpark.1, hpark.2, true_imp_iff, park, hq, true_and]
    tauto
  · simp only [hq, true_and, Nat.le_add_right, true_iff]
    exact fun hgt hroom => absurd ⟨hgt, hroom⟩ hpark

end RecvSide

namespace TCP4Conn

/-- The bytes that are held and the window are the same. -/
structure SameBytes (r r' : RecvSide) : Prop where
  rxQueue : r'.rxQueue = r.rxQueue
  reassembly : r'.reassembly = r.reassembly
  rcvWnd : r'.rcvWnd = r.rcvWnd

variable {c : TCP4Conn}

theorem sameBytes_of_not_takesData {h : TCP4Header} {payload : Bytes} (ht : ¬ c.takesData h payload = true) :
    SameBytes c.toRecvSide (c.deliverSegment h payload).1.toRecvSide := by
  have hstep := (c.deliverSegment_delivered h payload).recv
  generalize c.deliverSegment h payload = res at hstep
  obtain ⟨c', sent⟩ := res
  dsimp only at hstep ⊢
  cases hstep with
  | idle hr _ => exact ⟨by rw [hr], by rw [hr], by rw [hr]⟩
  | handshake _ _ hr => exact ⟨by rw [hr], by rw [hr], by rw [hr]⟩
  | data _ _ htakes _ => exact absurd htakes ht

/-- Only segments add to the queue. -/
theorem length_rxQueue_after {e : ConnEvent} (he : ∀ h payload, e ≠ .deliver h payload) :
    (c.after e).rxQueue.length ≤ c.rxQueue.length ∧ (c.after e).rcvWnd = c.rcvWnd := by
  have hstep := c.after_step e
  generalize c.after e = c' at hstep ⊢
  cases hstep with
  | deliver => exact absurd rfl (he _ _)
  | read hr hs =>
    rw [hr]
    exact ⟨by simp, rfl⟩
  | send hr hs =>
    rw [hr]
    exact ⟨le_rfl, rfl⟩

@[simp] theorem rcvWnd_after (c : TCP4Conn) (e : ConnEvent) : (c.after e).rcvWnd = c.rcvWnd := by
  cases e with
  | deliver h payload =>
    by_cases ht : c.takesData h payload = true
    · rw [after, deliverSegment_takesData ht, rcvWnd_accept]
    · exact (sameBytes_of_not_takesData ht).rcvWnd
  | readPoll | beginSend | beginClose | endClose =>
    exact (length_rxQueue_after fun _ _ he => by cases he).2

/-- The window is the same in every state of every run. -/
theorem rcvWnd_run (iss : Seq) (es : List ConnEvent) :
    (runFrom after (dialed iss) es).rcvWnd = tcp4DefaultWindow :=
  run_invariant (I := fun c : TCP4Conn => c.rcvWnd = tcp4DefaultWindow)
    (fun c e h => (rcvWnd_after c e).trans h) rfl es

/-- The queue is no longer than the window, and the bytes of a segment that are kept lie inside it. -/
structure OwnWindowKept (c : TCP4Conn) (e : ConnEvent) : Prop where
  queue : (c.after e).rxQueue.length ≤ (c.after e).rcvWnd.toNat
  past : ∀ h payload, e = .deliver h payload →
    (c.after e).held ≤ c.held + c.inside h.seq payload.length

/-- A segment that is next has room, with what it makes contiguous; one that is parked ends inside. -/
def OwnWindowFits (c : TCP4Conn) : ConnEvent → Prop
  | .deliver h payload => c.takesData h payload = true →
    (h.seq = c.rcvNxt →
      c.rxQueue.length + payload.length + c.follows payload h.fin ≤ c.rcvWnd.toNat) ∧
    (seqGT h.seq c.rcvNxt = true → c.reassembly.length < tcp4ReassemblyDepth → payload ≠ [] →
      (h.seq - c.rcvNxt).toNat + payload.length ≤ c.rcvWnd.toNat)
  | _ => True

/-- **Step lemma.** -/
theorem ownWindowKept_iff (hq : c.rxQueue.length ≤ c.rcvWnd.toNat) (e : ConnEvent) :
    c.OwnWindowKept e ↔ c.OwnWindowFits e := by
  have hcall : ∀ e, (∀ h payload, e ≠ .deliver h payload) → c.OwnWindowKept e := by
    intro e he
    obtain ⟨hle, hwnd⟩ := c.length_rxQueue_after he
    exact ⟨by rw [hwnd]; exact hle.trans hq, fun h payload heq => absurd heq (he h payload)⟩
  cases e with
  | deliver h payload =>
    have hsplit : c.OwnWindowKept (.deliver h payload) ↔
        (c.deliverSegment h payload).1.rxQueue.length ≤ c.rcvWnd.toNat ∧
          (c.deliverSegment h payload).1.held ≤ c.held + c.inside h.seq payload.length := by
      have hwnd := c.rcvWnd_after (.deliver h payload)
      constructor
      · rintro ⟨hqueue, hpast⟩
        rw [hwnd] at hqueue
        exact ⟨hqueue, hpast h payload rfl⟩
      · rintro ⟨hqueue, hpast⟩
        refine ⟨by rw [hwnd]; exact hqueue, ?_⟩
        rintro _ _ ⟨⟩
        exact hpast
    rw [hsplit]
    unfold OwnWindowFits
    by_cases ht : c.takesData h payload = true
    · rw [deliverSegment_takesData ht]
      simp only [ht, true_imp_iff]
      by_cases hseq : h.seq = c.rcvNxt
      · rw [accept_next_iff hseq]
        simp only [hseq, true_imp_iff]
        exact ⟨fun hroom => ⟨hroom, fun hgt => by simp [seqGT, serialGT] at hgt⟩, And.left⟩
      · rw [accept_ahead_iff hseq hq]
        exact ⟨fun hroom => ⟨fun heq => absurd heq hseq, hroom⟩, And.right⟩
    · have hsame := sameBytes_of_not_takesData ht
      have hheld : (c.deliverSegment h payload).1.held = c.held := by
        rw [held, hsame.rxQueue, hsame.reassembly, held]
      rw [hsame.rxQueue, hheld]
      exact ⟨fun _ h' => absurd h' ht, fun _ => ⟨hq, Nat.le_add_right _ _⟩⟩
  | readPoll | beginSend | beginClose | endClose =>
    exact iff_of_true (hcall _ fun _ _ he => by cases he) trivial

/-- **Our window**: in every run the bytes that are accepted stay inside it exactly when each segment
that is taken fits. -/
theorem ownWindow_iff (iss : Seq) (es : List ConnEvent) :
    RunMeets after OwnWindowKept (dialed iss) es ↔ RunMeets after OwnWindowFits (dialed iss) es := by
  refine runMeets_congr (I := fun c : TCP4Conn => c.rxQueue.length ≤ c.rcvWnd.toNat)
    (fun c e hq => ownWindowKept_iff hq e) (fun c e _ hkept => hkept.queue) ?_
  exact Nat.zero_le _

/-- The `i`-th segment of a sender that does not wait. -/
def floodSegment (i : ℕ) : ConnEvent :=
  .deliver ⟨BitVec.ofNat 32 (tcp4DefaultMSS * i + 1), 1, tcpFlagACK, 0⟩ (List.replicate tcp4DefaultMSS 0)

/-- A handshake, and `n` full segments. -/
def floodRun (n : ℕ) : List ConnEvent :=
  .deliver ⟨0, 1, tcpFlagSYN ||| tcpFlagACK, 0⟩ [] :: (List.range n).map floodSegment

theorem floodRun_succ (n : ℕ) : floodRun (n + 1) = floodRun n ++ [floodSegment n] := by
  simp [floodRun, List.range_succ]

/-- Established, with the first `n` segments queued. -/
structure Flooded (c : TCP4Conn) (n : ℕ) : Prop where
  opened : c.closed = false
  state : c.state = .established
  fin : c.peerFinSeen = false
  reassembly : c.reassembly = []
  rcvNxt : c.rcvNxt = BitVec.ofNat 32 (tcp4DefaultMSS * n + 1)
  queued : c.rxQueue.length = tcp4DefaultMSS * n

/-- Data that is next, for a connection that has nothing parked. -/
theorem deliver_next {h : TCP4Header} {payload : Bytes} (hopen : c.closed = false)
    (hstate : c.state = .established) (hfin : c.peerFinSeen = false) (hparked : c.reassembly = [])
    (hflags : h.flags = tcpFlagACK) (hseq : h.seq = c.rcvNxt) (hdata : payload ≠ []) :
    (c.deliverSegment h payload).1.toRecvSide = c.absorb payload false ∧
      (c.deliverSegment h payload).1.state = .established ∧
      (c.deliverSegment h payload).1.closed = false := by
  have hr : h.has tcpFlagRST = false := by rw [TCP4Header.has, hflags]; decide
  have hack : h.has tcpFlagACK = true := by rw [TCP4Header.has, hflags]; decide
  have hf : h.fin = false := by rw [TCP4Header.fin, TCP4Header.has, hflags]; decide
  have htakes : c.takesData h payload = true := by
    simp [takesData, takesAck, hopen, hr, hstate, Tcp4State.carriesData, hack, hdata]
  have hside : c.accept h.seq payload h.fin = c.absorb payload false := by
    rw [accept, if_pos hseq, hf, drainReassemblyLocked]
    simp [absorb, hparked, drain]
  refine ⟨(deliverSegment_takesData htakes).trans hside, ?_⟩
  obtain ⟨una, huna⟩ : ∃ una, ({ c with sndWnd := h.window } : TCP4Conn).advanceUna h.ack =
      { c with sndWnd := h.window, sndUna := una } := by
    unfold advanceUna
    split
    · exact ⟨_, rfl⟩
    · exact ⟨_, rfl⟩
  have harm : ({ c with sndWnd := h.window } : TCP4Conn).stateArm h payload =
      ({ c with sndWnd := h.window } : TCP4Conn).dataArm h payload := by
    simp only [stateArm, hstate]
  unfold deliverSegment
  rw [if_neg (by simp [hopen]), if_neg (by simp [hr]), harm, dataArm, if_pos hack, huna, acceptData,
    if_pos (.inl hdata)]
  simp [acceptSegmentLocked, nextState, hside, absorb, hfin, hstate, hopen]

theorem flooded_step {n : ℕ} (h : Flooded c n) : Flooded (c.after (floodSegment n)) (n + 1) := by
  have hlen : (List.replicate tcp4DefaultMSS (0 : UInt8)).length = tcp4DefaultMSS := List.length_replicate
  have hdata : List.replicate tcp4DefaultMSS (0 : UInt8) ≠ [] :=
    List.ne_nil_of_length_pos (hlen.symm ▸ by decide)
  unfold floodSegment
  generalize List.replicate tcp4DefaultMSS (0 : UInt8) = payload at hlen hdata
  obtain ⟨hside, hstate, hopen⟩ := deliver_next (h := ⟨_, 1, tcpFlagACK, 0⟩) h.opened h.state h.fin
    h.reassembly rfl h.rcvNxt.symm hdata
  refine ⟨hopen, hstate, ?_, ?_, ?_, ?_⟩
  · exact (congrArg peerFinSeen hside).trans (by simp [absorb, h.fin])
  · exact (congrArg reassembly hside).trans h.reassembly
  · refine (congrArg rcvNxt hside).trans ?_
    simp only [absorb, h.rcvNxt, hlen, Bool.toNat_false, ← BitVec.ofNat_add]
    exact congrArg (BitVec.ofNat 32) (by rw [Nat.mul_succ]; omega)
  · refine (congrArg (·.rxQueue.length) hside).trans ?_
    simp [absorb, h.queued, hlen, Nat.mul_succ]

theorem flooded_run : ∀ n, Flooded (runFrom after (dialed 0) (floodRun n)) n
  | 0 => ⟨rfl, rfl, rfl, rfl, rfl, rfl⟩
  | n + 1 => by
    rw [floodRun_succ, runFrom_append]
    exact flooded_step (flooded_run n)

/-- The 23rd full segment is queued and acknowledged, and the window is exceeded. -/
theorem ownWindow_broken : ¬ RunMeets after OwnWindowKept (dialed 0) (floodRun 23) := by
  intro h
  have hlast := runMeets_iff.mp h (floodRun 22) (floodSegment 22) (by rw [← floodRun_succ])
  have hqueue := hlast.queue
  rw [rcvWnd_after, rcvWnd_run, (flooded_step (flooded_run 22)).queued] at hqueue
  exact absurd hqueue (by decide)

end TCP4Conn

end TamagoUefi.Net
