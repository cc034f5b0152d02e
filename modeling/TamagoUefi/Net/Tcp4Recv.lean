import TamagoUefi.Net.Tcp4

/-!
# TamagoUefi.Net.Tcp4Recv — integrity of the received stream

A peer sends the byte stream `B` from sequence number `base` on; its segments are slices of `B`
(`Slice`), delivered in any order, any number of times, between any calls of `Read`.

* `RecvInv` ties the receive half to `B`: what was read and what is queued is a prefix of `B`,
  `rcvNxt` is the sequence number after it, and every parked entry is a slice.
* `RecvInv.absorb`, `RecvInv.accept`, `RecvInv.step`: each step keeps it; `recvInv_run`: so does
  every run.
* `receive_integrity` reads the result off.

Offsets are compared modulo `2 ^ 32`; that is harmless because `B` is shorter than `2 ^ 32 - 2`, so
that the offsets of `B`, its end and the place after the FIN have distinct sequence numbers.
-/

namespace TamagoUefi.Net

open Go Lib TCP4Conn

/-! ## Runs -/

inductive RecvEvent
  | deliver (h : TCP4Header) (payload : Bytes)
  | readEnter
  | readPoll (n : ℕ)

namespace TCP4Conn

/-- One event: the connection after it, the segments sent, and the result of `Read` if any. -/
def recvStep (c : TCP4Conn) : RecvEvent → TCP4Conn × List Segment × Option ReadResult
  | .deliver h payload => let (c', sent) := c.deliverSegment h payload; (c', sent, none)
  | .readEnter => (c, [], c.readEnter)
  | .readPoll n => let (c', r) := c.readPoll n; (c', [], some r)

end TCP4Conn

/-- The bytes a result hands to the caller of `Read`. -/
def returned : Option ReadResult → Bytes
  | some (.data b) => b
  | _ => []

/-- The connection after a run, and all bytes returned by `Read` in it. -/
def recvRun (c : TCP4Conn) (ret : Bytes) : List RecvEvent → TCP4Conn × Bytes
  | [] => (c, ret)
  | e :: es => recvRun (c.recvStep e).1 (ret ++ returned (c.recvStep e).2.2) es

/-! ## Slices of the stream -/

/-- `payload` is the part of `B` at offset `o`, and a FIN comes only at the end. -/
structure Slice (B : Bytes) (o : ℕ) (payload : Bytes) (fin : Bool) : Prop where
  bound : o + payload.length ≤ B.length
  bytes : payload = (B.drop o).take payload.length
  atEnd : fin = true → o + payload.length = B.length

/-- The peer sends slices of `B` from `base` on; a bare acknowledgement may have any number. -/
def Genuine (B : Bytes) (base : Seq) : RecvEvent → Prop
  | .deliver h payload =>
    (payload = [] ∧ h.fin = false) ∨ ∃ o, h.seq = pos base o ∧ Slice B o payload h.fin
  | .readEnter => True
  | .readPoll _ => True

/-- A connection just established, expecting `base`. -/
structure Fresh (base : Seq) (c : TCP4Conn) : Prop where
  state : c.state = .established
  rcvNxt : c.rcvNxt = base
  rxQueue : c.rxQueue = []
  reassembly : c.reassembly = []
  peerFinSeen : c.peerFinSeen = false
  opened : c.closed = false

/-- The receive half after `ret` has been read of the stream `B`. -/
structure RecvInv (B : Bytes) (base : Seq) (ret : Bytes) (r : RecvSide) : Prop where
  got : ret ++ r.rxQueue <+: B
  nxt : r.rcvNxt = pos base ((ret ++ r.rxQueue).length + r.peerFinSeen.toNat)
  fin : r.peerFinSeen = true → ret ++ r.rxQueue = B
  parked : ∀ e ∈ r.reassembly, ∃ o, e.seq = pos base o ∧ Slice B o e.payload e.fin

section
variable {B : Bytes} {base : Seq} {ret : Bytes} {r : RecvSide} {o : ℕ}

/-- A slice that starts at `rcvNxt` starts where the received prefix ends, before the FIN. -/
theorem RecvInv.offset_eq (h : RecvInv B base ret r) (hB : B.length < 2 ^ 32 - 2) (ho : o ≤ B.length)
    (hnxt : pos base o = r.rcvNxt) : o = (ret ++ r.rxQueue).length ∧ r.peerFinSeen = false := by
  have hle := h.got.length_le
  have hfin : r.peerFinSeen.toNat ≤ 1 := Bool.toNat_le _
  rw [h.nxt] at hnxt
  have heq := pos_inj (by omega) (by omega) hnxt
  cases hf : r.peerFinSeen with
  | false => exact ⟨by simpa [hf] using heq, rfl⟩
  | true =>
    rw [h.fin hf, hf] at heq
    simp only [Bool.toNat_true] at heq
    omega

variable {payload : Bytes} {fin : Bool}

theorem Slice.extends (hs : Slice B o payload fin) {got : Bytes} (hg : got <+: B)
    (ho : o = got.length) : got ++ payload <+: B := by
  obtain ⟨t, rfl⟩ := hg
  subst ho
  have hp := hs.bytes
  rw [List.drop_left] at hp
  rw [List.prefix_append_right_inj, hp]
  exact List.take_prefix _ _

/-- **The step at `rcvNxt`**: absorbing the next slice keeps the invariant. -/
theorem RecvInv.absorb (h : RecvInv B base ret r) (hB : B.length < 2 ^ 32 - 2) (hs : Slice B o payload fin)
    (hnxt : pos base o = r.rcvNxt) : RecvInv B base ret (r.absorb payload fin) := by
  have hbound := hs.bound
  obtain ⟨ho, hf⟩ := h.offset_eq hB (by omega) hnxt
  have hgot : ret ++ (r.rxQueue ++ payload) <+: B := by
    rw [← List.append_assoc]
    exact hs.extends h.got ho
  refine ⟨hgot, ?_, ?_, h.parked⟩
  · -- the new number is the old one moved past the payload and the FIN
    show r.rcvNxt + _ = _
    rw [h.nxt, pos_add]
    congr 1
    simp [RecvSide.absorb, hf]
    omega
  · intro hfin
    have hfin' : fin = true := by simpa [RecvSide.absorb, hf] using hfin
    refine hgot.eq_of_length ?_
    have hend := hs.atEnd hfin'
    simp only [List.length_append] at ho ⊢
    omega

theorem RecvInv.drain (hB : B.length < 2 ^ 32 - 2) (n : ℕ) (h : RecvInv B base ret r) :
    RecvInv B base ret (r.drain n) := by
  refine RecvSide.drain_rule (fun {r e} hf h => ?_) n h
  obtain ⟨hmem, hnext⟩ := RecvSide.next_of_find hf
  obtain ⟨o, hseq, hs⟩ := h.parked e hmem
  have hun : RecvInv B base ret r.unpark :=
    ⟨h.got, h.nxt, h.fin, fun e' he' => h.parked e' (List.mem_of_mem_eraseP he')⟩
  exact hun.absorb hB hs (hseq.symm.trans hnext)

/-- **`acceptSegmentLocked`** keeps the invariant for every slice, wherever it lies. -/
theorem RecvInv.accept (h : RecvInv B base ret r) (hB : B.length < 2 ^ 32 - 2) (hs : Slice B o payload fin) :
    RecvInv B base ret (r.accept (pos base o) payload fin) := by
  unfold RecvSide.accept
  split_ifs with hnext hahead
  · exact RecvInv.drain hB _ (h.absorb hB hs hnext)
  · refine ⟨h.got, h.nxt, h.fin, fun e he => ?_⟩
    rcases List.mem_append.mp he with he | he
    · exact h.parked e he
    · obtain rfl := List.mem_singleton.mp he
      exact ⟨o, rfl, hs⟩
  · exact h

variable {c : TCP4Conn}

/-- Reading moves bytes from the queue to the caller. -/
theorem RecvInv.readPoll (h : RecvInv B base ret c.toRecvSide) (n : ℕ) :
    RecvInv B base (ret ++ returned (some (c.readPoll n).2)) (c.readPoll n).1.toRecvSide := by
  unfold TCP4Conn.readPoll
  split_ifs with hq hf hc
  · have hsplit : ret ++ c.rxQueue.take n ++ c.rxQueue.drop n = ret ++ c.rxQueue := by
      rw [List.append_assoc, List.take_append_drop]
    exact ⟨by simpa [returned, hsplit] using h.got, by simpa only [returned, hsplit] using h.nxt,
      by simpa only [returned, hsplit] using h.fin, h.parked⟩
  · simpa [returned] using h
  · simpa [returned] using h
  · simpa [returned] using h

/-- `Read` reports the peer closed with an empty queue after the FIN, and not otherwise. -/
theorem recvStep_peerClosed {e : RecvEvent}
    (h : (c.recvStep e).2.2 = some .peerClosed) : c.rxQueue = [] ∧ c.peerFinSeen = true := by
  cases e with
  | deliver hd payload => cases h
  | readEnter =>
    simp only [recvStep, readEnter] at h
    split_ifs at h
    cases h
  | readPoll n =>
    simp only [recvStep, readPoll] at h
    split_ifs at h with hq hf hc
    · cases h
    · exact ⟨by simpa using hq, hf⟩
    · cases h
    · cases h

/-- **Step lemma.** -/
theorem RecvInv.step (h : RecvInv B base ret c.toRecvSide) (hst : c.state ≠ .synSent)
    (hB : B.length < 2 ^ 32 - 2) {e : RecvEvent} (he : Genuine B base e) :
    RecvInv B base (ret ++ returned (c.recvStep e).2.2) (c.recvStep e).1.toRecvSide ∧
      (c.recvStep e).1.state ≠ .synSent ∧
      ∀ s ∈ (c.recvStep e).2.1, s.ack = (c.recvStep e).1.rcvNxt := by
  cases e with
  | deliver hd payload =>
    simp only [recvStep, returned, List.append_nil]
    generalize hres : c.deliverSegment hd payload = res
    have hstep := hres ▸ (c.deliverSegment_delivered hd payload).recv
    obtain ⟨c', sent⟩ := res
    dsimp only at hstep ⊢
    cases hstep with
    | idle hr hs => exact ⟨hr ▸ h, fun h' => hst (hs h'), by simp⟩
    | handshake hs => exact absurd hs hst
    | data hs hs' hdata hr =>
      refine ⟨?_, hs', by simp [ackSegment]⟩
      obtain ⟨h1, h2⟩ | ⟨o, hseq, hslice⟩ := he
      · simp [takesData, h1, h2] at hdata
      · rw [hr, hseq]
        exact h.accept hB hslice
  | readEnter =>
    have hnone : returned c.readEnter = [] := by
      unfold readEnter
      split_ifs <;> rfl
    simp only [recvStep, hnone, List.append_nil]
    exact ⟨h, hst, by simp⟩
  | readPoll n =>
    refine ⟨h.readPoll n, ?_, by simp [recvStep]⟩
    simp only [recvStep]
    unfold TCP4Conn.readPoll
    split_ifs <;> exact hst

/-- **Run lemma.** -/
theorem recvInv_run (hB : B.length < 2 ^ 32 - 2) : ∀ (es : List RecvEvent) (c : TCP4Conn)
    (ret : Bytes), RecvInv B base ret c.toRecvSide → c.state ≠ .synSent →
    (∀ e ∈ es, Genuine B base e) →
    RecvInv B base (recvRun c ret es).2 (recvRun c ret es).1.toRecvSide ∧
      (recvRun c ret es).1.state ≠ .synSent
  | [], _, _, h, hst, _ => ⟨h, hst⟩
  | e :: es, c, ret, h, hst, hes => by
    obtain ⟨h', hst', -⟩ := h.step hst hB (hes e List.mem_cons_self)
    exact recvInv_run hB es _ _ h' hst' (fun e' he' => hes e' (List.mem_cons_of_mem _ he'))

theorem Fresh.recvInv (h : Fresh base c) (B : Bytes) : RecvInv B base [] c.toRecvSide := by
  refine ⟨by simp [h.rxQueue], by simp [h.rxQueue, h.peerFinSeen, h.rcvNxt], ?_, ?_⟩
  · simp [h.peerFinSeen]
  · simp [h.reassembly]

end

/-- **Integrity of the received stream.**  After any run `es` of genuine segments and reads, what
`Read` has returned and what is queued is a prefix of `B`.  In any next step, every segment sent
acknowledges exactly that prefix, and the FIN once it is consumed; and `Read` reports the peer
closed only when it has returned all of `B`. -/
theorem receive_integrity {B : Bytes} {base : Seq} {c : TCP4Conn} (hB : B.length < 2 ^ 32 - 2)
    (hc : Fresh base c) (es : List RecvEvent) (hes : ∀ e ∈ es, Genuine B base e) :
    (recvRun c [] es).2 ++ (recvRun c [] es).1.rxQueue <+: B ∧
    ∀ e, Genuine B base e →
      let c' := ((recvRun c [] es).1.recvStep e).1
      let sent := ((recvRun c [] es).1.recvStep e).2.1
      let result := ((recvRun c [] es).1.recvStep e).2.2
      let ret := (recvRun c [] es).2 ++ returned result
      (∀ s ∈ sent, s.ack = pos base ((ret ++ c'.rxQueue).length + c'.peerFinSeen.toNat)) ∧
      (result = some .peerClosed → ret = B) := by
  obtain ⟨hinv, hst⟩ := recvInv_run hB es c [] (hc.recvInv B) (by simp [hc.state]) hes
  refine ⟨hinv.got, fun e he => ?_⟩
  obtain ⟨hinv', -, hacks⟩ := hinv.step hst hB he
  refine ⟨fun s hs => (hacks s hs).trans hinv'.nxt, fun hclosed => ?_⟩
  obtain ⟨hq, hf⟩ := recvStep_peerClosed hclosed
  have hall := hinv.fin hf
  rw [hq, List.append_nil] at hall
  simp [hclosed, returned, hall]

/-- A connection at the end of the sequence space. -/
def wrapConn : TCP4Conn where
  rcvNxt := 0xFFFFFFFF
  rcvWnd := tcp4DefaultWindow
  rxQueue := []
  reassembly := []
  peerFinSeen := false
  state := .established
  sndUna := 1
  sndNxt := 1
  sndWnd := 65535
  closed := false

/-- The stream `1 2 3` in two segments, the later one first and with the FIN. -/
def swapped : List RecvEvent :=
  [.deliver ⟨1, 1, tcpFlagACK ||| tcpFlagFIN, 65535⟩ [3], .readPoll 4,
    .deliver ⟨0xFFFFFFFF, 1, tcpFlagACK, 65535⟩ [1, 2], .readPoll 2]

theorem receive_integrity_swapped :
    recvRun wrapConn [] swapped =
      ({ wrapConn with rcvNxt := 3, rxQueue := [3], peerFinSeen := true, state := .closeWait },
        [1, 2]) ∧
    (recvRun wrapConn [] swapped).2 ++ (recvRun wrapConn [] swapped).1.rxQueue <+: [1, 2, 3] := by
  refine ⟨by decide, (receive_integrity (by decide) ⟨rfl, rfl, rfl, rfl, rfl, rfl⟩ swapped ?_).1⟩
  intro e he
  simp only [swapped, List.mem_cons, List.not_mem_nil, or_false] at he
  rcases he with rfl | rfl | rfl | rfl
  · exact Or.inr ⟨2, by decide, by decide, by decide, by decide⟩
  · trivial
  · exact Or.inr ⟨0, by decide, by decide, by decide, by decide⟩
  · trivial

end TamagoUefi.Net
