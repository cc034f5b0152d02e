import Mathlib.Data.List.Chain
import TamagoUefi.Net.Tcp4Reassembly

/-!
# TamagoUefi.Net.Tcp4Eof — the end of the received stream (`tcp4.go`)

Once the FIN of the peer is consumed nothing may be added to the stream.  The code does not look at
`peerFinSeen` before it appends: `deliverSegment` takes data in CLOSE_WAIT as in ESTABLISHED, and
`drainReassemblyLocked` goes on past an entry that carries the FIN.

* `recvStates`: the states of the receive half within one step, one for each append.
* `Still`: from the FIN on, `rcvNxt` and the queue stay as they are, reading apart.
* `Ends` says which segments do no harm: one that is next comes before the FIN, and no parked entry
  starts right behind a FIN that it makes contiguous.
* `eof_final`: in a run of such segments the end of the stream is final, and so is a `Read` that
  reported it.
-/

namespace TamagoUefi.Net

open Go Lib TCP4Conn RecvSide

/-! ## The states within a step -/

namespace RecvSide

/-- The states at the head of the loop of `drainReassemblyLocked`. -/
def drainStates : ℕ → RecvSide → List RecvSide
  | 0, r => [r]
  | n + 1, r =>
    match r.reassembly.find? r.isNext with
    | none => [r]
    | some e => r :: drainStates n (r.unpark.absorb e.payload e.fin)

/-- The states within `acceptSegmentLocked`. -/
def acceptStates (r : RecvSide) (seq : Seq) (payload : Bytes) (fin : Bool) : List RecvSide :=
  if seq = r.rcvNxt then r :: drainStates r.reassembly.length (r.absorb payload fin)
  else [r, r.accept seq payload fin]

theorem getLast?_drainStates : ∀ (n : ℕ) (r : RecvSide), (drainStates n r).getLast? = some (drain n r)
  | 0, _ => rfl
  | n + 1, r => by
    rw [drainStates, drain]
    cases r.reassembly.find? r.isNext with
    | none => rfl
    | some e =>
      dsimp only
      rw [List.getLast?_cons, getLast?_drainStates]
      rfl

theorem getLast?_acceptStates (r : RecvSide) (seq : Seq) (payload : Bytes) (fin : Bool) :
    (r.acceptStates seq payload fin).getLast? = some (r.accept seq payload fin) := by
  unfold acceptStates
  by_cases hseq : seq = r.rcvNxt
  · rw [if_pos hseq, accept, if_pos hseq, List.getLast?_cons, getLast?_drainStates]
    rfl
  · rw [if_neg hseq]
    rfl

end RecvSide

namespace TCP4Conn

/-- The states of the receive half within a step, from the one before it to the one after it. -/
def recvStates (c : TCP4Conn) (e : ConnEvent) : List RecvSide :=
  match e with
  | .deliver h payload =>
    if c.takesData h payload then c.acceptStates h.seq payload h.fin
    else [c.toRecvSide, (c.after e).toRecvSide]
  | e => [c.toRecvSide, (c.after e).toRecvSide]

theorem getLast?_recvStates (c : TCP4Conn) (e : ConnEvent) :
    (c.recvStates e).getLast? = some (c.after e).toRecvSide := by
  cases e with
  | deliver h payload =>
    by_cases ht : c.takesData h payload = true
    · rw [recvStates, if_pos ht, getLast?_acceptStates, after, deliverSegment_takesData ht]
    · rw [recvStates, if_neg ht]
      rfl
  | readPoll | beginSend | beginClose | endClose => rfl

end TCP4Conn

/-! ## The condition -/

/-- After the FIN of the peer nothing is added. -/
def Still (r r' : RecvSide) : Prop :=
  r.peerFinSeen = true →
    r'.peerFinSeen = true ∧ r'.rcvNxt = r.rcvNxt ∧ r'.rxQueue <:+ r.rxQueue

/-- No parked entry starts right behind a parked FIN that is contiguous with `p`. -/
def NothingBehind (parked : List ReassemblyEntry) (p : Seq) : Prop :=
  ∀ e ∈ parked, Contig parked p e.seq → e.fin = true →
    ∀ e' ∈ parked, e'.seq ≠ e.seq + BitVec.ofNat 32 e.size

/-- The segments that do no harm to the end of the stream. -/
structure Ends (r : RecvSide) (payload : Bytes) (fin : Bool) : Prop where
  before : r.peerFinSeen = false
  own : fin = true → ∀ e ∈ r.reassembly, e.seq ≠ r.rcvNxt + BitVec.ofNat 32 (payload.length + 1)
  parked : NothingBehind r.reassembly (r.rcvNxt + BitVec.ofNat 32 (payload.length + fin.toNat))

/-- The condition on a step: a segment whose data is next, and taken, does no harm. -/
def EndsStep (c : TCP4Conn) : ConnEvent → Prop
  | .deliver h payload =>
    c.takesData h payload = true → h.seq = c.rcvNxt → Ends c.toRecvSide payload h.fin
  | _ => True

/-! ## Steps -/

theorem Still.refl (r : RecvSide) : Still r r := fun h => ⟨h, rfl, List.suffix_rfl⟩

theorem Still.trans {r₁ r₂ r₃ : RecvSide} (h₁ : Still r₁ r₂) (h₂ : Still r₂ r₃) : Still r₁ r₃ := by
  intro h
  obtain ⟨hfin, hnxt, hq⟩ := h₁ h
  obtain ⟨hfin', hnxt', hq'⟩ := h₂ hfin
  exact ⟨hfin', hnxt'.trans hnxt, hq'.trans hq⟩

instance : Trans Still Still Still := ⟨Still.trans⟩

/-- Before the FIN there is nothing to keep. -/
theorem Still.of_before {r r' : RecvSide} (h : r.peerFinSeen = false) : Still r r' :=
  fun h' => absurd h' (by simp [h])

/-- The loop appends nothing after a FIN. -/
theorem drainStates_still : ∀ (n : ℕ) (r : RecvSide),
    (r.peerFinSeen = true → ∀ e ∈ r.reassembly, e.seq ≠ r.rcvNxt) →
    NothingBehind r.reassembly r.rcvNxt → (r.drainStates n).IsChain Still
  | 0, r, _, _ => List.isChain_singleton r
  | n + 1, r, hfin, hbehind => by
    rw [drainStates]
    cases hf : r.reassembly.find? r.isNext with
    | none => exact List.isChain_singleton r
    | some e =>
      obtain ⟨hmem, hseq⟩ := next_of_find hf
      have hopen : r.peerFinSeen = false := by
        by_contra h
        exact hfin (by simpa using h) e hmem hseq
      refine List.isChain_cons.mpr ⟨fun _ _ => .of_before hopen, ?_⟩
      refine drainStates_still n _ ?_ ?_
      · intro hseen e' he'
        have hefin : e.fin = true := by simpa [absorb, unpark, hopen] using hseen
        have hne := hbehind e hmem (hseq ▸ .refl) hefin e' (unpark_mem he')
        rwa [hseq] at hne
      · intro e₁ he₁ hcon hfin₁ e₂ he₂
        exact hbehind e₁ (unpark_mem he₁) (.of_unpark hmem hseq hcon) hfin₁ e₂ (unpark_mem he₂)

theorem acceptStates_still {r : RecvSide} {seq : Seq} {payload : Bytes} {fin : Bool}
    (h : seq = r.rcvNxt → Ends r payload fin) : (r.acceptStates seq payload fin).IsChain Still := by
  unfold acceptStates
  by_cases hseq : seq = r.rcvNxt
  · obtain ⟨hopen, hown, hparked⟩ := h hseq
    rw [if_pos hseq]
    refine List.isChain_cons.mpr ⟨fun _ _ => .of_before hopen, ?_⟩
    refine drainStates_still _ _ ?_ hparked
    intro hseen e he
    have hfin : fin = true := by simpa [absorb, hopen] using hseen
    have hne := hown hfin e he
    rw [hfin]
    exact hne
  · rw [if_neg hseq]
    have hstill : Still r (r.accept seq payload fin) := by
      unfold accept
      rw [if_neg hseq]
      split_ifs
      · exact fun hseen => ⟨hseen, rfl, List.suffix_rfl⟩
      · exact .refl r
    exact List.isChain_cons_cons.mpr ⟨hstill, List.isChain_singleton _⟩

/-- Before the handshake no FIN has been consumed. -/
def OpenSyn (c : TCP4Conn) : Prop := c.state = .synSent → c.peerFinSeen = false

variable {c : TCP4Conn} {e : ConnEvent}

theorem openSyn_step (h : OpenSyn c) : OpenSyn (c.after e) := by
  have hstep := c.after_step e
  generalize c.after e = c' at hstep ⊢
  cases hstep with
  | deliver hstep =>
    cases hstep with
    | idle hr hs => exact fun hs' => hr ▸ h (hs hs')
    | handshake hs hs' hr =>
      intro h'
      rw [hs'] at h'
      cases h'
    | data hs hs' ht hr => exact fun h' => absurd h' hs'
  | read hr hs =>
    intro hs'
    rw [hr]
    exact h (hs ▸ hs')
  | send hr hs => exact fun hs' => hr ▸ h (hs hs')

/-- **Step lemma.** -/
theorem recvStates_still (h : OpenSyn c) (he : EndsStep c e) : (c.recvStates e).IsChain Still := by
  by_cases ht : ∃ hd payload, e = .deliver hd payload ∧ c.takesData hd payload = true
  · obtain ⟨hd, payload, rfl, ht⟩ := ht
    rw [recvStates, if_pos ht]
    exact acceptStates_still (he ht)
  · have hpair : c.recvStates e = [c.toRecvSide, (c.after e).toRecvSide] := by
      cases e with
      | deliver hd payload => exact if_neg fun h => ht ⟨hd, payload, rfl, h⟩
      | readPoll | beginSend | beginClose | endClose => rfl
    rw [hpair]
    refine List.isChain_cons_cons.mpr ⟨?_, List.isChain_singleton _⟩
    have hstep := c.after_step e
    generalize c.after e = c' at hstep ⊢
    cases hstep with
    | deliver hstep =>
      cases hstep with
      | idle hr hs =>
        rw [hr]
        exact .refl _
      | handshake hs hs' hr => exact .of_before (h hs)
      | data hs hs' ht' hr => exact absurd ⟨_, _, rfl, ht'⟩ ht
    | read hr hs =>
      rw [hr]
      exact fun hseen => ⟨hseen, rfl, List.drop_suffix _ _⟩
    | send hr hs =>
      rw [hr]
      exact .refl _

theorem still_after (h : (c.recvStates e).IsChain Still) : Still c.toRecvSide (c.after e).toRecvSide := by
  have hhead : ∃ l, c.recvStates e = c.toRecvSide :: l := by
    cases e with
    | deliver hd payload =>
      rw [recvStates, acceptStates]
      split_ifs <;> exact ⟨_, rfl⟩
    | readPoll | beginSend | beginClose | endClose => exact ⟨_, rfl⟩
  obtain ⟨l, hl⟩ := hhead
  have hlast := c.getLast?_recvStates e
  rw [hl] at h hlast
  rcases List.mem_cons.mp (List.mem_of_getLast? hlast) with heq | hmem
  · rw [heq]
    exact .refl _
  · exact h.rel_cons hmem

/-! ## Runs -/

section
variable {iss : Seq} {es : List ConnEvent}
  (hes : RunMeets TCP4Conn.after EndsStep (.dialed iss) es)
include hes

theorem recvStates_run {es' : List ConnEvent} (hp : es' ++ [e] <+: es) :
    ((runFrom TCP4Conn.after (.dialed iss) es').recvStates e).IsChain Still :=
  recvStates_still (run_invariant (fun _ _ => openSyn_step) (fun _ => rfl) es')
    (runMeets_iff.mp hes es' e hp)

theorem still_run {es₁ : List ConnEvent} (es₂ : List ConnEvent) (hp : es₁ ++ es₂ <+: es) :
    Still (runFrom TCP4Conn.after (.dialed iss) es₁).toRecvSide
      (runFrom TCP4Conn.after (.dialed iss) (es₁ ++ es₂)).toRecvSide := by
  induction es₂ using List.reverseRecOn with
  | nil =>
    rw [List.append_nil]
    exact .refl _
  | append_singleton es₂ e ih =>
    rw [← List.append_assoc] at hp ⊢
    have hstep := still_after (recvStates_run hes hp)
    rw [runFrom_append _ (es₁ ++ es₂)]
    exact (ih ((List.prefix_append _ _).trans hp)).trans hstep

end

/-- What a `Read` that reports the end of the stream has seen. -/
theorem readPoll_peerClosed {n : ℕ} (h : (c.readPoll n).2 = .peerClosed) :
    c.rxQueue = [] ∧ c.peerFinSeen = true := by
  unfold readPoll at h
  split_ifs at h with hq hfin hc
  · exact ⟨by simpa using hq, hfin⟩

theorem readPoll_ne_data (h : c.rxQueue = []) (n : ℕ) (b : Bytes) : (c.readPoll n).2 ≠ .data b := by
  unfold readPoll
  rw [if_neg (by simp [h])]
  split_ifs <;> exact fun h' => by cases h'

/-- **End of stream is final**, within every step and for every later `Read`, in a run whose
segments do no harm. -/
theorem eof_final (iss : Seq) (es : List ConnEvent)
    (hes : RunMeets TCP4Conn.after EndsStep (.dialed iss) es) :
    (∀ es' e, es' ++ [e] <+: es →
      ((runFrom TCP4Conn.after (.dialed iss) es').recvStates e).IsChain Still) ∧
    ∀ es₁ es₂, es₁ ++ es₂ <+: es → ∀ n,
      ((runFrom TCP4Conn.after (.dialed iss) es₁).readPoll n).2 = .peerClosed →
      ∀ m b, ((runFrom TCP4Conn.after (.dialed iss) (es₁ ++ es₂)).readPoll m).2 ≠ .data b := by
  refine ⟨fun es' e hp => recvStates_run hes hp, ?_⟩
  intro es₁ es₂ hp n hclosed m b
  obtain ⟨hq, hfin⟩ := readPoll_peerClosed hclosed
  obtain ⟨-, -, hsuffix⟩ := still_run hes es₂ hp hfin
  rw [hq] at hsuffix
  exact readPoll_ne_data (List.suffix_nil.mp hsuffix) m b

/-- The handshake, the FIN of the peer with number 1, then one byte at `seq`. -/
def finRun (seq : Seq) : List ConnEvent :=
  [.deliver ⟨0, 1, tcpFlagSYN ||| tcpFlagACK, 65535⟩ [],
    .deliver ⟨1, 1, tcpFlagFIN ||| tcpFlagACK, 65535⟩ [], .deliver ⟨seq, 1, tcpFlagACK, 65535⟩ [7]]

/-- A byte from before the FIN, sent again, does no harm. -/
theorem eof_final_again :
    ((runFrom TCP4Conn.after (.dialed 0) ((finRun 1).take 2)).readPoll 1).2 = .peerClosed ∧
      ∀ m b, ((runFrom TCP4Conn.after (.dialed 0) (finRun 1)).readPoll m).2 ≠ .data b := by
  have hclosed :
      ((runFrom TCP4Conn.after (.dialed 0) ((finRun 1).take 2)).readPoll 1).2 = .peerClosed := by
    decide
  refine ⟨hclosed, (eof_final 0 (finRun 1) ⟨?_, ?_, ?_, trivial⟩).2 ((finRun 1).take 2)
    ((finRun 1).drop 2) List.prefix_rfl 1 hclosed⟩
  · exact fun h => absurd h (by decide)
  · intro _ _
    exact ⟨by decide, fun _ e he => absurd he List.not_mem_nil,
      fun e he => absurd he List.not_mem_nil⟩
  · exact fun _ h => absurd h (by decide)

/-- In CLOSE_WAIT a byte right behind the FIN is taken: a `Read` after the end of the stream returns
it. -/
theorem eof_final_broken :
    ¬ ∀ (iss : Seq) (es₁ es₂ : List ConnEvent) (n : ℕ),
      ((runFrom TCP4Conn.after (.dialed iss) es₁).readPoll n).2 = .peerClosed →
      ∀ m b, ((runFrom TCP4Conn.after (.dialed iss) (es₁ ++ es₂)).readPoll m).2 ≠ .data b := by
  intro h
  exact h 0 ((finRun 2).take 2) ((finRun 2).drop 2) 1 (by decide) 1 [7] (by decide)

end TamagoUefi.Net
