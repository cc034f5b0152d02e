import TamagoUefi.Net.Tcp4

/-!
# TamagoUefi.Net.Tcp4Send — the acknowledged part of the sent stream

`sndUna` and `sndNxt` wrap around, so a run is followed by two counters, `una` and `nxt`, that do
not: the places from the initial sequence number that were acknowledged and that were sent
(`Tracked`).  `Acked` says that the one does not pass the other.

* The acknowledgement arm of `deliverSegment` moves `sndUna` to any number that compares greater,
  sent or not; `AckStep` is the condition that keeps it within what was sent, and the unacknowledged
  part within half the sequence space.
* `acked_run`: then `Acked` holds in every state of the run, and `sendAndAwaitAck` returns nil only
  when its segment is acknowledged.
-/

namespace TamagoUefi.Net

open Go Lib

/-! ## Counters beside the connection -/

structure Tracked where
  conn : TCP4Conn
  /-- Acknowledged places. -/
  una : ℕ
  /-- Sent places: the SYN, the bytes and the FIN. -/
  nxt : ℕ

namespace Tracked

def dialed (iss : Seq) : Tracked := ⟨TCP4Conn.dialed iss, 0, 1⟩

/-- The places an event sends. -/
def sends (c : TCP4Conn) : ConnEvent → ℕ
  | .beginSend segment => segment.length
  | .beginClose => c.beginClose.2.length
  | _ => 0

def after (t : Tracked) (e : ConnEvent) : Tracked :=
  ⟨t.conn.after e, t.una + ((t.conn.after e).sndUna - t.conn.sndUna).toNat, t.nxt + sends t.conn e⟩

/-- The counters only watch. -/
theorem conn_run (t : Tracked) (es : List ConnEvent) :
    (runFrom after t es).conn = runFrom TCP4Conn.after t.conn es := by
  induction es generalizing t with
  | nil => rfl
  | cons e es ih => exact ih (t.after e)

theorem una_mono (t : Tracked) (es : List ConnEvent) : t.una ≤ (runFrom after t es).una := by
  induction es generalizing t with
  | nil => exact le_rfl
  | cons e es ih => exact (Nat.le_add_right _ _).trans (ih (t.after e))

end Tracked

/-- What was acknowledged lies between the initial sequence number and what was sent. -/
structure Acked (iss : Seq) (t : Tracked) : Prop where
  una : t.conn.sndUna = pos iss t.una
  nxt : t.conn.sndNxt = pos iss t.nxt
  le : t.una ≤ t.nxt

/-- The condition on a step: an acknowledgement that moves `sndUna` is not beyond `sndNxt`, and a
send leaves at most half the sequence space unacknowledged. -/
def AckStep (t : Tracked) : ConnEvent → Prop
  | .deliver h _ => t.conn.takesAck h = true → seqGT h.ack t.conn.sndUna = true →
      (h.ack - t.conn.sndUna).toNat ≤ (t.conn.sndNxt - t.conn.sndUna).toNat
  | .beginSend segment => t.nxt + segment.length ≤ t.una + 2 ^ 31
  | _ => True

/-! ## Steps -/

section
variable {iss : Seq} {t : Tracked}

/-- Moving `sndUna` to `a` moves its counter by the same distance. -/
theorem Acked.pos_una (h : Acked iss t) (a : Seq) : a = pos iss (t.una + (a - t.conn.sndUna).toNat) := by
  rw [← pos_add, ← h.una, BitVec.ofNat_toNat, BitVec.setWidth_eq, BitVec.add_comm,
    BitVec.sub_add_cancel]

/-- What is unacknowledged, as the connection sees it. -/
theorem Acked.outstanding_le (h : Acked iss t) : (t.conn.sndNxt - t.conn.sndUna).toNat ≤ t.nxt - t.una := by
  rw [h.una, h.nxt, pos_sub_of_le h.le, BitVec.toNat_ofNat]
  exact Nat.mod_le _ _

/-- `sndUna` moves by no more than what is unacknowledged. -/
theorem Acked.deliver (h : Acked iss t) {hd : TCP4Header} {payload : Bytes}
    (hc : AckStep t (.deliver hd payload)) :
    (((t.conn.deliverSegment hd payload).1).sndUna - t.conn.sndUna).toNat ≤ t.nxt - t.una := by
  have hout := h.outstanding_le
  have hu := (t.conn.deliverSegment_delivered hd payload).una
  generalize (t.conn.deliverSegment hd payload).1.sndUna = u at hu ⊢
  cases hu with
  | same => simp
  | all ha => rwa [ha]
  | advance ht hgt => exact (hc ht hgt).trans hout

theorem after_send (c : TCP4Conn) (e : ConnEvent) :
    (c.after e).sndNxt = c.sndNxt + BitVec.ofNat 32 (Tracked.sends c e) ∧
      ((∀ h payload, e ≠ .deliver h payload) → (c.after e).sndUna = c.sndUna) := by
  cases e with
  | deliver h payload =>
    have hn := (c.deliverSegment_delivered h payload).nxt
    exact ⟨by simpa [Tracked.sends, TCP4Conn.after] using hn, fun h' => absurd rfl (h' h payload)⟩
  | readPoll n =>
    simp only [TCP4Conn.after, TCP4Conn.readPoll, Tracked.sends]
    split_ifs <;> simp
  | beginSend segment => exact ⟨rfl, fun _ => rfl⟩
  | beginClose =>
    simp only [TCP4Conn.after, TCP4Conn.beginClose, Tracked.sends]
    split_ifs with hc
    · simp
    · split <;> simp
  | endClose => exact ⟨by simp [TCP4Conn.after, TCP4Conn.endClose, Tracked.sends], fun _ => rfl⟩

/-- **Step lemma.** -/
theorem Acked.step (h : Acked iss t) {e : ConnEvent} (hc : AckStep t e) : Acked iss (t.after e) := by
  obtain ⟨hn, hu⟩ := after_send t.conn e
  have hmove : ((t.conn.after e).sndUna - t.conn.sndUna).toNat ≤ t.nxt - t.una := by
    cases e with
    | deliver hd payload => exact h.deliver hc
    | _ => simp [hu (fun _ _ h' => by cases h')]
  refine ⟨h.pos_una _, ?_, ?_⟩
  · show (t.conn.after e).sndNxt = pos iss (t.nxt + _)
    rw [hn, h.nxt, pos_add]
  · have hle := h.le
    show t.una + _ ≤ t.nxt + _
    omega

/-- A segment is taken for acknowledged only when it is. -/
theorem Acked.of_acked (h : Acked iss t) {want : ℕ} (hwant : want ≤ t.una + 2 ^ 31)
    (hp : t.conn.awaitPoll (pos iss want) = .acked) : want ≤ t.una := by
  by_contra hlt
  unfold TCP4Conn.awaitPoll at hp
  split_ifs at hp with hclosed hsl
  rw [h.una] at hsl
  exact hsl ((serialLT_pos (by omega) (by omega) (by decide)).mpr (by omega))

end

theorem acked_dialed (iss : Seq) : Acked iss (Tracked.dialed iss) :=
  ⟨(pos_zero iss).symm, rfl, Nat.zero_le 1⟩

/-! ## Runs -/

/-- **Acknowledgements stay within what was sent**, in every state of a run whose steps meet
`AckStep`; and after a send in it, the wait ends in nil only when the peer has acknowledged all of
the segment. -/
theorem acked_run (iss : Seq) (es : List ConnEvent) (hes : RunMeets Tracked.after AckStep (.dialed iss) es) :
    (∀ es', es' <+: es → Acked iss (runFrom Tracked.after (.dialed iss) es')) ∧
    ∀ es₁ segment es₂, es₁ ++ .beginSend segment :: es₂ <+: es →
      let t₁ := runFrom Tracked.after (.dialed iss) es₁
      let t := runFrom Tracked.after (.dialed iss) (es₁ ++ .beginSend segment :: es₂)
      t.conn.awaitPoll (t₁.conn.beginSend segment).2.2 = .acked →
        t₁.nxt + segment.length ≤ t.una ∧ t.una ≤ t.nxt := by
  have hall : ∀ es', es' <+: es → Acked iss (runFrom Tracked.after (.dialed iss) es') :=
    RunMeets.invariant (I := Acked iss) (fun _ _ h hc => h.step hc) (acked_dialed iss) hes
  refine ⟨hall, fun es₁ segment es₂ hp => ?_⟩
  intro t₁ t hacked
  have h₁ : Acked iss t₁ := hall es₁ ((List.prefix_append _ _).trans hp)
  have h : Acked iss t := hall _ hp
  have hsend : AckStep t₁ (.beginSend segment) := by
    obtain ⟨rest, rfl⟩ := hp
    rw [List.append_assoc, runMeets_append] at hes
    exact hes.2.1
  have hmono : t₁.una ≤ t.una := by
    show _ ≤ (runFrom Tracked.after _ (es₁ ++ _)).una
    rw [runFrom_append]
    exact Tracked.una_mono t₁ _
  have hwant : (t₁.conn.beginSend segment).2.2 = pos iss (t₁.nxt + segment.length) := by
    rw [← pos_add, ← h₁.nxt]
    rfl
  rw [hwant] at hacked
  have hbound : t₁.nxt + segment.length ≤ t.una + 2 ^ 31 := le_trans hsend (by omega)
  exact ⟨h.of_acked hbound hacked, h.le⟩

/-- The handshake with the initial sequence number 0, then three bytes and an acknowledgement. -/
def ackedRun (ack : Seq) : List ConnEvent :=
  [.deliver ⟨0, 1, tcpFlagSYN ||| tcpFlagACK, 65535⟩ [], .beginSend [1, 2, 3],
    .deliver ⟨1, ack, tcpFlagACK, 65535⟩ []]

theorem acked_run_three :
    (runFrom Tracked.after (.dialed 0) (ackedRun 4)).una = 4 ∧
    Acked 0 (runFrom Tracked.after (.dialed 0) (ackedRun 4)) := by
  refine ⟨by decide, (acked_run 0 (ackedRun 4) ⟨?_, ?_, ?_, trivial⟩).1 _ List.prefix_rfl⟩
  · exact fun h => absurd h (by decide)
  · show _ + _ ≤ _ + _
    decide
  · exact fun _ _ => by decide

/-- An acknowledgement of a thousand bytes never sent is taken. -/
theorem acked_run_broken :
    ¬ ∀ (iss : Seq) (es : List ConnEvent),
      Acked iss (runFrom Tracked.after (.dialed iss) es) := by
  intro h
  exact absurd (h 0 (ackedRun 1004)).le (by decide)

end TamagoUefi.Net
