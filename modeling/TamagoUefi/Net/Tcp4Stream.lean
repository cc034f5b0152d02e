import TamagoUefi.Net.Tcp4Threads

/-!
# TamagoUefi.Net.Tcp4Stream — what a connection has sent (`tcp4.go`)

Two questions about the segments of `Write` and `Close`, over every interleaving of their steps with
each other and with inbound segments.

* `NoHoles`: every number given out was transmitted.  `sendAndAwaitAck` gives out the numbers of a
  segment before it tries to send it, and does not take them back when the send fails:
  `noHoles_iff` says that this is the only way to a hole.
* `FinLast`: nothing follows our FIN.  `Write` looks at the state once, before its loop; `finLast_run`
  asks that no segment is begun after `Close` has given the FIN its number.
-/

namespace TamagoUefi.Net

open Go Lib Threads

/-! ## Holes -/

/-- The segment carries the number at place `k`. -/
def Sent.covers (s : Sent) (k : ℕ) : Prop :=
  s.place ≤ k ∧ k < s.place + s.segment.payload.length

/-- The numbers from `base` up to `sndNxt` stand for the bytes of the `Write` calls in order, all of
the argument if the call returned nil, and each was sent. -/
structure NoHoles (base : Seq) (t : Threads) : Prop where
  next : t.conn.sndNxt = pos base t.stream.length
  bytes : t.stream = (t.calls.map WriteCall.part).flatten.map some
  whole : ∀ w ∈ t.calls, w.err = none → w.part = w.arg
  carried : ∀ s ∈ t.sent, s.segment.seq = pos base s.place ∧
    Carries t.stream s.place (s.segment.payload.map some)
  covered : ∀ k < t.stream.length, ∃ s ∈ t.sent, s.covers k

/-- Is it a step of `Close`? -/
def ThreadEvent.ofClose : ThreadEvent → Bool
  | .close _ | .sendFin _ _ | .finish _ => true
  | _ => false

/-- The first transmission of a segment succeeds. -/
def FirstSent (t : Threads) (e : ThreadEvent) : Prop :=
  ∀ g, e = .transmit g → t.writer.unsent = true → sendSegment g = none

theorem Writer.unsent_iff {w : Writer} : w.unsent = true ↔ ∃ p written f, w = .flying p written f .begun := by
  constructor
  · intro h
    match w with
    | .flying p written f .begun => exact ⟨p, written, f, rfl⟩
  · rintro ⟨p, written, f, rfl⟩
    rfl

variable {f : Flight}

theorem Writer.unsent_flying {p : Bytes} {written : ℕ} {stage : Stage}
    (h : stage ≠ .begun) : (Writer.flying p written f stage).unsent = false := by
  cases stage with
  | begun => exact absurd rfl h
  | check n => rfl
  | pump n => rfl

variable {base : Seq} {stream : List (Option UInt8)} {s : Sent} {k : ℕ}

theorem Sent.Right.covers_lt (h : s.Right base stream) (hk : s.covers k) : k < stream.length := by
  cases h with
  | data hf => exact lt_of_lt_of_le hk.2 hf.le_length
  | fin hf =>
    obtain ⟨h1, h2⟩ := hk
    simp only [Flight.sent, hf.empty, List.length_nil] at h1 h2
    omega

/-- Without `Close` there is no FIN in the stream, and nothing that was sent carries a number of the
segment that waits for its first transmission. -/
structure FreshFlight (t : Threads) : Prop where
  data : none ∉ t.stream
  fresh : ∀ {p written f}, t.writer = .flying p written f .begun →
    ∀ s ∈ t.sent, ∀ k, f.place ≤ k → ¬ s.covers k

/-- Every number was sent, or belongs to the segment that waits for its first transmission. -/
def Covered (t : Threads) : Prop :=
  ∀ k < t.stream.length, (∃ s ∈ t.sent, s.covers k) ∨
    ∃ p written f, t.writer = .flying p written f .begun ∧ f.place ≤ k ∧
      k < f.place + f.segment.length

variable {t : Threads}

/-- When no segment waits for its first transmission, every number was sent. -/
theorem Covered.all_sent (h : Covered t) (hw : t.writer.unsent = false)
    (hk : k < t.stream.length) : ∃ s ∈ t.sent, s.covers k := by
  rcases h k hk with hs | ⟨p, written, f, hf, -⟩
  · exact hs
  · rw [hf] at hw
    cases hw

variable {t' : Threads} {e : ThreadEvent}

theorem freshFlight_step (hp : Placed base t) (h : FreshFlight t) (hc : e.ofClose = false)
    (he : Effect t e t') : FreshFlight t' := by
  cases he with
  | same => exact h
  | conn => exact ⟨h.data, h.fresh⟩
  | enter => exact ⟨h.data, fun hf => by cases hf⟩
  | ret => exact ⟨h.data, fun hf => by cases hf⟩
  | @begin p segment written f c hw hne hpart hf hn hs =>
    refine ⟨by simp [h.data], ?_⟩
    rintro _ _ _ ⟨⟩ s hs k hk hcov
    have hlt := (hp.sent s hs).covers_lt hcov
    rw [hf.1] at hk
    omega
  | send => exact ⟨h.data, fun hf => by cases hf⟩
  | wait hw hst hst' =>
    refine ⟨h.data, ?_⟩
    rintro _ _ _ ⟨⟩
    exact absurd rfl hst'
  | acked => exact ⟨h.data, fun hf => by cases hf⟩
  | fin | finSent => cases hc
  | closer | finish => exact ⟨h.data, h.fresh⟩

theorem covered_step (h : Covered t) (hfirst : FirstSent t e) (hc : e.ofClose = false)
    (he : Effect t e t') : Covered t' := by
  cases he with
  | same => exact h
  | conn => exact h
  | enter hw => exact fun k hk => .inl (h.all_sent (by rw [hw]; rfl) hk)
  | ret hpart hwhole hunsent =>
    have hw : t.writer.unsent = false := by
      by_contra hu
      rw [Bool.not_eq_false] at hu
      obtain ⟨g, rfl, hg⟩ := hunsent hu
      exact hg (hfirst g rfl hu)
    exact fun k hk => .inl (h.all_sent hw hk)
  | @begin p segment written f c hw hne hpart hf hn hs =>
    intro k hk
    obtain ⟨hplace, -, hsegment⟩ := hf
    rw [List.length_append, List.length_map] at hk
    by_cases hold : k < t.stream.length
    · exact .inl (h.all_sent (by rw [hw]; rfl) hold)
    · exact .inr ⟨p, written, f, rfl, by omega, by rw [hplace, hsegment]; exact hk⟩
  | @send _ p written n f stage hw _ =>
    intro k hk
    rcases h k hk with ⟨s, hs, hcov⟩ | ⟨p', written', f', hw', h1, h2⟩
    · exact .inl ⟨s, List.mem_append_left _ hs, hcov⟩
    · rw [hw] at hw'
      cases hw'
      exact .inl ⟨_, List.mem_append_right _ (List.mem_singleton_self _), h1, h2⟩
  | wait hw hst _ => exact fun k hk => .inl (h.all_sent (by rw [hw, Writer.unsent_flying hst]) hk)
  | acked hw hst => exact fun k hk => .inl (h.all_sent (by rw [hw, Writer.unsent_flying hst]) hk)
  | fin | finSent => cases hc
  | closer | finish => exact h

section
variable {c : TCP4Conn} {es : List ThreadEvent}

theorem freshFlight_run (hes : ∀ e ∈ es, e.ofClose = false) :
    FreshFlight (runFrom Threads.after (.start c) es) := by
  induction es using List.reverseRecOn with
  | nil => exact ⟨by simp [start], fun hf => by cases hf⟩
  | append_singleton es e ih =>
    rw [runFrom_append]
    exact freshFlight_step (placed_run c es) (ih (fun e' he' => hes e' (by simp [he'])))
      (hes e (by simp)) (after_effect _ e)

theorem covered_run (hes : ∀ e ∈ es, e.ofClose = false)
    (hmeets : RunMeets Threads.after FirstSent (.start c) es) :
    Covered (runFrom Threads.after (.start c) es) := by
  induction es using List.reverseRecOn with
  | nil => exact fun k hk => absurd hk (Nat.not_lt_zero k)
  | append_singleton es e ih =>
    rw [runMeets_append] at hmeets
    rw [runFrom_append]
    exact covered_step (ih (fun e' he' => hes e' (by simp [he'])) hmeets.1) hmeets.2.1
      (hes e (by simp)) (after_effect _ e)

end

/-- A stream without FIN is its bytes. -/
theorem map_some_reduceOption (h : none ∉ stream) : stream.reduceOption.map some = stream := by
  induction stream with
  | nil => rfl
  | cons b bs ih =>
    cases b with
    | none => simp at h
    | some b => rw [List.reduceOption_cons_of_some, List.map_cons, ih (fun hn => h (by simp [hn]))]

theorem Sent.Right.carried (h : s.Right base stream) (hn : none ∉ stream) :
    s.segment.seq = pos base s.place ∧ Carries stream s.place (s.segment.payload.map some) := by
  cases h with
  | data hf => exact ⟨hf.seq, hf.carries⟩
  | fin hf =>
    obtain ⟨pre, post, rfl, -⟩ := hf.carries
    simp at hn

theorem noHoles_of_covered (hp : Placed base t) (hf : FreshFlight t) (hc : Covered t)
    (hw : t.writer = .idle) : NoHoles base t where
  next := hp.next
  bytes := by
    have hb := hp.bytes
    rw [hw, Writer.part, List.append_nil] at hb
    rw [← hb, map_some_reduceOption hf.data]
  whole := hp.whole
  carried s hs := (hp.sent s hs).carried hf.data
  covered _ hk := hc.all_sent (by rw [hw]; rfl) hk

/-- Nothing was sent in between, so no number was given out. -/
theorem NoHoles.length_le (h : NoHoles base t) (h' : NoHoles base t')
    (hs : t'.sent = t.sent) : t'.stream.length ≤ t.stream.length := by
  by_contra hlt
  obtain ⟨s, hmem, -, hcov⟩ := h'.covered t.stream.length (Nat.lt_of_not_le hlt)
  have hle := (h.carried s (hs ▸ hmem)).2.le_length
  rw [List.length_map] at hle
  omega

/-- After a failing first transmission the number at its place is not covered. -/
theorem not_noHoles_of_fail {g : Egress} (hp : Placed base t) (hf : FreshFlight t) (hu : t.writer.unsent = true)
    (hg : sendSegment g ≠ none) :
    (t.after (.transmit g)).writer = .idle ∧ ¬ NoHoles base (t.after (.transmit g)) := by
  obtain ⟨p, written, f, hw⟩ := Writer.unsent_iff.mp hu
  obtain ⟨err, herr⟩ := Option.ne_none_iff_exists'.mp hg
  have hafter : t.after (.transmit g) = t.fail p written f (.send err) := by
    simp only [after, transmit, hw, sendData, herr]
  rw [hafter]
  refine ⟨rfl, fun hno => ?_⟩
  have hdata := hp.flying hw
  have hpos : 0 < f.segment.length := List.length_pos_iff.mpr hdata.nonempty
  obtain ⟨s, hs, hcov⟩ := hno.covered f.place (lt_of_lt_of_le (by omega) hdata.le_length)
  exact hf.fresh hw s hs f.place le_rfl hcov

/-- **No holes in the sent stream**, whenever no `Write` is under way, and no number given out
without a transmission: exactly when every first transmission succeeds. -/
theorem noHoles_iff (c : TCP4Conn) (es : List ThreadEvent) (hes : ∀ e ∈ es, e.ofClose = false) :
    ((∀ es', es' <+: es → (runFrom Threads.after (.start c) es').writer = .idle →
        NoHoles c.sndNxt (runFrom Threads.after (.start c) es')) ∧
      ∀ es₁ es₂, es₁ <+: es → es₂ <+: es →
        (runFrom Threads.after (.start c) es₁).writer = .idle →
        (runFrom Threads.after (.start c) es₂).writer = .idle →
        (runFrom Threads.after (.start c) es₂).sent = (runFrom Threads.after (.start c) es₁).sent →
        (runFrom Threads.after (.start c) es₂).conn.sndNxt =
          (runFrom Threads.after (.start c) es₁).conn.sndNxt) ↔
      RunMeets Threads.after FirstSent (.start c) es := by
  constructor
  · rintro ⟨hno, -⟩
    rw [runMeets_iff]
    rintro es' e hpre g rfl hu
    by_contra hg
    have hclose : ∀ e ∈ es', e.ofClose = false :=
      fun e he => hes e (hpre.subset (List.mem_append_left _ he))
    obtain ⟨hidle, hhole⟩ := not_noHoles_of_fail (placed_run c es') (freshFlight_run hclose) hu hg
    refine hhole ?_
    have := hno (es' ++ [.transmit g]) hpre
    rw [runFrom_append] at this
    exact this hidle
  · intro hmeets
    have hno : ∀ es', es' <+: es → (runFrom Threads.after (.start c) es').writer = .idle →
        NoHoles c.sndNxt (runFrom Threads.after (.start c) es') := by
      rintro es' ⟨rest, rfl⟩ hidle
      have hclose : ∀ e ∈ es', e.ofClose = false :=
        fun e he => hes e (List.mem_append_left _ he)
      exact noHoles_of_covered (placed_run c es') (freshFlight_run hclose)
        (covered_run hclose (runMeets_append.mp hmeets).1) hidle
    refine ⟨hno, ?_⟩
    intro es₁ es₂ hpre₁ hpre₂ hidle₁ hidle₂ hsent
    have h₁ := hno es₁ hpre₁ hidle₁
    have h₂ := hno es₂ hpre₂ hidle₂
    rw [h₁.next, h₂.next,
      le_antisymm (h₁.length_le h₂ hsent) (h₂.length_le h₁ hsent.symm)]

/-- The handshake with the initial sequence number 0, then a `Write` of one byte up to its first
transmission. -/
def writeRun (g : Egress) : List ThreadEvent :=
  [.deliver ⟨0, 1, tcpFlagSYN ||| tcpFlagACK, 65535⟩ [], .write [0x61], .nextSegment, .transmit g]

/-- The byte is acknowledged and `Write` returns. -/
def writtenRun : List ThreadEvent :=
  writeRun .clear ++ [.deliver ⟨1, 2, tcpFlagACK, 65535⟩ [], .poll, .nextSegment]

theorem noHoles_written :
    (runFrom Threads.after (.start (.dialed 0)) writtenRun).calls = [⟨[0x61], 1, 1, none⟩] ∧
      NoHoles 1 (runFrom Threads.after (.start (.dialed 0)) writtenRun) := by
  refine ⟨by decide, ((noHoles_iff (.dialed 0) writtenRun (by decide)).mpr ?_).1 _
    List.prefix_rfl (by decide)⟩
  refine ⟨?_, ?_, ?_, ?_, ?_, ?_, ?_, trivial⟩
  case refine_4 =>
    rintro g ⟨⟩ -
    rfl
  all_goals
    rintro g ⟨⟩

/-- The next hop does not answer: the `Write` fails without a transmission, and its byte keeps its
number. -/
theorem noHoles_broken :
    ¬ ∀ (c : TCP4Conn) (es : List ThreadEvent), (∀ e ∈ es, e.ofClose = false) →
      (runFrom Threads.after (.start c) es).writer = .idle →
      NoHoles c.sndNxt (runFrom Threads.after (.start c) es) := by
  intro h
  let g : Egress := { Egress.clear with resolve := some (str "ministack: ARP resolve timed out") }
  have hno := h (.dialed 0) (writeRun g) (by decide) (by decide)
  obtain ⟨s, hs, -⟩ := hno.covered 0 (by decide)
  have hnone : (runFrom Threads.after (.start (.dialed 0)) (writeRun g)).sent = [] := by decide
  rw [hnone] at hs
  cases hs

/-! ## The FIN -/

def Sent.isFin (s : Sent) : Bool := s.segment.flags &&& tcpFlagFIN ≠ 0

/-- The FIN is sent once at most, and every data segment that was sent ends before the place where
`Close` has put the FIN. -/
structure FinLast (base : Seq) (t : Threads) : Prop where
  once : (t.sent.filter Sent.isFin).length ≤ 1
  last : ∀ s ∈ t.sent, s.isFin = false → ∀ k, t.stream[k]? = some none →
    s.place + s.segment.payload.length ≤ k
  numbered : ∀ s ∈ t.sent, s.segment.seq = pos base s.place ∧
    (s.isFin = true → t.stream[s.place]? = some none)

/-- A segment that `Write` begins finds the FIN without a number. -/
def BeforeFin (t : Threads) (e : ThreadEvent) : Prop :=
  e = .nextSegment → ∀ p written, t.writer = .loop p written → written < p.length →
    none ∉ t.stream

@[simp] theorem isFin_data (f : Flight) (rcvWnd : BitVec 16) : (f.sent dataFlags rcvWnd).isFin = false := by
  have hflag : dataFlags &&& tcpFlagFIN = 0 := by decide
  simp [Sent.isFin, Flight.sent, hflag]

@[simp] theorem isFin_fin (f : Flight) (rcvWnd : BitVec 16) : (f.sent finFlags rcvWnd).isFin = true := by
  have hflag : finFlags &&& tcpFlagFIN ≠ 0 := by decide
  simp [Sent.isFin, Flight.sent, hflag]

theorem Flight.Fin.getElem (h : f.Fin base stream) : stream[f.place]? = some none :=
  h.carries.getElem 0 Nat.one_pos

theorem Flight.Fin.none_mem (h : f.Fin base stream) : none ∈ stream :=
  List.mem_of_getElem? h.getElem

theorem Sent.Right.none_mem (h : s.Right base stream) (hs : s.isFin = true) : none ∈ stream := by
  cases h with
  | data hf => simp at hs
  | fin hf => exact hf.none_mem

/-- Once the FIN has a number no `Close` gives it another, and only one `Close` sends it. -/
structure FinOnce (t : Threads) : Prop where
  past : none ∈ t.stream → t.conn.state.pastFin = true
  one : ∀ {i j f g}, t.closers i = .begun f → t.closers j = .begun g → i = j
  unsent : ∀ {i f}, t.closers i = .begun f → ∀ s ∈ t.sent, s.isFin = false
  once : (t.sent.filter Sent.isFin).length ≤ 1

theorem finOnce_step (hp : Placed base t) (h : FinOnce t) (he : Effect t e t') : FinOnce t' := by
  cases he with
  | same => exact h
  | conn _ hs => exact ⟨fun hn => hs (h.past hn), h.one, h.unsent, h.once⟩
  | enter | ret | wait | acked => exact ⟨h.past, h.one, h.unsent, h.once⟩
  | @begin p segment written f c hw hne hpart hf hn hs =>
    refine ⟨fun hmem => ?_, h.one, h.unsent, h.once⟩
    change c.state.pastFin = true
    rw [hs]
    exact h.past (by simpa using hmem)
  | send =>
    refine ⟨h.past, h.one, fun hc => ?_, by simpa using h.once⟩
    exact List.forall_mem_append.mpr ⟨h.unsent hc, List.forall_mem_singleton.mpr (isFin_data _ _)⟩
  | @fin i f c hf hn hs hs' =>
    -- this is the first `Close` to number the FIN
    have hnone : none ∉ t.stream := by
      intro hmem
      rw [h.past hmem] at hs
      cases hs
    have hsent : ∀ s ∈ t.sent, s.isFin = false := by
      intro s hmem
      by_contra hfin
      exact hnone ((hp.sent s hmem).none_mem (by simpa using hfin))
    have hcloser : ∀ {j g}, (t.setCloser i (.begun f)).closers j = .begun g → j = i := by
      intro j g hj
      rcases setCloser_begun hj with ⟨hji, -⟩ | ⟨-, hg⟩
      · exact hji
      · exact absurd (hp.closing hg).none_mem hnone
    exact ⟨fun _ => hs', fun hi hj => (hcloser hi).trans (hcloser hj).symm, fun _ => hsent, h.once⟩
  | @finSent i g f hc =>
    have hcloser : ∀ {j f'}, (t.setCloser i .pump).closers j ≠ .begun f' := by
      intro j f' hj
      rcases setCloser_begun hj with ⟨-, hf'⟩ | ⟨hji, hf'⟩
      · cases hf'
      · exact hji (h.one hf' hc)
    refine ⟨h.past, fun hi => absurd hi hcloser, fun hi => absurd hi hcloser, ?_⟩
    have hnil : t.sent.filter Sent.isFin = [] :=
      List.filter_eq_nil_iff.mpr (fun s hs => by simp [h.unsent hc s hs])
    rw [List.filter_append, hnil]
    exact List.length_filter_le _ _
  | @closer _ i k hk =>
    have hcloser : ∀ {j f}, (t.setCloser i k).closers j = .begun f → t.closers j = .begun f :=
      begun_of_setCloser hk
    exact ⟨h.past, fun hi hj => h.one (hcloser hi) (hcloser hj), fun hi => h.unsent (hcloser hi),
      h.once⟩
  | @finish _ i =>
    have hcloser : ∀ {j f}, (t.setCloser i .done).closers j = .begun f → t.closers j = .begun f :=
      begun_of_setCloser (fun _ hk => by cases hk)
    exact ⟨fun _ => rfl, fun hi hj => h.one (hcloser hi) (hcloser hj),
      fun hi => h.unsent (hcloser hi), h.once⟩

theorem finOnce_run (c : TCP4Conn) (es : List ThreadEvent) :
    FinOnce (runFrom Threads.after (.start c) es) := by
  induction es using List.reverseRecOn with
  | nil =>
    refine ⟨by simp [start], ?_, ?_, Nat.zero_le 1⟩
    · rintro _ _ _ _ ⟨⟩
    · rintro _ _ ⟨⟩
  | append_singleton es e ih =>
    rw [runFrom_append]
    exact finOnce_step (placed_run c es) ih (after_effect _ e)

/-- All data, sent or under way, ends before the FIN. -/
structure DataFirst (t : Threads) : Prop where
  sent : ∀ s ∈ t.sent, s.isFin = false → ∀ k, t.stream[k]? = some none →
    s.place + s.segment.payload.length ≤ k
  flying : ∀ {p written f stage}, t.writer = .flying p written f stage →
    ∀ k, t.stream[k]? = some none → f.place + f.segment.length ≤ k

/-- The FIN in a stream that has just been given one. -/
theorem le_of_getElem_snoc {n : ℕ} (hn : n ≤ stream.length) (hold : stream[k]? = some none → n ≤ k)
    (hk : (stream ++ [none])[k]? = some none) : n ≤ k := by
  by_cases hlt : k < stream.length
  · exact hold (by rwa [List.getElem?_append_left hlt] at hk)
  · omega

theorem dataFirst_step (hp : Placed base t) (h : DataFirst t) (hb : BeforeFin t e)
    (he : Effect t e t') : DataFirst t' := by
  cases he with
  | same | conn | closer | finish => exact ⟨h.sent, h.flying⟩
  | enter | ret | acked => exact ⟨h.sent, fun hf => by cases hf⟩
  | @begin p segment written f c hw hne hpart hf hn hs =>
    have hlt : written < p.length := by
      by_contra hge
      rw [List.take_of_length_le (by omega), List.take_of_length_le (by omega)] at hpart
      exact hne (List.self_eq_append_right.mp hpart)
    have hnone : ∀ k : ℕ, (t.stream ++ segment.map some)[k]? ≠ some none := by
      intro k hk
      have hmem := List.mem_of_getElem? hk
      exact hb rfl p written hw hlt (by simpa using hmem)
    exact ⟨fun s _ _ k hk => absurd hk (hnone k), fun _ k hk => absurd hk (hnone k)⟩
  | @send _ p written n f stage hw _ =>
    refine ⟨?_, ?_⟩
    · refine List.forall_mem_append.mpr ⟨h.sent, List.forall_mem_singleton.mpr ?_⟩
      exact fun _ => h.flying hw
    · rintro _ _ _ _ ⟨⟩
      exact h.flying hw
  | wait hw _ _ =>
    refine ⟨h.sent, ?_⟩
    rintro _ _ _ _ ⟨⟩
    exact h.flying hw
  | fin =>
    refine ⟨?_, ?_⟩
    · intro s hs hfin k hk
      refine le_of_getElem_snoc ?_ (h.sent s hs hfin k) hk
      cases hp.sent s hs with
      | data hf => exact hf.le_length
      | fin hf => simp at hfin
    · intro p written f stage hw k hk
      exact le_of_getElem_snoc (hp.flying hw).le_length (h.flying hw k) hk
  | finSent =>
    refine ⟨List.forall_mem_append.mpr ⟨h.sent, List.forall_mem_singleton.mpr ?_⟩, h.flying⟩
    intro hfin
    rw [isFin_fin] at hfin
    cases hfin

theorem Sent.Right.numbered (h : s.Right base stream) :
    s.segment.seq = pos base s.place ∧ (s.isFin = true → stream[s.place]? = some none) := by
  cases h with
  | data hf => exact ⟨hf.seq, fun hs => by simp at hs⟩
  | fin hf => exact ⟨hf.seq, fun _ => hf.getElem⟩

/-- **Nothing follows our FIN**, in every state of a run in which `Write` begins no segment once
`Close` has given the FIN its number. -/
theorem finLast_run (c : TCP4Conn) (es : List ThreadEvent)
    (hmeets : RunMeets Threads.after BeforeFin (.start c) es) :
    FinLast c.sndNxt (runFrom Threads.after (.start c) es) := by
  have hdata : DataFirst (runFrom Threads.after (.start c) es) := by
    induction es using List.reverseRecOn with
    | nil => exact ⟨by simp [start], fun h => by cases h⟩
    | append_singleton es e ih =>
      rw [runMeets_append] at hmeets
      rw [runFrom_append]
      exact dataFirst_step (placed_run c es) (ih hmeets.1) hmeets.2.1 (after_effect _ e)
  exact ⟨(finOnce_run c es).once, hdata.sent, fun s hs => ((placed_run c es).sent s hs).numbered⟩

/-- A `Close` once the only segment of a `Write` is on its way. -/
def closedRun : List ThreadEvent := writeRun .clear ++ [.close 0, .sendFin 0 .clear]

theorem finLast_closed :
    ((runFrom Threads.after (.start (.dialed 0)) closedRun).sent.map Sent.isFin) = [false, true] ∧
      FinLast 1 (runFrom Threads.after (.start (.dialed 0)) closedRun) := by
  refine ⟨by decide, finLast_run (.dialed 0) closedRun ⟨?_, ?_, ?_, ?_, ?_, ?_, trivial⟩⟩
  case refine_3 => exact fun _ _ _ _ _ => by decide
  all_goals
    rintro ⟨⟩

/-- A `Close` between the check of `Write` and its first segment. -/
def raceRun : List ThreadEvent :=
  [.deliver ⟨0, 1, tcpFlagSYN ||| tcpFlagACK, 65535⟩ [], .write [0x61], .close 0,
    .sendFin 0 .clear, .nextSegment, .transmit .clear]

/-- The FIN goes out with number 1, the byte after it with number 2. -/
theorem finLast_broken :
    ¬ ∀ (c : TCP4Conn) (es : List ThreadEvent),
      FinLast c.sndNxt (runFrom Threads.after (.start c) es) := by
  intro h
  let f : Sent := ⟨1, ⟨tcpFlagACK ||| tcpFlagPSH, 2, 1, 32768, [0x61]⟩⟩
  have hsent : f ∈ (runFrom Threads.after (.start (.dialed 0)) raceRun).sent := by decide
  exact absurd ((h (.dialed 0) raceRun).last f hsent (by decide) 0 (by decide)) (by decide)

end TamagoUefi.Net
