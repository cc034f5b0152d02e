import TamagoUefi.Net.Tcp4

/-!
# TamagoUefi.Net.Tcp4Reassembly — the reassembly table

`Orderly` is the invariant the table is meant to have: at most `tcp4ReassemblyDepth` entries, each
ahead of `rcvNxt` and inside the receive window, no two with the same start.  `acceptSegmentLocked`
parks without looking at the window or at the entries there are, and `drainReassemblyLocked` only
removes an entry that starts exactly at `rcvNxt`, so a run can break each part.

* `Tidy` says which segments do no harm: one that is parked lies in the window and starts at a
  number of its own; one that is next has no parked entry starting strictly inside the data it
  brings in, its own or that of the entries it makes contiguous.
* `Orderly.accept`: a tidy segment keeps the invariant.
* `orderly_run`: so it holds in every state of a run of tidy segments, from `dialed` on, with any
  `Read`, `Write` and `Close` steps in between.
-/

namespace TamagoUefi.Net

open Go Lib

/-! ## The invariant and the condition -/

/-- `s` is one of the `n - 1` numbers after `a`. -/
def Inside (a : Seq) (n : ℕ) (s : Seq) : Prop := 0 < (s - a).toNat ∧ (s - a).toNat < n

instance (a : Seq) (n : ℕ) (s : Seq) : Decidable (Inside a n s) :=
  inferInstanceAs (Decidable (_ ∧ _))

/-- The length of an entry in sequence space: its bytes and its FIN. -/
def ReassemblyEntry.size (e : ReassemblyEntry) : ℕ := e.payload.length + e.fin.toNat

structure Orderly (r : RecvSide) : Prop where
  room : r.reassembly.length ≤ tcp4ReassemblyDepth
  window : ∀ e ∈ r.reassembly, Inside r.rcvNxt r.rcvWnd.toNat e.seq
  distinct : (r.reassembly.map (·.seq)).Nodup

/-- The numbers reached from `p` through parked entries, each starting where the last one ended. -/
inductive Contig (parked : List ReassemblyEntry) (p : Seq) : Seq → Prop
  | refl : Contig parked p p
  | next {e : ReassemblyEntry} (he : e ∈ parked) (h : Contig parked p e.seq) :
      Contig parked p (e.seq + BitVec.ofNat 32 e.size)

/-- No parked entry starts strictly inside an entry that is contiguous with `p`. -/
def NoOverlap (parked : List ReassemblyEntry) (p : Seq) : Prop :=
  ∀ e' ∈ parked, Contig parked p e'.seq → ∀ e ∈ parked, ¬ Inside e'.seq e'.size e.seq

/-- The segments that do no harm to the table. -/
structure Tidy (r : RecvSide) (seq : Seq) (payload : Bytes) (fin : Bool) : Prop where
  next : seq = r.rcvNxt →
    (∀ e ∈ r.reassembly, ¬ Inside r.rcvNxt (payload.length + fin.toNat) e.seq) ∧
    NoOverlap r.reassembly (r.rcvNxt + BitVec.ofNat 32 (payload.length + fin.toNat))
  parked : seqGT seq r.rcvNxt = true → r.reassembly.length < tcp4ReassemblyDepth →
    Inside r.rcvNxt r.rcvWnd.toNat seq ∧ ∀ e ∈ r.reassembly, e.seq ≠ seq

/-- The condition on a step: a segment whose data is taken is tidy. -/
def TidyStep (c : TCP4Conn) : ConnEvent → Prop
  | .deliver h payload =>
    c.takesData h payload = true → Tidy c.toRecvSide h.seq payload h.fin
  | _ => True

/-! ## Draining -/

/-- The invariant inside the loop: an entry may start at `rcvNxt` itself. -/
structure Loose (r : RecvSide) : Prop where
  room : r.reassembly.length ≤ tcp4ReassemblyDepth
  window : ∀ e ∈ r.reassembly, (e.seq - r.rcvNxt).toNat < r.rcvWnd.toNat
  distinct : (r.reassembly.map (·.seq)).Nodup

theorem Contig.trans {parked : List ReassemblyEntry} {p q s : Seq} (hpq : Contig parked p q)
    (hqs : Contig parked q s) : Contig parked p s := by
  induction hqs with
  | refl => exact hpq
  | next he _ ih => exact .next he ih

theorem Contig.mono {l l' : List ReassemblyEntry} (hsub : ∀ e ∈ l, e ∈ l') {p s : Seq}
    (h : Contig l p s) : Contig l' p s := by
  induction h with
  | refl => exact .refl
  | next he _ ih => exact .next (hsub _ he) ih

/-- With distinct starts, removing the entry at `a` leaves none there. -/
theorem seq_ne_of_mem_eraseP {a : Seq} : ∀ {l : List ReassemblyEntry}, (l.map (·.seq)).Nodup →
    ∀ e ∈ l.eraseP (fun e => decide (e.seq = a)), e.seq ≠ a
  | [], _, e, he => by simp at he
  | x :: l, hl, e, he => by
    rw [List.map_cons, List.nodup_cons] at hl
    by_cases hx : x.seq = a
    · rw [List.eraseP_cons_of_pos (by simpa using hx)] at he
      intro h
      exact hl.1 (List.mem_map.mpr ⟨e, he, h.trans hx.symm⟩)
    · rw [List.eraseP_cons_of_neg (by simpa using hx)] at he
      rcases List.mem_cons.mp he with rfl | he
      · exact hx
      · exact seq_ne_of_mem_eraseP hl.2 e he

section
variable {r : RecvSide}

/-- Data taken in at `rcvNxt` that no parked entry starts inside of. -/
theorem Loose.absorb (h : Loose r) {payload : Bytes} {fin : Bool}
    (hclear : ∀ e ∈ r.reassembly, payload.length + fin.toNat ≤ (e.seq - r.rcvNxt).toNat) :
    Loose (r.absorb payload fin) := by
  refine ⟨h.room, fun e he => ?_, h.distinct⟩
  have hd := h.window e he
  have hn := hclear e he
  show (e.seq - (r.rcvNxt + BitVec.ofNat 32 _)).toNat < r.rcvWnd.toNat
  rw [toNat_sub_add_ofNat hn]
  omega

/-- A distance that is positive but not inside reaches past the end. -/
theorem le_of_not_inside {a s : Seq} {n : ℕ} (hne : s ≠ a) (h : ¬ Inside a n s) : n ≤ (s - a).toNat := by
  have hpos := toNat_sub_pos hne
  unfold Inside at h
  omega

theorem unpark_mem {e : ReassemblyEntry} (he : e ∈ r.unpark.reassembly) : e ∈ r.reassembly :=
  List.mem_of_mem_eraseP he

/-- Contiguous from the new `rcvNxt` is contiguous from the old one. -/
theorem Contig.of_unpark {e : ReassemblyEntry} (hmem : e ∈ r.reassembly) (hseq : e.seq = r.rcvNxt) {s : Seq}
    (h : Contig r.unpark.reassembly (r.rcvNxt + BitVec.ofNat 32 e.size) s) : Contig r.reassembly r.rcvNxt s := by
  have hstep := Contig.next hmem (hseq ▸ .refl : Contig r.reassembly r.rcvNxt e.seq)
  rw [hseq] at hstep
  exact hstep.trans (h.mono fun _ => unpark_mem)

theorem Loose.unpark (h : Loose r) : Loose r.unpark :=
  ⟨(List.length_eraseP_le).trans h.room, fun e he => h.window e (unpark_mem he),
    h.distinct.sublist ((List.eraseP_sublist).map _)⟩

/-- The loop ends with every entry ahead of `rcvNxt`. -/
theorem Loose.drain : ∀ (n : ℕ) (r : RecvSide), Loose r → r.reassembly.length ≤ n →
    NoOverlap r.reassembly r.rcvNxt → Orderly (r.drain n)
  | 0, r, h, hn, _ => by
    have hnil : r.reassembly = [] := List.length_eq_zero_iff.mp (Nat.le_zero.mp hn)
    exact ⟨h.room, by simp [RecvSide.drain, hnil], h.distinct⟩
  | n + 1, r, h, hn, hno => by
    rw [RecvSide.drain]
    cases hf : r.reassembly.find? r.isNext with
    | none =>
      -- nothing starts at `rcvNxt`, so all distances are positive
      refine ⟨h.room, fun e he => ⟨?_, h.window e he⟩, h.distinct⟩
      have hne : ¬ e.seq = r.rcvNxt := by
        simpa [RecvSide.isNext] using List.find?_eq_none.mp hf e he
      exact toNat_sub_pos hne
    | some e =>
      obtain ⟨hmem, hseq⟩ := RecvSide.next_of_find hf
      have hlen : r.unpark.reassembly.length + 1 = r.reassembly.length := by
        have hpos : 0 < r.reassembly.length := List.length_pos_of_mem hmem
        have := List.length_eraseP_of_mem hmem (show r.isNext e = true by
          simp [RecvSide.isNext, hseq])
        rw [RecvSide.unpark, this]
        omega
      -- the entry taken in has no other starting inside it
      have hclear : ∀ e' ∈ r.unpark.reassembly,
          e.payload.length + e.fin.toNat ≤ (e'.seq - r.unpark.rcvNxt).toNat := by
        intro e' he'
        have hnot := hno e hmem (hseq ▸ .refl) e' (unpark_mem he')
        rw [hseq] at hnot
        exact le_of_not_inside (seq_ne_of_mem_eraseP h.distinct e' he') hnot
      refine Loose.drain n _ (h.unpark.absorb hclear) (by show r.unpark.reassembly.length ≤ n; omega) ?_
      intro e₁ he₁ hcon e₂ he₂
      exact hno e₁ (unpark_mem he₁) (.of_unpark hmem hseq hcon) e₂ (unpark_mem he₂)

theorem Orderly.loose (h : Orderly r) : Loose r :=
  ⟨h.room, fun e he => (h.window e he).2, h.distinct⟩

/-- **`acceptSegmentLocked`** keeps the invariant on a tidy segment. -/
theorem Orderly.accept (h : Orderly r) {seq : Seq} {payload : Bytes} {fin : Bool}
    (ht : Tidy r seq payload fin) : Orderly (r.accept seq payload fin) := by
  unfold RecvSide.accept
  split_ifs with hnext hahead
  · obtain ⟨hin, hno⟩ := ht.next hnext
    have hclear : ∀ e ∈ r.reassembly, payload.length + fin.toNat ≤ (e.seq - r.rcvNxt).toNat := by
      intro e he
      have h1 := hin e he
      have h2 := (h.window e he).1
      unfold Inside at h1
      omega
    exact Loose.drain _ _ (h.loose.absorb hclear) le_rfl hno
  · obtain ⟨hwin, hne⟩ := ht.parked hahead.1 hahead.2
    refine ⟨?_, ?_, ?_⟩
    · simp only [RecvSide.park, List.length_append, List.length_singleton]
      omega
    · intro e he
      rcases List.mem_append.mp he with he | he
      · exact h.window e he
      · obtain rfl := List.mem_singleton.mp he
        exact hwin
    · simp only [RecvSide.park, List.map_append, List.map_cons, List.map_nil]
      rw [List.nodup_append]
      refine ⟨h.distinct, List.nodup_singleton _, ?_⟩
      intro s hs s' hs'
      obtain ⟨e, he, rfl⟩ := List.mem_map.mp hs
      obtain rfl := List.mem_singleton.mp hs'
      exact hne e he
  · exact h

end

/-! ## Runs -/

/-- The invariant of a connection; nothing is parked before the handshake. -/
structure OrderlyConn (c : TCP4Conn) : Prop where
  recv : Orderly c.toRecvSide
  synSent : c.state = .synSent → c.reassembly = []

/-- **Step lemma.** -/
theorem OrderlyConn.step {c : TCP4Conn} {e : ConnEvent} (h : OrderlyConn c) (ht : TidyStep c e) :
    OrderlyConn (c.after e) := by
  have hstep := c.after_step e
  generalize c.after e = c' at hstep ⊢
  cases hstep with
  | deliver hstep =>
    cases hstep with
    | idle hr hs => exact ⟨hr ▸ h.recv, fun h' => by rw [hr]; exact h.synSent (hs h')⟩
    | handshake hs hs' hr =>
      have hnil : c'.reassembly = [] := by rw [hr]; exact h.synSent hs
      exact ⟨⟨by simp [hnil], by simp [hnil], by simp [hnil]⟩, fun _ => hnil⟩
    | data hs hs' htakes hr => exact ⟨hr ▸ h.recv.accept (ht htakes), fun h' => absurd h' hs'⟩
  | read hr hs =>
    exact ⟨hr ▸ ⟨h.recv.room, h.recv.window, h.recv.distinct⟩,
      fun h' => by rw [hr]; exact h.synSent (hs ▸ h')⟩
  | send hr hs => exact ⟨hr ▸ h.recv, fun h' => by rw [hr]; exact h.synSent (hs h')⟩

/-- **The reassembly table stays orderly** in every state of a run of tidy segments. -/
theorem orderly_run (iss : Seq) (es : List ConnEvent)
    (hes : RunMeets TCP4Conn.after TidyStep (.dialed iss) es) :
    ∀ es', es' <+: es → Orderly (runFrom TCP4Conn.after (.dialed iss) es').toRecvSide := by
  intro es' hp
  have hinit : OrderlyConn (TCP4Conn.dialed iss) :=
    ⟨⟨Nat.zero_le _, by simp [TCP4Conn.dialed], by simp [TCP4Conn.dialed]⟩, fun _ => rfl⟩
  exact (RunMeets.invariant (fun _ _ h ht => OrderlyConn.step h ht) hinit hes es' hp).recv

/-- The handshake, then one byte at `seq`; the connection expects 1. -/
def gapRun (seq : Seq) : List ConnEvent :=
  [.deliver ⟨0, 1, tcpFlagSYN ||| tcpFlagACK, 65535⟩ [], .deliver ⟨seq, 1, tcpFlagACK, 65535⟩ [7]]

/-- Two places ahead, inside the window, that is a tidy run. -/
theorem orderly_run_gap :
    (runFrom TCP4Conn.after (.dialed 0) (gapRun 3)).reassembly = [⟨3, [7], false⟩] ∧
    Orderly (runFrom TCP4Conn.after (.dialed 0) (gapRun 3)).toRecvSide := by
  refine ⟨by decide, orderly_run 0 (gapRun 3) ⟨?_, ?_, trivial⟩ _ List.prefix_rfl⟩
  · intro h
    exact absurd h (by decide)
  · intro _
    refine ⟨fun h => absurd h (by decide), fun _ _ => ⟨by decide, fun e he => ?_⟩⟩
    exact absurd he List.not_mem_nil

/-- Nothing is dropped for lying past the window: 40000 bytes ahead, a segment is parked. -/
theorem orderly_run_broken :
    ¬ ∀ (iss : Seq) (es : List ConnEvent),
      Orderly (runFrom TCP4Conn.after (.dialed iss) es).toRecvSide := by
  intro h
  have hw := (h 0 (gapRun 40001)).window ⟨40001, [7], false⟩ (by decide)
  exact absurd hw.2 (by decide)

end TamagoUefi.Net
