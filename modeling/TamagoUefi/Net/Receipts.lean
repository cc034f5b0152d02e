import TamagoUefi.Net.CallSteps

/-!
# TamagoUefi.Net.Receipts — no packet is lost, except in `resolveARP`

What comes off the link is either in the loop of `resolveARP`, or is dispatched, which passes the
packet of an IPv4 frame to `handleIPv4`.  Both note it, and the notes of a call account for what the
call took off the link.  The loop of `resolveARP` passes on nothing, although its comment says that
the caller will meet the frame again.

* `Stack.Moves.tally`: a call into the stack notes the packets it takes off the link, in order.
* `accounts_run`: so does every sequence of calls.
* `none_lost_iff`: `handleIPv4` is called with every well-formed packet exactly when `resolveARP`
  received none.
-/

namespace TamagoUefi.Net

open Go Lib

/-! ## Frames taken off the link -/

/-- The frames among the polls that are gone. -/
def taken (before after : List (Option Bytes)) : List Bytes :=
  (before.take (before.length - after.length)).reduceOption

section
variable {a b c : List (Option Bytes)}

theorem taken_self (a : List (Option Bytes)) : taken a a = [] := by
  rw [taken, Nat.sub_self, List.take_zero]
  rfl

theorem taken_append (p a : List (Option Bytes)) : taken (p ++ a) a = p.reduceOption := by
  rw [taken, List.length_append, Nat.add_sub_cancel, List.take_left]

theorem taken_cons (r : Option Bytes) (rest : List (Option Bytes)) : taken (r :: rest) rest = r.toList :=
  (taken_append [r] rest).trans (by cases r <;> rfl)

theorem taken_trans (h₁ : b <:+ a) (h₂ : c <:+ b) : taken a c = taken a b ++ taken b c := by
  obtain ⟨p, rfl⟩ := h₁
  obtain ⟨q, rfl⟩ := h₂
  rw [taken_append, taken_append, ← List.append_assoc, taken_append, List.reduceOption_append]

end

/-! ## Packets -/

/-- The packet that `dispatch` passes to `handleIPv4`. -/
def ipv4Payload (frame : Bytes) : Option Bytes :=
  match parseEthernet frame with
  | .ok eth => if eth.etherType = etherTypeIPv4 then some eth.payload else none
  | .error _ => none

theorem dispatch_of_ipv4Payload (st : Stack) {frame p : Bytes} (h : ipv4Payload frame = some p) :
    st.dispatch frame = st.handleIPv4 p := by
  unfold ipv4Payload at h
  split at h
  next eth heth =>
    split_ifs at h with htype
    obtain rfl := Option.some.inj h
    exact st.dispatch_ipv4 heth htype
  · cases h

/-- The packet of a frame that holds a well-formed one. -/
def wellFormed (frame : Bytes) : Option Bytes :=
  (ipv4Payload frame).filter fun p => (parseIPv4 p).toBool

namespace Receipt

/-- The packet that `handleIPv4` was called with. -/
def passed : Receipt → Option Bytes
  | .handled p => some p
  | .inARP _ => none

/-- The well-formed packet of which this is the receipt. -/
def packet : Receipt → Option Bytes
  | .handled p => (some p).filter fun p => (parseIPv4 p).toBool
  | .inARP f => wellFormed f

end Receipt

namespace Stack

/-- Frames were taken from the front of the link, and the packets in them noted. -/
structure Tally (polls polls' : List (Option Bytes)) (receipts : List Receipt) : Prop where
  suffix : polls' <:+ polls
  packets : receipts.filterMap Receipt.packet = (taken polls polls').filterMap wellFormed

section
variable {polls polls' polls'' : List (Option Bytes)} {rs rs' : List Receipt}

theorem Tally.refl (polls : List (Option Bytes)) : Tally polls polls [] :=
  ⟨List.suffix_rfl, by rw [taken_self]; rfl⟩

theorem Tally.trans (h : Tally polls polls' rs) (h' : Tally polls' polls'' rs') :
    Tally polls polls'' (rs ++ rs') := by
  refine ⟨h'.suffix.trans h.suffix, ?_⟩
  rw [taken_trans h.suffix h'.suffix, List.filterMap_append, List.filterMap_append, h.packets,
    h'.packets]

theorem tally_take {r : Option Bytes} (rest : List (Option Bytes))
    (hrs : rs.filterMap Receipt.packet = r.toList.filterMap wellFormed) : Tally (r :: rest) rest rs :=
  ⟨List.suffix_cons r rest, by rw [hrs, taken_cons]⟩

theorem tally_recvFrame {st st' : Stack} {r : Option Bytes} (hrecv : st.recvFrame = (r, st'))
    (hrs : rs.filterMap Receipt.packet = r.toList.filterMap wellFormed) : Tally st.polls st'.polls rs := by
  unfold recvFrame at hrecv
  split at hrecv
  · cases hrecv
    exact ⟨List.suffix_rfl, by rw [hrs, taken_self]; rfl⟩
  next rest hpolls =>
    cases hrecv
    rw [hpolls]
    exact tally_take rest hrs

/-- What a call into the stack takes, it notes. -/
theorem Moves.tally {S : Bytes → Prop} {w : Prop} {st st' : Stack} {es : List StackEffect}
    (h : Moves S w st st' es rs) : Tally st.polls st'.polls rs := by
  induction h with
  | refl st => exact .refl st.polls
  | cons hmove _ ih =>
    refine Tally.trans ?_ ih
    cases hmove with
    | take hpolls =>
      rw [hpolls]
      exact tally_take _ (by rw [List.filterMap_map]; rfl)
    | learn | sendARP | sendIPv4 | nextIPID | tell | tables | update => exact .refl _

end

section
variable (st : Stack)

theorem tally_handlePacket (pkt : Bytes) :
    Tally st.polls (st.handlePacket pkt).stack.polls (st.handlePacket pkt).receipts :=
  Moves.tally (does_handlePacket (S := fun _ => True) trivial (fun _ _ _ => trivial)
    fun _ _ _ _ _ _ => trivial)

/-- **A frame that is dispatched**: `handleIPv4` is called with its packet, if it has one. -/
theorem dispatch_receipts (frame : Bytes) : ∃ new rest,
    (st.dispatch frame).receipts = new ++ rest ∧
      new.filterMap Receipt.packet = [frame].filterMap wellFormed ∧
      Tally st.polls (st.dispatch frame).stack.polls rest := by
  cases hp : ipv4Payload frame with
  | some p =>
    have hpacket : Receipt.packet (.handled p) = wellFormed frame := by
      rw [wellFormed, hp]
      rfl
    rw [dispatch_of_ipv4Payload st hp]
    refine ⟨[.handled p], _, rfl, ?_, st.tally_handlePacket p⟩
    rw [List.filterMap_cons, List.filterMap_cons, hpacket]
    rfl
  | none =>
    have hnone : wellFormed frame = none := by
      rw [wellFormed, hp]
      rfl
    refine ⟨[], _, rfl, by rw [List.filterMap_cons, hnone]; rfl, ?_⟩
    unfold dispatch
    unfold ipv4Payload at hp
    cases heth : parseEthernet frame with
    | error e => exact .refl _
    | ok eth =>
      rw [heth] at hp
      have htype : eth.etherType ≠ etherTypeIPv4 := fun h => by simp [h] at hp
      rw [andThen_ok, if_neg htype]
      split_ifs
      · exact Moves.tally (does_handleARPFrame (S := fun _ => True) (w := True) st eth.payload)
      · exact .refl _

end

end Stack

/-! ## Every call accounts for its frames -/

/-- The log has grown by the receipts of the packets that were taken off the link. -/
structure Accounts (h h' : Host) : Prop where
  suffix : h'.stack.polls <:+ h.stack.polls
  log : ∃ new, h'.log = h.log ++ new ∧
    new.filterMap Receipt.packet = (taken h.stack.polls h'.stack.polls).filterMap wellFormed

instance : Std.Refl Accounts where
  refl h := ⟨List.suffix_rfl, [], by simp, by rw [taken_self]; rfl⟩

instance : IsTrans Host Accounts where
  trans h₁ h₂ h₃ := by
    rintro ⟨hs, new, hlog, hnew⟩ ⟨hs', new', hlog', hnew'⟩
    refine ⟨hs'.trans hs, new ++ new', ?_, ?_⟩
    · rw [hlog', hlog, List.append_assoc]
    · rw [List.filterMap_append, hnew, hnew', taken_trans hs hs', List.filterMap_append]

/-- A change that touches neither the link nor the log. -/
theorem accounts_of_eq {h h' : Host} (hp : h'.stack.polls = h.stack.polls) (hl : h'.log = h.log) :
    Accounts h h' := by
  refine ⟨by rw [hp], [], by rw [hl, List.append_nil], ?_⟩
  rw [hp, taken_self]
  rfl

theorem accounts_enter {α : Type} {h : Host} {o : Outcome α}
    (ho : Stack.Does (fun _ => True) True h.stack o) : Accounts h (h.enter o) := by
  obtain ⟨hsuffix, hpackets⟩ := Stack.Moves.tally ho
  exact ⟨hsuffix, _, rfl, hpackets⟩

theorem accounts_recvRound (h : Host) : Accounts h (recvRound h) := by
  unfold recvRound
  rcases hrecv : h.stack.recvFrame with ⟨_ | rx, st⟩
  · have htally : Stack.Tally h.stack.polls st.polls [] := Stack.tally_recvFrame hrecv rfl
    exact ⟨htally.suffix, [], by simp, htally.packets⟩
  · obtain ⟨new, rest, hreceipts, hnew, hrest⟩ := st.dispatch_receipts rx
    obtain ⟨hsuffix, hpackets⟩ := (Stack.tally_recvFrame hrecv hnew).trans hrest
    exact ⟨hsuffix, new ++ rest, by rw [← hreceipts]; rfl, hpackets⟩

theorem accounts_step {h h' : Host} (hstep : Host.Step h h') : Accounts h h' := by
  cases hstep with
  | receive => exact accounts_recvRound h
  | sendUDP4 srcPort dstPort dst payload =>
    exact accounts_enter (Stack.does_sendUDP4 trivial trivial _ _ _ _)
  | sendEcho dst4 payload id seq hsrc => exact accounts_enter (Stack.does_sendEcho trivial _ _ _ _)
  | sendSegment c seg hc => exact accounts_enter (Stack.does_sendSegment trivial trivial _ seg)
  | register | update | release | setUDP4 | setPing | registerPing | setRover =>
    exact accounts_of_eq rfl rfl

theorem accounts_steps {h h' : Host} (hsteps : Host.Steps h h') : Accounts h h' := by
  induction hsteps with
  | refl => exact Std.Refl.refl h
  | tail _ hstep ih => exact IsTrans.trans _ _ _ ih (accounts_step hstep)

/-- **The log is complete**, after every sequence of calls. -/
theorem accounts_run (h : Host) (calls : List ApiCall) : Accounts h (runFrom Host.after h calls) :=
  accounts_steps (h.steps_run calls)

/-! ## What becomes of a packet -/

/-- Of the frames that the link returned, `handleIPv4` was called with every well-formed packet, once
and in order. -/
def NoneLost (st : Stack) (h : Host) : Prop :=
  (h.log.filterMap Receipt.passed).filter (fun p => (parseIPv4 p).toBool) =
    (taken st.polls h.stack.polls).filterMap wellFormed

section
variable {α β : Type} {f g : α → Option β}

theorem length_filterMap_le (hle : ∀ a, f a = none ∨ f a = g a) :
    ∀ l : List α, (l.filterMap f).length ≤ (l.filterMap g).length
  | [] => le_rfl
  | a :: l => by
    have ih := length_filterMap_le hle l
    rw [List.filterMap_cons, List.filterMap_cons]
    rcases hle a with hnone | heq
    · rw [hnone]
      cases g a with
      | none => exact ih
      | some b => exact ih.trans (Nat.le_succ _)
    · rw [heq]
      cases g a with
      | none => exact ih
      | some b => exact Nat.succ_le_succ ih

/-- A selection that leaves something out is another. -/
theorem filterMap_eq_iff (hle : ∀ a, f a = none ∨ f a = g a) :
    ∀ {l : List α}, l.filterMap f = l.filterMap g ↔ ∀ a ∈ l, f a = g a
  | [] => by simp
  | a :: l => by
    rw [List.forall_mem_cons, ← filterMap_eq_iff hle, List.filterMap_cons, List.filterMap_cons]
    rcases hle a with hnone | heq
    · rw [hnone]
      cases g a with
      | none => simp
      | some b =>
        -- the tail cannot make up for it
        have hlen := length_filterMap_le hle l
        refine ⟨fun hcons => ?_, fun hne => by simp at hne⟩
        have hlen' := congrArg List.length hcons
        simp only [List.length_cons] at hlen'
        omega
    · rw [heq]
      cases g a <;> simp

end

/-- **No packet is lost**, in a run of calls in which the loop of `resolveARP` receives no well-formed
one; and in no other. -/
theorem none_lost_iff (st : Stack) (rover : UInt16) (calls : List ApiCall) :
    NoneLost st (runFrom Host.after (.start st rover) calls) ↔
      ∀ f, Receipt.inARP f ∈ (runFrom Host.after (.start st rover) calls).log →
        wellFormed f = none := by
  obtain ⟨-, new, hlog, hnew⟩ := accounts_run (.start st rover) calls
  rw [Host.start, List.nil_append] at hlog
  obtain rfl := hlog
  have htaken : (taken st.polls (runFrom Host.after (.start st rover) calls).stack.polls).filterMap
      wellFormed = (runFrom Host.after (.start st rover) calls).log.filterMap Receipt.packet := hnew.symm
  unfold NoneLost
  rw [htaken, List.filter_filterMap, filterMap_eq_iff]
  · constructor
    · intro h f hf
      exact (h _ hf).symm
    · intro h r hr
      cases r with
      | handled p => rfl
      | inARP f => exact (h f hr).symm
  · intro r
    cases r with
    | handled p => exact .inr rfl
    | inARP f => exact .inl rfl

/-- A stack at 10.0.2.15/24 that knows nobody, with a datagram from 10.0.2.2 on its link. -/
def newcomer : Stack where
  closed := false
  mac := List.replicate 6 0
  route := ⟨some [10, 0, 2, 15], some [255, 255, 255, 0], none⟩
  arpCache _ := none
  pings _ := none
  udp4Conns _ := none
  tcp4Conns _ := none
  ipID := 0
  arpRounds := 1
  polls := [some (etherFrame broadcastMAC broadcastMAC datagram)]
  sendErr _ := none

theorem wellFormed_datagram : wellFormed (etherFrame broadcastMAC broadcastMAC datagram) = some datagram := by
  have hpayload : ipv4Payload (etherFrame broadcastMAC broadcastMAC datagram) = some datagram := by
    rw [ipv4Payload, parseEthernet_etherFrame rfl rfl]
    exact if_pos rfl
  have hheader : HeaderOK datagram := by
    refine ⟨by decide, by decide, ?_⟩
    rw [internetChecksum_eq]
    decide
  have hparse := parseIPv4_eq_ok.mpr ⟨by decide, hheader, by decide, rfl⟩
  rw [wellFormed, hpayload, Option.filter_some, hparse]
  rfl

/-- A `WriteTo` that has to ask for the address of its destination loses the datagram. -/
theorem datagram_lost :
    ¬ NoneLost newcomer (runFrom Host.after (.start newcomer 0)
      [.openUDP4 49152, .writeTo 49152 [10, 0, 2, 2] 53 []]) := by
  intro hnone
  have hlog : (runFrom Host.after (.start newcomer 0)
      [.openUDP4 49152, .writeTo 49152 [10, 0, 2, 2] 53 []]).log =
        [.inARP (etherFrame broadcastMAC broadcastMAC datagram)] := rfl
  have htaken : taken newcomer.polls (runFrom Host.after (.start newcomer 0)
      [.openUDP4 49152, .writeTo 49152 [10, 0, 2, 2] 53 []]).stack.polls =
        [etherFrame broadcastMAC broadcastMAC datagram] := rfl
  unfold NoneLost at hnone
  rw [hlog, htaken, List.filterMap_cons, List.filterMap_cons, wellFormed_datagram] at hnone
  cases hnone

end TamagoUefi.Net
