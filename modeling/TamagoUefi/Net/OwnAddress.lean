import TamagoUefi.Lib.Run
import TamagoUefi.Net.Sources

/-!
# TamagoUefi.Net.OwnAddress — the stack sends from its own address (`stack.go`, `ipv4.go`)

What happens to a stack is a sequence of actions: it is configured, it receives a frame, a call sends
a packet or changes a table.  A call of the API is several of them, with the frames that its loop
receives in between; the RX goroutine receives frames at any time.

* `Action`, `Node.act`: the actions, each with the frames that it hands to the link.
* `Node.good_act`, `Node.Inv.handed`: one action, and a run of them.
* `Node.handed_own`: in a run in which every echo request that is received is for the local address,
  every frame is an own one.
* `Node.exists_run_calls`: sequences of calls are such runs, with the same frames, whatever they are.
-/

namespace TamagoUefi.Net

open Go Lib Stack

/-! ## Configuration -/

def RouteTable.setLocal (r : RouteTable) (addr mask : Bytes) : Except NetErr RouteTable :=
  match to4 addr with
  | none => .error .ipv4InvalidIP
  | some a4 =>
    if mask.length ≠ 4 then .error .ipv4InvalidIP
    else .ok { r with localIP := some a4, mask := some mask }

def RouteTable.setGateway (r : RouteTable) : Option Bytes → Except NetErr RouteTable
  | none => .ok { r with gateway := none }
  | some gw =>
    match to4 gw with
    | none => .error .ipv4InvalidIP
    | some g4 => .ok { r with gateway := some g4 }

namespace Stack

/-- `New`, for a link with its MAC, the answers it will give and the rounds of `resolveARP`. -/
def new (mac : Bytes) (arpRounds : ℕ) (polls : List (Option Bytes)) (sendErr : Bytes → Option Bytes) :
    Stack where
  closed := false
  mac := mac
  route := ⟨none, none, none⟩
  arpCache _ := none
  pings _ := none
  udp4Conns _ := none
  tcp4Conns _ := none
  ipID := 0
  arpRounds := arpRounds
  polls := polls
  sendErr := sendErr

/-- The calls that change the route table. -/
def setRoute (st : Stack) (r : Except NetErr RouteTable) : Outcome Unit :=
  if st.closed then st.give (.error .stackClosed)
  else (st.give r).andThen fun st route => { st with route := route }.done

def setIPv4Address (st : Stack) (addr mask : Bytes) : Outcome Unit :=
  st.setRoute (st.route.setLocal addr mask)

def setDefaultGateway (st : Stack) (gw : Option Bytes) : Outcome Unit :=
  st.setRoute (st.route.setGateway gw)

end Stack

/-! ## What can happen -/

structure Node where
  stack : Stack
  /-- The connections that were dialed, whether they are still in the table or not. -/
  dialed : List Endpoints

/-- What happens to a stack between two points at which another goroutine may run. -/
inductive Action
  | setIPv4Address (addr mask : Bytes)
  | setDefaultGateway (gw : Option Bytes)
  | setARPTimeout (rounds : ℕ)
  | closeStack
  /-- `RecvFrame` and `dispatch`, by the RX goroutine or by the loop of a call. -/
  | receive
  /-- `WriteTo` -/
  | sendUDP4 (srcPort dstPort : UInt16) (dst payload : Bytes)
  /-- `PingOnce` registers its channel, takes two identifications and sends. -/
  | registerPing (key : UInt32)
  | sendEcho (dst4 payload : Bytes) (id seq : UInt16)
  /-- A dial registers its connection, which has the local address. -/
  | register (localPort : UInt16) (dst4 : Bytes) (port : UInt16) (conn : TCP4Conn)
  /-- A connection that was dialed sends a segment, whichever. -/
  | segment (c : TCP4Entry) (seg : Segment)
  /-- A call changes the state of a connection in the table. -/
  | update (port : UInt16) (conn : TCP4Conn)
  | release (port : UInt16)
  | setUDP4 (port : UInt16) (c : Option UDP4Conn)
  | setPing (key : UInt32) (w : Option PingWaiter)

/-- The calls that configure the stack; the others are made in the calls that use it, and by the RX
goroutine. -/
def Action.configures : Action → Bool
  | .setIPv4Address .. | .setDefaultGateway .. | .setARPTimeout .. | .closeStack => true
  | _ => false

namespace Node

def perform {α : Type} (n : Node) (o : Outcome α) : Node × List Bytes :=
  ({ n with stack := o.stack }, frames o.effects)

def setStack (n : Node) (st : Stack) : Node × List Bytes := ({ n with stack := st }, [])

/-- An action, with the frames that are handed to the link. -/
def act (n : Node) : Action → Node × List Bytes
  | .setIPv4Address addr mask => n.perform (n.stack.setIPv4Address addr mask)
  | .setDefaultGateway gw => n.perform (n.stack.setDefaultGateway gw)
  | .setARPTimeout rounds => n.setStack { n.stack with arpRounds := rounds }
  | .closeStack => n.setStack { n.stack with closed := true }
  | .receive =>
    match n.stack.recvFrame with
    | (none, st) => n.setStack st
    | (some rx, st) => n.perform (st.dispatch rx)
  | .sendUDP4 srcPort dstPort dst payload => n.perform (n.stack.sendUDP4 srcPort dstPort dst payload)
  | .registerPing key =>
    n.setStack { n.stack with
      pings := Function.update n.stack.pings key (some ⟨none⟩)
      ipID := n.stack.ipID + 2 }
  | .sendEcho dst4 payload id seq =>
    match n.stack.route.localIP with
    | none => (n, [])
    | some src => n.perform (n.stack.sendEcho src dst4 payload id seq)
  | .register localPort dst4 port conn =>
    match n.stack.route.localIP with
    | none => (n, [])
    | some ip =>
      let c : TCP4Entry := ⟨ip, localPort, dst4, port, conn⟩
      (⟨n.stack.setTCP4 localPort (some c), c.endpoints :: n.dialed⟩, [])
  | .segment c seg =>
    if c.endpoints ∈ n.dialed then n.perform (n.stack.sendSegment c seg) else (n, [])
  | .update port conn =>
    match n.stack.tcp4Conns port with
    | none => (n, [])
    | some c => n.setStack (n.stack.setTCP4 port (some { c with conn := conn }))
  | .release port => n.setStack (n.stack.setTCP4 port none)
  | .setUDP4 port c =>
    n.setStack { n.stack with udp4Conns := Function.update n.stack.udp4Conns port c }
  | .setPing key w => n.setStack { n.stack with pings := Function.update n.stack.pings key w }

def after (n : Node) (a : Action) : Node := (n.act a).1

/-- The frames of a run, each with the node before the action that sent it. -/
def handed (n : Node) : List Action → List (Node × Bytes)
  | [] => []
  | a :: as => (n.act a).2.map (n, ·) ++ handed (n.after a) as

end Node

/-! ## Runs -/

namespace Node

/-- The local address is set once: an action does not change one that is set. -/
def KeepsAddress (n : Node) (a : Action) : Prop :=
  ∀ ip ∈ n.stack.route.localIP, (n.after a).stack.route.localIP = some ip

instance (n : Node) (a : Action) : Decidable (n.KeepsAddress a) :=
  inferInstanceAs (Decidable (∀ ip ∈ _, _))

/-- The frame that an action receives and dispatches. -/
def received (n : Node) : Action → Option Bytes
  | .receive => n.stack.recvFrame.1
  | _ => none

/-- An echo request that is received is for the local address. -/
def AnswersAsSelf (n : Node) (a : Action) : Prop :=
  ∀ frame ∈ n.received a, ∀ dst ∈ echoTarget frame, ∀ ip ∈ n.stack.route.localIP, dst = ip

instance (n : Node) (a : Action) : Decidable (n.AnswersAsSelf a) :=
  inferInstanceAs (Decidable (∀ frame ∈ _, ∀ dst ∈ _, ∀ ip ∈ _, _))

structure Inv (mac : Bytes) (n : Node) : Prop where
  kept : Kept mac n.stack.route n.dialed n.stack
  bound : Bound n.stack.route n.dialed

/-- What an action of a call does: it keeps the invariant and the routes and, if `q` holds, sends own
frames only. -/
structure Good (q : Prop) (mac : Bytes) (n : Node) (r : Node × List Bytes) : Prop where
  inv : r.1.Inv mac
  route : r.1.stack.route = n.stack.route
  own : q → ∀ frame ∈ r.2, Own mac n.stack.route.localIP frame

section
variable {q : Prop} {mac : Bytes} {n : Node} {a : Action}

theorem good_perform {α : Type} {o : Outcome α} (hb : Bound n.stack.route n.dialed)
    (ho : Emits q mac n.stack.route n.dialed o) : Good q mac n (n.perform o) := by
  have hroute : o.stack.route = n.stack.route := ho.kept.route
  refine ⟨⟨?_, ?_⟩, hroute, ho.own⟩
  · rw [perform, hroute]
    exact ho.kept
  · rw [perform, hroute]
    exact hb

theorem good_setStack (hb : Bound n.stack.route n.dialed) {st : Stack}
    (hst : Kept mac n.stack.route n.dialed st) : Good q mac n (n.setStack st) :=
  good_perform hb (emits_of_does hb hst (does_give (.ok ())))

theorem good_rest (h : n.Inv mac) : Good q mac n (n, []) := good_setStack h.bound h.kept

theorem good_register (h : n.Inv mac) {c : TCP4Entry} (hc : n.stack.route.localIP = some c.localIP)
    (port : UInt16) : Good q mac n (⟨n.stack.setTCP4 port (some c), c.endpoints :: n.dialed⟩, []) := by
  have hkept : Kept mac n.stack.route (c.endpoints :: n.dialed) n.stack :=
    ⟨h.kept.mac, h.kept.route, fun p c' hc' => List.mem_cons_of_mem _ (h.kept.tcp4Conns p c' hc')⟩
  refine ⟨⟨kept_setTCP4 hkept (fun c' hc' => ?_) port, ⟨h.bound.local_length, fun e he => ?_⟩⟩,
    rfl, fun _ _ hframe => absurd hframe List.not_mem_nil⟩
  · cases hc'
    exact List.mem_cons_self
  · rcases List.mem_cons.mp he with rfl | he
    · exact hc
    · exact h.bound.dialed_from e he

/-- **One action** of a call, or of the RX goroutine. -/
theorem good_act (h : n.Inv mac) (ha : a.configures = false) : Good (n.AnswersAsSelf a) mac n (n.act a) := by
  have hk := h.kept
  have hb := h.bound
  cases a with
  | setIPv4Address addr mask => cases ha
  | setDefaultGateway gw => cases ha
  | setARPTimeout rounds => cases ha
  | closeStack => cases ha
  | receive =>
    have hrecv := kept_recvFrame hk
    rw [act]
    split
    next st hst =>
      rw [hst] at hrecv
      exact good_setStack hb hrecv
    next frame st hst =>
      rw [hst] at hrecv
      have hframe : n.received .receive = some frame := congrArg Prod.fst hst
      obtain ⟨hkept, hown⟩ := emits_dispatch hb hrecv frame
      exact good_perform hb ⟨hkept, fun hself => hown (hself frame hframe)⟩
  | sendUDP4 srcPort dstPort dst payload => exact good_perform hb (emits_sendUDP4 hb hk _ _ _ _)
  | registerPing key => exact good_setStack hb (hk.congr rfl rfl rfl)
  | sendEcho dst4 payload id seq =>
    rw [act]
    split
    · exact good_rest h
    next src hsrc => exact good_perform hb (emits_sendEcho hb hk hsrc _ _ _ _)
  | register localPort dst4 port conn =>
    rw [act]
    split
    · exact good_rest h
    next ip hip => exact good_register h hip localPort
  | segment c seg =>
    rw [act]
    split_ifs with hc
    · exact good_perform hb (emits_of_does hb hk (does_sendSegment trivial (ownSource_conn hb hc) _ seg))
    · exact good_rest h
  | update port conn =>
    rw [act]
    split
    · exact good_rest h
    next c hc => exact good_setStack hb (kept_setConn hk (hk.tcp4Conns port c hc) port conn)
  | release port =>
    exact good_setStack hb (kept_setTCP4 hk (fun c hc => absurd hc (Option.not_mem_none c)) port)
  | setUDP4 port c => exact good_setStack hb (hk.congr rfl rfl rfl)
  | setPing key w => exact good_setStack hb (hk.congr rfl rfl rfl)

theorem keepsAddress_of_call (h : n.Inv mac) (ha : a.configures = false) : n.KeepsAddress a := by
  intro ip hip
  rw [after, (good_act h ha).route]
  exact hip

/-! ## Configuring -/

/-- The calls that change the route table send nothing, and may leave the table as it is. -/
theorem setRoute_cases (st : Stack) (r : Except NetErr RouteTable) :
    (st.setRoute r).effects = [] ∧ ((st.setRoute r).stack = st ∨
      ∃ route, r = .ok route ∧ (st.setRoute r).stack = { st with route := route }) := by
  unfold setRoute
  split_ifs
  · exact ⟨rfl, .inl rfl⟩
  · cases r with
    | error e => exact ⟨rfl, .inl rfl⟩
    | ok route => exact ⟨rfl, .inr ⟨route, rfl, rfl⟩⟩

theorem inv_setRoute (h : n.Inv mac) {r : Except NetErr RouteTable}
    (hlen : ∀ route, r = .ok route → ∀ ip ∈ route.localIP, ip.length = 4)
    (hkeeps : ∀ ip ∈ n.stack.route.localIP, (n.stack.setRoute r).stack.route.localIP = some ip) :
    (n.perform (n.stack.setRoute r)).1.Inv mac := by
  rw [perform]
  rcases (setRoute_cases n.stack r).2 with hstack | ⟨route, hr, hstack⟩
  · rw [hstack]
    exact h
  · rw [hstack] at hkeeps
    rw [hstack]
    refine ⟨⟨h.kept.mac, rfl, h.kept.tcp4Conns⟩, ⟨hlen route hr, fun e he => ?_⟩⟩
    exact hkeeps _ (h.bound.dialed_from e he)

variable {r route : RouteTable}

theorem length_setLocal {addr mask : Bytes}
    (h : r.setLocal addr mask = .ok route) : ∀ ip ∈ route.localIP, ip.length = 4 := by
  intro ip hip
  unfold RouteTable.setLocal at h
  split at h
  · cases h
  next a4 ha4 =>
    split_ifs at h
    cases h
    cases hip
    exact to4_length ha4

theorem localIP_setGateway {gw : Option Bytes}
    (h : r.setGateway gw = .ok route) : route.localIP = r.localIP := by
  unfold RouteTable.setGateway at h
  split at h
  · cases h
    rfl
  · split at h
    · cases h
    · cases h
      rfl

theorem act_configures (ha : a.configures = true) : (n.act a).2 = [] := by
  cases a with
  | setIPv4Address addr mask => exact congrArg frames (setRoute_cases _ _).1
  | setDefaultGateway gw => exact congrArg frames (setRoute_cases _ _).1
  | setARPTimeout rounds => rfl
  | closeStack => rfl
  | _ => cases ha

theorem inv_configures (h : n.Inv mac) (ha : a.configures = true) (hkeeps : n.KeepsAddress a) :
    (n.after a).Inv mac := by
  cases a with
  | setIPv4Address addr mask => exact inv_setRoute h (fun route hr => length_setLocal hr) hkeeps
  | setDefaultGateway gw =>
    refine inv_setRoute h (fun route hr => ?_) hkeeps
    rw [localIP_setGateway hr]
    exact h.bound.local_length
  | setARPTimeout rounds => exact ⟨h.kept.congr rfl rfl rfl, h.bound⟩
  | closeStack => exact ⟨h.kept.congr rfl rfl rfl, h.bound⟩
  | _ => cases ha

/-! ## Runs -/

theorem inv_after (h : n.Inv mac) (hkeeps : n.KeepsAddress a) : (n.after a).Inv mac := by
  cases ha : a.configures with
  | false => exact (good_act h ha).inv
  | true => exact inv_configures h ha hkeeps

theorem own_act (h : n.Inv mac) (hself : n.AnswersAsSelf a) :
    ∀ frame ∈ (n.act a).2, Own mac n.stack.route.localIP frame := by
  cases ha : a.configures with
  | false => exact (good_act h ha).own hself
  | true =>
    rw [act_configures ha]
    exact fun _ hframe => absurd hframe List.not_mem_nil

/-- What is sent in a run, by induction over its actions. -/
theorem Inv.handed : ∀ {as : List Action} {n : Node}, n.Inv mac →
    RunMeets after KeepsAddress n as → RunMeets after AnswersAsSelf n as →
    ∀ p ∈ n.handed as, Own mac p.1.stack.route.localIP p.2
  | [], _, _, _, _, p, hp => absurd hp List.not_mem_nil
  | a :: as, n, h, hkeeps, hself, p, hp => by
    rw [Node.handed, List.mem_append, List.mem_map] at hp
    rcases hp with ⟨frame, hframe, rfl⟩ | hp
    · exact own_act h hself.1 frame hframe
    · exact Inv.handed (inv_after h hkeeps.1) hkeeps.2 hself.2 p hp

end

/-- A node at the start, for a link. -/
def start (mac : Bytes) (arpRounds : ℕ) (polls : List (Option Bytes)) (sendErr : Bytes → Option Bytes) :
    Node := ⟨new mac arpRounds polls sendErr, []⟩

theorem inv_start (mac : Bytes) (arpRounds : ℕ) (polls : List (Option Bytes))
    (sendErr : Bytes → Option Bytes) : (start mac arpRounds polls sendErr).Inv mac where
  kept := ⟨rfl, rfl, fun _ c hc => absurd hc (Option.not_mem_none c)⟩
  bound := ⟨fun ip hip => absurd hip (Option.not_mem_none ip), fun _ he => absurd he List.not_mem_nil⟩

/-- **The stack sends from its own address**: for every link, whatever it receives and fails to send,
and every sequence of actions in which the local address is set once and in which the echo requests
that are received are for it, every frame that is handed to the link is an own one. -/
theorem handed_own (mac : Bytes) (arpRounds : ℕ) (polls : List (Option Bytes))
    (sendErr : Bytes → Option Bytes) (as : List Action)
    (hkeeps : RunMeets after KeepsAddress (start mac arpRounds polls sendErr) as)
    (hself : RunMeets after AnswersAsSelf (start mac arpRounds polls sendErr) as) :
    ∀ p ∈ (start mac arpRounds polls sendErr).handed as, Own mac p.1.stack.route.localIP p.2 :=
  (inv_start mac arpRounds polls sendErr).handed hkeeps hself

/-- 10.0.2.2 asks for the MAC of 10.0.2.15. -/
def arpRequest : Bytes :=
  broadcastMAC ++ [0x52, 0x55, 10, 0, 2, 2] ++ putU16 etherTypeARP ++
    [0, 1, 8, 0, 6, 4, 0, 1, 0x52, 0x55, 10, 0, 2, 2, 10, 0, 2, 2, 0, 0, 0, 0, 0, 0, 10, 0, 2, 15]

/-- A link on which 10.0.2.2 asks for 10.0.2.15 and then sends it an echo request. -/
def asked : Node :=
  start nicMAC 1
    [some arpRequest, some (etherFrame broadcastMAC broadcastMAC echoRequest)] fun _ => none

/-- The address is set and both frames are received. -/
def answering (ip : Bytes) : List Action := [.setIPv4Address ip [255, 255, 255, 0], .receive, .receive]

/-- With the address 10.0.2.15 the stack answers both. -/
theorem handed_own_answers :
    RunMeets after KeepsAddress asked (answering [10, 0, 2, 15]) ∧
      RunMeets after AnswersAsSelf asked (answering [10, 0, 2, 15]) ∧
      (asked.handed (answering [10, 0, 2, 15])).length = 2 ∧
      ∀ p ∈ asked.handed (answering [10, 0, 2, 15]),
        Own nicMAC p.1.stack.route.localIP p.2 := by
  have hkeeps : RunMeets after KeepsAddress asked (answering [10, 0, 2, 15]) := by decide +kernel
  have hself : RunMeets after AnswersAsSelf asked (answering [10, 0, 2, 15]) := by decide +kernel
  exact ⟨hkeeps, hself, by decide +kernel, handed_own _ _ _ _ _ hkeeps hself⟩

/-- With the address 10.0.2.20 it answers the echo request too, as 10.0.2.15. -/
theorem handed_foreign :
    RunMeets after KeepsAddress asked (answering [10, 0, 2, 20]) ∧
      ∃ p ∈ asked.handed (answering [10, 0, 2, 20]),
        p.1.stack.route.localIP = some [10, 0, 2, 20] ∧
          ¬ Own nicMAC p.1.stack.route.localIP p.2 := by
  decide +kernel

/-! ## The calls -/

variable {dialed : List Endpoints}

/-- A step of a call is an action of the node, with the frames it sends, or does not touch the stack. -/
theorem exists_action {h h' : Host} (hstep : Host.Step h h') {mac : Bytes}
    (hinv : Inv mac ⟨h.stack, dialed⟩) : (h'.stack = h.stack ∧ h'.sent = h.sent) ∨ ∃ a dialed' fs,
      a.configures = false ∧ act ⟨h.stack, dialed⟩ a = (⟨h'.stack, dialed'⟩, fs) ∧
        h'.sent = h.sent ++ fs := by
  have hnone : h.sent = h.sent ++ [] := (List.append_nil _).symm
  cases hstep with
  | receive =>
    rw [recvRound]
    rcases hrecv : h.stack.recvFrame with ⟨_ | rx, st⟩
    · exact .inr ⟨.receive, dialed, [], rfl, by rw [act, hrecv]; rfl, hnone⟩
    · exact .inr ⟨.receive, dialed, _, rfl, by rw [act, hrecv]; rfl, rfl⟩
  | sendUDP4 srcPort dstPort dst payload =>
    exact .inr ⟨.sendUDP4 srcPort dstPort dst payload, dialed, _, rfl, rfl, rfl⟩
  | sendEcho dst4 payload id seq hsrc =>
    exact .inr ⟨.sendEcho dst4 payload id seq, dialed, _, rfl, by rw [act, hsrc]; rfl, rfl⟩
  | sendSegment c seg hc =>
    obtain ⟨port, c', hc', hend⟩ := hc
    refine .inr ⟨.segment c seg, dialed, _, rfl, ?_, rfl⟩
    rw [act, ← hend, if_pos (hinv.kept.tcp4Conns port c' hc')]
    rfl
  | register c hc =>
    exact .inr ⟨.register c.localPort c.remoteIP c.remotePort c.conn, c.endpoints :: dialed, [], rfl,
      by rw [act, hc], hnone⟩
  | update port conn hc => exact .inr ⟨.update port conn, dialed, [], rfl, by rw [act, hc]; rfl, hnone⟩
  | release port => exact .inr ⟨.release port, dialed, [], rfl, rfl, hnone⟩
  | setUDP4 port c => exact .inr ⟨.setUDP4 port c, dialed, [], rfl, rfl, hnone⟩
  | setPing key w => exact .inr ⟨.setPing key w, dialed, [], rfl, rfl, hnone⟩
  | registerPing key => exact .inr ⟨.registerPing key, dialed, [], rfl, rfl, hnone⟩
  | setRover rover => exact .inl ⟨rfl, rfl⟩

/-- None of the actions configures the stack, and so none changes its address. -/
def Calls (n : Node) (as : List Action) : Prop :=
  (∀ a ∈ as, Action.configures a = false) ∧ RunMeets after KeepsAddress n as

theorem Calls.snoc {n : Node} {as : List Action} {a : Action} (h : n.Calls as)
    (ha : a.configures = false) (hkeeps : (runFrom after n as).KeepsAddress a) : n.Calls (as ++ [a]) := by
  refine ⟨fun b hb => ?_, runMeets_append.mpr ⟨h.2, hkeeps, trivial⟩⟩
  rcases List.mem_append.mp hb with hb | hb
  · exact h.1 b hb
  · rw [List.mem_singleton.mp hb]
    exact ha

theorem handed_concat (n : Node) (a : Action) : ∀ as : List Action,
    (n.handed (as ++ [a])).map Prod.snd =
      (n.handed as).map Prod.snd ++ ((runFrom after n as).act a).2
  | [] => by simp [handed]
  | b :: as => by
    rw [List.cons_append, handed, handed, List.map_append, List.map_append, handed_concat _ a as,
      List.append_assoc, runFrom_cons]

/-- By induction over the steps; the invariant says that the connections in the table were dialed. -/
theorem exists_run {h h' : Host} (hsteps : Host.Steps h h') {mac : Bytes}
    (hinv : Inv mac ⟨h.stack, dialed⟩) : ∃ as dialed', Calls ⟨h.stack, dialed⟩ as ∧
      runFrom after ⟨h.stack, dialed⟩ as = ⟨h'.stack, dialed'⟩ ∧
      h'.sent = h.sent ++ (handed ⟨h.stack, dialed⟩ as).map Prod.snd ∧ Inv mac ⟨h'.stack, dialed'⟩ := by
  induction hsteps with
  | refl =>
    exact ⟨[], dialed, ⟨fun _ ha => absurd ha List.not_mem_nil, trivial⟩, rfl,
      (List.append_nil _).symm, hinv⟩
  | tail _ hstep ih =>
    obtain ⟨as, dialed', has, hrun, hsent, hinv'⟩ := ih
    rcases exists_action hstep hinv' with ⟨hsame, hquiet⟩ | ⟨a, dialed'', fs, ha, hact, hfs⟩
    · rw [hsame, hquiet]
      exact ⟨as, dialed', has, hrun, hsent, hinv'⟩
    · have hafter := congrArg Prod.fst hact
      have hgood := (good_act hinv' ha).inv
      rw [hact] at hgood
      refine ⟨as ++ [a], dialed'', has.snoc ha ?_, ?_, ?_, hgood⟩
      · rw [hrun]
        exact keepsAddress_of_call hinv' ha
      · rw [runFrom_append, hrun]
        exact hafter
      · rw [handed_concat, hrun, hact, hfs, hsent, List.append_assoc]

/-- **Calls are runs**: whatever calls are made, some actions lead to the same stack and hand the same
frames to the link, and none of them configures the stack. -/
theorem exists_run_calls (h : Host) (calls : List ApiCall) {mac : Bytes}
    (hinv : Inv mac ⟨h.stack, dialed⟩) : ∃ as dialed', Calls ⟨h.stack, dialed⟩ as ∧
      runFrom after ⟨h.stack, dialed⟩ as = ⟨(runFrom Host.after h calls).stack, dialed'⟩ ∧
      (runFrom Host.after h calls).sent = h.sent ++ (handed ⟨h.stack, dialed⟩ as).map Prod.snd ∧
      Inv mac ⟨(runFrom Host.after h calls).stack, dialed'⟩ :=
  exists_run (h.steps_run calls) hinv

/-- A stack at 10.0.2.15/24 with the frames of `asked` on its link. -/
def neighbour : Stack :=
  { asked.stack with
    route := ⟨some [10, 0, 2, 15], some [255, 255, 255, 0], none⟩
    arpRounds := 2 }

/-- A ping sends two ARP packets, its echo request and the answer to one that comes in. -/
theorem exists_run_calls_ping :
    (runFrom Host.after (.start neighbour 0) [.pingOnce [10, 0, 2, 2] [] 1]).sent.length = 4 ∧
      ∃ as dialed', Calls ⟨neighbour, []⟩ as ∧ runFrom after ⟨neighbour, []⟩ as =
        ⟨(runFrom Host.after (.start neighbour 0) [.pingOnce [10, 0, 2, 2] [] 1]).stack, dialed'⟩ ∧
      (runFrom Host.after (.start neighbour 0) [.pingOnce [10, 0, 2, 2] [] 1]).sent =
        (handed ⟨neighbour, []⟩ as).map Prod.snd := by
  have hinv : Inv nicMAC ⟨neighbour, []⟩ :=
    ⟨⟨rfl, rfl, fun _ c hc => absurd hc (Option.not_mem_none c)⟩,
      ⟨by simp [neighbour], fun _ he => absurd he List.not_mem_nil⟩⟩
  obtain ⟨as, dialed', has, hrun, hsent, -⟩ :=
    exists_run_calls (.start neighbour 0) [.pingOnce [10, 0, 2, 2] [] 1] hinv
  exact ⟨by decide +kernel, as, dialed', has, hrun, hsent⟩

end Node

end TamagoUefi.Net
