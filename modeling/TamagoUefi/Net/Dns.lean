import Mathlib.Data.List.Basic
import TamagoUefi.Go.Strings

/-!
# TamagoUefi.Net.Dns — the A-record resolver (`dns.go`)

`resolveA` sends one query and takes the first datagram that `parseDNSAnswerForA` does not call
malformed.  It looks at the transaction ID of a datagram, never at its source.

* `parseDNSName`, `parseDNSAnswerForA`: names with compression pointers, the walk over the answers.
* `readLabels_fuel`: the bound on the label loop is never reached.
* `parseDNSAnswerForA_wrongID`: a datagram with another ID is ignored.
* `resolveA_insert_iff`: inserting foreign datagrams changes nothing exactly when those that come
  with the right ID are malformed, late, or say what the server says.
-/

namespace TamagoUefi.Net

open Go

inductive DnsErr
  | timeout
  | badFormat
  | emptyAnswer
  | rcode
  | nameTooLong
  | labelTooLong
  | compressLoop
  | invalidServer
  | stackClosed
  | udpPortInUse
  /-- An error of `WriteTo`. -/
  | write (text : Bytes)
  deriving DecidableEq

/-! ## The query -/

/-- `binary.BigEndian.Uint16(pkt[off:off+2])`. -/
def u16 (pkt : Bytes) (off : ℕ) : UInt16 :=
  (pkt.getD off 0).toUInt16 <<< 8 ||| (pkt.getD (off + 1) 0).toUInt16

/-- `binary.BigEndian.PutUint16`. -/
def putU16 (n : UInt16) : Bytes := [(n >>> 8).toUInt8, n.toUInt8]

def dnsHeaderLen : ℕ := 12
def dnsTypeA : UInt16 := 1
def dnsClassIN : UInt16 := 1
def dnsFlagResponse : UInt16 := 0x8000
def dnsFlagRD : UInt16 := 0x0100
def dnsRcodeMask : UInt16 := 0x000F
def dnsMaxLabelLen : ℕ := 63
def dnsMaxNameLen : ℕ := 255
def dnsClientPortLow : UInt16 := 49152
def dnsQueryRoot : UInt16 := 0x4D53

def dnsIDFromMAC (mac : Bytes) (seed salt : UInt16) : UInt16 :=
  if mac.length < 6 then seed ^^^ salt else seed ^^^ salt ^^^ u16 mac 0 ^^^ u16 mac 4

/-- `strings.TrimSuffix(name, ".")`. -/
def trimDot (name : Bytes) : Bytes :=
  if name.getLast? = some '.'.toUInt8 then name.dropLast else name

def encodeDNSName (name : Bytes) : Except DnsErr Bytes :=
  let name := trimDot name
  if name.isEmpty then .ok [0]
  else
    let labels := name.splitOn '.'.toUInt8
    if labels.any (dnsMaxLabelLen < ·.length) then .error .labelTooLong
    else if dnsMaxNameLen < 1 + (labels.map (1 + ·.length)).sum then .error .nameTooLong
    else .ok (labels.flatMap (fun l => UInt8.ofNat l.length :: l) ++ [0])

def buildDNSQuery (id : UInt16) (name : Bytes) : Except DnsErr Bytes := do
  let qname ← encodeDNSName name
  pure (putU16 id ++ putU16 dnsFlagRD ++ putU16 1 ++ [0, 0, 0, 0, 0, 0] ++ qname ++
    putU16 dnsTypeA ++ putU16 dnsClassIN)

/-! ## The reply -/

/-- How the labels of a name end: at a zero byte, with the offset after it, or at a compression
pointer, with its offset and its target. -/
inductive NameEnd
  | zero (after : ℕ)
  | pointer (off target : ℕ)
  deriving DecidableEq

/-- The labels from an offset up to a zero byte or a pointer. -/
def readLabels (pkt : Bytes) : ℕ → ℕ → Except DnsErr (List Bytes × NameEnd)
  | 0, _ => .error .badFormat
  | fuel + 1, off =>
    match pkt[off]? with
    | none => .error .badFormat
    | some b =>
      if b = 0 then .ok ([], .zero (off + 1))
      else if b &&& 0xC0 = 0xC0 then
        if pkt.length ≤ off + 1 then .error .badFormat
        else .ok ([], .pointer off (u16 pkt off &&& 0x3FFF).toNat)
      -- the label types 01 and 10 are read as long labels
      else if pkt.length < b.toNat + off + 1 then .error .badFormat
      else do
        let (labels, e) ← readLabels pkt fuel (off + 1 + b.toNat)
        pure ((pkt.drop (off + 1)).take b.toNat :: labels, e)

/-- A name, with `hops` pointers left to follow: its labels, and the offset after it. -/
def readName (pkt : Bytes) : ℕ → ℕ → Except DnsErr (List Bytes × ℕ)
  | hops, off => do
    let (labels, e) ← readLabels pkt (pkt.length + 1) off
    match e, hops with
    | .zero after, _ => pure (labels, after)
    | .pointer _ _, 0 => throw .compressLoop
    | .pointer p target, hops + 1 => do
      let (more, _) ← readName pkt hops target
      pure (labels ++ more, p + 2)

def dnsMaxPointers : ℕ := 16

/-- The dotted name at `start`, and the offset after it. -/
def parseDNSName (pkt : Bytes) (start : ℕ) : Except DnsErr (Bytes × ℕ) :=
  if pkt.length ≤ start then .error .badFormat
  else do
    let (labels, after) ← readName pkt dnsMaxPointers start
    pure ((str ".").intercalate labels, after)

/-- Skip `n` entries of the question section. -/
def skipQuestions (pkt : Bytes) : ℕ → ℕ → Except DnsErr ℕ
  | 0, off => .ok off
  | n + 1, off => do
    let (_, next) ← parseDNSName pkt off
    if pkt.length < next + 4 then throw .badFormat else skipQuestions pkt n (next + 4)

/-- The first A record among `n` answers. -/
def walkAnswers (pkt : Bytes) : ℕ → ℕ → Except DnsErr Bytes
  | 0, _ => .error .emptyAnswer
  | n + 1, off => do
    let (_, next) ← parseDNSName pkt off
    if pkt.length < next + 10 then throw .badFormat
    else
      let rdlen := (u16 pkt (next + 8)).toNat
      let off := next + 10
      if pkt.length < off + rdlen then throw .badFormat
      else if u16 pkt next = dnsTypeA ∧ u16 pkt (next + 2) = dnsClassIN ∧ rdlen = 4 then
        pure ((pkt.drop off).take 4)
      else walkAnswers pkt n (off + rdlen)

def parseDNSAnswerForA (pkt : Bytes) (wantID : UInt16) : Except DnsErr Bytes :=
  if pkt.length < dnsHeaderLen then .error .badFormat
  else if u16 pkt 0 ≠ wantID then .error .badFormat
  else if u16 pkt 2 &&& dnsFlagResponse = 0 then .error .badFormat
  else if u16 pkt 2 &&& dnsRcodeMask ≠ 0 then .error .rcode
  else do
    let off ← skipQuestions pkt (u16 pkt 4).toNat dnsHeaderLen
    walkAnswers pkt (u16 pkt 6).toNat off

/-- The bound on the label loop is never reached: each label moves past its length byte. -/
theorem readLabels_fuel (pkt : Bytes) (more : ℕ) : ∀ (fuel off : ℕ), pkt.length < off + fuel →
    readLabels pkt (fuel + more) off = readLabels pkt fuel off
  | 0, off, h => by
    have hout : pkt[off]? = none := List.getElem?_eq_none (by omega)
    cases more with
    | zero => rfl
    | succ more =>
      rw [Nat.zero_add]
      simp only [readLabels, hout]
  | fuel + 1, off, h => by
    have ih := fun b : UInt8 => readLabels_fuel pkt more fuel (off + 1 + b.toNat) (by omega)
    rw [Nat.add_right_comm, readLabels, readLabels]
    simp only [ih]

variable {id : UInt16}

/-- **Another ID**: a datagram that does not carry the ID of the query is malformed to the
parser. -/
theorem parseDNSAnswerForA_wrongID {pkt : Bytes} (h : u16 pkt 0 ≠ id) :
    parseDNSAnswerForA pkt id = .error .badFormat := by
  unfold parseDNSAnswerForA
  split_ifs with hlen
  · rfl
  · rfl

/-! ## ResolveA -/

/-- A datagram as `ReadFrom` returns it. -/
structure Datagram where
  srcIP : Bytes
  srcPort : ℕ
  payload : Bytes
  deriving DecidableEq

/-- What `ResolveA` reads of the stack. -/
structure UdpStack where
  closed : Bool
  mac : Bytes
  /-- Is the local port bound by another connection? -/
  bound : UInt16 → Bool

/-- `net.IP.To4`. -/
def to4 (ip : Bytes) : Option Bytes :=
  if ip.length = 4 then some ip
  else if ip.length = 16 ∧ ip.take 12 = List.replicate 10 0 ++ [0xFF, 0xFF] then some (ip.drop 12)
  else none

/-- The first free port among `n` candidates from `port` on. -/
def freePort (bound : UInt16 → Bool) : ℕ → UInt16 → Except DnsErr UInt16
  | 0, _ => .error .udpPortInUse
  | n + 1, port => if bound port then freePort bound n (port + 1) else .ok port

/-- Everything up to the query's leaving: the server's address and the ID to wait for.  `sendErr` is
the outcome of `WriteTo`. -/
def sendQuery (st : UdpStack) (name dnsServer : Bytes) (sendErr : Option Bytes) :
    Except DnsErr (Bytes × UInt16) := do
  match to4 dnsServer with
  | none => throw .invalidServer
  | some d4 =>
    if st.closed then throw .stackClosed
    else do
      let localPort ← freePort st.bound 1024 dnsClientPortLow
      let id := dnsIDFromMAC st.mac dnsQueryRoot localPort
      let _query ← buildDNSQuery id name
      match sendErr with
      | some e => throw (.write e)
      | none => pure (d4, id)

/-- The size of the receive buffer; `ReadFrom` cuts off what is longer. -/
def dnsBufLen : ℕ := 1500

/-- What `ResolveA` makes of one datagram. -/
def verdict (id : UInt16) (d : Datagram) : Except DnsErr Bytes :=
  parseDNSAnswerForA (d.payload.take dnsBufLen) id

/-- The receive loop over the datagrams that `ReadFrom` returns before the deadline. -/
def awaitReply (id : UInt16) : List Datagram → Except DnsErr Bytes
  | [] => .error .timeout
  | d :: rest =>
    match verdict id d with
    | .error .badFormat => awaitReply id rest
    | v => v

def resolveA (st : UdpStack) (name dnsServer : Bytes) (sendErr : Option Bytes)
    (reads : List Datagram) : Except DnsErr Bytes := do
  let (_, id) ← sendQuery st name dnsServer sendErr
  awaitReply id reads

/-- The loop drops the datagram and keeps waiting. -/
def Ignored (id : UInt16) (d : Datagram) : Prop := verdict id d = .error .badFormat

instance (id : UInt16) (d : Datagram) : Decidable (Ignored id d) :=
  inferInstanceAs (Decidable (_ = _))

variable {d : Datagram}

theorem awaitReply_ignored (h : Ignored id d) (rest : List Datagram) :
    awaitReply id (d :: rest) = awaitReply id rest := by
  rw [awaitReply, show verdict id d = _ from h]

theorem awaitReply_decisive (h : ¬ Ignored id d) (rest : List Datagram) :
    awaitReply id (d :: rest) = verdict id d := by
  rw [awaitReply]
  split
  · rename_i hv
    exact absurd hv h
  · rfl

/-! ## Foreign datagrams -/

def Datagram.transactionID (d : Datagram) : UInt16 := u16 d.payload 0

/-- The source is not the server's address and port 53. -/
def OffPath (server : Bytes) (d : Datagram) : Prop := d.srcIP ≠ server ∨ d.srcPort ≠ 53

/-- Not the server's answer to the query. -/
def Foreign (server : Bytes) (id : UInt16) (d : Datagram) : Prop :=
  OffPath server d ∨ d.transactionID ≠ id

theorem ignored_of_wrongID (h : d.transactionID ≠ id) : Ignored id d := by
  refine parseDNSAnswerForA_wrongID fun he => h ?_
  rw [← he]
  -- the cut to the buffer's size leaves the first two bytes
  simp [Datagram.transactionID, u16, List.getD_eq_getElem?_getD, dnsBufLen]

/-- What arrives, with some of it inserted: the elements tagged `true`. -/
abbrev Tagged (α : Type) : Type := List (Bool × α)

section
variable {α : Type}

def Tagged.all (ts : Tagged α) : List α := ts.map Prod.snd

def Tagged.genuine (ts : Tagged α) : List α := (ts.filter fun t => !t.1).map Prod.snd

theorem Tagged.all_cons (b : Bool) (d : α) (ts : Tagged α) : Tagged.all ((b, d) :: ts) = d :: ts.all :=
  rfl

theorem Tagged.genuine_true (d : α) (ts : Tagged α) : Tagged.genuine ((true, d) :: ts) = ts.genuine :=
  rfl

theorem Tagged.genuine_false (d : α) (ts : Tagged α) :
    Tagged.genuine ((false, d) :: ts) = d :: ts.genuine := rfl

end

/-- `d` says what the first of these datagrams says that is not malformed. -/
def Agrees (id : UInt16) (d : Datagram) (ds : List Datagram) : Prop :=
  match ds.find? (fun g => !decide (Ignored id g)) with
  | some g => verdict id d = verdict id g
  -- without one the wait times out
  | none => verdict id d = .error .timeout

/-- An inserted datagram from elsewhere that comes before any decisive one is dropped, or agrees with
the genuine ones after it. -/
def Unspoiled (server : Bytes) (id : UInt16) (ts : Tagged Datagram) : Prop :=
  ∀ pre d post, ts = pre ++ (true, d) :: post → OffPath server d →
    (∀ t ∈ pre, Ignored id t.2) → Ignored id d ∨ Agrees id d (Tagged.genuine post)

theorem agrees_iff : ∀ {ds : List Datagram}, Agrees id d ds ↔ verdict id d = awaitReply id ds
  | [] => Iff.rfl
  | g :: ds => by
    unfold Agrees
    by_cases hg : Ignored id g
    · rw [awaitReply_ignored hg, List.find?_cons_of_neg (by simp [hg])]
      exact agrees_iff
    · rw [awaitReply_decisive hg, List.find?_cons_of_pos (by simp [hg])]

section
variable {server : Bytes} {id : UInt16}

theorem unspoiled_nil : Unspoiled server id [] := by
  intro pre d post hts
  simp at hts

theorem unspoiled_cons {b : Bool} {ts : Tagged Datagram} :
    Unspoiled server id ((b, d) :: ts) ↔
      (b = true → OffPath server d → Ignored id d ∨ Agrees id d ts.genuine) ∧
      (Ignored id d → Unspoiled server id ts) := by
  constructor
  · intro h
    refine ⟨?_, ?_⟩
    · rintro rfl hoff
      exact h [] d ts rfl hoff (by simp)
    · intro hi pre e post hts hoff hpre
      refine h ((b, d) :: pre) e post (by rw [hts]; rfl) hoff fun t ht => ?_
      rcases List.mem_cons.mp ht with rfl | ht
      · exact hi
      · exact hpre t ht
  · rintro ⟨hfirst, hrest⟩ pre e post hts hoff hpre
    cases pre with
    | nil =>
      obtain ⟨hhead, rfl⟩ := List.cons_eq_cons.mp hts
      cases hhead
      exact hfirst rfl hoff
    | cons t pre =>
      obtain ⟨rfl, hts'⟩ := List.cons_eq_cons.mp hts
      exact hrest (hpre _ List.mem_cons_self) pre e post hts' hoff
        fun u hu => hpre u (List.mem_cons_of_mem _ hu)

/-- The receive loop, with foreign datagrams inserted. -/
theorem awaitReply_insert_iff : ∀ (ts : Tagged Datagram), (∀ d, (true, d) ∈ ts → Foreign server id d) →
    (awaitReply id ts.all = awaitReply id ts.genuine ↔ Unspoiled server id ts)
  | [], _ => ⟨fun _ => unspoiled_nil, fun _ => rfl⟩
  | (b, d) :: ts, hf => by
    have ih := awaitReply_insert_iff ts fun e he => hf e (List.mem_cons_of_mem _ he)
    rw [unspoiled_cons, agrees_iff, Tagged.all_cons]
    cases b with
    | false =>
      rw [Tagged.genuine_false]
      by_cases hi : Ignored id d
      · rw [awaitReply_ignored hi, awaitReply_ignored hi, ih]
        exact ⟨fun h => ⟨fun hb => (nomatch hb), fun _ => h⟩, fun h => h.2 hi⟩
      -- a decisive genuine datagram: nothing after it matters
      · rw [awaitReply_decisive hi, awaitReply_decisive hi]
        exact ⟨fun _ => ⟨fun hb => (nomatch hb), fun h => absurd h hi⟩, fun _ => rfl⟩
    | true =>
      rw [Tagged.genuine_true]
      by_cases hi : Ignored id d
      · rw [awaitReply_ignored hi, ih]
        exact ⟨fun h => ⟨fun _ _ => Or.inl hi, fun _ => h⟩, fun h => h.2 hi⟩
      -- a decisive inserted one has the right ID, so it comes from elsewhere
      · have hoff : OffPath server d := by
          rcases hf d List.mem_cons_self with h | h
          · exact h
          · exact absurd (ignored_of_wrongID h) hi
        rw [awaitReply_decisive hi]
        exact ⟨fun h => ⟨fun _ _ => Or.inr h, fun h' => absurd h' hi⟩,
          fun h => (h.1 rfl hoff).resolve_left hi⟩

end

/-- **Foreign datagrams**: inserting them leaves the outcome of `ResolveA` as it was exactly when
none of those from elsewhere spoils it. -/
theorem resolveA_insert_iff (st : UdpStack) (name dnsServer : Bytes) (sendErr : Option Bytes)
    (ts : Tagged Datagram)
    (hf : ∀ server id, sendQuery st name dnsServer sendErr = .ok (server, id) →
      ∀ d, (true, d) ∈ ts → Foreign server id d) :
    resolveA st name dnsServer sendErr ts.all = resolveA st name dnsServer sendErr ts.genuine ↔
      ∀ server id, sendQuery st name dnsServer sendErr = .ok (server, id) →
        Unspoiled server id ts := by
  unfold resolveA
  cases hq : sendQuery st name dnsServer sendErr with
  | error e => exact ⟨fun _ _ _ h => (nomatch h), fun _ => rfl⟩
  | ok q =>
    obtain ⟨server, id⟩ := q
    have hloop := awaitReply_insert_iff ts (hf server id hq)
    refine hloop.trans ⟨?_, fun h => h server id rfl⟩
    rintro h _ _ he
    cases he
    exact h

/-! ### A concrete query -/

def dnsServer : Bytes := [10, 0, 2, 3]

/-- A locally administered hardware address. -/
def nicMAC : Bytes := [0x52, 0x54, 0x00, 0x12, 0x34, 0x56]

def idleStack : UdpStack := ⟨false, nicMAC, fun _ => false⟩

/-- A reply with the given ID and one A record. -/
def reply (id : UInt16) (ip : Bytes) : Bytes :=
  putU16 id ++ [0x81, 0x80, 0, 0, 0, 1, 0, 0, 0, 0] ++ [0, 0, 1, 0, 1, 0, 0, 0, 0, 0, 4] ++ ip

/-- The server's reply, with another datagram put before it. -/
def askedOnce (d : Datagram) : Tagged Datagram :=
  [(true, d), (false, ⟨dnsServer, 53, reply 0xEB51 [10, 0, 0, 1]⟩)]

theorem sendQuery_idle : sendQuery idleStack (str "r.io") dnsServer none = .ok (dnsServer, 0xEB51) := by
  decide +kernel

theorem foreign_askedOnce {e : Datagram} (he : Foreign dnsServer 0xEB51 e) :
    ∀ server id, sendQuery idleStack (str "r.io") dnsServer none = .ok (server, id) →
      ∀ d, (true, d) ∈ askedOnce e → Foreign server id d := by
  intro server id hq d hd
  cases sendQuery_idle.symm.trans hq
  simp only [askedOnce, List.mem_cons, Prod.mk.injEq, true_and, List.not_mem_nil, or_false,
    Bool.true_eq_false, false_and] at hd
  rwa [hd]

/-- A late reply to another query is dropped. -/
theorem resolveA_insert_late :
    resolveA idleStack (str "r.io") dnsServer none
        (askedOnce ⟨dnsServer, 53, reply 7 [6, 6, 6, 6]⟩).all =
      resolveA idleStack (str "r.io") dnsServer none
        (askedOnce ⟨dnsServer, 53, reply 7 [6, 6, 6, 6]⟩).genuine := by
  have hlate : (⟨dnsServer, 53, reply 7 [6, 6, 6, 6]⟩ : Datagram).transactionID ≠ 0xEB51 := by
    decide
  refine (resolveA_insert_iff _ _ _ _ _ (foreign_askedOnce (Or.inr hlate))).mpr ?_
  intro server id hq
  cases sendQuery_idle.symm.trans hq
  refine unspoiled_cons.mpr ⟨fun _ _ => Or.inl (ignored_of_wrongID hlate), fun _ => ?_⟩
  exact unspoiled_cons.mpr ⟨fun hb => (nomatch hb), fun _ => unspoiled_nil⟩

/-- The source is not looked at: a reply from another host with the right ID is believed. -/
theorem resolveA_insert_broken :
    ¬ ∀ (st : UdpStack) (name dnsServer : Bytes) (sendErr : Option Bytes)
      (ts : Tagged Datagram),
      (∀ server id, sendQuery st name dnsServer sendErr = .ok (server, id) →
        ∀ d, (true, d) ∈ ts → Foreign server id d) →
      resolveA st name dnsServer sendErr ts.all = resolveA st name dnsServer sendErr ts.genuine := by
  intro h
  have hoff : OffPath dnsServer ⟨[6, 6, 6, 6], 53, reply 0xEB51 [6, 6, 6, 6]⟩ :=
    Or.inl (by decide)
  have heq := h idleStack (str "r.io") dnsServer none _ (foreign_askedOnce (Or.inl hoff))
  exact absurd heq (by decide +kernel)

end TamagoUefi.Net
