import TamagoUefi.Net.DnsNames

/-!
# TamagoUefi.Net.DnsAnswers — responses and the address taken from them (`dns.go`)

A response is a relation between a packet and what it says: a header, the questions and the answer
records one behind the other, each with a name that may go through compression pointers.  What
follows the answers is not looked at.

* `DnsResponse`: the packet, the ID, the questions and the records.
* `parseDNSAnswerForA_of_response`: the first A record of class IN with four bytes is the answer.
-/

namespace TamagoUefi.Net

open Go Lib

structure Question where
  name : List Bytes
  qtype : UInt16
  qclass : UInt16
  deriving DecidableEq

/-- What follows the name of a question. -/
def Question.rest (q : Question) : Bytes := putU16 q.qtype ++ putU16 q.qclass

structure ResourceRecord where
  name : List Bytes
  rtype : UInt16
  rclass : UInt16
  ttl : BitVec 32
  data : Bytes
  deriving DecidableEq

/-- What stands between the name of a record and its data. -/
def ResourceRecord.fields (r : ResourceRecord) : Bytes :=
  putU16 r.rtype ++ (putU16 r.rclass ++ (putU32 r.ttl ++ putU16 (UInt16.ofNat r.data.length)))

/-- An address of the internet. -/
def ResourceRecord.IsA (r : ResourceRecord) : Prop :=
  r.rtype = dnsTypeA ∧ r.rclass = dnsClassIN ∧ r.data.length = 4

instance (r : ResourceRecord) : Decidable r.IsA := inferInstanceAs (Decidable (_ ∧ _))

/-- A name that the parser follows to its end. -/
def Named (pkt : Bytes) (off : ℕ) (name : List Bytes) (after : ℕ) : Prop :=
  ∃ hops, hops ≤ dnsMaxPointers ∧ NameAt pkt off name after hops

/-- Questions from an offset on, and the offset after them. -/
inductive QuestionsAt (pkt : Bytes) : ℕ → List Question → ℕ → Prop
  | nil {off : ℕ} : QuestionsAt pkt off [] off
  | cons {off after last : ℕ} {q : Question} {qs : List Question} : Named pkt off q.name after →
      HoldsAt pkt after q.rest → QuestionsAt pkt (after + 4) qs last →
      QuestionsAt pkt off (q :: qs) last

/-- Records from an offset on, and the offset after them. -/
inductive RecordsAt (pkt : Bytes) : ℕ → List ResourceRecord → ℕ → Prop
  | nil {off : ℕ} : RecordsAt pkt off [] off
  | cons {off after last : ℕ} {r : ResourceRecord} {rs : List ResourceRecord} :
      Named pkt off r.name after → r.data.length < 65536 → HoldsAt pkt after (r.fields ++ r.data) →
      RecordsAt pkt (after + 10 + r.data.length) rs last → RecordsAt pkt off (r :: rs) last

/-- The header of a message. -/
def dnsHeader (id flags : UInt16) (counts : List UInt16) : Bytes :=
  putU16 id ++ (putU16 flags ++ counts.flatMap putU16)

/-- A response without an error: `rest` is where the other sections start. -/
structure DnsResponse (pkt : Bytes) (id : UInt16) (questions : List Question)
    (answers : List ResourceRecord) (rest : ℕ) : Prop where
  header : ∃ flags nscount arcount, flags &&& dnsFlagResponse ≠ 0 ∧ flags &&& dnsRcodeMask = 0 ∧
    HoldsAt pkt 0 (dnsHeader id flags
      [UInt16.ofNat questions.length, UInt16.ofNat answers.length, nscount, arcount])
  counts : questions.length < 65536 ∧ answers.length < 65536
  sections : ∃ off, QuestionsAt pkt dnsHeaderLen questions off ∧ RecordsAt pkt off answers rest

/-! ## The walk -/

variable {pkt : Bytes} {off : ℕ}

theorem Named.parse {after : ℕ} {name : List Bytes} (h : Named pkt off name after) :
    parseDNSName pkt off = .ok ((str ".").intercalate name, after) := by
  obtain ⟨hops, hle, hat⟩ := h
  exact parseDNSName_of_nameAt hat hle

theorem skipQuestions_of_questionsAt {last : ℕ} {qs : List Question}
    (h : QuestionsAt pkt off qs last) : skipQuestions pkt qs.length off = .ok last := by
  induction h with
  | nil => rfl
  | @cons off after last q qs hname hrest _ ih =>
    have hroom : after + 4 ≤ pkt.length := hrest.length_le
    rw [List.length_cons, skipQuestions, hname.parse]
    change (if pkt.length < after + 4 then _ else skipQuestions pkt qs.length (after + 4)) = _
    rw [if_neg (by omega), ih]

theorem ResourceRecord.fields_read {after : ℕ} {r : ResourceRecord} (h : HoldsAt pkt after (r.fields ++ r.data))
    (hlen : r.data.length < 65536) :
    u16 pkt after = r.rtype ∧ u16 pkt (after + 2) = r.rclass ∧
      (u16 pkt (after + 8)).toNat = r.data.length ∧ after + 10 + r.data.length ≤ pkt.length ∧
      (pkt.drop (after + 10)).take r.data.length = r.data := by
  have hfields := h.append.1
  have hclass := hfields.append.2
  have hsize := hclass.append.2.append.2
  have hdata : HoldsAt pkt (after + 10) r.data := h.append.2
  refine ⟨u16_of_holdsAt hfields.append.1, u16_of_holdsAt hclass.append.1, ?_, hdata.length_le, hdata.slice⟩
  have hword : u16 pkt (after + 8) = UInt16.ofNat r.data.length := u16_of_holdsAt hsize
  rw [hword, UInt16.toNat_ofNat']
  exact Nat.mod_eq_of_lt hlen

/-- What the walk makes of a list of records. -/
def firstAddress (rs : List ResourceRecord) : Except DnsErr Bytes :=
  match rs.find? (·.IsA) with
  | some r => .ok r.data
  | none => .error .emptyAnswer

theorem walkAnswers_of_recordsAt {last : ℕ} {rs : List ResourceRecord}
    (h : RecordsAt pkt off rs last) : walkAnswers pkt rs.length off = firstAddress rs := by
  induction h with
  | nil => rfl
  | @cons off after last r rs hname hlen hat _ ih =>
    obtain ⟨htype, hclass, hsize, hroom, hdata⟩ := ResourceRecord.fields_read hat hlen
    rw [List.length_cons, walkAnswers, hname.parse]
    change (if pkt.length < after + 10 then _ else
      if pkt.length < after + 10 + (u16 pkt (after + 8)).toNat then _ else
      if u16 pkt after = dnsTypeA ∧ u16 pkt (after + 2) = dnsClassIN ∧
        (u16 pkt (after + 8)).toNat = 4 then _ else
      walkAnswers pkt rs.length (after + 10 + (u16 pkt (after + 8)).toNat)) = _
    rw [htype, hclass, hsize, if_neg (by omega), if_neg (by omega), ih]
    by_cases hA : r.IsA
    · have hfirst : firstAddress (r :: rs) = .ok r.data := by
        simp only [firstAddress, List.find?_cons, hA, decide_true]
      rw [hfirst]
      refine (if_pos hA).trans ?_
      rw [← hA.2.2, hdata]
      rfl
    · have hskip : firstAddress (r :: rs) = firstAddress rs := by
        simp only [firstAddress, List.find?_cons, hA, decide_false]
      rw [hskip]
      exact if_neg hA

theorem DnsResponse.head_read {id : UInt16} {questions : List Question} {answers : List ResourceRecord}
    {rest : ℕ} (h : DnsResponse pkt id questions answers rest) :
    dnsHeaderLen ≤ pkt.length ∧ u16 pkt 0 = id ∧ u16 pkt 2 &&& dnsFlagResponse ≠ 0 ∧
      u16 pkt 2 &&& dnsRcodeMask = 0 ∧ (u16 pkt 4).toNat = questions.length ∧
      (u16 pkt 6).toNat = answers.length := by
  obtain ⟨flags, ns, ar, hresp, hrcode, hat⟩ := h.header
  have hflags := hat.append.2
  have hcounts := hflags.append.2
  have hqd : u16 pkt 4 = UInt16.ofNat questions.length := u16_of_holdsAt hcounts.append.1
  have han : u16 pkt 6 = UInt16.ofNat answers.length :=
    u16_of_holdsAt hcounts.append.2.append.1
  have hword : u16 pkt 2 = flags := u16_of_holdsAt hflags.append.1
  have hroom : 0 + dnsHeaderLen ≤ pkt.length := hat.length_le
  rw [hword, hqd, han, UInt16.toNat_ofNat', UInt16.toNat_ofNat']
  exact ⟨by omega, u16_of_holdsAt hat.append.1, hresp, hrcode, Nat.mod_eq_of_lt h.counts.1,
    Nat.mod_eq_of_lt h.counts.2⟩

/-- **Answers**: of a response, the data of the first A record of class IN with four bytes, and
`ErrDNSEmptyAnswer` when it has none. -/
theorem parseDNSAnswerForA_of_response (pkt : Bytes) (id : UInt16) (questions : List Question)
    (answers : List ResourceRecord) (rest : ℕ) (h : DnsResponse pkt id questions answers rest) :
    parseDNSAnswerForA pkt id =
      match answers.find? (·.IsA) with
      | some r => .ok r.data
      | none => .error .emptyAnswer := by
  obtain ⟨hlen, hid, hresp, hrcode, hqd, han⟩ := h.head_read
  obtain ⟨off, hquestions, hrecords⟩ := h.sections
  rw [parseDNSAnswerForA, if_neg (by omega), if_neg (not_not.mpr hid), if_neg hresp,
    if_neg (not_not.mpr hrcode), hqd, han, skipQuestions_of_questionsAt hquestions]
  exact walkAnswers_of_recordsAt hrecords

/-- A CNAME and an address, whose names point at the question. -/
def aliasReply : Bytes :=
  dnsHeader 7 0x8180 [1, 2, 0, 0] ++ [1, 97, 0, 0, 1, 0, 1] ++
    [0xC0, 12, 0, 5, 0, 1, 0, 0, 0, 9, 0, 2, 0xC0, 12] ++
    [0xC0, 12, 0, 1, 0, 1, 0, 0, 0, 9, 0, 4, 10, 0, 0, 1] ++ [0xAB]

def aliasQuestions : List Question := [⟨[[97]], 1, 1⟩]

def aliasRecords : List ResourceRecord := [⟨[[97]], 5, 1, 9, [0xC0, 12]⟩, ⟨[[97]], 1, 1, 9, [10, 0, 0, 1]⟩]

theorem nameAt_aliasReply : NameAt aliasReply 12 [[97]] 15 0 :=
  .label (by decide) (by decide) (by decide) (.zero (by decide))

theorem named_aliasReply (h : HoldsAt aliasReply off (encodePointer 12)) :
    Named aliasReply off [[97]] (off + 2) :=
  ⟨1, by decide, .pointer (by decide) h nameAt_aliasReply⟩

theorem response_aliasReply : DnsResponse aliasReply 7 aliasQuestions aliasRecords 49 where
  header := ⟨0x8180, 0, 0, by decide, by decide, by decide⟩
  counts := by decide
  sections := by
    refine ⟨19, .cons ⟨0, by decide, nameAt_aliasReply⟩ (by decide) .nil, ?_⟩
    refine .cons (named_aliasReply (by decide)) (by decide) (by decide) ?_
    exact .cons (named_aliasReply (by decide)) (by decide) (by decide) .nil

/-- The address behind the alias is taken. -/
theorem parseDNSAnswerForA_aliasReply :
    DnsResponse aliasReply 7 aliasQuestions aliasRecords 49 ∧
      parseDNSAnswerForA aliasReply 7 = .ok [10, 0, 0, 1] :=
  ⟨response_aliasReply, parseDNSAnswerForA_of_response _ _ _ _ _ response_aliasReply⟩

end TamagoUefi.Net
