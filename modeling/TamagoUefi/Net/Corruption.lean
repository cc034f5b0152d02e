import TamagoUefi.Net.Padding

/-!
# TamagoUefi.Net.Corruption — one word that is wrong

A checksum is compared with the one computed over the same bytes with a zero in its place.  Changing a
word by a multiple of 65535 does not show in a one's complement sum, and the two zeros are such a
pair.  Every other change of one word shows, for packets of every length, although the code adds in 32
bits and drops the carries out of them.

* `setWord` replaces a word; `wordSum_setWord`: what that does to the sum.
* `Discerns` is what a checksum must tell apart; `Discerns.modEq` is the argument that the three parsers
  share.
* `corruption_detected` is the result.  A TCP checksum with an address that is not an IPv4 address is 0
  whatever the segment holds: `corruption_undetected`.
-/

namespace TamagoUefi.Net

open Go Lib

/-! ## Replacing a word -/

/-- The word at `k` replaced by `w`. -/
def setWord (p : Bytes) (k : ℕ) (w : UInt16) : Bytes :=
  (p.set k (w >>> 8).toUInt8).set (k + 1) w.toUInt8

theorem zeroAt_eq_setWord (p : Bytes) (k : ℕ) : zeroAt p k = setWord p k 0 := rfl

@[simp] theorem length_setWord (p : Bytes) (k : ℕ) (w : UInt16) : (setWord p k w).length = p.length := by
  simp [setWord]

theorem take_setWord (p : Bytes) (k n : ℕ) (w : UInt16) :
    (setWord p k w).take n = setWord (p.take n) k w := by
  simp only [setWord, List.take_set]

theorem setWord_setWord (p : Bytes) (k : ℕ) (v w : UInt16) : setWord (setWord p k v) k w = setWord p k w := by
  unfold setWord
  rw [List.set_comm _ _ (by omega : k + 1 ≠ k), List.set_set, List.set_set]

variable {p : Bytes} {k : ℕ}

theorem u16_take {n : ℕ} (h : k + 2 ≤ n) : u16 (p.take n) k = u16 p k := by
  unfold u16
  simp only [List.getD_eq_getElem?_getD]
  rw [List.getElem?_take_of_lt (by omega), List.getElem?_take_of_lt (by omega)]

theorem u16_setWord_self (h : k + 2 ≤ p.length) (w : UInt16) : u16 (setWord p k w) k = w := by
  apply UInt16.toNat.inj
  rw [toNat_u16]
  simp only [setWord, List.getD_eq_getElem?_getD, List.getElem?_set, List.length_set]
  rw [if_neg (by omega), if_pos trivial, if_pos (by omega), if_pos trivial, if_pos (by omega)]
  simp only [Option.getD_some]
  rw [toNat_hi, toNat_lo]
  omega

theorem u16_setWord_of_ne {c : ℕ} (h : c + 2 ≤ k ∨ k + 2 ≤ c) (w : UInt16) :
    u16 (setWord p k w) c = u16 p c := by
  unfold u16 setWord
  simp only [List.getD_eq_getElem?_getD]
  rw [List.getElem?_set_ne (by omega), List.getElem?_set_ne (by omega), List.getElem?_set_ne (by omega),
    List.getElem?_set_ne (by omega)]

/-- **The sum** with a word replaced. -/
theorem wordSum_setWord (heven : k % 2 = 0) (h : k + 2 ≤ p.length) (w : UInt16) :
    wordSum (setWord p k w) + (u16 p k).toNat = wordSum p + w.toNat := by
  fun_induction wordSum p generalizing k with
  | case1 x y t ih =>
    rcases k with _ | _ | k
    · change wordSum (putU16 w ++ t) + _ = _
      rw [wordSum_append _ (by simp), wordSum_putU16, toNat_u16]
      simp only [List.getD_cons_zero, List.getD_cons_succ]
      omega
    · omega
    · have hk := ih (k := k) (by omega) (by simp only [List.length_cons] at h; omega)
      change x.toNat * 256 + y.toNat + wordSum (setWord t k w) + (u16 t k).toNat = _
      omega
  | case2 x =>
    simp only [List.length_cons, List.length_nil] at h
    omega
  | case3 => simp at h

/-! ## Checksums -/

/-- Sums that differ in one word are told apart, unless the words are equal modulo 65535. -/
def Discerns (f : Bytes → UInt16) : Prop :=
  ∀ (D D' : Bytes) (x w : UInt16), D'.length = D.length → wordSum D' + x.toNat = wordSum D + w.toNat →
    f D' = f D → w.toNat ≡ x.toNat [MOD 65535]

theorem not_ofNat_inj {n m : ℕ} (hn : n < 65536) (hm : m < 65536)
    (h : ~~~ UInt16.ofNat n = ~~~ UInt16.ofNat m) : n = m := by
  have heq := congrArg UInt16.toNat (UInt16.not_inj.mp h)
  rw [UInt16.toNat_ofNat', UInt16.toNat_ofNat'] at heq
  omega

theorem discerns_internetChecksum : Discerns internetChecksum := by
  intro D D' x w _ hsum h
  refine modEq_of_foldCarry_eq x.toNat_lt w.toNat_lt hsum ?_
  exact not_ofNat_inj (foldCarry_lt (by decide) _) (foldCarry_lt (by decide) _) h

variable {src dst : Bytes}

theorem discerns_l4Checksum (proto : UInt8) {s4 d4 : Bytes} (hs : to4 src = some s4)
    (hd : to4 dst = some d4) : Discerns (l4Checksum proto src dst) := by
  intro D D' x w hlen hsum h
  unfold l4Checksum at h
  rw [hs, hd] at h
  refine discerns_internetChecksum _ _ x w ?_ ?_ h
  · simp [hlen, pseudoHeader]
  · have hphl := pseudoHeader_length (to4_length hs) (to4_length hd) proto
    rw [wordSum_append _ (by rw [hphl]), wordSum_append _ (by rw [hphl]), hlen]
    omega

variable {w : UInt16}

/-- **One word replaced in a packet whose checksum is right**, the checksum itself included. -/
theorem Discerns.modEq {f : Bytes → UInt16} (hf : Discerns f) {c : ℕ} (hc : c % 2 = 0 ∧ c + 2 ≤ p.length)
    (hk : k % 2 = 0 ∧ k + 2 ≤ p.length) (hp : f (zeroAt p c) = u16 p c)
    (hp' : f (zeroAt (setWord p k w) c) = u16 (setWord p k w) c) : w.toNat ≡ (u16 p k).toNat [MOD 65535] := by
  rw [zeroAt_eq_setWord] at hp hp'
  by_cases hck : c = k
  · subst hck
    rw [setWord_setWord, u16_setWord_self hk.2, hp] at hp'
    rw [hp']
  · have hne : c + 2 ≤ k ∨ k + 2 ≤ c := by omega
    rw [u16_setWord_of_ne hne, ← hp] at hp'
    refine hf _ _ _ w (by simp) ?_ hp'
    have hset := wordSum_setWord hk.1 hk.2 w
    have hzero := wordSum_setWord hc.1 hc.2 0
    have hzero' := wordSum_setWord hc.1 (p := setWord p k w) (by simpa using hc.2) 0
    rw [u16_setWord_of_ne hne] at hzero'
    omega

/-! ## The parsers -/

def Accepted {α : Type} (r : Except NetErr α) : Prop := ∃ a, r = .ok a

/-- An aligned word of the first `n` bytes is replaced by another one, also modulo 65535. -/
structure Corrupts (p : Bytes) (n k : ℕ) (w : UInt16) : Prop where
  aligned : k % 2 = 0
  inside : k + 2 ≤ n
  differs : ¬ w.toNat ≡ (u16 p k).toNat [MOD 65535]

theorem Accepted.tcp4Checksum_eq (h : Accepted (parseTCP4 src dst p)) :
    tcp4HeaderLen ≤ p.length ∧ tcp4Checksum src dst (zeroAt p 16) = u16 p 16 := by
  obtain ⟨r, h⟩ := h
  unfold parseTCP4 at h
  simp only at h
  split_ifs at h with h₁ h₂ h₃
  exact ⟨Nat.le_of_not_lt h₁, not_not.mp h₃⟩

theorem tcp4_corruption {s4 d4 : Bytes} (hs : to4 src = some s4) (hd : to4 dst = some d4)
    (hp : Accepted (parseTCP4 src dst p)) (hk : Corrupts p p.length k w) :
    ¬ Accepted (parseTCP4 src dst (setWord p k w)) := by
  intro hp'
  obtain ⟨hlen, hsum⟩ := hp.tcp4Checksum_eq
  obtain ⟨-, hsum'⟩ := hp'.tcp4Checksum_eq
  unfold tcp4HeaderLen at hlen
  exact hk.differs ((discerns_l4Checksum ipProtoTCP hs hd).modEq ⟨rfl, by omega⟩ ⟨hk.aligned, hk.inside⟩
    hsum hsum')

theorem ipv4_corruption (hp : Accepted (parseIPv4 p))
    (hk : Corrupts p ipv4HeaderLen k w) : ¬ Accepted (parseIPv4 (setWord p k w)) := by
  rintro ⟨r', hp'⟩
  obtain ⟨r, hp⟩ := hp
  obtain ⟨hlen, hok, -⟩ := parseIPv4_eq_ok.mp hp
  obtain ⟨-, hok', -⟩ := parseIPv4_eq_ok.mp hp'
  have htake : (p.take ipv4HeaderLen).length = 20 := List.length_take_of_le hlen
  have hsum := hok.checksum
  have hsum' := hok'.checksum
  rw [← u16_take (n := ipv4HeaderLen) (by decide)] at hsum hsum'
  rw [take_setWord] at hsum'
  have hmod := discerns_internetChecksum.modEq ⟨rfl, by rw [htake]; decide⟩
    ⟨hk.aligned, by rw [htake]; exact hk.inside⟩ hsum hsum'
  rw [u16_take hk.inside] at hmod
  exact hk.differs hmod

/-- Only IPv4 addresses have a checksum that is not 0. -/
theorem to4_of_l4Checksum {proto : UInt8} {seg : Bytes} (h : l4Checksum proto src dst seg ≠ 0) :
    ∃ s4 d4, to4 src = some s4 ∧ to4 dst = some d4 := by
  unfold l4Checksum at h
  split at h
  next s4 d4 hs hd => exact ⟨s4, d4, hs, hd⟩
  next => exact absurd rfl h

theorem udp4_corruption (hp : Accepted (parseUDP4 src dst p)) (hcksum : u16 p 6 ≠ 0)
    (hk : Corrupts p (u16 p 4).toNat k w) (hlength : k ≠ 4) (hzero : k = 6 → w ≠ 0) :
    ¬ Accepted (parseUDP4 src dst (setWord p k w)) := by
  rintro ⟨r', hp'⟩
  obtain ⟨r, hp⟩ := hp
  obtain ⟨h₁, h₂, hsum, -⟩ := parseUDP4_eq_ok.mp hp
  obtain ⟨-, -, hsum', -⟩ := parseUDP4_eq_ok.mp hp'
  have heven := hk.aligned
  have hin := hk.inside
  unfold udp4HeaderLen at h₁
  have hcksum' : u16 (setWord p k w) 6 ≠ 0 := by
    by_cases h6 : k = 6
    · subst h6
      rw [u16_setWord_self (by omega)]
      exact hzero rfl
    · rwa [u16_setWord_of_ne (by omega)]
  replace hsum := hsum.resolve_left hcksum
  replace hsum' := hsum'.resolve_left hcksum'
  -- the length is the same, so both sums are over the same bytes
  rw [u16_setWord_of_ne (c := 4) (by omega), take_setWord] at hsum'
  obtain ⟨s4, d4, hs, hd⟩ := to4_of_l4Checksum (fun h => hcksum (hsum.symm.trans h))
  have htake : (p.take (u16 p 4).toNat).length = (u16 p 4).toNat := List.length_take_of_le h₂
  rw [← u16_take (k := 6) (n := (u16 p 4).toNat) (by omega)] at hsum hsum'
  rw [take_setWord] at hsum'
  have hmod := (discerns_l4Checksum ipProtoUDP hs hd).modEq ⟨rfl, by rw [htake]; omega⟩
    ⟨hk.aligned, by rw [htake]; exact hin⟩ hsum hsum'
  rw [u16_take hin] at hmod
  exact hk.differs hmod

/-! ## The result -/

/-- The sum of RFC 1071, without a bound. -/
def rfc1071 (data : Bytes) : UInt16 := ~~~ UInt16.ofNat (foldCarry 65536 (wordSum data))

theorem internetChecksum_eq_rfc1071 {data : Bytes} (h : data.length < 131072) :
    internetChecksum data = rfc1071 data := by
  have hle := wordSum_le_words data
  rw [internetChecksum, rfc1071, Nat.mod_eq_of_lt (by omega)]

/-- **One corrupted word** is noticed by the parsers, and the checksum is the one of RFC 1071. -/
theorem corruption_detected :
    (∀ (src dst s4 d4 p : Bytes) (k : ℕ) (w : UInt16), to4 src = some s4 → to4 dst = some d4 →
      Accepted (parseTCP4 src dst p) → Corrupts p p.length k w →
      ¬ Accepted (parseTCP4 src dst (setWord p k w))) ∧
    (∀ (src dst p : Bytes) (k : ℕ) (w : UInt16), Accepted (parseUDP4 src dst p) → u16 p 6 ≠ 0 →
      Corrupts p (u16 p 4).toNat k w → k ≠ 4 → (k = 6 → w ≠ 0) →
      ¬ Accepted (parseUDP4 src dst (setWord p k w))) ∧
    (∀ (p : Bytes) (k : ℕ) (w : UInt16), Accepted (parseIPv4 p) → Corrupts p ipv4HeaderLen k w →
      ¬ Accepted (parseIPv4 (setWord p k w))) ∧
    ∀ data : Bytes, data.length < 131072 → internetChecksum data = rfc1071 data :=
  ⟨fun _ _ _ _ _ _ _ hs hd hp hk => tcp4_corruption hs hd hp hk,
    fun _ _ _ _ _ hp hc hk hl hz => udp4_corruption hp hc hk hl hz,
    fun _ _ _ hp hk => ipv4_corruption hp hk, fun _ h => internetChecksum_eq_rfc1071 h⟩

/-- A SYN to another port, a datagram with another payload, an echo request with another lifetime. -/
theorem corruption_detected_each :
    ¬ Accepted (parseTCP4 [10, 0, 2, 15] [10, 0, 2, 2]
      (setWord (tcp4Segment 49152 80 0 0 tcpFlagSYN tcp4DefaultWindow [] 0x5781) 2 81)) ∧
    ¬ Accepted (parseUDP4 [10, 0, 2, 15] [10, 0, 2, 3]
      (setWord (udp4Packet 49152 53 (str "hi") 0xBF29) 8 0x6862)) ∧
    ¬ Accepted (parseIPv4 (setWord echoRequest 8 0x3F01)) := by
  obtain ⟨htcp, hudp, hip, -⟩ := corruption_detected
  refine ⟨htcp _ _ _ _ _ _ _ rfl rfl ?_ ⟨rfl, by decide, by decide⟩,
    hudp _ _ _ _ _ ⟨_, parseUDP4_eq_ok.mpr ⟨by decide, by decide, .inr ?_, rfl⟩⟩ (by decide)
      ⟨rfl, by decide, by decide⟩ (by decide) (by decide),
    hip _ _ _ ⟨_, parseIPv4_eq_ok.mpr ⟨by decide, echoRequest_headerOK, by decide, rfl⟩⟩
      ⟨rfl, by decide, by decide⟩⟩
  · rw [parseTCP4_tcp4Segment, if_neg]
    · exact ⟨_, rfl⟩
    · rw [tcp4Checksum, l4Checksum, to4_of_length rfl, to4_of_length rfl]
      dsimp only
      rw [internetChecksum_eq]
      decide
  · rw [udp4Checksum, l4Checksum, to4_of_length rfl, to4_of_length rfl]
    dsimp only
    rw [internetChecksum_eq]
    decide

/-- A segment without a checksum. -/
def uncheckedSegment : Bytes := tcp4Segment 49152 80 0 0 tcpFlagSYN 0 [] 0

/-- With the address `::` every segment has the checksum 0. -/
theorem corruption_undetected : ¬ ∀ (src dst p : Bytes) (k : ℕ) (w : UInt16),
    Accepted (parseTCP4 src dst p) → Corrupts p p.length k w →
      ¬ Accepted (parseTCP4 src dst (setWord p k w)) := by
  intro h
  refine h (List.replicate 16 0) [10, 0, 2, 2] uncheckedSegment 0 1 ⟨_, rfl⟩ ⟨rfl, by decide, ?_⟩ ⟨_, rfl⟩
  decide

end TamagoUefi.Net
