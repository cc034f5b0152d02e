import TamagoUefi.Go.Strings

/-!
# TamagoUefi.Go.Utf8 — runes (`unicode/utf8`)

A string is a list of bytes; `range` and a conversion to `[]rune` decode it, a conversion from
`[]rune` encodes it.  A rune is a number.
-/

namespace TamagoUefi.Go

/-- `utf8.RuneError`. -/
def runeError : ℕ := 0xFFFD

def isContinuation (b : UInt8) : Bool := 0x80 ≤ b && b ≤ 0xBF

/-- `utf8.DecodeRuneInString`: the first rune and its width.  A byte that begins no encoding is a
`runeError` of width one. -/
def decodeRune : Bytes → ℕ × ℕ
  | [] => (runeError, 0)
  | b₀ :: t =>
    if b₀ < 0x80 then (b₀.toNat, 1)
    else if 0xC2 ≤ b₀ && b₀ ≤ 0xDF then
      match t with
      | b₁ :: _ =>
        if isContinuation b₁ then (b₀.toNat % 32 * 64 + b₁.toNat % 64, 2) else (runeError, 1)
      | [] => (runeError, 1)
    else if 0xE0 ≤ b₀ && b₀ ≤ 0xEF then
      match t with
      | b₁ :: b₂ :: _ =>
        -- no encoding is longer than it has to be, and none is of a surrogate
        let lo : UInt8 := if b₀ = 0xE0 then 0xA0 else 0x80
        let hi : UInt8 := if b₀ = 0xED then 0x9F else 0xBF
        if lo ≤ b₁ && b₁ ≤ hi && isContinuation b₂ then
          ((b₀.toNat % 16 * 64 + b₁.toNat % 64) * 64 + b₂.toNat % 64, 3)
        else (runeError, 1)
      | _ => (runeError, 1)
    else if 0xF0 ≤ b₀ && b₀ ≤ 0xF4 then
      match t with
      | b₁ :: b₂ :: b₃ :: _ =>
        let lo : UInt8 := if b₀ = 0xF0 then 0x90 else 0x80
        let hi : UInt8 := if b₀ = 0xF4 then 0x8F else 0xBF
        if lo ≤ b₁ && b₁ ≤ hi && isContinuation b₂ && isContinuation b₃ then
          (((b₀.toNat % 8 * 64 + b₁.toNat % 64) * 64 + b₂.toNat % 64) * 64 + b₃.toNat % 64, 4)
        else (runeError, 1)
      | _ => (runeError, 1)
    else (runeError, 1)

/-- At most `fuel` runes. -/
def runesFuel : ℕ → Bytes → List ℕ
  | 0, _ => []
  | _ + 1, [] => []
  | fuel + 1, b :: t =>
    let (r, width) := decodeRune (b :: t)
    r :: runesFuel fuel ((b :: t).drop width)

/-- `[]rune(s)`.  Every rune takes a byte. -/
def runes (s : Bytes) : List ℕ := runesFuel s.length s

/-- `utf8.AppendRune`. -/
def encodeRune (r : ℕ) : Bytes :=
  if r < 0x80 then [UInt8.ofNat r]
  else if r < 0x800 then [UInt8.ofNat (0xC0 + r / 64), UInt8.ofNat (0x80 + r % 64)]
  else if 0xD800 ≤ r && r ≤ 0xDFFF || 0x10FFFF < r then [0xEF, 0xBF, 0xBD]
  else if r < 0x10000 then
    [UInt8.ofNat (0xE0 + r / 4096), UInt8.ofNat (0x80 + r / 64 % 64), UInt8.ofNat (0x80 + r % 64)]
  else
    [UInt8.ofNat (0xF0 + r / 262144), UInt8.ofNat (0x80 + r / 4096 % 64),
      UInt8.ofNat (0x80 + r / 64 % 64), UInt8.ofNat (0x80 + r % 64)]

/-- `string(rs)`. -/
def ofRunes (rs : List ℕ) : Bytes := rs.flatMap encodeRune

example : runes [0x61, 0xC3, 0xA9, 0xE2, 0x82, 0xAC, 0xF0, 0x9F, 0x98, 0x80, 0xED, 0xA0, 0x80] =
    [0x61, 0xE9, 0x20AC, 0x1F600, 0xFFFD, 0xFFFD, 0xFFFD] := by decide

example : ofRunes [0x61, 0xE9, 0x20AC, 0x1F600] =
    [0x61, 0xC3, 0xA9, 0xE2, 0x82, 0xAC, 0xF0, 0x9F, 0x98, 0x80] := by decide

/-! ## Characters -/

/-- A character. -/
def IsScalar (r : ℕ) : Prop := r < 0xD800 ∨ 0xDFFF < r ∧ r < 0x110000

/-- A character of the basic plane. -/
def IsBasic (r : ℕ) : Prop := r < 0xD800 ∨ 0xDFFF < r ∧ r < 0x10000

theorem IsBasic.isScalar {r : ℕ} (h : IsBasic r) : IsScalar r := by
  unfold IsBasic at h
  unfold IsScalar
  omega

theorem IsBasic.lt {r : ℕ} (h : IsBasic r) : r < 0x10000 := by
  unfold IsBasic at h
  omega

theorem between_iff {lo hi b : UInt8} :
    (lo ≤ b && b ≤ hi) = true ↔ lo.toNat ≤ b.toNat ∧ b.toNat ≤ hi.toNat := by
  rw [Bool.and_eq_true, decide_eq_true_eq, decide_eq_true_eq, UInt8.le_iff_toNat_le, UInt8.le_iff_toNat_le]

theorem isContinuation_iff {b : UInt8} : isContinuation b = true ↔ 0x80 ≤ b.toNat ∧ b.toNat ≤ 0xBF := between_iff

section
variable {b₀ b₁ b₂ b₃ : UInt8} (t : Bytes)

theorem not_ascii {n : ℕ} (hn : 0x80 ≤ n) (h : n ≤ b₀.toNat) : ¬ b₀ < 0x80 := by
  rw [UInt8.lt_iff_toNat_lt]
  exact Nat.not_lt.mpr (hn.trans h)

theorem not_between {lo hi : UInt8} (h : hi.toNat < b₀.toNat) : ¬ (lo ≤ b₀ && b₀ ≤ hi) = true :=
  fun hb => Nat.not_lt.mpr (between_iff.mp hb).2 h

/-- The second byte, whose bounds depend on the first. -/
theorem second_between (h₁ : isContinuation b₁ = true) (a a' lo hi : UInt8) (hlo : b₀ = a → lo.toNat ≤ b₁.toNat)
    (hhi : b₀ = a' → b₁.toNat ≤ hi.toNat) :
    ((if b₀ = a then lo else 0x80) ≤ b₁ && b₁ ≤ if b₀ = a' then hi else 0xBF) = true := by
  rw [isContinuation_iff] at h₁
  rw [between_iff]
  constructor
  · split_ifs with h
    · exact hlo h
    · exact h₁.1
  · split_ifs with h
    · exact hhi h
    · exact h₁.2

theorem decodeRune_one (h₀ : b₀.toNat < 0x80) : decodeRune (b₀ :: t) = (b₀.toNat, 1) := by
  have h₀ : b₀ < 0x80 := UInt8.lt_iff_toNat_lt.mpr h₀
  unfold decodeRune
  exact if_pos h₀

theorem decodeRune_two (h₀ : 0xC2 ≤ b₀.toNat ∧ b₀.toNat ≤ 0xDF) (h₁ : isContinuation b₁ = true) :
    decodeRune (b₀ :: b₁ :: t) = (b₀.toNat % 32 * 64 + b₁.toNat % 64, 2) := by
  have htwo : (0xC2 ≤ b₀ && b₀ ≤ 0xDF) = true := between_iff.mpr h₀
  rw [decodeRune, if_neg (not_ascii (by decide) h₀.1), if_pos htwo]
  exact if_pos h₁

/-- No encoding is longer than it has to be, and none is of a surrogate. -/
theorem decodeRune_three (h₀ : 0xE0 ≤ b₀.toNat ∧ b₀.toNat ≤ 0xEF) (h₁ : isContinuation b₁ = true)
    (h₂ : isContinuation b₂ = true) (hlong : b₀.toNat = 0xE0 → 0xA0 ≤ b₁.toNat)
    (hsurrogate : b₀.toNat = 0xED → b₁.toNat ≤ 0x9F) :
    decodeRune (b₀ :: b₁ :: b₂ :: t) =
      ((b₀.toNat % 16 * 64 + b₁.toNat % 64) * 64 + b₂.toNat % 64, 3) := by
  have htwo : (0xDF : UInt8).toNat < b₀.toNat := h₀.1
  have hthree : (0xE0 ≤ b₀ && b₀ ≤ 0xEF) = true := between_iff.mpr h₀
  have hsecond := second_between h₁ 0xE0 0xED 0xA0 0x9F
    (fun h => hlong (congrArg UInt8.toNat h)) (fun h => hsurrogate (congrArg UInt8.toNat h))
  rw [decodeRune, if_neg (not_ascii (by decide) h₀.1), if_neg (not_between htwo), if_pos hthree]
  refine if_pos ?_
  rw [hsecond, h₂]
  rfl

/-- No encoding is longer than it has to be, and none is of a number above the last plane. -/
theorem decodeRune_four (h₀ : 0xF0 ≤ b₀.toNat ∧ b₀.toNat ≤ 0xF4) (h₁ : isContinuation b₁ = true)
    (h₂ : isContinuation b₂ = true) (h₃ : isContinuation b₃ = true)
    (hlong : b₀.toNat = 0xF0 → 0x90 ≤ b₁.toNat) (hlast : b₀.toNat = 0xF4 → b₁.toNat ≤ 0x8F) :
    decodeRune (b₀ :: b₁ :: b₂ :: b₃ :: t) =
      (((b₀.toNat % 8 * 64 + b₁.toNat % 64) * 64 + b₂.toNat % 64) * 64 + b₃.toNat % 64, 4) := by
  have hthree : (0xEF : UInt8).toNat < b₀.toNat := h₀.1
  have htwo : (0xDF : UInt8).toNat < b₀.toNat := lt_trans (by decide) hthree
  have hfour : (0xF0 ≤ b₀ && b₀ ≤ 0xF4) = true := between_iff.mpr h₀
  have hsecond := second_between h₁ 0xF0 0xF4 0x90 0x8F
    (fun h => hlong (congrArg UInt8.toNat h)) (fun h => hlast (congrArg UInt8.toNat h))
  rw [decodeRune, if_neg (not_ascii (by decide) h₀.1), if_neg (not_between htwo), if_neg (not_between hthree),
    if_pos hfour]
  refine if_pos ?_
  rw [hsecond, h₂, h₃]
  rfl

end

theorem decodeRune_encodeRune {r : ℕ} (h : IsScalar r) (t : Bytes) :
    decodeRune (encodeRune r ++ t) = (r, (encodeRune r).length) := by
  have hbyte : ∀ n < 256, (UInt8.ofNat n).toNat = n := by
    intro n hn
    rw [UInt8.toNat_ofNat']
    omega
  have hcont : ∀ n < 64, isContinuation (UInt8.ofNat (0x80 + n)) = true := by
    intro n hn
    rw [isContinuation_iff, hbyte (0x80 + n) (by omega)]
    omega
  unfold IsScalar at h
  unfold encodeRune
  split_ifs with h₁ h₂ h₃
  · have h₀ := hbyte r (by omega)
    show decodeRune (UInt8.ofNat r :: t) = _
    rw [decodeRune_one t (by omega), h₀]
    rfl
  · have h₀ := hbyte (0xC0 + r / 64) (by omega)
    have h₁ := hbyte (0x80 + r % 64) (by omega)
    show decodeRune (_ :: _ :: t) = _
    rw [decodeRune_two t (by omega) (hcont (r % 64) (by omega)), h₀, h₁]
    refine Prod.ext ?_ rfl
    dsimp only
    omega
  · rw [Bool.or_eq_true, Bool.and_eq_true, decide_eq_true_eq, decide_eq_true_eq, decide_eq_true_eq] at h₃
    omega
  · have h₀ := hbyte (0xE0 + r / 4096) (by omega)
    have h₁ := hbyte (0x80 + r / 64 % 64) (by omega)
    have h₂ := hbyte (0x80 + r % 64) (by omega)
    rw [Bool.or_eq_true, Bool.and_eq_true, decide_eq_true_eq, decide_eq_true_eq, decide_eq_true_eq] at h₃
    show decodeRune (_ :: _ :: _ :: t) = _
    rw [decodeRune_three t (by omega) (hcont (r / 64 % 64) (by omega)) (hcont (r % 64) (by omega))
      (by omega) (by omega), h₀, h₁, h₂]
    refine Prod.ext ?_ rfl
    dsimp only
    omega
  · have h₀ := hbyte (0xF0 + r / 262144) (by omega)
    have h₁ := hbyte (0x80 + r / 4096 % 64) (by omega)
    have h₂ := hbyte (0x80 + r / 64 % 64) (by omega)
    have h₃' := hbyte (0x80 + r % 64) (by omega)
    show decodeRune (_ :: _ :: _ :: _ :: t) = _
    rw [decodeRune_four t (by omega) (hcont (r / 4096 % 64) (by omega)) (hcont (r / 64 % 64) (by omega))
      (hcont (r % 64) (by omega)) (by omega) (by omega), h₀, h₁, h₂, h₃']
    refine Prod.ext ?_ rfl
    dsimp only
    omega

theorem encodeRune_ne_nil (r : ℕ) : encodeRune r ≠ [] := by
  unfold encodeRune
  split_ifs <;> exact List.cons_ne_nil _ _

theorem runesFuel_ofRunes : ∀ (fuel : ℕ) {rs : List ℕ}, (∀ r ∈ rs, IsScalar r) →
    (ofRunes rs).length ≤ fuel → runesFuel fuel (ofRunes rs) = rs
  | 0, [], _, _ => rfl
  | _ + 1, [], _, _ => rfl
  | 0, r :: rs, _, hfuel => by
    have hpos := List.length_pos_iff.mpr (encodeRune_ne_nil r)
    rw [ofRunes, List.flatMap_cons, List.length_append] at hfuel
    omega
  | fuel + 1, r :: rs, hrs, hfuel => by
    have hpos := List.length_pos_iff.mpr (encodeRune_ne_nil r)
    have hdecode := decodeRune_encodeRune (hrs r (List.mem_cons_self ..)) (ofRunes rs)
    have hcons : ofRunes (r :: rs) = encodeRune r ++ ofRunes rs := List.flatMap_cons
    rw [hcons, List.length_append] at hfuel
    obtain ⟨b, t, hbt⟩ := List.exists_cons_of_ne_nil (encodeRune_ne_nil r)
    have hstep : runesFuel (fuel + 1) (encodeRune r ++ ofRunes rs) =
        r :: runesFuel fuel ((encodeRune r ++ ofRunes rs).drop (encodeRune r).length) := by
      rw [hbt, List.cons_append] at hdecode ⊢
      rw [runesFuel, hdecode]
    rw [hcons, hstep, List.drop_left,
      runesFuel_ofRunes fuel (fun x hx => hrs x (List.mem_cons_of_mem r hx)) (by omega)]

theorem runes_ofRunes {rs : List ℕ} (h : ∀ r ∈ rs, IsScalar r) : runes (ofRunes rs) = rs :=
  runesFuel_ofRunes _ h le_rfl

end TamagoUefi.Go
