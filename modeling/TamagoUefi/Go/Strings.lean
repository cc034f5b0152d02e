import Mathlib.Data.List.Basic
import Mathlib.Data.List.Find
import Mathlib.Data.List.TakeWhile
import Mathlib.Data.Nat.Digits.Defs

/-!
# TamagoUefi.Go.Strings — Go byte strings

A Go `string` or `[]byte` is a list of bytes.  This file has the functions of the packages
`strings`, `strconv` and `encoding/hex` that the network code calls, and the facts about them
that later files use.

Case mapping works on UTF-8 in Go.  `toLower` and `equalFold` follow it as far as a comparison with
an ASCII text can see: besides the ASCII letters, U+212A and U+0130 lower to `k` and `i`, and
U+212A and U+017F fold to `k` and `s`; every other non-ASCII letter stays non-ASCII.
-/

namespace TamagoUefi.Go

abbrev Bytes : Type := List UInt8

instance : LawfulBEq Bytes := inferInstance

/-- The bytes of an ASCII literal. -/
def str (s : String) : Bytes := s.toList.map fun c => UInt8.ofNat c.toNat

/-! ## Searching -/

def hasPrefix (s pre : Bytes) : Bool := pre.isPrefixOf s

def indexByte (s : Bytes) (c : UInt8) : Option ℕ := s.findIdx? (· == c)

def lastIndexByte (s : Bytes) (c : UInt8) : Option ℕ :=
  (indexByte s.reverse c).map fun i => s.length - 1 - i

/-- `strings.Index`: the first position at which `sub` occurs. -/
def index (s sub : Bytes) : Option ℕ :=
  if hasPrefix s sub then some 0 else
  match s with
  | [] => none
  | _ :: t => (index t sub).map (· + 1)

def contains (s sub : Bytes) : Bool := (index s sub).isSome

variable {s : Bytes}

theorem hasPrefix_iff {pre : Bytes} : hasPrefix s pre = true ↔ pre <+: s :=
  List.isPrefixOf_iff_prefix

theorem hasPrefix_append (pre s : Bytes) : hasPrefix (pre ++ s) pre = true :=
  hasPrefix_iff.mpr (List.prefix_append pre s)

variable {c : UInt8}

theorem indexByte_eq_none : indexByte s c = none ↔ c ∉ s := by
  unfold indexByte
  rw [List.findIdx?_eq_none_iff]
  constructor
  · intro h hc
    simpa using h c hc
  · intro h x hx
    simp only [beq_eq_false_iff_ne]
    rintro rfl
    exact h hx

theorem indexByte_append {a b : Bytes} (h : c ∉ a) : indexByte (a ++ c :: b) c = some a.length := by
  have ha : List.findIdx? (· == c) a = none := indexByte_eq_none.mpr h
  simp [indexByte, List.findIdx?_append, ha, List.findIdx?_cons]

variable {i : ℕ}

/-- The byte found splits the string, and does not occur before. -/
theorem indexByte_eq_some (h : indexByte s c = some i) :
    s = s.take i ++ c :: s.drop (i + 1) ∧ c ∉ s.take i := by
  obtain ⟨hi, hc, hmin⟩ := List.findIdx?_eq_some_iff_getElem.mp h
  have hc' : s[i] = c := by simpa using hc
  constructor
  · conv_lhs => rw [← List.take_append_drop i s, List.drop_eq_getElem_cons hi, hc']
  · intro hmem
    obtain ⟨j, hj, hjc⟩ := List.mem_iff_getElem.mp hmem
    rw [List.length_take] at hj
    rw [List.getElem_take] at hjc
    exact hmin j (by omega) (by simp [hjc])

theorem lastIndexByte_eq_some (h : lastIndexByte s c = some i) :
    s = s.take i ++ c :: s.drop (i + 1) ∧ c ∉ s.drop (i + 1) := by
  obtain ⟨j, hj, rfl⟩ := Option.map_eq_some_iff.mp h
  obtain ⟨hs, hc⟩ := indexByte_eq_some hj
  have hlen : j < s.length := by
    have := (List.findIdx?_eq_some_iff_getElem.mp hj).1
    simpa using this
  -- reversed, the part before the last `c` is the part after the first one
  have hrev := congrArg List.reverse hs
  rw [List.reverse_reverse, List.reverse_append, List.reverse_cons, List.append_assoc] at hrev
  have hpre : (s.reverse.drop (j + 1)).reverse = s.take (s.length - 1 - j) := by
    rw [List.reverse_drop, List.reverse_reverse, List.length_reverse]
    congr 1
    omega
  have hpost : (s.reverse.take j).reverse = s.drop (s.length - 1 - j + 1) := by
    rw [List.reverse_take, List.reverse_reverse, List.length_reverse]
    congr 1
    omega
  rw [hpre, hpost] at hrev
  refine ⟨hrev, ?_⟩
  rw [← hpost, List.mem_reverse]
  exact hc

theorem lastIndexByte_of_notMem (h : c ∉ s) : lastIndexByte s c = none := by
  unfold lastIndexByte
  rw [indexByte_eq_none.mpr (by simpa using h), Option.map_none]

theorem lastIndexByte_append {a b : Bytes} (h : c ∉ b) : lastIndexByte (a ++ c :: b) c = some a.length := by
  unfold lastIndexByte
  have hrev : (a ++ c :: b).reverse = b.reverse ++ c :: a.reverse := by simp
  rw [hrev, indexByte_append (by simpa using h), Option.map_some]
  simp only [List.length_append, List.length_cons, List.length_reverse]
  congr 1
  omega

/-- A prefix ends before a byte that does not occur in it. -/
theorem hasPrefix_append_cons {b : Bytes} : ∀ {a pre : Bytes}, c ∉ pre →
    (hasPrefix (a ++ c :: b) pre = true ↔ hasPrefix a pre = true)
  | _, [], _ => by simp [hasPrefix]
  | [], p :: pre, h => by
    have hne : p ≠ c := fun e => h (by simp [e])
    simp [hasPrefix, hne]
  | d :: a, p :: pre, h => by
    have ih := hasPrefix_append_cons (a := a) (b := b) (fun hc => h (List.mem_cons_of_mem p hc))
    simp only [hasPrefix, List.cons_append, List.isPrefixOf_cons_cons, Bool.and_eq_true] at ih ⊢
    rw [ih]

theorem index_eq_some : ∀ {s sub : Bytes} {i : ℕ}, index s sub = some i →
    s = s.take i ++ sub ++ s.drop (i + sub.length)
  | s, sub, i, h => by
    rw [index.eq_def] at h
    split_ifs at h with hpre
    · cases h
      obtain ⟨t, rfl⟩ := hasPrefix_iff.mp hpre
      simp
    · cases s with
      | nil => cases h
      | cons c t =>
        obtain ⟨j, hj, rfl⟩ := Option.map_eq_some_iff.mp h
        have ih := index_eq_some hj
        rw [List.take_succ_cons, Nat.add_right_comm, List.drop_succ_cons, List.cons_append,
          List.cons_append, ← ih]

/-- `sub` does not begin inside `a` when it follows it: the first occurrence in `a ++ sub` is the
last. -/
def Ends (a sub : Bytes) : Prop := index (a ++ sub) sub = some a.length

instance (a sub : Bytes) : Decidable (Ends a sub) := inferInstanceAs (Decidable (_ = _))

variable {sub : Bytes}

theorem ends_cons {a : Bytes} : Ends (c :: a) sub ↔ ¬ sub <+: c :: (a ++ sub) ∧ Ends a sub := by
  unfold Ends
  rw [List.cons_append, index.eq_def]
  by_cases hpre : hasPrefix (c :: (a ++ sub)) sub = true
  · rw [if_pos hpre]
    simp [hasPrefix_iff.mp hpre]
  · rw [if_neg hpre]
    simp [← hasPrefix_iff, hpre]

/-- What comes after does not matter. -/
theorem Ends.index_append {a : Bytes} (h : Ends a sub) (rest : Bytes) :
    index (a ++ sub ++ rest) sub = some a.length := by
  induction a with
  | nil =>
    rw [index.eq_def, List.nil_append, if_pos (hasPrefix_append sub rest)]
    rfl
  | cons c a ih =>
    obtain ⟨hpre, h⟩ := ends_cons.mp h
    have hpre' : ¬ hasPrefix (c :: (a ++ sub ++ rest)) sub = true := by
      rw [hasPrefix_iff]
      intro hp
      have hlong : c :: (a ++ sub) <+: c :: (a ++ sub ++ rest) :=
        List.cons_prefix_cons.mpr ⟨rfl, List.prefix_append _ _⟩
      exact hpre (List.prefix_of_prefix_length_le hp hlong (by simp; omega))
    rw [List.cons_append, List.cons_append, index.eq_def, if_neg hpre']
    simp only
    rw [ih h]
    rfl

theorem ends_take_index : ∀ {s sub : Bytes} {i : ℕ}, index s sub = some i → Ends (s.take i) sub
  | s, sub, i, h => by
    have hfound := index_eq_some h
    rw [index.eq_def] at h
    split_ifs at h with hpre
    · cases h
      rw [List.take_zero, Ends, List.nil_append, index.eq_def, if_pos]
      · rfl
      · exact hasPrefix_iff.mpr List.prefix_rfl
    · cases s with
      | nil => cases h
      | cons c t =>
        obtain ⟨j, hj, rfl⟩ := Option.map_eq_some_iff.mp h
        rw [List.take_succ_cons]
        refine ends_cons.mpr ⟨fun hp => hpre (hasPrefix_iff.mpr ?_), ends_take_index hj⟩
        -- what was found is the beginning of the text itself
        refine hp.trans ⟨(c :: t).drop (j + 1 + sub.length), ?_⟩
        rw [List.take_succ_cons, List.cons_append] at hfound
        exact hfound.symm

theorem ends_nil (sub : Bytes) : Ends [] sub := by
  rw [Ends, List.nil_append, index.eq_def, if_pos (hasPrefix_iff.mpr List.prefix_rfl)]
  rfl

variable {t : Bytes}

theorem index_cons_eq_none (h : index (c :: t) sub = none) : ¬ sub <+: c :: t ∧ index t sub = none := by
  rw [index.eq_def] at h
  split_ifs at h with hpre
  exact ⟨mt hasPrefix_iff.mpr hpre, Option.map_eq_none_iff.mp h⟩

/-- Two different bytes cannot overlap with themselves. -/
theorem ends_pair {x y : UInt8} (hxy : x ≠ y) : ∀ {s : Bytes}, index s [x, y] = none → Ends s [x, y]
  | [], _ => ends_nil _
  | c :: t, h => by
    obtain ⟨hpre, ht⟩ := index_cons_eq_none h
    refine ends_cons.mpr ⟨fun hp => ?_, ends_pair hxy ht⟩
    obtain ⟨rfl, htail⟩ := List.cons_prefix_cons.mp hp
    cases t with
    | nil => exact hxy (List.cons_prefix_cons.mp htail).1.symm
    | cons d t =>
      obtain ⟨rfl, -⟩ := List.cons_prefix_cons.mp htail
      exact hpre ⟨t, rfl⟩

theorem Ends.index_eq_none : ∀ {a sub : Bytes}, sub ≠ [] → Ends a sub → index a sub = none
  | [], sub, hne, _ => by
    rw [index.eq_def, if_neg]
    intro hpre
    exact hne (List.prefix_nil.mp (hasPrefix_iff.mp hpre))
  | c :: a, sub, hne, h => by
    obtain ⟨hpre, h⟩ := ends_cons.mp h
    rw [index.eq_def, if_neg]
    · dsimp only
      rw [Ends.index_eq_none hne h]
      rfl
    · intro hp
      exact hpre ((hasPrefix_iff.mp hp).trans ⟨sub, rfl⟩)

/-! ## Splitting -/

/-- `strings.Split` at a separator that is not empty, with at most `fuel` cuts. -/
def splitFuel (sep : Bytes) : ℕ → Bytes → List Bytes
  | 0, s => [s]
  | fuel + 1, s =>
    match index s sep with
    | none => [s]
    | some i => s.take i :: splitFuel sep fuel (s.drop (i + sep.length))

def split (s sep : Bytes) : List Bytes := splitFuel sep s.length s

section
variable {sep : Bytes}

theorem splitFuel_none (h : index s sep = none) (fuel : ℕ) : splitFuel sep fuel s = [s] := by
  cases fuel with
  | zero => rfl
  | succ fuel => rw [splitFuel, h]

/-- **Splitting undoes joining** when no separator begins in a piece. -/
theorem splitFuel_intercalate : ∀ (l : Bytes) (ls : List Bytes) (fuel : ℕ),
    (∀ m ∈ l :: ls, index m sep = none ∧ Ends m sep) → ls.length ≤ fuel →
    splitFuel sep fuel (sep.intercalate (l :: ls)) = l :: ls
  | l, [], fuel, h, _ => by
    rw [List.intercalate_singleton, splitFuel_none (h l List.mem_cons_self).1]
  | l, m :: ls, 0, _, hfuel => absurd hfuel (by simp)
  | l, m :: ls, fuel + 1, h, hfuel => by
    have ih := splitFuel_intercalate m ls fuel (fun k hk => h k (List.mem_cons_of_mem _ hk))
      (Nat.le_of_succ_le_succ hfuel)
    rw [splitFuel, List.intercalate_cons_cons, (h l List.mem_cons_self).2.index_append]
    dsimp only
    rw [List.append_assoc, List.take_left, ← List.append_assoc, ← List.length_append, List.drop_left,
      ih]

theorem length_le_intercalate (hsep : sep ≠ []) : ∀ (l : Bytes) (ls : List Bytes),
    ls.length ≤ (sep.intercalate (l :: ls)).length
  | _, [] => Nat.zero_le _
  | l, m :: ls => by
    have ih := length_le_intercalate hsep m ls
    have hpos : 0 < sep.length := List.length_pos_iff.mpr hsep
    rw [List.intercalate_cons_cons, List.length_append, List.length_append, List.length_cons]
    omega

theorem split_intercalate (hsep : sep ≠ []) (l : Bytes) (ls : List Bytes)
    (h : ∀ m ∈ l :: ls, index m sep = none ∧ Ends m sep) : split (sep.intercalate (l :: ls)) sep = l :: ls :=
  splitFuel_intercalate l ls _ h (length_le_intercalate hsep l ls)

theorem index_of_mem_splitFuel (hsep : sep ≠ []) : ∀ (fuel : ℕ) (s : Bytes), s.length ≤ fuel →
    ∀ p ∈ splitFuel sep fuel s, index p sep = none
  | 0, s, hlen, p, hp => by
    rw [List.length_eq_zero_iff.mp (Nat.le_zero.mp hlen)] at hp
    rw [List.mem_singleton.mp hp]
    exact (ends_nil sep).index_eq_none hsep
  | fuel + 1, s, hlen, p, hp => by
    rw [splitFuel] at hp
    cases hi : index s sep with
    | none =>
      rw [hi] at hp
      rwa [List.mem_singleton.mp hp]
    | some i =>
      rw [hi] at hp
      rcases List.mem_cons.mp hp with rfl | hp
      · exact (ends_take_index hi).index_eq_none hsep
      · refine index_of_mem_splitFuel hsep fuel _ ?_ p hp
        have hpos : 0 < sep.length := List.length_pos_iff.mpr hsep
        have hfound := congrArg List.length (index_eq_some hi)
        rw [List.length_append, List.length_append] at hfound
        omega

end

theorem index_byte (c : UInt8) : ∀ s : Bytes, index s [c] = indexByte s c
  | [] => rfl
  | x :: t => by
    have hpre : hasPrefix (x :: t) [c] = (x == c) := by
      rw [hasPrefix, List.isPrefixOf_cons_cons, List.isPrefixOf_nil_left, Bool.and_true]
      exact Bool.beq_comm
    rw [index, index_byte c t, indexByte, indexByte, List.findIdx?_cons, hpre]

theorem splitFuel_byte (c : UInt8) : ∀ (fuel : ℕ) (s : Bytes), s.length ≤ fuel →
    splitFuel [c] fuel s = s.splitOn c
  | 0, s, h => by
    rw [List.length_eq_zero_iff.mp (Nat.le_zero.mp h)]
    rfl
  | fuel + 1, s, h => by
    rw [splitFuel, index_byte]
    cases hi : indexByte s c with
    | none => exact (List.splitOn_eq_singleton (indexByte_eq_none.mp hi)).symm
    | some i =>
      obtain ⟨hs, hc⟩ := indexByte_eq_some hi
      have hlen := congrArg List.length hs
      rw [List.length_append, List.length_cons] at hlen
      have ih := splitFuel_byte c fuel (s.drop (i + 1)) (by omega)
      conv_rhs => rw [hs, List.splitOn_append_cons_self_of_not_mem hc, ← ih]
      rfl

theorem split_byte (s : Bytes) (c : UInt8) : split s [c] = s.splitOn c :=
  splitFuel_byte c s.length s le_rfl

/-- `strings.SplitN` at a byte. -/
def splitN (s : Bytes) (c : UInt8) : ℕ → List Bytes
  | 0 => []
  | 1 => [s]
  | n + 2 =>
    match indexByte s c with
    | none => [s]
    | some i => s.take i :: splitN (s.drop (i + 1)) c (n + 1)

/-! ## Trimming -/

/-- The encodings of the white space of `unicode.IsSpace`. -/
def spaces : List Bytes :=
  [[0x09], [0x0A], [0x0B], [0x0C], [0x0D], [0x20], [0xC2, 0x85], [0xC2, 0xA0],
    [0xE1, 0x9A, 0x80], [0xE2, 0x80, 0x80], [0xE2, 0x80, 0x81], [0xE2, 0x80, 0x82],
    [0xE2, 0x80, 0x83], [0xE2, 0x80, 0x84], [0xE2, 0x80, 0x85], [0xE2, 0x80, 0x86],
    [0xE2, 0x80, 0x87], [0xE2, 0x80, 0x88], [0xE2, 0x80, 0x89], [0xE2, 0x80, 0x8A],
    [0xE2, 0x80, 0xA8], [0xE2, 0x80, 0xA9], [0xE2, 0x80, 0xAF], [0xE2, 0x81, 0x9F],
    [0xE3, 0x80, 0x80]]

/-- Strip leading occurrences of the words of `ws`, at most `fuel` of them. -/
def stripLeft (ws : List Bytes) : ℕ → Bytes → Bytes
  | 0, s => s
  | fuel + 1, s =>
    match ws.find? (hasPrefix s ·) with
    | some w => stripLeft ws fuel (s.drop w.length)
    | none => s

def trimSpace (s : Bytes) : Bytes :=
  let l := stripLeft spaces s.length s
  (stripLeft (spaces.map List.reverse) l.length l.reverse).reverse

/-- White space is an ASCII byte, or has none. -/
theorem spaces_spec : ∀ w ∈ spaces, w ≠ [] ∧
    if w.length = 1 then ∀ c ∈ w, c < 0x80 else ∀ c ∈ w, 0x80 ≤ c := by decide +kernel

variable {ws : List Bytes}

theorem stripLeft_of_find (n : ℕ) (h : ws.find? (hasPrefix s ·) = none) : stripLeft ws n s = s := by
  cases n with
  | zero => rfl
  | succ n => rw [stripLeft, h]

section
variable {c : UInt8} (hc : [c] ∈ spaces)
include hc

theorem find_spaces_cons (t : Bytes) : spaces.find? (hasPrefix (c :: t) ·) = some [c] ∧
    (spaces.map List.reverse).find? (hasPrefix (c :: t) ·) = some [c] := by
  simp only [spaces, List.mem_cons, List.cons.injEq, and_true, List.not_mem_nil, or_false,
    reduceCtorEq, and_false] at hc
  rcases hc with rfl | rfl | rfl | rfl | rfl | rfl <;> exact ⟨rfl, rfl⟩

theorem hasPrefix_concat {w : Bytes} (hw : w ∈ spaces) (hs : s ≠ []) :
    hasPrefix (s ++ [c]) w = hasPrefix s w := by
  rw [Bool.eq_iff_iff, hasPrefix_iff, hasPrefix_iff, List.prefix_concat_iff]
  refine or_iff_right ?_
  rintro rfl
  -- such a word would have an ASCII byte, and not be one
  have hlen : ¬ (s ++ [c]).length = 1 := by
    have hpos := List.length_pos_iff.mpr hs
    simp only [List.length_append, List.length_singleton]
    omega
  have hlong := (spaces_spec _ hw).2
  rw [if_neg hlen] at hlong
  have hbyte : c < 0x80 := (spaces_spec [c] hc).2 c (by simp)
  exact absurd (hlong c (by simp)) (UInt8.not_le.mpr hbyte)

theorem stripLeft_concat (n : ℕ) (s : Bytes) (hn : s.length ≤ n) :
    stripLeft spaces (n + 1) (s ++ [c]) =
      if stripLeft spaces n s = [] then [] else stripLeft spaces n s ++ [c] := by
  induction n generalizing s with
  | zero =>
    obtain rfl := List.eq_nil_of_length_eq_zero (Nat.le_zero.mp hn)
    have hfind := (find_spaces_cons hc []).1
    simp only [List.nil_append, stripLeft, hfind]
    rfl
  | succ n ih =>
    cases s with
    | nil =>
      have hnil : ∀ m, stripLeft spaces m [] = [] := fun m => stripLeft_of_find m rfl
      rw [List.nil_append, stripLeft, (find_spaces_cons hc []).1, if_pos (hnil _)]
      exact hnil _
    | cons d s =>
      have hfind : spaces.find? (hasPrefix (d :: s ++ [c]) ·) = spaces.find? (hasPrefix (d :: s) ·) :=
        List.find?_congr fun w hw => hasPrefix_concat hc hw (by simp)
      rw [stripLeft, hfind]
      cases hw : spaces.find? (hasPrefix (d :: s) ·) with
      | none => rw [stripLeft_of_find _ hw, if_neg (by simp)]
      | some w =>
        have hpos := List.length_pos_iff.mpr (spaces_spec w (List.mem_of_find?_eq_some hw)).1
        have hle := (hasPrefix_iff.mp (List.find?_some hw)).length_le
        have hshort : ((d :: s).drop w.length).length ≤ n := by
          rw [List.length_drop]
          omega
        rw [stripLeft, hw]
        simp only
        rw [List.drop_append_of_le_length hle, ih _ hshort]

theorem trimSpace_concat (s : Bytes) : trimSpace (s ++ [c]) = trimSpace s := by
  unfold trimSpace
  rw [List.length_append, List.length_singleton, stripLeft_concat hc _ s le_rfl]
  simp only
  split_ifs with hnil
  · rw [hnil]
  · rw [List.reverse_append, List.reverse_singleton, List.singleton_append, List.length_append,
      List.length_singleton, stripLeft, (find_spaces_cons hc _).2]
    rfl

end

theorem trimSpace_append (h : ∀ c ∈ t, [c] ∈ spaces) : trimSpace (s ++ t) = trimSpace s := by
  induction t generalizing s with
  | nil => rw [List.append_nil]
  | cons c t ih =>
    rw [List.append_cons, ih fun d hd => h d (by simp [hd])]
    exact trimSpace_concat (h c (by simp)) s

theorem find_none_of_notMem (h : ∀ w ∈ ws, w ≠ [] ∧ ∀ c ∈ w, c ∉ s) : ws.find? (hasPrefix s ·) = none := by
  refine List.find?_eq_none.mpr fun w hw hpre => ?_
  obtain ⟨c, hc⟩ := List.exists_mem_of_ne_nil w (h w hw).1
  exact (h w hw).2 c hc ((hasPrefix_iff.mp hpre).subset hc)

theorem trimSpace_eq_self (h : ∀ w ∈ spaces, ∀ c ∈ w, c ∉ s) : trimSpace s = s := by
  have hleft : stripLeft spaces s.length s = s :=
    stripLeft_of_find _ (find_none_of_notMem fun w hw => ⟨(spaces_spec w hw).1, h w hw⟩)
  have hright : (spaces.map List.reverse).find? (hasPrefix s.reverse ·) = none := by
    refine find_none_of_notMem fun w hw => ?_
    obtain ⟨v, hv, rfl⟩ := List.mem_map.mp hw
    exact ⟨by simpa using (spaces_spec v hv).1, fun c hc => by simpa using h v hv c (by simpa using hc)⟩
  unfold trimSpace
  rw [hleft]
  simp only
  rw [stripLeft_of_find _ hright, List.reverse_reverse]

theorem trimSpace_prepend (h : ∀ c ∈ t, [c] ∈ spaces) : trimSpace (t ++ s) = trimSpace s := by
  induction t with
  | nil => rw [List.nil_append]
  | cons c t ih =>
    have hfind := (find_spaces_cons (h c (by simp)) (t ++ s)).1
    rw [← ih fun d hd => h d (by simp [hd])]
    unfold trimSpace
    rw [List.cons_append, List.length_cons, stripLeft, hfind]
    rfl

/-- A printing character of ASCII. -/
def Visible (c : UInt8) : Prop := 0x21 ≤ c ∧ c ≤ 0x7E

instance (c : UInt8) : Decidable (Visible c) := inferInstanceAs (Decidable (_ ∧ _))

theorem find_spaces_visible (hc : Visible c) (t : Bytes) :
    spaces.find? (hasPrefix (c :: t) ·) = none ∧
      (spaces.map List.reverse).find? (hasPrefix (c :: t) ·) = none := by
  have hheads : ∀ w ∈ spaces ++ spaces.map List.reverse, w ≠ [] ∧ ∀ d ∈ w.head?, ¬ Visible d := by
    decide +kernel
  have hnone : ∀ w ∈ spaces ++ spaces.map List.reverse, ¬ hasPrefix (c :: t) w = true := by
    intro w hw hpre
    obtain ⟨hne, hhead⟩ := hheads w hw
    cases w with
    | nil => exact hne rfl
    | cons d w =>
      have hd : d = c := (List.cons_prefix_cons.mp (hasPrefix_iff.mp hpre)).1
      exact hhead d rfl (hd ▸ hc)
  exact ⟨List.find?_eq_none.mpr fun w hw => hnone w (List.mem_append_left _ hw),
    List.find?_eq_none.mpr fun w hw => hnone w (List.mem_append_right _ hw)⟩

/-- Nothing is trimmed between two printing characters. -/
theorem trimSpace_visible {a z : UInt8} (ha : Visible a) (hz : Visible z) (hs : s = a :: t)
    (hlast : s.getLast? = some z) : trimSpace s = s := by
  obtain ⟨r, hr⟩ : ∃ r, s.reverse = z :: r := by
    obtain ⟨u, rfl⟩ := List.getLast?_eq_some_iff.mp hlast
    exact ⟨u.reverse, by simp⟩
  have hleft : stripLeft spaces s.length s = s := by
    rw [hs]
    exact stripLeft_of_find _ (find_spaces_visible ha t).1
  unfold trimSpace
  rw [hleft]
  dsimp only
  rw [hr, stripLeft_of_find _ (find_spaces_visible hz r).2, ← hr, List.reverse_reverse]

/-- `strings.Trim` with an ASCII cutset. -/
def trim (s cutset : Bytes) : Bytes :=
  ((s.dropWhile (cutset.contains ·)).reverse.dropWhile (cutset.contains ·)).reverse

variable {cutset : Bytes}

theorem trim_eq_self (h : ∀ c ∈ s, cutset.contains c = false) : trim s cutset = s := by
  have hdrop : ∀ t : Bytes, (∀ c ∈ t, cutset.contains c = false) →
      t.dropWhile (cutset.contains ·) = t := by
    intro t ht
    cases t with
    | nil => rfl
    | cons d t => exact List.dropWhile_cons_of_neg (Bool.eq_false_iff.mp (ht d (by simp)))
  unfold trim
  rw [hdrop s h, hdrop s.reverse fun c hc => h c (by simpa using hc), List.reverse_reverse]

/-- A text between bytes of the cutset, with none of them at its own ends. -/
theorem trim_wrapped {l v r : Bytes} (hl : ∀ c ∈ l, cutset.contains c = true)
    (hr : ∀ c ∈ r, cutset.contains c = true) (hhead : ∀ c ∈ v.head?, cutset.contains c = false)
    (hlast : ∀ c ∈ v.getLast?, cutset.contains c = false) : trim (l ++ v ++ r) cutset = v := by
  have hr' : ∀ c ∈ r.reverse, cutset.contains c = true := fun c hc => hr c (List.mem_reverse.mp hc)
  have hstop : ∀ w : Bytes, (∀ c ∈ w.head?, cutset.contains c = false) →
      w.dropWhile (cutset.contains ·) = w := by
    intro w hw
    cases w with
    | nil => rfl
    | cons c w => exact List.dropWhile_cons_of_neg (by rw [hw c rfl]; decide)
  unfold trim
  rw [List.append_assoc, List.dropWhile_append_of_pos hl]
  cases v with
  | nil =>
    have hall : (r ++ []).dropWhile (cutset.contains ·) = [] := List.dropWhile_append_of_pos hr
    rw [List.append_nil] at hall
    rw [List.nil_append, hall]
    rfl
  | cons c v =>
    have hkeep : (c :: v ++ r).dropWhile (cutset.contains ·) = c :: v ++ r :=
      hstop _ fun d hd => hhead d hd
    rw [hkeep, List.reverse_append, List.dropWhile_append_of_pos hr', hstop, List.reverse_reverse]
    intro d hd
    rw [List.head?_reverse] at hd
    exact hlast d hd

/-- `strings.TrimRight` with an ASCII cutset. -/
def trimRight (s cutset : Bytes) : Bytes := (s.reverse.dropWhile (cutset.contains ·)).reverse

/-- `strings.TrimPrefix`. -/
def trimPrefix (s pre : Bytes) : Bytes := if hasPrefix s pre then s.drop pre.length else s

/-! ## Case -/

def asciiLower (c : UInt8) : UInt8 := if 0x41 ≤ c ∧ c ≤ 0x5A then c + 0x20 else c

def toLower : Bytes → Bytes
  | 0xE2 :: 0x84 :: 0xAA :: t => 0x6B :: toLower t
  | 0xC4 :: 0xB0 :: t => 0x69 :: toLower t
  | c :: t => asciiLower c :: toLower t
  | [] => []

theorem toLower_cons (h : c < 0x80) (t : Bytes) : toLower (c :: t) = asciiLower c :: toLower t := by
  rw [toLower]
  -- no ASCII byte begins the other two patterns
  all_goals
    rintro _ rfl
    exact absurd h (by decide)

theorem toLower_append : ∀ {s : Bytes} (t : Bytes), (∀ c ∈ s, c < 0x80) →
    toLower (s ++ t) = s.map asciiLower ++ toLower t
  | [], _, _ => rfl
  | c :: s, t, h => by
    rw [List.cons_append, toLower_cons (h c List.mem_cons_self),
      toLower_append t fun d hd => h d (List.mem_cons_of_mem _ hd)]
    rfl

theorem toLower_ascii (h : ∀ c ∈ s, c < 0x80) : toLower s = s.map asciiLower := by
  have happend := toLower_append [] h
  rw [List.append_nil] at happend
  exact happend.trans (List.append_nil _)

/-- The representative of a string under simple case folding. -/
def fold : Bytes → Bytes
  | 0xE2 :: 0x84 :: 0xAA :: t => 0x6B :: fold t
  | 0xC5 :: 0xBF :: t => 0x73 :: fold t
  | c :: t => asciiLower c :: fold t
  | [] => []

/-- `strings.EqualFold`, for the case that one of the two is ASCII. -/
def equalFold (s t : Bytes) : Bool := fold s == fold t

theorem asciiLower_mem_fold (hc : c ∈ s) (h : c < 0x80) : asciiLower c ∈ fold s := by
  fun_induction fold s with
  | case1 t ih =>
    have ht : c ∈ t := by
      simp only [List.mem_cons] at hc
      rcases hc with rfl | rfl | rfl | ht
      · exact absurd h (by decide)
      · exact absurd h (by decide)
      · exact absurd h (by decide)
      · exact ht
    exact List.mem_cons_of_mem _ (ih ht)
  | case2 t ih =>
    have ht : c ∈ t := by
      simp only [List.mem_cons] at hc
      rcases hc with rfl | rfl | ht
      · exact absurd h (by decide)
      · exact absurd h (by decide)
      · exact ht
    exact List.mem_cons_of_mem _ (ih ht)
  | case3 d t _ _ ih =>
    rcases List.mem_cons.mp hc with rfl | ht
    · exact List.mem_cons_self
    · exact List.mem_cons_of_mem _ (ih ht)
  | case4 => simp at hc

/-! ## Numbers and hexadecimal -/

def decDigit (c : UInt8) : Option ℕ :=
  if 0x30 ≤ c ∧ c ≤ 0x39 then some (c.toNat - 0x30) else none

/-- The value of a non-empty string of decimal digits. -/
def parseDec (s : Bytes) : Option ℕ :=
  if s.isEmpty then none else s.foldlM (fun n c => (decDigit c).map (n * 10 + ·)) 0

/-- `strconv.ParseUint(s, 10, 16)`. -/
def parseUint16 (s : Bytes) : Option ℕ := (parseDec s).filter (· < 65536)

/-- `strconv.ParseInt(s, 10, 64)`, and `strconv.Atoi`. -/
def parseInt64 (s : Bytes) : Option ℤ :=
  match s with
  | 0x2D :: t => (parseDec t).bind fun n => if n ≤ 2 ^ 63 then some (-n) else none
  | 0x2B :: t => (parseDec t).bind fun n => if n < 2 ^ 63 then some n else none
  | _ => (parseDec s).bind fun n => if n < 2 ^ 63 then some n else none

def leadingDigits (s : Bytes) : Bytes := s.takeWhile fun c => (decDigit c).isSome

/-- `fmt.Sscanf` with `%d`, of a text that does not begin with white space: what stands behind the number
is not looked at. -/
def scanInt (s : Bytes) : Option ℤ :=
  match s with
  | 0x2D :: t => parseInt64 (0x2D :: leadingDigits t)
  | 0x2B :: t => parseInt64 (0x2B :: leadingDigits t)
  | _ => parseInt64 (leadingDigits s)

def hexVal (c : UInt8) : Option ℕ :=
  if 0x30 ≤ c ∧ c ≤ 0x39 then some (c.toNat - 0x30)
  else if 0x61 ≤ c ∧ c ≤ 0x66 then some (c.toNat - 0x57)
  else if 0x41 ≤ c ∧ c ≤ 0x46 then some (c.toNat - 0x37)
  else none

/-- `strconv.ParseUint(s, 16, bits)`. -/
def parseUintHex (s : Bytes) (bits : ℕ) : Option ℕ :=
  if s.isEmpty then none
  else (s.foldlM (fun n c => (hexVal c).map (n * 16 + ·)) 0).filter (· < 2 ^ bits)

/-- `strconv.FormatUint(n, 10)`. -/
def formatUint (n : ℕ) : Bytes := (Nat.toDigits 10 n).map fun c => UInt8.ofNat c.toNat

variable {n : ℕ}

theorem toNat_of_mem_toDigits {c : Char} (h : c ∈ Nat.toDigits 10 n) : 48 ≤ c.toNat ∧ c.toNat ≤ 57 := by
  have hd := Nat.isDigit_of_mem_toDigits (by decide) (by decide) h
  simp only [Char.isDigit, Bool.and_eq_true, decide_eq_true_eq] at hd
  exact ⟨UInt32.le_iff_toNat_le.mp hd.1, UInt32.le_iff_toNat_le.mp hd.2⟩

theorem digit_of_mem_formatUint {b : UInt8} (h : b ∈ formatUint n) : 48 ≤ b.toNat ∧ b.toNat ≤ 57 := by
  obtain ⟨c, hc, rfl⟩ := List.mem_map.mp h
  have hd := toNat_of_mem_toDigits hc
  rw [UInt8.toNat_ofNat']
  omega

theorem foldlM_toDigits {b : ℕ} (hb : 1 < b) {val : UInt8 → Option ℕ}
    (hval : ∀ d < b, val (UInt8.ofNat (Nat.digitChar d).toNat) = some d) (n : ℕ) :
    ((Nat.toDigits b n).map fun c => UInt8.ofNat c.toNat).foldlM (fun n c => (val c).map (n * b + ·)) 0 =
      some n := by
  induction n using Nat.strongRecOn with
  | ind n ih =>
    rw [Nat.toDigits_eq_if hb]
    split_ifs with hn
    · simp [hval n hn]
    · have hlast := hval (n % b) (Nat.mod_lt n (by omega))
      rw [List.map_append, List.foldlM_append, ih (n / b) (Nat.div_lt_self (by omega) hb)]
      simp [hlast, Nat.div_add_mod']

theorem decDigit_digitChar : ∀ d < 10, decDigit (UInt8.ofNat (Nat.digitChar d).toNat) = some d := by decide

theorem formatUint_ne_nil (n : ℕ) : formatUint n ≠ [] := by
  intro h
  exact Nat.toDigits_ne_nil (List.map_eq_nil_iff.mp h)

theorem parseDec_formatUint (n : ℕ) : parseDec (formatUint n) = some n := by
  rw [parseDec, if_neg (by simpa using formatUint_ne_nil n)]
  exact foldlM_toDigits (by decide) decDigit_digitChar n

theorem decDigit_of_digit (h : 48 ≤ c.toNat ∧ c.toNat ≤ 57) : (decDigit c).isSome := by
  rw [decDigit, if_pos ⟨UInt8.le_iff_toNat_le.mpr h.1, UInt8.le_iff_toNat_le.mpr h.2⟩]
  rfl

theorem head_formatUint (h : formatUint n = c :: t) : c ≠ 0x2D ∧ c ≠ 0x2B := by
  have hmem : c ∈ formatUint n := h ▸ List.mem_cons_self
  have hc := digit_of_mem_formatUint hmem
  constructor
  · rintro rfl
    exact absurd hc.1 (by decide)
  · rintro rfl
    exact absurd hc.1 (by decide)

theorem parseInt64_formatUint (h : n < 2 ^ 63) : parseInt64 (formatUint n) = some (n : ℤ) := by
  unfold parseInt64
  split
  · next t heq => exact absurd rfl (head_formatUint heq).1
  · next t heq => exact absurd rfl (head_formatUint heq).2
  · rw [parseDec_formatUint, Option.bind_some, if_pos h]

theorem scanInt_formatUint (h : n < 2 ^ 63) : scanInt (formatUint n) = some (n : ℤ) := by
  have hdigits : leadingDigits (formatUint n) = formatUint n :=
    List.takeWhile_eq_self_iff.mpr fun c hc => decDigit_of_digit (digit_of_mem_formatUint hc)
  unfold scanInt
  split
  · next t heq => exact absurd rfl (head_formatUint heq).1
  · next t heq => exact absurd rfl (head_formatUint heq).2
  · rw [hdigits]
    exact parseInt64_formatUint h

theorem formatUint_injective : Function.Injective formatUint := by
  have hread : ∀ n, (formatUint n).map (fun b => Char.ofNat b.toNat) = Nat.toDigits 10 n := by
    intro n
    rw [formatUint, List.map_map]
    conv_rhs => rw [← List.map_id (Nat.toDigits 10 n)]
    refine List.map_congr_left fun c hc => ?_
    have hd := toNat_of_mem_toDigits hc
    have hbyte : (UInt8.ofNat c.toNat).toNat = c.toNat := by
      rw [UInt8.toNat_ofNat']
      omega
    rw [Function.comp_apply, hbyte, Char.ofNat_toNat, id_eq]
  intro n m h
  have hd : Nat.toDigits 10 n = Nat.toDigits 10 m := by rw [← hread n, ← hread m, h]
  rw [← Nat.ofDigitChars_ten_toDigits (n := n), hd, Nat.ofDigitChars_ten_toDigits]

def isHexDigit (c : UInt8) : Bool :=
  (0x30 ≤ c && c ≤ 0x39) || (0x41 ≤ c && c ≤ 0x46) || (0x61 ≤ c && c ≤ 0x66)

def hexDigit (n : UInt8) : UInt8 := if n < 10 then 0x30 + n else 0x57 + n

/-- `hex.EncodeToString`. -/
def hexEncode (b : Bytes) : Bytes :=
  b.flatMap fun c : UInt8 => [hexDigit (c >>> 4), hexDigit (c &&& 0xF)]

theorem fold_cons_of_hex (t : Bytes) (h : isHexDigit c = true) : fold (c :: t) = asciiLower c :: fold t := by
  rw [fold]
  all_goals
    rintro _ rfl
    exact absurd h (by decide)

theorem fold_of_hex : ∀ (s : Bytes), s.all isHexDigit = true → fold s = s.map asciiLower
  | [], _ => rfl
  | c :: t, h => by
    rw [List.all_cons, Bool.and_eq_true] at h
    rw [fold_cons_of_hex t h.1, fold_of_hex t h.2, List.map_cons]

/-- The letters that fold from outside ASCII, `k` and `s`, are no hex digits. -/
theorem asciiLower_hex_le (h : isHexDigit c = true) : asciiLower c ≤ 0x66 := by
  simp only [isHexDigit, Bool.or_eq_true, Bool.and_eq_true, decide_eq_true_eq] at h
  unfold asciiLower
  split_ifs with hc
  · rw [UInt8.le_iff_toNat_le] at *
    have hc1 := UInt8.le_iff_toNat_le.mp hc.1
    have h46 : c.toNat ≤ 0x46 := by
      rcases h with (h | h) | h
      · have := UInt8.le_iff_toNat_le.mp h.2
        simp at this hc1 ⊢
        omega
      · exact UInt8.le_iff_toNat_le.mp h.2
      · have h1 := UInt8.le_iff_toNat_le.mp h.1
        have h2 := UInt8.le_iff_toNat_le.mp hc.2
        simp at h1 h2 ⊢
        omega
    rw [UInt8.toNat_add]
    simp
    omega
  · rcases h with (h | h) | h
    · exact UInt8.le_trans h.2 (by decide)
    · exact absurd ⟨h.1, UInt8.le_trans h.2 (by decide)⟩ hc
    · exact h.2

/-- A text that folds to a hex text differs from it in letter case only. -/
theorem map_asciiLower_of_fold : ∀ (s t : Bytes), t.all isHexDigit = true →
    fold s = t.map asciiLower → s.map asciiLower = t.map asciiLower
  | [], _, _, h => h
  | c :: s, [], _, h => by
    rw [fold.eq_def] at h
    split at h <;> cases h
    rename_i heq
    cases heq
  | c :: s, d :: t, ht, h => by
    rw [List.all_cons, Bool.and_eq_true] at ht
    have hd := asciiLower_hex_le ht.1
    rw [fold.eq_def] at h
    split at h
    · rw [← (List.cons_eq_cons.mp h).1] at hd
      exact absurd hd (by decide)
    · rw [← (List.cons_eq_cons.mp h).1] at hd
      exact absurd hd (by decide)
    · rename_i heq
      obtain ⟨rfl, rfl⟩ := List.cons_eq_cons.mp heq
      obtain ⟨h1, h2⟩ := List.cons_eq_cons.mp h
      rw [List.map_cons, List.map_cons, h1, map_asciiLower_of_fold _ _ ht.2 h2]
    · cases h

theorem hexDigit_lower (n : UInt8) (h : n < 16) :
    isHexDigit (hexDigit n) = true ∧ asciiLower (hexDigit n) = hexDigit n := by
  have key : ∀ k : Fin 16, isHexDigit (hexDigit (UInt8.ofNat k)) = true ∧
      asciiLower (hexDigit (UInt8.ofNat k)) = hexDigit (UInt8.ofNat k) := by decide
  have := key ⟨n.toNat, h⟩
  simpa using this

theorem hexEncode_lower (b : Bytes) :
    (hexEncode b).all isHexDigit = true ∧ (hexEncode b).map asciiLower = hexEncode b := by
  induction b with
  | nil => exact ⟨rfl, rfl⟩
  | cons c t ih =>
    have h1 := hexDigit_lower (c >>> 4) (by
      rw [UInt8.lt_iff_toNat_lt]; simp [UInt8.toNat_shiftRight]; have := c.toNat_lt; omega)
    have h2 := hexDigit_lower (c &&& 0xF) (by
      rw [UInt8.lt_iff_toNat_lt]; simp [UInt8.toNat_and]; exact Nat.lt_succ_of_le Nat.and_le_right)
    have e : hexEncode (c :: t) = hexDigit (c >>> 4) :: hexDigit (c &&& 0xF) :: hexEncode t := rfl
    rw [e]
    simp only [List.all_cons, List.map_cons, h1.1, h2.1, h1.2, h2.2, ih.1, ih.2, Bool.and_self, and_self]

end TamagoUefi.Go
