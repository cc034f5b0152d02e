import TamagoUefi.Lib.FlatJson
import TamagoUefi.Oci.Registry

/-!
# TamagoUefi.Oci.TokenBody — the token in a JSON body (`registry.go`)

`extractStringField` does not parse.  It looks for the key in quotes, for the next colon and for the
next text in quotes.  What it finds is read off the cut of the text at its quotes, and then off the
members of a flat object.

* `extract_quotedText`: what the scan finds in a text that is cut at its quotes.
* `extract_object`: what it finds in an object (`stopsAt`).
* `Straight`: the first place that has the key in quotes leads to the member of that name.
* `stopsAt_straight`, `astray`: what a straight scan finds, and what another one finds instead.
* `token_body_straight`: a scan that goes straight finds the token of the object; and in an object in
  which another name or string cannot be taken for the token, no other scan does.
-/

namespace TamagoUefi.Oci

open Go Lib.FlatJson

/-! ## The scan -/

/-- What follows the first text in quotes that is the key. -/
def behindKey (key : Bytes) : List (Bytes × Bytes) → Option (Bytes × List (Bytes × Bytes))
  | [] => none
  | (s, q) :: segs => if s = key then some (q, segs) else behindKey key segs

/-- The text between the next two quotes behind the next colon: a text in quotes, or what stands
behind one when the colon is inside it. -/
def behindColon : Bytes → List (Bytes × Bytes) → Bytes
  | _, [] => []
  | q, (s, q') :: segs =>
    if colon ∈ q then s else
    if colon ∈ s then (if segs = [] then [] else q') else behindColon q' segs

/-- What the scan finds. -/
def found (key : Bytes) (segs : List (Bytes × Bytes)) : Bytes :=
  match behindKey key segs with
  | none => []
  | some (q, segs) => behindColon q segs

variable {key : Bytes}

theorem behindKey_cut : ∀ {q : Bytes} {segs : List (Bytes × Bytes)}
    {r : Bytes × List (Bytes × Bytes)}, Cut q segs → behindKey key segs = some r → Cut r.1 r.2
  | _, [], _, _, hr => by cases hr
  | q, (s, q') :: segs, r, hcut, hr => by
    obtain ⟨-, -, hrest⟩ := cut_cons.mp hcut
    rw [behindKey] at hr
    split_ifs at hr with hs
    · cases hr
      exact hrest
    · exact behindKey_cut hrest hr

variable {a b : Bytes} {c : UInt8}

theorem not_mem_of_append_cons {d : UInt8} (h : c ∉ a ++ d :: b) : c ∉ b := by
  rw [List.mem_append, List.mem_cons, not_or, not_or] at h
  exact h.2.2

/-- The text behind a byte. -/
def afterByte (s : Bytes) (c : UInt8) : Option Bytes := (indexByte s c).map fun i => s.drop (i + 1)

theorem afterByte_append (h : c ∉ a) : afterByte (a ++ c :: b) c = some b := by
  rw [afterByte, indexByte_append h, Option.map_some]
  simp

variable {s : Bytes}

theorem afterByte_none (h : c ∉ s) : afterByte s c = none := by
  rw [afterByte, indexByte_eq_none.mpr h]
  rfl

theorem afterByte_skip (h : c ∉ a) : afterByte (a ++ b) c = afterByte b c := by
  by_cases hb : c ∈ b
  · obtain ⟨b₁, b₂, rfl, hb₁⟩ := List.eq_append_cons_of_mem hb
    have hab : c ∉ a ++ b₁ := by
      rw [List.mem_append, not_or]
      exact ⟨h, hb₁⟩
    rw [← List.append_assoc, afterByte_append hab, afterByte_append hb₁]
  · rw [afterByte_none hb, afterByte_none]
    rw [List.mem_append, not_or]
    exact ⟨h, hb⟩

/-- The text in front of a byte. -/
def uptoByte (s : Bytes) (c : UInt8) : Bytes :=
  match indexByte s c with
  | none => []
  | some i => s.take i

/-- The first text in quotes. -/
def firstQuoted (s : Bytes) : Bytes :=
  match afterByte s quote with
  | none => []
  | some s => uptoByte s quote

/-- The text behind an occurrence of another. -/
def afterText (s sub : Bytes) : Option Bytes := (index s sub).map fun i => s.drop (i + sub.length)

/-- The key in quotes. -/
def needle (key : Bytes) : Bytes := quote :: (key ++ [quote])

theorem extractStringField_eq (body key : Bytes) :
    extractStringField body key =
      match (afterText body (needle key)).bind (afterByte · colon) with
      | none => []
      | some rest => firstQuoted rest := by
  have hneedle : str "\"" ++ key ++ str "\"" = needle key := rfl
  unfold extractStringField afterText
  dsimp only
  rw [hneedle]
  cases hi : index body (needle key) with
  | none => rfl
  | some i =>
    rw [Option.map_some, Option.bind_some]
    dsimp only
    have hcolon : colon = ':'.toUInt8 := rfl
    cases hc : indexByte (body.drop (i + (needle key).length)) ':'.toUInt8 with
    | none =>
      rw [afterByte, hcolon, hc]
      rfl
    | some j =>
      rw [afterByte, hcolon, hc, Option.map_some]
      dsimp only
      generalize (body.drop (i + (needle key).length)).drop (j + 1) = rest
      unfold firstQuoted afterByte uptoByte
      have hquote : quote = '"'.toUInt8 := rfl
      rw [hquote]
      cases indexByte rest '"'.toUInt8 with
      | none => rfl
      | some k => rfl

variable {t : Bytes}

theorem afterText_cons {sub : Bytes} (h : ¬ sub <+: c :: t) : afterText (c :: t) sub = afterText t sub := by
  rw [afterText, index.eq_def, if_neg (mt hasPrefix_iff.mp h)]
  dsimp only
  rw [afterText, Option.map_map]
  refine Option.map_congr fun i _ => ?_
  have hdrop : i + 1 + sub.length = i + sub.length + 1 := by omega
  rw [Function.comp_apply, hdrop, List.drop_succ_cons]

theorem afterText_prefix (sub t : Bytes) : afterText (sub ++ t) sub = some t := by
  rw [afterText, index.eq_def, if_pos (hasPrefix_append sub t)]
  simp

/-- The text outside quotes holds no needle. -/
theorem afterText_skip : ∀ {q : Bytes} (t : Bytes), quote ∉ q →
    afterText (q ++ t) (needle key) = afterText t (needle key)
  | [], _, _ => rfl
  | c :: q, t, h => by
    rw [List.mem_cons, not_or] at h
    rw [List.cons_append, afterText_cons, afterText_skip t h.2]
    intro hpre
    exact h.1 (List.cons_prefix_cons.mp hpre).1

theorem takeWhile_quote (h : quote ∉ s) (t : Bytes) : (s ++ quote :: t).takeWhile (· ≠ quote) = s := by
  have hall : ∀ c ∈ s, decide (c ≠ quote) = true := fun c hc =>
    decide_eq_true fun he => h (he ▸ hc)
  rw [List.takeWhile_append_of_pos hall, List.takeWhile_cons_of_neg (by simp), List.append_nil]

theorem key_eq_of_quoted (hkey : quote ∉ key) (hs : quote ∉ s) (h : key ++ [quote] <+: s ++ quote :: t) :
    key = s := by
  obtain ⟨u, hu⟩ := h
  rw [List.append_assoc, List.singleton_append] at hu
  rw [← takeWhile_quote hkey u, hu, takeWhile_quote hs]

section
variable {key : Bytes} (hkey : quote ∉ key)
include hkey

/-- **The key in quotes** is found where a text in quotes is the key, when no text between quotes is
it. -/
theorem afterText_quotedText : ∀ {q : Bytes} {segs : List (Bytes × Bytes)}, Cut q segs →
    (∀ seg ∈ segs, seg.2 ≠ key) →
    afterText (quotedText q segs) (needle key) =
      (behindKey key segs).map fun r => quotedText r.1 r.2
  | q, [], hcut, _ => by
    have h : afterText (q ++ []) (needle key) = none := afterText_skip [] hcut.1
    rw [List.append_nil] at h
    exact h
  | q, (s, q') :: segs, hcut, hother => by
    obtain ⟨-, hs, hrest⟩ := cut_cons.mp hcut
    have hq' : quote ∉ q' := hrest.1
    have ih := afterText_quotedText hrest fun seg hseg => hother seg (List.mem_cons_of_mem _ hseg)
    rw [quotedText, afterText_skip _ hcut.1, behindKey]
    by_cases hsk : s = key
    · have hfound :
          quote :: (s ++ quote :: quotedText q' segs) = needle key ++ quotedText q' segs := by
        simp [needle, hsk]
      rw [if_pos hsk, hfound, afterText_prefix]
      rfl
    · rw [if_neg hsk, ← ih, afterText_cons, afterText_skip _ hs, afterText_cons]
      · -- the closing quote: what follows it up to the next one is not the key
        intro hpre
        have hpre' := (List.cons_prefix_cons.mp hpre).2
        cases segs with
        | nil =>
          refine hq' (hpre'.subset ?_)
          simp
        | cons seg segs =>
          have heq := key_eq_of_quoted hkey hq' hpre'
          exact hother (s, q') List.mem_cons_self heq.symm
      · intro hpre
        exact hsk (key_eq_of_quoted hkey hs (List.cons_prefix_cons.mp hpre).2).symm

end

variable {q : Bytes}

theorem firstQuoted_skip (h : quote ∉ q) (t : Bytes) : firstQuoted (q ++ t) = firstQuoted t := by
  rw [firstQuoted, afterByte_skip h]
  rfl

theorem firstQuoted_quote (h : quote ∉ s) (t : Bytes) : firstQuoted (quote :: (s ++ quote :: t)) = s := by
  have hafter : afterByte (quote :: (s ++ quote :: t)) quote = some (s ++ quote :: t) :=
    afterByte_append (a := []) (by simp)
  rw [firstQuoted, hafter]
  dsimp only
  rw [uptoByte, indexByte_append h]
  simp

theorem firstQuoted_open (h : quote ∉ q) : firstQuoted (quote :: q) = [] := by
  have hafter : afterByte (quote :: q) quote = some q := afterByte_append (a := []) (by simp)
  rw [firstQuoted, hafter]
  dsimp only
  rw [uptoByte, indexByte_eq_none.mpr h]

theorem firstQuoted_none (h : quote ∉ q) : firstQuoted q = [] := by
  rw [firstQuoted, afterByte_none h]

variable {segs : List (Bytes × Bytes)}

/-- The first text in quotes of a text that is cut at its quotes. -/
theorem firstQuoted_quotedText (h : Cut q segs) :
    firstQuoted (quotedText q segs) = (segs.head?.map Prod.fst).getD [] := by
  cases segs with
  | nil => exact firstQuoted_none h.1
  | cons seg segs =>
    obtain ⟨s, q'⟩ := seg
    rw [quotedText, firstQuoted_skip h.1, firstQuoted_quote (h.2 _ List.mem_cons_self).1]
    rfl

/-- **The value** is the text between the next two quotes behind the next colon. -/
theorem firstQuoted_behindColon : ∀ {q : Bytes} {segs : List (Bytes × Bytes)}, Cut q segs →
    (match afterByte (quotedText q segs) colon with
      | none => []
      | some rest => firstQuoted rest) = behindColon q segs
  | q, [], hcut => by
    rw [behindColon, quotedText]
    by_cases hq : colon ∈ q
    · obtain ⟨a, b, rfl, ha⟩ := List.eq_append_cons_of_mem hq
      rw [afterByte_append ha]
      exact firstQuoted_none (not_mem_of_append_cons hcut.1)
    · rw [afterByte_none hq]
  | q, (s, q') :: segs, hcut => by
    obtain ⟨-, hs, hrest⟩ := cut_cons.mp hcut
    have hq' : quote ∉ q' := hrest.1
    rw [behindColon]
    by_cases hq : colon ∈ q
    · -- the colon stands outside quotes
      obtain ⟨a, b, rfl, ha⟩ := List.eq_append_cons_of_mem hq
      rw [if_pos hq, quotedText_append, quotedText_cons, afterByte_append ha]
      exact firstQuoted_quotedText ⟨not_mem_of_append_cons hcut.1, hcut.2⟩
    · rw [if_neg hq, quotedText, afterByte_skip hq, ← List.singleton_append,
        afterByte_skip (by decide)]
      by_cases hcs : colon ∈ s
      · -- it stands inside: the closing quote is taken for an opening one
        obtain ⟨a, b, rfl, ha⟩ := List.eq_append_cons_of_mem hcs
        have hb : quote ∉ b := not_mem_of_append_cons hs
        rw [if_pos hcs, List.append_assoc, List.cons_append, afterByte_append ha]
        dsimp only
        rw [firstQuoted_skip hb]
        cases segs with
        | nil => exact firstQuoted_open hq'
        | cons seg segs => exact firstQuoted_quote hq' _
      · rw [if_neg hcs, afterByte_skip hcs, ← List.singleton_append, afterByte_skip (by decide)]
        exact firstQuoted_behindColon hrest

/-- **What the scan finds** in a text that is cut at its quotes, when no text between them is the
key. -/
theorem extract_quotedText (hkey : quote ∉ key) (hcut : Cut q segs) (hother : ∀ seg ∈ segs, seg.2 ≠ key) :
    extractStringField (quotedText q segs) key = found key segs := by
  rw [extractStringField_eq, afterText_quotedText hkey hcut hother, found]
  cases hb : behindKey key segs with
  | none => rfl
  | some r => exact firstQuoted_behindColon (behindKey_cut hcut hb)

/-! ## The scan over an object -/

def nextName (ms : List Member) : Bytes := (ms.head?.map (·.name.val)).getD []

/-- What is read from a member's colon on: its string, or else the name of the next member. -/
def readFrom (m : Member) (ms : List Member) : Bytes := m.value.string?.getD (nextName ms)

/-- What is read when the colon stands in the member's name: what is written behind the name. -/
def readBehind (m : Member) (ms : List Member) : Bytes :=
  match m.value.string?, ms with
  | some _, _ => m.afterName.val ++ colon :: m.afterColon.val
  | none, [] => []
  | none, m' :: ms' =>
    m.afterName.val ++ colon ::
      (m.afterColon.val ++ (m.value.bare ++ (m.afterValue.val ++ gap [] (m' :: ms'))))

/-- What is read when the key in quotes is a value, and these are the members behind it. -/
def readNext : List Member → Bytes
  | [] => []
  | m :: ms => if colon ∈ m.name.val then readBehind m ms else readFrom m ms

/-- **Where the scan stops**, by members: the key in quotes is a name or a value, whichever comes
first, and behind a value the next member is read as if the key were its name. -/
def stopsAt (key : Bytes) : List Member → Bytes
  | [] => []
  | m :: ms =>
    if m.name.val = key then readFrom m ms else
    if m.value.string? = some key then readNext ms else stopsAt key ms

section
variable {close : Bytes}

theorem behindColon_of_mem (hq : colon ∈ q) (segs : List (Bytes × Bytes)) :
    behindColon q segs = (segs.head?.map Prod.fst).getD [] := by
  cases segs with
  | nil => rfl
  | cons seg segs => exact if_pos hq

theorem head_segments (ms : List Member) :
    (segments close ms).head?.map Prod.fst = ms.head?.map (·.name.val) := by
  cases ms with
  | nil => rfl
  | cons m ms =>
    cases hv : m.value.string? with
    | none =>
      rw [segments_bare hv]
      rfl
    | some s =>
      obtain ⟨t, ht, -⟩ := Value.eq_string hv
      rw [segments_string ht]
      rfl

theorem segments_ne_nil (m : Member) (ms : List Member) : segments close (m :: ms) ≠ [] := by
  intro h
  have hhead := @head_segments close (m :: ms)
  rw [h] at hhead
  cases hhead

/-- The cut of a member: its name, what is read behind it, and the way a search goes on. -/
theorem segments_cons (m : Member) (ms : List Member) : ∃ q rest,
    segments close (m :: ms) = (m.name.val, q) :: rest ∧ behindColon q rest = readFrom m ms ∧
      (if rest = [] then [] else q) = readBehind m ms ∧
      ∀ key, behindKey key rest =
        if m.value.string? = some key then
          some (m.afterValue.val ++ gap close ms, segments close ms)
        else behindKey key (segments close ms) := by
  cases hv : m.value.string? with
  | none =>
    refine ⟨_, _, segments_bare hv ms, ?_, ?_, fun key => (if_neg (by simp)).symm⟩
    · rw [behindColon_of_mem (List.mem_append_right _ List.mem_cons_self), head_segments, readFrom,
        hv]
      rfl
    · rw [readBehind.eq_def, hv]
      cases ms with
      | nil => rfl
      | cons m' ms' => exact if_neg (segments_ne_nil m' ms')
  | some s =>
    obtain ⟨t, ht, rfl⟩ := Value.eq_string hv
    refine ⟨_, _, segments_string ht ms, ?_, ?_, fun key => ?_⟩
    · rw [behindColon_of_mem (List.mem_append_right _ List.mem_cons_self), readFrom, hv]
      rfl
    · rw [readBehind.eq_def, hv]
      rfl
    · simp only [behindKey, Option.some.injEq]

/-- **What the scan finds**, by members. -/
theorem found_segments (hclose : colon ∉ close) : ∀ ms : List Member,
    found key (segments close ms) = stopsAt key ms
  | [] => rfl
  | m :: ms => by
    obtain ⟨q, rest, hsegs, hfrom, -, hrest⟩ := @segments_cons close m ms
    rw [hsegs, found, behindKey, stopsAt]
    by_cases hname : m.name.val = key
    · rw [if_pos hname, if_pos hname]
      exact hfrom
    rw [if_neg hname, if_neg hname, hrest]
    by_cases hvalue : m.value.string? = some key
    · -- the key stands as a value, and there is no colon up to the next name
      have hgap : colon ∉ m.afterValue.val ++ gap close ms := by
        rw [List.mem_append, not_or]
        exact ⟨not_mem_space (by decide) _, not_mem_gap (by decide) (by decide) hclose ms⟩
      rw [if_pos hvalue, if_pos hvalue]
      cases ms with
      | nil => rfl
      | cons m' ms' =>
        obtain ⟨q', rest', hsegs', hfrom', hbehind', -⟩ := @segments_cons close m' ms'
        dsimp only
        rw [hsegs', behindColon, if_neg hgap, hbehind', hfrom', readNext]
    · rw [if_neg hvalue, if_neg hvalue]
      exact found_segments hclose ms

end

/-- **What `extractStringField` finds in an object.** -/
theorem extract_object (o : FlatObject) (hquote : quote ∉ key) (hmarks : ∀ c ∈ marks, c ∉ key) :
    extractStringField o.text key = stopsAt key o.members := by
  have hcolon : colon ∉ o.close := FlatObject.not_mem_close (by decide) (by decide) o
  rw [o.text_eq, extract_quotedText hquote o.cut, found_segments hcolon]
  intro seg hseg heq
  obtain ⟨c, hc, hmem⟩ := marked_of_mem_segments (List.mem_append_right _ List.mem_cons_self) hseg
  exact hmarks c hc (heq ▸ hmem)

/-! ## Straight scans -/

/-- Behind the member's colon the next text in quotes is its own string, or there is none, or it is
empty. -/
def Clear (m : Member) (ms : List Member) : Prop := m.value.string? ≠ none ∨ nextName ms = []

/-- The member named by the key comes next, or no member does, or the last one without a string. -/
def ClearNext (key : Bytes) : List Member → Prop
  | [] => True
  | m :: ms => (m.name.val = key ∧ Clear m ms) ∨ (m.value.string? = none ∧ ms = [])

/-- The first text in quotes that is the key is the name of its member, or the string directly in
front of that name, or the last string. -/
def Straight (key : Bytes) : List Member → Prop
  | [] => True
  | m :: ms =>
    if m.name.val = key then Clear m ms else
    if m.value.string? = some key then ClearNext key ms else Straight key ms

instance (m : Member) (ms : List Member) : Decidable (Clear m ms) :=
  inferInstanceAs (Decidable (m.value.string? ≠ none ∨ nextName ms = []))

instance (key : Bytes) : ∀ ms : List Member, Decidable (ClearNext key ms)
  | [] => .isTrue trivial
  | m :: ms =>
    inferInstanceAs (Decidable ((m.name.val = key ∧ Clear m ms) ∨ (m.value.string? = none ∧ ms = [])))

instance decidableStraight (key : Bytes) : ∀ ms : List Member, Decidable (Straight key ms)
  | [] => .isTrue trivial
  | m :: ms =>
    have : Decidable (Straight key ms) := decidableStraight key ms
    inferInstanceAs (Decidable (if m.name.val = key then Clear m ms else
      if m.value.string? = some key then ClearNext key ms else Straight key ms))

variable {m : Member}

theorem readFrom_clear {ms : List Member} (h : Clear m ms) : readFrom m ms = m.value.string?.getD [] := by
  rw [readFrom]
  rcases h with h | h
  · obtain ⟨s, hs⟩ := Option.ne_none_iff_exists'.mp h
    rw [hs]
    rfl
  · rw [h]

theorem find_cons_eq (h : m.name.val = key) (ms : List Member) :
    (m :: ms).find? (·.name.val = key) = some m :=
  List.find?_cons_of_pos (decide_eq_true h)

theorem find_cons_ne (h : m.name.val ≠ key) (ms : List Member) :
    (m :: ms).find? (·.name.val = key) = ms.find? (·.name.val = key) :=
  List.find?_cons_of_neg (by simpa using h)

/-- **A straight scan** stops at the string of the member it looks for. -/
theorem stopsAt_straight (hkey : colon ∉ key) :
    ∀ {ms : List Member}, Straight key ms →
    stopsAt key ms = ((ms.find? (·.name.val = key)).bind (·.value.string?)).getD []
  | [], _ => rfl
  | m :: ms, h => by
    rw [Straight] at h
    rw [stopsAt]
    by_cases hname : m.name.val = key
    · rw [if_pos hname] at h
      rw [if_pos hname, find_cons_eq hname, readFrom_clear h]
      rfl
    rw [if_neg hname] at h
    rw [if_neg hname, find_cons_ne hname]
    by_cases hvalue : m.value.string? = some key
    · rw [if_pos hvalue] at h
      rw [if_pos hvalue]
      cases ms with
      | nil => rfl
      | cons m' ms' =>
        rcases h with ⟨hname', hclear⟩ | ⟨hnone, rfl⟩
        · rw [readNext, if_neg (hname' ▸ hkey), find_cons_eq hname', readFrom_clear hclear]
          rfl
        · have hread : readNext [m'] = [] := by simp [readNext, readBehind, readFrom, nextName, hnone]
          have hfind : (([m'].find? (·.name.val = key)).bind (·.value.string?)) = none := by
            by_cases hname' : m'.name.val = key
            · rw [find_cons_eq hname', Option.bind_some, hnone]
            · rw [find_cons_ne hname']
              rfl
          rw [hread, hfind]
          rfl
    · rw [if_neg hvalue] at h
      rw [if_neg hvalue]
      exact stopsAt_straight hkey h

theorem readFrom_cases (m : Member) (ms : List Member) :
    m.value.string? = some (readFrom m ms) ∨
      (m.value.string? = none ∧ ((ms = [] ∧ readFrom m ms = []) ∨ ∃ m' ∈ ms, readFrom m ms = m'.name.val)) := by
  rw [readFrom]
  cases m.value.string? with
  | some s => exact .inl rfl
  | none =>
    cases ms with
    | nil => exact .inr ⟨rfl, .inl ⟨rfl, rfl⟩⟩
    | cons m' ms => exact .inr ⟨rfl, .inr ⟨m', List.mem_cons_self, rfl⟩⟩

/-- **A scan that goes astray** stops at a name, or at the string of the member behind a string that
is the key. -/
theorem astray : ∀ {ms : List Member}, (∀ m ∈ ms, colon ∉ m.name.val) → ¬ Straight key ms →
    (∃ m ∈ ms, stopsAt key ms = m.name.val) ∨
      ∃ m m', [m, m'] <:+: ms ∧ m.value.string? = some key ∧ m'.name.val ≠ key ∧
        m'.value.string? = some (stopsAt key ms)
  | [], _, h => absurd trivial h
  | m :: ms, hcolon, h => by
    rw [Straight] at h
    rw [stopsAt]
    by_cases hname : m.name.val = key
    · rw [if_pos hname, Clear, not_or, not_not] at h
      rw [if_pos hname]
      rcases readFrom_cases m ms with hs | ⟨-, ⟨rfl, -⟩ | ⟨m', hm', hread⟩⟩
      · rw [h.1] at hs
        cases hs
      · exact absurd rfl h.2
      · exact .inl ⟨m', List.mem_cons_of_mem _ hm', hread⟩
    rw [if_neg hname] at h
    rw [if_neg hname]
    by_cases hvalue : m.value.string? = some key
    · rw [if_pos hvalue] at h
      rw [if_pos hvalue]
      cases ms with
      | nil => exact absurd trivial h
      | cons m' ms =>
        rw [ClearNext, not_or] at h
        rw [readNext, if_neg (hcolon m' (by simp))]
        rcases readFrom_cases m' ms with hs | ⟨hnone, ⟨hnil, -⟩ | ⟨m'', hm'', hread⟩⟩
        · refine .inr ⟨m, m', ⟨[], ms, rfl⟩, hvalue, fun hk => h.1 ⟨hk, .inl ?_⟩, hs⟩
          simp [hs]
        · exact absurd ⟨hnone, hnil⟩ h.2
        · exact .inl ⟨m'', by simp [hm''], hread⟩
    · rw [if_neg hvalue] at h
      rw [if_neg hvalue]
      rcases astray (fun m hm => hcolon m (List.mem_cons_of_mem _ hm)) h with ⟨m', hm', hstop⟩ | ⟨m₁, m₂, hin, hrest⟩
      · exact .inl ⟨m', List.mem_cons_of_mem _ hm', hstop⟩
      · exact .inr ⟨m₁, m₂, hin.trans (List.suffix_cons m ms).isInfix, hrest⟩

/-! ## The token -/

/-- The token of a registry's answer: member `token` when it is a string that is not empty, and
otherwise member `access_token` when it is a string. -/
def tokenOf (o : FlatObject) : Bytes :=
  let tok := (o.string? (str "token")).getD []
  if tok.isEmpty then (o.string? (str "access_token")).getD [] else tok

/-- The scan goes straight for every key that is tried. -/
def GoesStraight (o : FlatObject) : Prop :=
  Straight (str "token") o.members ∧
    ((o.string? (str "token")).getD [] ≠ [] ∨ Straight (str "access_token") o.members)

/-- The text at which the scan stops, though it may be another member's. -/
def pickedUp (o : FlatObject) : Bytes :=
  let tok := stopsAt (str "token") o.members
  if tok.isEmpty then stopsAt (str "access_token") o.members else tok

theorem parseTokenBody_object (o : FlatObject) : parseTokenBody o.text = pickedUp o := by
  have htoken := @extract_object (str "token") o (by decide +kernel) (by decide +kernel)
  have haccess := @extract_object (str "access_token") o (by decide +kernel) (by decide +kernel)
  rw [parseTokenBody, htoken, haccess]
  rfl

variable {o : FlatObject}

theorem pickedUp_straight (h : GoesStraight o) : pickedUp o = tokenOf o := by
  have htoken : stopsAt (str "token") o.members = (o.string? (str "token")).getD [] :=
    stopsAt_straight (by decide +kernel) h.1
  rw [pickedUp, tokenOf, htoken]
  rcases h.2 with hne | haccess
  · rw [if_neg (mt List.isEmpty_iff.mp hne), if_neg (mt List.isEmpty_iff.mp hne)]
  · have haccess' :
        stopsAt (str "access_token") o.members = (o.string? (str "access_token")).getD [] :=
      stopsAt_straight (by decide +kernel) haccess
    rw [haccess']

/-- Nothing else can be taken for the token: names and strings are not empty, names have no colon, the
token is no name and the string of one member at most, and no string that reads `token` stands in
front of the member `access_token`. -/
structure Telling (o : FlatObject) : Prop where
  names : ∀ m ∈ o.members, m.name.val ≠ [] ∧ colon ∉ m.name.val ∧ m.name.val ≠ tokenOf o
  strings : ∀ m ∈ o.members, m.value.string? ≠ some []
  once : ∀ m ∈ o.members, ∀ m' ∈ o.members, m.value.string? = some (tokenOf o) →
    m'.value.string? = some (tokenOf o) → m.name.val = m'.name.val
  apart : ∀ m m', [m, m'] <:+: o.members → m.value.string? = some (str "token") →
    m'.name.val ≠ str "access_token"

variable {name : Bytes}

theorem exists_member (h : (o.string? name).getD [] ≠ []) :
    ∃ m ∈ o.members, m.name.val = name ∧ m.value.string? = some ((o.string? name).getD []) := by
  cases hs : o.string? name with
  | none =>
    rw [hs] at h
    exact absurd rfl h
  | some s =>
    obtain ⟨m, hm, hv⟩ := Option.bind_eq_some_iff.mp hs
    exact ⟨m, List.mem_of_find?_eq_some hm, by simpa using List.find?_some hm, hv⟩

theorem tokenOf_access (h : (o.string? (str "token")).getD [] = []) :
    tokenOf o = (o.string? (str "access_token")).getD [] := by
  rw [tokenOf, h]
  rfl

/-- A scan that goes astray and stops at the token stops at the string of another member. -/
theorem Telling.astray (h : Telling o) (hbad : ¬ Straight key o.members)
    (hstop : stopsAt key o.members = tokenOf o) : ∃ m m', [m, m'] <:+: o.members ∧
      m.value.string? = some key ∧ m'.name.val ≠ key ∧ m'.value.string? = some (tokenOf o) := by
  rcases Oci.astray (fun m hm => (h.names m hm).2.1) hbad with ⟨m, hm, hname⟩ | hother
  · exact absurd (hname.symm.trans hstop) (h.names m hm).2.2
  · rwa [hstop] at hother

theorem Telling.stopsAt_ne_nil (h : Telling o) (hbad : ¬ Straight key o.members) :
    stopsAt key o.members ≠ [] := by
  rcases Oci.astray (fun m hm => (h.names m hm).2.1) hbad with ⟨m, hm, hname⟩ | ⟨m, m', hin, -, -, hs⟩
  · rw [hname]
    exact (h.names m hm).1
  · intro hnil
    rw [hnil] at hs
    exact h.strings m' (hin.subset (by simp)) hs

/-- The member at which it stops is not the one of that name. -/
theorem Telling.name_ne (h : Telling o) {m : Member} (hm : m ∈ o.members)
    (hs : m.value.string? = some (tokenOf o)) (hname : m.name.val ≠ name) :
    tokenOf o ≠ (o.string? name).getD [] := by
  intro heq
  have hne : (o.string? name).getD [] ≠ [] := by
    rw [← heq]
    intro hnil
    rw [hnil] at hs
    exact h.strings m hm hs
  obtain ⟨m', hm', hname', hs'⟩ := exists_member hne
  rw [← heq] at hs'
  exact hname ((h.once m hm m' hm' hs hs').trans hname')

theorem Telling.straight (h : Telling o) (hpicked : pickedUp o = tokenOf o) : GoesStraight o := by
  have hmem : ∀ {m m'}, [m, m'] <:+: o.members → m' ∈ o.members := fun hin => hin.subset (by simp)
  rw [pickedUp] at hpicked
  have htoken : Straight (str "token") o.members := by
    by_contra hbad
    rw [if_neg (mt List.isEmpty_iff.mp (h.stopsAt_ne_nil hbad))] at hpicked
    obtain ⟨m, m', hin, hkey, hne, hs⟩ := h.astray hbad hpicked
    by_cases htok : (o.string? (str "token")).getD [] = []
    · exact h.name_ne (hmem hin) hs (h.apart m m' hin hkey) (tokenOf_access htok)
    · exact h.name_ne (hmem hin) hs hne (if_neg (mt List.isEmpty_iff.mp htok))
  refine ⟨htoken, ?_⟩
  by_contra hbad
  rw [not_or, not_not] at hbad
  have hnil : stopsAt (str "token") o.members = [] :=
    (stopsAt_straight (by decide +kernel) htoken).trans hbad.1
  rw [hnil] at hpicked
  obtain ⟨m, m', hin, -, hne, hs⟩ := h.astray hbad.2 hpicked
  exact h.name_ne (hmem hin) hs hne (tokenOf_access hbad.1)

/-- **The token of a body**: a scan that goes straight finds it; and where nothing else can be taken
for it, no other scan does. -/
theorem token_body_straight (o : FlatObject) :
    (GoesStraight o → parseTokenBody o.text = tokenOf o) ∧
      (Telling o → parseTokenBody o.text = tokenOf o → GoesStraight o) := by
  rw [parseTokenBody_object]
  exact ⟨pickedUp_straight, Telling.straight⟩

def noSpace : Space := ⟨[], fun _ h => absurd h List.not_mem_nil⟩

/-- A member without white space. -/
def compact (name : PlainText) (value : Value) : Member :=
  { before := noSpace, name := name, afterName := noSpace, afterColon := noSpace, value := value,
    afterValue := noSpace }

/-- The body `{"refresh":null,"token":"abc"}`. -/
def plainAnswer : FlatObject :=
  { lead := noSpace,
    members := [compact ⟨str "refresh", by decide +kernel⟩ .null,
      compact ⟨str "token", by decide +kernel⟩ (.string ⟨str "abc", by decide +kernel⟩)],
    inner := noSpace, trail := noSpace, distinct := by decide +kernel }

theorem token_body_plainAnswer : GoesStraight plainAnswer ∧ parseTokenBody plainAnswer.text = str "abc" := by
  have hstraight : GoesStraight plainAnswer := by
    refine ⟨by decide +kernel, .inl ?_⟩
    decide
  exact ⟨hstraight, (token_body_straight plainAnswer).1 hstraight⟩

/-- The body `{"token":null,"scope":"pull"}`. -/
def nullAnswer : FlatObject :=
  { lead := noSpace,
    members := [compact ⟨str "token", by decide +kernel⟩ .null,
      compact ⟨str "scope", by decide +kernel⟩ (.string ⟨str "pull", by decide +kernel⟩)],
    inner := noSpace, trail := noSpace, distinct := by decide +kernel }

/-- The name of the next member is taken for the token. -/
theorem token_body_nullAnswer :
    nullAnswer.text = str "\x7b\"token\":null,\"scope\":\"pull\"\x7d" ∧
      parseTokenBody nullAnswer.text = str "scope" ∧ tokenOf nullAnswer = [] := by
  decide +kernel

end TamagoUefi.Oci
