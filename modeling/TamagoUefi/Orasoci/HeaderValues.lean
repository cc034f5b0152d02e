import Mathlib.Data.List.Dedup
import TamagoUefi.Orasoci.Framing

/-!
# TamagoUefi.Orasoci.HeaderValues — the headers that `net/http` gets (`orasoci/transport.go`)

`readStatusAndHeaders` joins the values of one name with a comma and a space, `toHTTPHeader` splits at
these two bytes again.  What was a comma and a space in a value before is then a cut as well.

* `canonicalHeaderKey_eq_iff`: names have one canonical form exactly when they differ in case only.
* `toHTTPHeader_listing`: the header of a map, in every order of its entries.
* `header_delivered_iff`: the values arrive as they were sent exactly when none has a comma and a space
  in it and `ReadLine` takes the head.
-/

namespace TamagoUefi.Orasoci

open Go Lib Net LineReader

/-! ## Canonical names -/

/-- `validHeaderFieldByte` -/
def tokenByte (c : UInt8) : Bool :=
  (0x30 ≤ c && c ≤ 0x39) || (0x41 ≤ c && c ≤ 0x5A) || (0x61 ≤ c && c ≤ 0x7A) ||
    (str "!#$%&'*+-.^_`|~").contains c

def asciiUpper (c : UInt8) : UInt8 := if 0x61 ≤ c ∧ c ≤ 0x7A then c - 0x20 else c

/-- The loop of `CanonicalMIMEHeaderKey`: the first letter and those behind a hyphen in upper case. -/
def canonicalFrom (upper : Bool) : Bytes → Bytes
  | [] => []
  | c :: t =>
    let c' := if upper then asciiUpper c else asciiLower c
    c' :: canonicalFrom (c' == '-'.toUInt8) t

/-- `http.CanonicalHeaderKey`.  What is no token stays as it is. -/
def canonicalHeaderKey (s : Bytes) : Bytes := if s.all tokenByte then canonicalFrom true s else s

theorem byte_cases {P : UInt8 → Prop} (h : ∀ n : Fin 256, P (UInt8.ofNat n.val)) (c : UInt8) : P c := by
  have hc := h ⟨c.toNat, c.toNat_lt⟩
  rwa [UInt8.ofNat_toNat] at hc

theorem asciiCase : ∀ c : UInt8, asciiLower (asciiLower c) = asciiLower c ∧ asciiLower (asciiUpper c) = asciiLower c ∧
    asciiUpper (asciiLower c) = asciiUpper c ∧ tokenByte (asciiLower c) = tokenByte c ∧
    (tokenByte c = true → Visible c ∧ c ≠ ':'.toUInt8 ∧ c ≠ lf ∧ c < 0x80) :=
  byte_cases (by decide +kernel)

theorem asciiLower_asciiLower (c : UInt8) : asciiLower (asciiLower c) = asciiLower c := (asciiCase c).1

theorem asciiLower_asciiUpper (c : UInt8) : asciiLower (asciiUpper c) = asciiLower c := (asciiCase c).2.1

theorem asciiUpper_asciiLower (c : UInt8) : asciiUpper (asciiLower c) = asciiUpper c := (asciiCase c).2.2.1

theorem tokenByte_asciiLower (c : UInt8) : tokenByte (asciiLower c) = tokenByte c := (asciiCase c).2.2.2.1

theorem tokenByte_visible (c : UInt8) : tokenByte c = true → Visible c ∧ c ≠ ':'.toUInt8 ∧ c ≠ lf ∧ c < 0x80 :=
  (asciiCase c).2.2.2.2

theorem canonicalFrom_map_lower (upper : Bool) (s : Bytes) :
    canonicalFrom upper (s.map asciiLower) = canonicalFrom upper s := by
  induction s generalizing upper with
  | nil => rfl
  | cons c s ih =>
    have hc : (if upper then asciiUpper (asciiLower c) else asciiLower (asciiLower c)) =
        if upper then asciiUpper c else asciiLower c := by
      rw [asciiUpper_asciiLower, asciiLower_asciiLower]
    rw [List.map_cons, canonicalFrom, canonicalFrom, hc, ih]

theorem map_lower_canonicalFrom (upper : Bool) (s : Bytes) :
    (canonicalFrom upper s).map asciiLower = s.map asciiLower := by
  induction s generalizing upper with
  | nil => rfl
  | cons c s ih =>
    have hc : asciiLower (if upper then asciiUpper c else asciiLower c) = asciiLower c := by
      cases upper with
      | false => exact asciiLower_asciiLower c
      | true => exact asciiLower_asciiUpper c
    rw [canonicalFrom, List.map_cons, List.map_cons, hc, ih]

theorem all_map_lower (s : Bytes) : (s.map asciiLower).all tokenByte = s.all tokenByte := by
  rw [List.all_map]
  exact congrArg (s.all ·) (funext tokenByte_asciiLower)

variable {s : Bytes}

theorem canonicalHeaderKey_lower (h : s.all tokenByte = true) :
    canonicalHeaderKey (s.map asciiLower) = canonicalHeaderKey s := by
  rw [canonicalHeaderKey, canonicalHeaderKey, all_map_lower, if_pos h, if_pos h,
    canonicalFrom_map_lower]

/-- **One canonical form** for the names that differ in case only. -/
theorem canonicalHeaderKey_eq_iff {t : Bytes} (hs : s.all tokenByte = true) (ht : t.all tokenByte = true) :
    canonicalHeaderKey s = canonicalHeaderKey t ↔ s.map asciiLower = t.map asciiLower := by
  constructor
  · intro h
    rw [canonicalHeaderKey, canonicalHeaderKey, if_pos hs, if_pos ht] at h
    rw [← map_lower_canonicalFrom true s, h, map_lower_canonicalFrom]
  · intro h
    rw [← canonicalHeaderKey_lower hs, h, canonicalHeaderKey_lower ht]

/-! ## `toHTTPHeader` -/

abbrev HTTPHeader : Type := Bytes → Option (List Bytes)

def separator : Bytes := str ", "

/-- The values that a joined value is split into. -/
def values (v : Bytes) : List Bytes := if contains v separator then split v separator else [v]

/-- The entries of the map come in the order in which they are ranged over. -/
def toHTTPHeader (entries : List (Bytes × Bytes)) : HTTPHeader :=
  entries.foldl (fun h kv => Function.update h (canonicalHeaderKey kv.1) (some (values kv.2)))
    fun _ => none

/-- The entries of a map, in any order. -/
structure Listing (entries : List (Bytes × Bytes)) (headers : Headers) : Prop where
  nodup : (entries.map Prod.fst).Nodup
  mem_iff : ∀ k v, (k, v) ∈ entries ↔ headers k = some v

theorem values_eq (v : Bytes) : values v = split v separator := by
  unfold values contains
  cases hi : index v separator with
  | none => exact (splitFuel_none hi _).symm
  | some i => rfl

/-- **The joined values are split into the values** exactly when none has the separator in it. -/
theorem values_intercalate_iff (v : Bytes) (vs : List Bytes) :
    values (separator.intercalate (v :: vs)) = v :: vs ↔
      ∀ w ∈ v :: vs, contains w separator = false := by
  have hne : separator ≠ [] := by decide +kernel
  rw [values_eq]
  constructor
  · intro h w hw
    rw [← h] at hw
    rw [contains, index_of_mem_splitFuel hne _ _ le_rfl w hw]
    rfl
  · intro h
    refine split_intercalate hne v vs fun w hw => ?_
    have hnone : index w separator = none := by
      have hw := h w hw
      rwa [contains, Option.isSome_eq_false_iff, Option.isNone_iff_eq_none] at hw
    exact ⟨hnone, ends_pair (by decide +kernel) hnone⟩

variable {k v : Bytes}

section
variable {entries : List (Bytes × Bytes)}

theorem foldl_update_of_notMem (h : HTTPHeader) {key : Bytes}
    (hkey : key ∉ entries.map fun kv => canonicalHeaderKey kv.1) :
    entries.foldl (fun h kv => Function.update h (canonicalHeaderKey kv.1) (some (values kv.2))) h key =
      h key := by
  induction entries generalizing h with
  | nil => rfl
  | cons kv entries ih =>
    rw [List.map_cons, List.mem_cons, not_or] at hkey
    rw [List.foldl_cons, ih _ hkey.2, Function.update_of_ne hkey.1]

theorem foldl_update_of_mem (h : HTTPHeader) (hmem : (k, v) ∈ entries)
    (hnodup : (entries.map fun kv => canonicalHeaderKey kv.1).Nodup) :
    entries.foldl (fun h kv => Function.update h (canonicalHeaderKey kv.1) (some (values kv.2))) h
      (canonicalHeaderKey k) = some (values v) := by
  induction entries generalizing h with
  | nil => exact absurd hmem List.not_mem_nil
  | cons kv entries ih =>
    rw [List.map_cons, List.nodup_cons] at hnodup
    rw [List.foldl_cons]
    rcases List.mem_cons.mp hmem with rfl | hmem
    · rw [foldl_update_of_notMem _ hnodup.1, Function.update_self]
    · exact ih _ hmem hnodup.2

end

/-! ## Header blocks -/

/-- A byte of a field value: visible, a blank, or not ASCII. -/
def valueByte (c : UInt8) : Bool := c == 0x09 || (0x20 ≤ c && c != 0x7F)

/-- A field line: a token, a colon and the value with the white space around it. -/
structure FieldLine where
  name : Bytes
  value : Bytes
  name_ne : name ≠ []
  name_token : name.all tokenByte = true
  value_legal : value.all valueByte = true

namespace FieldLine

def text (f : FieldLine) : Bytes := f.name ++ ':'.toUInt8 :: f.value

/-- The name as the map has it. -/
def key (f : FieldLine) : Bytes := f.name.map asciiLower

variable (f : FieldLine)

theorem token_of_mem {c : UInt8} (h : c ∈ f.name) : tokenByte c = true :=
  List.all_eq_true.mp f.name_token c h

theorem trimSpace_name : trimSpace f.name = f.name := by
  obtain ⟨a, t, hname⟩ := List.exists_cons_of_ne_nil f.name_ne
  have hlast : f.name.getLast? = some (f.name.getLast f.name_ne) :=
    List.getLast?_eq_some_getLast f.name_ne
  have ha := tokenByte_visible a (f.token_of_mem (hname ▸ List.mem_cons_self))
  have hz := tokenByte_visible _ (f.token_of_mem (List.mem_of_getLast? hlast))
  exact trimSpace_visible ha.1 hz.1 hname hlast

theorem headerField_text : headerField f.text = some (f.key, trimSpace f.value) := by
  have hcolon : ':'.toUInt8 ∉ f.name := fun h =>
    (tokenByte_visible _ (f.token_of_mem h)).2.1 rfl
  have hdrop : (f.name ++ ':'.toUInt8 :: f.value).drop (f.name.length + 1) = f.value := by
    rw [List.drop_append]
    simp
  have hlower : toLower f.name = f.key :=
    toLower_ascii fun c hc => (tokenByte_visible c (f.token_of_mem hc)).2.2.2
  rw [headerField, text, indexByte_append hcolon, Option.map_some, List.take_left, hdrop,
    trimSpace_name, hlower]

theorem lf_not_mem_text : lf ∉ f.text := by
  rw [text, List.mem_append, List.mem_cons, not_or, not_or]
  refine ⟨fun h => (tokenByte_visible _ (f.token_of_mem h)).2.2.1 rfl, by decide, fun h => ?_⟩
  exact absurd (List.all_eq_true.mp f.value_legal lf h) (by decide)

theorem canonical_key : canonicalHeaderKey f.key = canonicalHeaderKey f.name :=
  canonicalHeaderKey_lower f.name_token

theorem canonical_eq_iff (g : FieldLine) :
    canonicalHeaderKey f.name = canonicalHeaderKey g.name ↔ f.key = g.key :=
  canonicalHeaderKey_eq_iff f.name_token g.name_token

end FieldLine

/-- The trimmed values of the lines with a key, in the order of the lines. -/
def valuesOf (block : List FieldLine) (k : Bytes) : List Bytes :=
  (block.filter (·.key = k)).map (trimSpace ·.value)

/-- **The header of a block**: under each canonical name the trimmed values of its lines, in order. -/
def delivered (block : List FieldLine) : HTTPHeader := fun name =>
  let vs := (block.filter (canonicalHeaderKey ·.name = name)).map (trimSpace ·.value)
  if vs = [] then none else some vs

/-- What is read of a block: the joined values of each key. -/
def Reads (block : List FieldLine) (headers : Headers) : Prop :=
  ∀ k, headers k = joined (valuesOf block k)

section
variable {block : List FieldLine} {headers : Headers} {entries : List (Bytes × Bytes)} {f : FieldLine}

theorem fieldValues_block (block : List FieldLine) (k : Bytes) :
    fieldValues (block.map FieldLine.text) k = valuesOf block k := by
  induction block with
  | nil => rfl
  | cons f block ih =>
    rw [List.map_cons, valuesOf]
    by_cases hk : f.key = k
    · rw [fieldValues_cons_self _ (hk ▸ f.headerField_text), ih,
        List.filter_cons_of_pos (by simpa using hk), List.map_cons]
      rfl
    · rw [fieldValues_cons_of_ne _ f.headerField_text hk, ih,
        List.filter_cons_of_neg (by simpa using hk)]
      rfl

theorem mem_valuesOf (hf : f ∈ block) : trimSpace f.value ∈ valuesOf block f.key :=
  List.mem_map.mpr ⟨f, List.mem_filter.mpr ⟨hf, decide_eq_true rfl⟩, rfl⟩

theorem valuesOf_eq_nil (h : ∀ f ∈ block, f.key ≠ k) : valuesOf block k = [] := by
  rw [valuesOf, List.map_eq_nil_iff, List.filter_eq_nil_iff]
  intro f hf hk
  exact h f hf (of_decide_eq_true hk)

/-- The lines of one canonical name are those of one key. -/
theorem delivered_canonical (hf : f ∈ block) :
    delivered block (canonicalHeaderKey f.name) = some (valuesOf block f.key) := by
  have hfilter : block.filter (canonicalHeaderKey ·.name = canonicalHeaderKey f.name) =
      block.filter (·.key = f.key) := by
    refine List.filter_congr fun g _ => ?_
    rw [decide_eq_decide]
    exact g.canonical_eq_iff f
  have hne : valuesOf block f.key ≠ [] := List.ne_nil_of_mem (mem_valuesOf hf)
  rw [delivered, hfilter]
  exact if_neg hne

variable {name : Bytes}

theorem delivered_other (h : ∀ f ∈ block, canonicalHeaderKey f.name ≠ name) :
    delivered block name = none := by
  refine if_pos ?_
  rw [List.map_eq_nil_iff, List.filter_eq_nil_iff]
  intro f hf hk
  exact h f hf (of_decide_eq_true hk)

/-! ## Joining and splitting -/

variable (hreads : Reads block headers)
include hreads

theorem Reads.some_of_mem (hf : f ∈ block) :
    headers f.key = some (separator.intercalate (valuesOf block f.key)) := by
  rw [hreads f.key, joined, if_neg (List.ne_nil_of_mem (mem_valuesOf hf))]
  rfl

theorem Reads.exists_line (h : headers k = some v) : ∃ f ∈ block, f.key = k := by
  by_contra hno
  rw [hreads k, valuesOf_eq_nil fun f hf hk => hno ⟨f, hf, hk⟩] at h
  cases h

theorem Reads.exists_listing : ∃ entries, Listing entries headers := by
  refine ⟨((block.map (·.key)).dedup).map fun k => (k, (headers k).getD []), ?_, fun k v => ?_⟩
  · rw [List.map_map, Function.comp_def, List.map_id']
    exact List.nodup_dedup _
  · rw [List.mem_map]
    constructor
    · rintro ⟨k', hk', heq⟩
      cases heq
      obtain ⟨f, hf, rfl⟩ := List.mem_map.mp (List.mem_dedup.mp hk')
      rw [hreads.some_of_mem hf]
      rfl
    · intro h
      obtain ⟨f, hf, rfl⟩ := hreads.exists_line h
      refine ⟨f.key, List.mem_dedup.mpr (List.mem_map_of_mem hf), ?_⟩
      rw [h]
      rfl

variable (hlist : Listing entries headers)
include hlist

theorem Listing.nodup_canonical : (entries.map fun kv => canonicalHeaderKey kv.1).Nodup := by
  have hline : ∀ k ∈ entries.map Prod.fst, ∃ f ∈ block, f.key = k := by
    intro k hk
    obtain ⟨⟨k, v⟩, hmem, rfl⟩ := List.mem_map.mp hk
    exact hreads.exists_line ((hlist.mem_iff k v).mp hmem)
  have hinj : ∀ k ∈ entries.map Prod.fst, ∀ l ∈ entries.map Prod.fst,
      canonicalHeaderKey k = canonicalHeaderKey l → k = l := by
    intro k hk l hl h
    obtain ⟨f, -, rfl⟩ := hline k hk
    obtain ⟨g, -, rfl⟩ := hline l hl
    rw [f.canonical_key, g.canonical_key] at h
    exact (f.canonical_eq_iff g).mp h
  have hmap := hlist.nodup.map_on hinj
  rwa [List.map_map] at hmap

theorem toHTTPHeader_canonical (hf : f ∈ block) :
    toHTTPHeader entries (canonicalHeaderKey f.name) =
      some (values (separator.intercalate (valuesOf block f.key))) := by
  have hmem := (hlist.mem_iff f.key _).mpr (hreads.some_of_mem hf)
  rw [← f.canonical_key]
  exact foldl_update_of_mem _ hmem (hlist.nodup_canonical hreads)

theorem toHTTPHeader_other (h : ∀ f ∈ block, canonicalHeaderKey f.name ≠ name) :
    toHTTPHeader entries name = none := by
  refine foldl_update_of_notMem _ fun hname => ?_
  obtain ⟨⟨k, v⟩, hmem, rfl⟩ := List.mem_map.mp hname
  obtain ⟨f, hf, rfl⟩ := hreads.exists_line ((hlist.mem_iff k v).mp hmem)
  exact h f hf f.canonical_key.symm

/-- **The header of a map** that was read of a block, in every order of its entries. -/
theorem toHTTPHeader_listing : toHTTPHeader entries = delivered block ↔
    ∀ f ∈ block, contains (trimSpace f.value) separator = false := by
  constructor
  · intro h f hf
    have hname := congrFun h (canonicalHeaderKey f.name)
    rw [toHTTPHeader_canonical hreads hlist hf, delivered_canonical hf, Option.some.injEq] at hname
    have hmem := mem_valuesOf hf
    obtain ⟨v, vs, hvs⟩ := List.exists_cons_of_ne_nil (List.ne_nil_of_mem hmem)
    rw [hvs] at hname hmem
    exact (values_intercalate_iff v vs).mp hname _ hmem
  · intro h
    funext name
    by_cases hname : ∃ f ∈ block, canonicalHeaderKey f.name = name
    · obtain ⟨f, hf, rfl⟩ := hname
      rw [toHTTPHeader_canonical hreads hlist hf, delivered_canonical hf]
      obtain ⟨v, vs, hvs⟩ := List.exists_cons_of_ne_nil (List.ne_nil_of_mem (mem_valuesOf hf))
      rw [hvs, (values_intercalate_iff v vs).mpr]
      intro w hw
      rw [← hvs] at hw
      obtain ⟨g, hg, rfl⟩ := List.mem_map.mp hw
      exact h g (List.mem_filter.mp hg).1
    · have hno : ∀ f ∈ block, canonicalHeaderKey f.name ≠ name := fun f hf he => hname ⟨f, hf, he⟩
      rw [toHTTPHeader_other hreads hlist hno, delivered_other hno]

end

/-! ## From the stream to the header -/

/-- An answer with these field lines. -/
def answerOf (statusLine : Bytes) (block : List FieldLine) (rest : Bytes) : Response :=
  ⟨statusLine, block.map FieldLine.text, rest⟩

/-- The status and the header of a block, whatever the order of the map. -/
def Delivers (res : Except TransportErr (ℤ × Headers)) (code : ℤ) (block : List FieldLine) : Prop :=
  ∃ headers, res = .ok (code, headers) ∧
    ∀ entries, Listing entries headers → toHTTPHeader entries = delivered block

variable {block : List FieldLine}

theorem fields_of_block : ∀ l ∈ block.map FieldLine.text, headerField l ≠ none := by
  intro l hl
  obtain ⟨f, -, rfl⟩ := List.mem_map.mp hl
  rw [f.headerField_text]
  exact Option.some_ne_none _

theorem reads_of_fold {headers : Headers}
    (h : (block.map FieldLine.text).foldlM addHeader (fun _ => none) = .ok headers) :
    Reads block headers := by
  obtain ⟨headers', hfold, hval⟩ := addHeaders_joined _ (fun _ => none) fields_of_block
  obtain rfl := Except.ok.inj (h.symm.trans hfold)
  intro k
  rw [hval k, fieldValues_block]
  rfl

theorem delivers_before {statusLine rest : Bytes} {code : ℤ} (hstatus : StatusLine statusLine code)
    (hline : lf ∉ statusLine) {br : LineReader} (hb : Before (answerOf statusLine block rest).render br) :
    Delivers (readStatusAndHeaders br).1 code block ↔
      HeadFits (readStatusAndHeaders br).2.src.ends (answerOf statusLine block rest) ∧
        ∀ f ∈ block, contains (trimSpace f.value) separator = false := by
  have hlines : ∀ l ∈ statusLine :: block.map FieldLine.text, lf ∉ l := by
    intro l hl
    rcases List.mem_cons.mp hl with rfl | hl
    · exact hline
    · obtain ⟨f, -, rfl⟩ := List.mem_map.mp hl
      exact f.lf_not_mem_text
  obtain ⟨hgood, hbad⟩ := readStatusAndHeaders_lines hstatus hlines fields_of_block hb
  by_cases hfit : HeadFits (readStatusAndHeaders br).2.src.ends (answerOf statusLine block rest)
  · obtain ⟨headers, hfold, hok, -⟩ := hgood hfit
    have hreads := reads_of_fold hfold
    rw [and_iff_right hfit]
    constructor
    · rintro ⟨headers', hok', hall⟩
      cases hok.symm.trans hok'
      obtain ⟨entries, hlist⟩ := hreads.exists_listing
      exact (toHTTPHeader_listing hreads hlist).mp (hall entries hlist)
    · intro hfree
      exact ⟨headers, hok, fun entries hlist => (toHTTPHeader_listing hreads hlist).mpr hfree⟩
  · obtain ⟨e, herr⟩ := hbad hfit
    refine iff_of_false ?_ fun h => hfit h.1
    rintro ⟨headers, hok, -⟩
    cases herr.symm.trans hok

/-- **Headers reach `net/http` unchanged**, under every split of the stream into reads, exactly when
`ReadLine` takes the head and no trimmed value has a comma and a space in it. -/
theorem header_delivered_iff (statusLine rest : Bytes) (code : ℤ) (block : List FieldLine)
    (hstatus : StatusLine statusLine code) (hline : lf ∉ statusLine) (e : ReadErr) (cuts : List Cut) :
    let r := answerOf statusLine block rest
    let out := readStatusAndHeaders (newLineReader (.start r.render e cuts))
    Delivers out.1 code block ↔
      HeadFits out.2.src.ends r ∧ ∀ f ∈ block, contains (trimSpace f.value) separator = false :=
  delivers_before hstatus hline (before_start _ e cuts)

def okLine : Bytes := str "HTTP/1.1 200 OK"

/-- The lines `Link: a` and `LINK:b`. -/
def linkBlock : List FieldLine :=
  [⟨str "Link", str " a", by decide +kernel, by decide +kernel, by decide +kernel⟩,
    ⟨str "LINK", str "b", by decide +kernel, by decide +kernel, by decide +kernel⟩]

theorem header_delivered_links :
    StatusLine okLine 200 ∧ delivered linkBlock (str "Link") = some [str "a", str "b"] ∧
      (Delivers (readStatusAndHeaders (newLineReader
          (.start (answerOf okLine linkBlock []).render .eof []))).1 200 linkBlock ↔
        HeadFits (readStatusAndHeaders (newLineReader
          (.start (answerOf okLine linkBlock []).render .eof []))).2.src.ends
          (answerOf okLine linkBlock []) ∧
        ∀ f ∈ linkBlock, contains (trimSpace f.value) separator = false) :=
  ⟨statusLine_ok, by decide +kernel,
    header_delivered_iff okLine [] 200 linkBlock statusLine_ok (by decide +kernel) .eof []⟩

/-- The line `Date: Mon, 02 Jan 2006`. -/
def dateBlock : List FieldLine :=
  [⟨str "Date", str " Mon, 02 Jan 2006", by decide +kernel, by decide +kernel, by decide +kernel⟩]

/-- A date arrives as two values. -/
theorem header_delivered_date :
    ¬ Delivers (readStatusAndHeaders (newLineReader
      (.start (answerOf okLine dateBlock []).render .eof []))).1 200 dateBlock ∧
    delivered dateBlock (str "Date") = some [str "Mon, 02 Jan 2006"] ∧
    toHTTPHeader [(str "date", str "Mon, 02 Jan 2006")] (str "Date") =
      some [str "Mon", str "02 Jan 2006"] := by
  refine ⟨fun h => ?_, by decide +kernel, by decide +kernel⟩
  obtain ⟨-, hfree⟩ := (delivers_before statusLine_ok (by decide +kernel) (before_start _ .eof [])).mp h
  exact absurd (hfree _ List.mem_cons_self) (by decide +kernel)

end TamagoUefi.Orasoci
