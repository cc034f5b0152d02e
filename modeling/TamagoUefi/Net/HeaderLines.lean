import TamagoUefi.Net.StreamBodies

/-!
# TamagoUefi.Net.HeaderLines — what the two readers make of header lines

* `addHeaders_joined`: the buffered reader joins the values of a name in the order of their lines.
* `foldlM_streamField`: the streaming reader keeps the last length and whether one encoding is `chunked`,
  and refuses a `Content-Length` that is no length.
* `streamFields_eq`: its loop goes through all lines up to the empty one, or stops at a bad one.
-/

namespace TamagoUefi.Net

open Go Lib LineReader

variable {raw line rest : Bytes} {e : ReadErr} {lr lr' : LineReader}

/-- The values of the fields with a name. -/
def fieldValues (lines : List Bytes) (name : Bytes) : List Bytes :=
  lines.filterMap fun line => (headerField line).bind fun (k, v) => if k = name then some v else none

/-- The length that a value of `Content-Length` gives. -/
def lengthOf (v : Bytes) : Option ℕ :=
  (parseInt64 v).bind fun n => if n < 0 then none else some n.toNat

variable {name v : Bytes}

theorem fieldValues_cons_self (lines : List Bytes) (h : headerField line = some (name, v)) :
    fieldValues (line :: lines) name = v :: fieldValues lines name := by
  simp [fieldValues, h]

variable {k : Bytes}

theorem fieldValues_cons_of_ne (lines : List Bytes) (h : headerField line = some (k, v)) (hne : k ≠ name) :
    fieldValues (line :: lines) name = fieldValues lines name := by
  simp [fieldValues, h, hne]

theorem ne_nil_of_headerField (h : headerField line ≠ none) : line ≠ [] := by
  rintro rfl
  exact h rfl

/-- The values of one name as the readers keep them. -/
def joined (vs : List Bytes) : Option Bytes :=
  if vs = [] then none else some ((str ", ").intercalate vs)

theorem joined_cons (v : Bytes) (vs : List Bytes) :
    joined (v :: vs) = some ((str ", ").intercalate (v :: vs)) := if_neg (List.cons_ne_nil v vs)

theorem joined_pair (x v : Bytes) (vs : List Bytes) :
    joined ((x ++ str ", " ++ v) :: vs) = joined (x :: v :: vs) := by
  rw [joined_cons, joined_cons]
  cases vs with
  | nil => simp [List.intercalate_cons_cons]
  | cons w vs => simp [List.intercalate_cons_cons]

theorem joined_eq_head {vs : List Bytes} (h : vs.length ≤ 1) : joined vs = vs.head? := by
  cases vs with
  | nil => rfl
  | cons v vs =>
    obtain rfl : vs = [] := List.length_eq_zero_iff.mp (Nat.le_zero.mp (Nat.le_of_succ_le_succ h))
    rw [joined_cons, List.intercalate_singleton, List.head?_cons]

theorem addHeader_of_field {hs : Bytes → Option Bytes} (h : headerField line = some (k, v)) :
    addHeader hs line = .ok (Function.update hs k (joined ((hs k).toList ++ [v]))) := by
  have hne : line ≠ [] := ne_nil_of_headerField (by rw [h]; exact Option.some_ne_none _)
  unfold addHeader
  rw [if_neg (mt List.isEmpty_iff.mp hne), h]
  dsimp only
  cases hs k with
  | none => rw [Option.toList_none, List.nil_append, joined_cons, List.intercalate_singleton]
  | some old =>
    rw [Option.toList_some, List.singleton_append, ← joined_pair, joined_cons,
      List.intercalate_singleton]

/-- **The readers' headers**: the values of a name are joined in the order of their lines. -/
theorem addHeaders_joined (lines : List Bytes) (hs : Bytes → Option Bytes)
    (hfields : ∀ line ∈ lines, headerField line ≠ none) :
    ∃ hs', lines.foldlM addHeader hs = .ok hs' ∧
      ∀ name, hs' name = joined ((hs name).toList ++ fieldValues lines name) := by
  induction lines generalizing hs with
  | nil =>
    refine ⟨hs, rfl, fun name => ?_⟩
    rw [show fieldValues [] name = [] from rfl, List.append_nil]
    cases hs name with
    | none => rfl
    | some v => rw [Option.toList_some, joined_cons, List.intercalate_singleton]
  | cons line lines ih =>
    obtain ⟨⟨k, v⟩, hkv⟩ := Option.ne_none_iff_exists'.mp (hfields line List.mem_cons_self)
    obtain ⟨hs', hfold, hval⟩ := ih (Function.update hs k (joined ((hs k).toList ++ [v])))
      fun l hl => hfields l (List.mem_cons_of_mem _ hl)
    refine ⟨hs', ?_, fun name => ?_⟩
    · rw [List.foldlM_cons, addHeader_of_field hkv]
      exact hfold
    rw [hval name]
    by_cases hname : k = name
    · subst hname
      rw [Function.update_self, fieldValues_cons_self lines hkv]
      cases hs k with
      | none => rw [Option.toList_none, List.nil_append, joined_cons, List.intercalate_singleton,
          Option.toList_some, List.singleton_append, List.nil_append]
      | some old =>
        rw [Option.toList_some, List.singleton_append, ← joined_pair, joined_cons,
          List.intercalate_singleton, Option.toList_some, List.singleton_append, joined_pair,
          List.singleton_append]
    · rw [Function.update_of_ne (Ne.symm hname), fieldValues_cons_of_ne lines hkv hname]

theorem addHeaders_eq (lines : List Bytes) (hs : Bytes → Option Bytes)
    (hfields : ∀ line ∈ lines, headerField line ≠ none) :
    ∃ hs', lines.foldlM addHeader hs = .ok hs' ∧
      ∀ name, ((hs name).toList ++ fieldValues lines name).length ≤ 1 →
        hs' name = ((hs name).toList ++ fieldValues lines name).head? := by
  obtain ⟨hs', hfold, hval⟩ := addHeaders_joined lines hs hfields
  exact ⟨hs', hfold, fun name honce => (hval name).trans (joined_eq_head honce)⟩


theorem streamField_length {hd : Head} (h : headerField line = some (str "content-length", v)) :
    streamField hd line = (lengthOf v).map fun n => { hd with
      contentLength := n, headers := Function.update hd.headers (str "content-length") (some v) } := by
  unfold streamField lengthOf
  rw [h]
  simp only [Option.bind_some, if_true]
  cases parseInt64 v with
  | none => rfl
  | some n =>
    by_cases hn : n < 0
    · simp [hn]
    · simp [hn, Int.toNat_of_nonneg (Int.not_lt.mp hn)]

theorem streamField_other (hd : Head) (h : headerField line = some (k, v)) (hk : k ≠ str "content-length") :
    ∃ hd', streamField hd line = some hd' ∧ hd'.contentLength = hd.contentLength ∧
      hd'.chunked = (hd.chunked || (k = str "transfer-encoding" && equalFold v (str "chunked"))) := by
  unfold streamField
  rw [h]
  simp only [Option.bind_some, if_neg hk]
  by_cases hte : k = str "transfer-encoding"
  · rw [if_pos hte]
    exact ⟨_, rfl, rfl, by simp [hte]⟩
  · rw [if_neg hte]
    split_ifs
    · exact ⟨_, rfl, rfl, by simp [hte]⟩
    · exact ⟨_, rfl, rfl, by simp [hte]⟩

theorem te_ne_cl : str "transfer-encoding" ≠ str "content-length" := by decide

/-- **The streaming reader's headers**: a `Content-Length` that is no length is an error, whatever else
there is. -/
theorem foldlM_streamField (lines : List Bytes) (hd : Head)
    (hfields : ∀ line ∈ lines, headerField line ≠ none) :
    match lines.foldlM streamField hd with
    | none => ∃ v ∈ fieldValues lines (str "content-length"), lengthOf v = none
    | some hd' => (∀ v ∈ fieldValues lines (str "content-length"), lengthOf v ≠ none) ∧
        hd'.chunked = (hd.chunked ||
          (fieldValues lines (str "transfer-encoding")).any (equalFold · (str "chunked"))) ∧
        hd'.contentLength = (fieldValues lines (str "content-length")).foldl
          (fun n v => ((lengthOf v).map Int.ofNat).getD n) hd.contentLength := by
  induction lines generalizing hd with
  | nil => exact ⟨by simp [fieldValues], by simp [fieldValues], rfl⟩
  | cons line lines ih =>
    obtain ⟨⟨k, v⟩, hkv⟩ := Option.ne_none_iff_exists'.mp (hfields line (by simp))
    have hrest : ∀ l ∈ lines, headerField l ≠ none := fun l hl => hfields l (by simp [hl])
    rw [List.foldlM_cons]
    by_cases hk : k = str "content-length"
    · subst hk
      rw [fieldValues_cons_self lines hkv, fieldValues_cons_of_ne lines hkv te_ne_cl.symm, streamField_length hkv]
      cases hn : lengthOf v with
      | none => exact ⟨v, List.mem_cons_self, hn⟩
      | some n =>
        rw [Option.map_some, Option.bind_eq_bind, Option.bind_some]
        have hih := ih { hd with
          contentLength := n, headers := Function.update hd.headers (str "content-length") (some v) } hrest
        split at hih
        · obtain ⟨v', hv', hbad⟩ := hih
          exact ⟨v', List.mem_cons_of_mem v hv', hbad⟩
        · obtain ⟨h₁, h₂, h₃⟩ := hih
          refine ⟨List.forall_mem_cons.mpr ⟨by simp [hn], h₁⟩, h₂, ?_⟩
          rw [List.foldl_cons, hn]
          exact h₃
    · rw [fieldValues_cons_of_ne lines hkv hk]
      obtain ⟨hd₁, hline, hcl, hch⟩ := streamField_other hd hkv hk
      rw [hline, Option.bind_eq_bind, Option.bind_some]
      have hih := ih hd₁ hrest
      split at hih
      · exact hih
      · obtain ⟨h₁, h₂, h₃⟩ := hih
        refine ⟨h₁, ?_, h₃.trans (by rw [hcl])⟩
        rw [h₂, hch]
        by_cases hte : k = str "transfer-encoding"
        · subst hte
          rw [fieldValues_cons_self lines hkv]
          simp [Bool.or_assoc]
        · rw [fieldValues_cons_of_ne lines hkv hte]
          simp [hte]

/-- A line of a head. -/
structure HeadLine (l : Bytes) : Prop where
  line : lf ∉ l
  short : l.length ≤ httpLineMaxBytes

theorem readLine_head {fields : List Bytes} {r : Except ReadErr Bytes} (hfields : ∀ l ∈ fields, HeadLine l)
    (hat : At raw e (fields.flatMap (· ++ crlf) ++ (crlf ++ rest)) lr) (hread : lr.readLine = (r, lr'))
    (hu : Unsplit raw lr') :
    (fields = [] ∧ r = .ok [] ∧ At raw e rest lr') ∨
      ∃ l ls, fields = l :: ls ∧ r = .ok l ∧
        At raw e (ls.flatMap (· ++ crlf) ++ (crlf ++ rest)) lr' := by
  cases fields with
  | nil =>
    have hat' : At raw e ([] ++ crlf ++ rest) lr := hat
    exact .inl ⟨rfl, readLine_at hat' (by simp) (Nat.zero_le _) hread hu⟩
  | cons l ls =>
    have hl := hfields l (by simp)
    rw [List.flatMap_cons, List.append_assoc] at hat
    exact .inr ⟨l, ls, rfl, readLine_at hat hl.line hl.short hread hu⟩

/-- **The loop over the header lines** goes through all of them, or stops at a bad one. -/
theorem streamFields_eq (fields : List Bytes) (hfields : ∀ l ∈ fields, HeadLine l) (hne : ∀ l ∈ fields, l ≠ [])
    (lr : LineReader) (hd : Head) (hat : At raw e (fields.flatMap (· ++ crlf) ++ (crlf ++ rest)) lr)
    (hu : Unsplit raw (streamFields lr hd).2.2) :
    match fields.foldlM streamField hd with
    | none => (streamFields lr hd).2.1 = some .badHeader
    | some hd' => (streamFields lr hd).1 = hd' ∧ (streamFields lr hd).2.1 = none ∧
        At raw e rest (streamFields lr hd).2.2 := by
  fun_induction streamFields lr hd generalizing fields with
  | case1 lr hd err lr' h =>
    rcases readLine_head hfields hat h hu with ⟨-, heq, -⟩ | ⟨l, ls, -, heq, -⟩
    · cases heq
    · cases heq
  | case2 lr hd lr' h =>
    rcases readLine_head hfields hat h hu with ⟨rfl, -, hrest⟩ | ⟨l, ls, rfl, heq, -⟩
    · exact ⟨rfl, rfl, hrest⟩
    · cases heq
      exact absurd rfl (hne [] (by simp))
  | case3 lr hd line lr' h hline =>
    rename_i hbad
    rcases readLine_head hfields hat h hu with ⟨-, heq, -⟩ | ⟨l, ls, rfl, heq, -⟩
    · exact absurd (Except.ok.inj heq) hline
    · obtain rfl := Except.ok.inj heq
      rw [List.foldlM_cons, hbad]
      rfl
  | case4 lr hd line lr' h hline hd' hok _ ih =>
    have hu' := hu.of_later (later_streamFields lr' hd')
    rcases readLine_head hfields hat h hu' with ⟨-, heq, -⟩ | ⟨l, ls, rfl, heq, hrest⟩
    · exact absurd (Except.ok.inj heq) hline
    · obtain rfl := Except.ok.inj heq
      rw [List.foldlM_cons, hok]
      exact ih ls (fun l hl => hfields l (by simp [hl])) (fun l hl => hne l (by simp [hl])) hrest hu

end TamagoUefi.Net
