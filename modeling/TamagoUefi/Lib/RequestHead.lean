import Mathlib.Data.List.Basic
import Mathlib.Data.List.Count

/-!
# TamagoUefi.Lib.RequestHead — HTTP/1.1 request heads as bytes

A head is a request line, the field lines and an empty line, each ended by CRLF, with nothing
after it.  `RequestHead.parse` reads it strictly: a CR or LF that does not end a line is an error.

* `readLines_eq_some`: reading lines is the inverse of writing lines free of CR and LF.
* `lines_unique`: texts that write the same bytes as as many clean lines are those lines.
* `parse_write_iff`: what is written as `GET target HTTP/1.1` and a list of lines reads back as
  that request exactly when no byte of it breaks a line or the request line.
-/

namespace TamagoUefi.Lib

/-! ## Lines -/

/-- No CR and no LF. -/
def Clean (l : List UInt8) : Prop := 13 ∉ l ∧ 10 ∉ l

instance (l : List UInt8) : Decidable (Clean l) := inferInstanceAs (Decidable (_ ∧ _))

theorem clean_append {a b : List UInt8} : Clean (a ++ b) ↔ Clean a ∧ Clean b := by
  unfold Clean
  simp only [List.mem_append, not_or]
  tauto

/-- The lines, each ended by CRLF. -/
def writeLines (ls : List (List UInt8)) : List UInt8 := ls.flatMap (· ++ [13, 10])

/-- The lines of a text that ends with a CRLF and has CR and LF nowhere else than in line ends. -/
def readLines : List UInt8 → Option (List (List UInt8))
  | [] => some []
  | c :: t =>
    if c = 13 then
      match t with
      | 10 :: t => (readLines t).map ([] :: ·)
      | _ => none
    else if c = 10 then none
    else
      match readLines t with
      | some (l :: ls) => some ((c :: l) :: ls)
      | _ => none

theorem writeLines_cons (l : List UInt8) (ls : List (List UInt8)) :
    writeLines (l :: ls) = l ++ 13 :: 10 :: writeLines ls := by
  simp [writeLines]

theorem readLines_cons {c : UInt8} (t : List UInt8) (h13 : c ≠ 13) (h10 : c ≠ 10) :
    readLines (c :: t) =
      match readLines t with
      | some (l :: ls) => some ((c :: l) :: ls)
      | _ => none := by
  rw [readLines.eq_def]
  simp only [h13, h10, if_false]

theorem readLines_cons_line : ∀ (l t : List UInt8), Clean l →
    readLines (l ++ 13 :: 10 :: t) = (readLines t).map (l :: ·)
  | [], t, _ => by simp [readLines]
  | c :: l, t, h => by
    have hc : c ≠ 13 ∧ c ≠ 10 := ⟨fun e => h.1 (by simp [e]), fun e => h.2 (by simp [e])⟩
    have hl : Clean l := ⟨fun e => h.1 (by simp [e]), fun e => h.2 (by simp [e])⟩
    rw [List.cons_append, readLines_cons _ hc.1 hc.2, readLines_cons_line l t hl]
    cases readLines t <;> rfl

theorem readLines_writeLines : ∀ (ls : List (List UInt8)), (∀ l ∈ ls, Clean l) →
    readLines (writeLines ls) = some ls
  | [], _ => rfl
  | l :: ls, h => by
    rw [writeLines_cons, readLines_cons_line l _ (h l (by simp)),
      readLines_writeLines ls fun m hm => h m (by simp [hm])]
    rfl

/-- **Reading lines** undoes writing clean ones, and succeeds on nothing else. -/
theorem readLines_eq_some {b : List UInt8} {ls : List (List UInt8)} :
    readLines b = some ls ↔ b = writeLines ls ∧ ∀ l ∈ ls, Clean l := by
  constructor
  · intro h
    induction b using readLines.induct generalizing ls with
    | case1 =>
      cases h
      exact ⟨rfl, by simp⟩
    | case2 t ih =>
      rw [readLines, if_pos rfl] at h
      obtain ⟨ls', h', rfl⟩ := Option.map_eq_some_iff.mp h
      obtain ⟨rfl, hc⟩ := ih h'
      refine ⟨by simp [writeLines_cons], fun l hl => ?_⟩
      rcases List.mem_cons.mp hl with rfl | hl
      · exact ⟨by simp, by simp⟩
      · exact hc l hl
    | case3 t hne =>
      rw [readLines.eq_def] at h
      simp only [if_true] at h
      cases h
    | case4 t h13 =>
      rw [readLines.eq_def] at h
      simp only [h13, if_false, if_true] at h
      cases h
    | case5 c t h13 h10 l ls' ht ih =>
      rw [readLines_cons _ h13 h10, ht] at h
      cases h
      obtain ⟨rfl, hc⟩ := ih ht
      have hl := hc l (by simp)
      refine ⟨by simp [writeLines_cons], fun m hm => ?_⟩
      rcases List.mem_cons.mp hm with rfl | hm
      · exact ⟨by simp [hl.1, Ne.symm h13], by simp [hl.2, Ne.symm h10]⟩
      · exact hc m (by simp [hm])
    | case6 c t h13 h10 hne ih =>
      rw [readLines_cons _ h13 h10] at h
      split at h
      · rename_i l ls' ht
        exact absurd ht (hne l ls')
      · cases h
  · rintro ⟨rfl, h⟩
    exact readLines_writeLines ls h

theorem count_writeLines {c : UInt8} (hc : c = 13 ∨ c = 10) : ∀ ls : List (List UInt8),
    (writeLines ls).count c = ls.length + ls.flatten.count c
  | [] => rfl
  | l :: ls => by
    rw [writeLines_cons, List.count_append, List.flatten_cons, List.count_append, List.length_cons]
    have h := count_writeLines hc ls
    rcases hc with rfl | rfl
    · rw [List.count_cons_self, List.count_cons_of_ne (by decide), h]
      omega
    · rw [List.count_cons_of_ne (by decide), List.count_cons_self, h]
      omega

/-- **Texts that write the same bytes** as as many clean lines are those lines. -/
theorem lines_unique {ls ls' : List (List UInt8)} (hw : writeLines ls = writeLines ls')
    (hc : ∀ l ∈ ls', Clean l) (hlen : ls.length = ls'.length) : ls = ls' := by
  -- every CR and LF of the bytes ends one of the clean lines, so none is left inside a text
  have hfree : ∀ c : UInt8, c = 13 ∨ c = 10 → ∀ l ∈ ls, c ∉ l := by
    intro c h
    have hls' : ls'.flatten.count c = 0 := by
      rw [List.count_eq_zero, List.mem_flatten]
      rintro ⟨l, hl, hcl⟩
      rcases h with rfl | rfl
      · exact (hc l hl).1 hcl
      · exact (hc l hl).2 hcl
    have h₁ := count_writeLines h ls
    have h₂ := count_writeLines h ls'
    rw [hw] at h₁
    have hls : ls.flatten.count c = 0 := by omega
    intro l hl hcl
    exact List.count_eq_zero.mp hls (List.mem_flatten.mpr ⟨l, hl, hcl⟩)
  have hcl : ∀ l ∈ ls, Clean l := fun l hl => ⟨hfree 13 (by simp) l hl, hfree 10 (by simp) l hl⟩
  have h₁ := readLines_writeLines ls hcl
  rw [hw, readLines_writeLines ls' hc] at h₁
  exact (Option.some.inj h₁).symm

/-! ## Heads -/

structure RequestHead where
  method : List UInt8
  target : List UInt8
  version : List UInt8
  fields : List (List UInt8 × List UInt8)
  deriving DecidableEq

/-- Neither a line end nor a space: what a request line can hold as one of its parts. -/
def Plain (l : List UInt8) : Prop := Clean l ∧ 32 ∉ l

instance (l : List UInt8) : Decidable (Plain l) := inferInstanceAs (Decidable (_ ∧ _))

/-- Method, target and version, with one space between them. -/
def requestLine (l : List UInt8) : Option (List UInt8 × List UInt8 × List UInt8) :=
  match l.splitOn 32 with
  | [method, target, version] => some (method, target, version)
  | _ => none

/-- Strip optional white space on both sides. -/
def trimOWS (v : List UInt8) : List UInt8 :=
  let ows : UInt8 → Bool := fun c => c == 32 || c == 9
  ((v.dropWhile ows).reverse.dropWhile ows).reverse

/-- The name before the first colon and the value after it. -/
def fieldLine (l : List UInt8) : Option (List UInt8 × List UInt8) :=
  let name := l.takeWhile (· != 58)
  match l.dropWhile (· != 58) with
  | [] => none
  | _ :: value =>
    if name.isEmpty || name.contains 32 || name.contains 9 then none else some (name, trimOWS value)

namespace RequestHead

def parse (b : List UInt8) : Option RequestHead :=
  match readLines b with
  | some (first :: rest) =>
    -- the empty line comes last: no field line is empty, and nothing follows it
    if rest.getLast? = some [] then
      match requestLine first, rest.dropLast.mapM fieldLine with
      | some (method, target, version), some fields => some ⟨method, target, version, fields⟩
      | _, _ => none
    else none
  | _ => none

/-- The bytes of a head with the given field lines. -/
def write (method target version : List UInt8) (ls : List (List UInt8)) : List UInt8 :=
  writeLines ((method ++ 32 :: (target ++ 32 :: version)) :: (ls ++ [[]]))

end RequestHead

/-! ## Reading back what was written -/

theorem mapM_eq_some_length {α β : Type} {f : α → Option β} : ∀ {ls : List α} {fs : List β},
    ls.mapM f = some fs → fs.length = ls.length
  | [], fs, h => by
    cases h
    rfl
  | l :: ls, fs, h => by
    rw [List.mapM_cons] at h
    obtain ⟨b, -, h⟩ := Option.bind_eq_some_iff.mp h
    obtain ⟨bs, hbs, h⟩ := Option.bind_eq_some_iff.mp h
    cases h
    rw [List.length_cons, List.length_cons, mapM_eq_some_length hbs]

theorem exists_mapM_eq_some {α β : Type} {f : α → Option β} : ∀ {ls : List α},
    (∃ fs, ls.mapM f = some fs) ↔ ∀ l ∈ ls, (f l).isSome = true
  | [] => by simp
  | l :: ls => by
    rw [List.forall_mem_cons, ← exists_mapM_eq_some, List.mapM_cons]
    constructor
    · rintro ⟨fs, h⟩
      obtain ⟨b, hb, h⟩ := Option.bind_eq_some_iff.mp h
      obtain ⟨bs, hbs, -⟩ := Option.bind_eq_some_iff.mp h
      exact ⟨by rw [hb]; rfl, bs, hbs⟩
    · rintro ⟨hl, bs, hbs⟩
      obtain ⟨b, hb⟩ := Option.isSome_iff_exists.mp hl
      exact ⟨b :: bs, by simp [hb, hbs]⟩

/-- A request line reads back exactly when its target has no space. -/
theorem requestLine_write {method target version : List UInt8} (hm : 32 ∉ method)
    (hv : 32 ∉ version) {r : List UInt8 × List UInt8 × List UInt8} :
    requestLine (method ++ 32 :: (target ++ 32 :: version)) = some r ↔
      32 ∉ target ∧ r = (method, target, version) := by
  unfold requestLine
  rw [List.splitOn_append_cons_self, List.splitOn_append_cons_self, List.splitOn_eq_singleton hm,
    List.splitOn_eq_singleton hv]
  by_cases ht : 32 ∈ target
  · obtain ⟨a, b, rfl⟩ := List.append_of_mem ht
    rw [List.splitOn_append_cons_self]
    -- the target alone falls into two parts or more
    obtain ⟨x, xs, hx⟩ := List.exists_cons_of_ne_nil (List.splitOnP_ne_nil (· == 32) a)
    obtain ⟨y, ys, hy⟩ := List.exists_cons_of_ne_nil (List.splitOnP_ne_nil (· == 32) b)
    rw [show a.splitOn 32 = x :: xs from hx, show b.splitOn 32 = y :: ys from hy]
    cases xs <;> simp
  · rw [List.splitOn_eq_singleton ht]
    simp [ht, eq_comm]

namespace RequestHead

variable {method version : List UInt8}

/-- The empty line at the end of a head is clean. -/
theorem clean_closed {first : List UInt8} {ls : List (List UInt8)}
    (hc : ∀ l ∈ first :: ls, Clean l) : ∀ l ∈ first :: (ls ++ [[]]), Clean l := by
  intro l hl
  rw [← List.cons_append, List.mem_append] at hl
  rcases hl with hl | hl
  · exact hc l hl
  · rw [List.mem_singleton.mp hl]
    exact ⟨by simp, by simp⟩

theorem parse_eq_some {b : List UInt8} {h : RequestHead} : parse b = some h ↔
    ∃ first ls, b = writeLines (first :: (ls ++ [[]])) ∧ (∀ l ∈ first :: ls, Clean l) ∧
      requestLine first = some (h.method, h.target, h.version) ∧
      ls.mapM fieldLine = some h.fields := by
  constructor
  · intro hp
    unfold parse at hp
    split at hp
    · rename_i first rest hr
      obtain ⟨rfl, hc⟩ := readLines_eq_some.mp hr
      split_ifs at hp with hlast
      have hrest := List.dropLast_append_getLast? [] hlast
      split at hp
      · rename_i m t v fs hreq hfs
        cases hp
        refine ⟨first, rest.dropLast, by rw [hrest], fun l hl => hc l ?_, hreq, hfs⟩
        rcases List.mem_cons.mp hl with rfl | hl
        · exact List.mem_cons_self
        · exact List.mem_cons_of_mem _ (List.dropLast_subset _ hl)
      · cases hp
    · cases hp
  · rintro ⟨first, ls, rfl, hc, hreq, hfs⟩
    have hr := readLines_writeLines _ (clean_closed hc)
    unfold parse
    rw [hr]
    simp only [List.getLast?_concat, if_true, List.dropLast_concat, hreq, hfs]

/-- **Reading back**: a written head is read as itself, with as many fields as it has lines,
exactly when the target holds no space and nothing holds a CR or LF. -/
theorem parse_write_iff (target : List UInt8) (ls : List (List UInt8)) (hm : Plain method)
    (hv : Plain version) :
    (∃ fs, ls.mapM fieldLine = some fs ∧
      parse (write method target version ls) = some ⟨method, target, version, fs⟩) ↔
    Plain target ∧ ∀ l ∈ ls, Clean l ∧ (fieldLine l).isSome = true := by
  constructor
  · rintro ⟨fs, hfs, hp⟩
    obtain ⟨first, ls', hb, hc, hreq, hfs'⟩ := parse_eq_some.mp hp
    have hlen : ls.length = ls'.length :=
      (mapM_eq_some_length hfs).symm.trans (mapM_eq_some_length hfs')
    have heq := lines_unique hb (clean_closed hc) (by simp [hlen])
    obtain ⟨rfl, hls⟩ := List.cons_eq_cons.mp heq
    obtain rfl := List.append_cancel_right hls
    have hfirst := hc _ List.mem_cons_self
    have htarget : Clean target :=
      (clean_append.mp ((clean_append (a := [32])).mp (clean_append.mp hfirst).2).2).1
    refine ⟨⟨htarget, ((requestLine_write hm.2 hv.2).mp hreq).1⟩, fun l hl => ?_⟩
    exact ⟨hc l (List.mem_cons_of_mem _ hl), exists_mapM_eq_some.mp ⟨fs, hfs⟩ l hl⟩
  · rintro ⟨ht, hls⟩
    obtain ⟨fs, hfs⟩ := exists_mapM_eq_some.mpr fun l hl => (hls l hl).2
    refine ⟨fs, hfs, parse_eq_some.mpr ⟨_, ls, rfl, fun l hl => ?_, ?_, hfs⟩⟩
    · rcases List.mem_cons.mp hl with rfl | hl
      · have hsp : Clean [32] := by decide
        exact clean_append.mpr ⟨hm.1, clean_append (a := [32]).mpr
          ⟨hsp, clean_append.mpr ⟨ht.1, clean_append (a := [32]).mpr ⟨hsp, hv.1⟩⟩⟩⟩
      · exact (hls l hl).1
    · exact (requestLine_write hm.2 hv.2).mpr ⟨ht.2, rfl⟩

end RequestHead

end TamagoUefi.Lib
