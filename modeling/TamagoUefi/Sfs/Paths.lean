import TamagoUefi.Sfs.Names

/-!
# TamagoUefi.Sfs.Paths — where a joined path can lead (`sfs_publish_handlers.go`)

`sfsJoinPath` splits both of its paths, pushes the components on a stack and joins the stack again.
For a path that it returned the two ends meet: the components of such a path are the stack that it was
joined from (`components_render`).  A join is then a walk of the stack (`sfsJoinPath_render`), and a
walk along two names is one walk along both (`walk_append`).
-/

namespace TamagoUefi.Sfs

open Go Lib

/-- Both slashes separate the components of a name. -/
def isSeparator (c : UInt8) : Bool := c = 0x2F || c = 0x5C

def isRooted (name : Bytes) : Bool := name.head?.any isSeparator

/-- What is between the separators of a name. -/
def pieces (name : Bytes) : List Bytes := name.splitOnP isSeparator

/-- What is between the slashes of an absolute path; the root has nothing there. -/
def components (path : Bytes) : List Bytes :=
  if path = str "/" then [] else split (path.drop 1) (str "/")

/-- A component that is neither empty nor a dot name, nor has a separator in it. -/
structure IsName (c : Bytes) : Prop where
  nonempty : c ≠ []
  not_dot : c ≠ str "."
  not_dotdot : c ≠ str ".."
  no_slash : 0x2F ∉ c
  no_backslash : 0x5C ∉ c

/-- The paths that `sfsJoinPath` returns, from the root on. -/
inductive Reached : Bytes → Prop
  | root : Reached (str "/")
  | join {cur : Bytes} (name : Bytes) : Reached cur → Reached (sfsJoinPath cur name)

/-! ## Pieces -/

/-- Turning the backslashes first makes no difference to the pieces. -/
theorem split_slashed (name : Bytes) :
    split (name.map fun c => if c = 0x5C then 0x2F else c) (str "/") = pieces name := by
  show split _ [0x2F] = _
  rw [split_byte, pieces]
  induction name with
  | nil => rfl
  | cons c t ih =>
    rw [List.map_cons, List.splitOn_cons_eq_if_modifyHead, List.splitOnP_cons_eq_if_modifyHead, ih]
    by_cases hb : c = 0x5C
    · rw [if_pos hb, hb]
      rfl
    · by_cases hs : c = 0x2F
      · rw [if_neg hb, hs]
        rfl
      · rw [if_neg hb, if_neg (by simpa using hs), if_neg (by simp [isSeparator, hs, hb])]

theorem hasPrefix_slashed (name : Bytes) :
    hasPrefix (name.map fun c => if c = 0x5C then 0x2F else c) (str "/") = isRooted name := by
  cases name with
  | nil => rfl
  | cons c t =>
    show (0x2F == (if c = 0x5C then 0x2F else c) && true) = isSeparator c
    rw [Bool.and_true, isSeparator]
    by_cases hb : c = 0x5C
    · rw [if_pos hb, hb]
      rfl
    · rw [if_neg hb]
      by_cases hs : c = 0x2F
      · rw [hs]
        rfl
      · simp [hs, hb, Ne.symm hs]

variable {c : UInt8}

theorem notMem_pieces {name p : Bytes} (hc : isSeparator c = true) (hp : p ∈ pieces name) : c ∉ p := by
  unfold pieces at hp
  induction name generalizing p with
  | nil =>
    rw [List.splitOnP_nil, List.mem_singleton] at hp
    rw [hp]
    exact List.not_mem_nil
  | cons x t ih =>
    rw [List.splitOnP_cons_eq_if_modifyHead] at hp
    obtain ⟨q, qs, hq⟩ := List.exists_cons_of_ne_nil (List.splitOnP_ne_nil isSeparator t)
    rw [hq] at hp ih
    by_cases hx : isSeparator x = true
    · rw [if_pos hx] at hp
      rcases List.mem_cons.mp hp with rfl | hp
      · exact List.not_mem_nil
      · exact ih hp
    · rw [if_neg hx, List.modifyHead_cons] at hp
      rcases List.mem_cons.mp hp with rfl | hp
      · intro hmem
        rcases List.mem_cons.mp hmem with rfl | hmem
        · exact hx hc
        · exact ih (List.mem_cons_self ..) hmem
      · exact ih (List.mem_cons_of_mem q hp)

theorem isRooted_append {a : Bytes} (ha : a ≠ []) (b : Bytes) : isRooted (a ++ b) = isRooted a := by
  obtain ⟨c, t, rfl⟩ := List.exists_cons_of_ne_nil ha
  rfl

/-! ## The stack -/

theorem pushComponents_append (stack : List Bytes) : ∀ a b : List Bytes,
    pushComponents stack (a ++ b) = pushComponents (pushComponents stack a) b
  | [], b => rfl
  | p :: ps, b => by
    rw [List.cons_append, pushComponents, pushComponents]
    split_ifs with hskip hup
    · exact pushComponents_append stack ps b
    · exact pushComponents_append stack.dropLast ps b
    · exact pushComponents_append (stack ++ [p]) ps b

theorem pushComponents_isName : ∀ {stack ps : List Bytes}, (∀ c ∈ stack, IsName c) →
    (∀ p ∈ ps, 0x2F ∉ p ∧ 0x5C ∉ p) → ∀ c ∈ pushComponents stack ps, IsName c
  | stack, [], hstack, _ => hstack
  | stack, p :: ps, hstack, hps => by
    have hrest : ∀ q ∈ ps, 0x2F ∉ q ∧ 0x5C ∉ q := fun q hq => hps q (List.mem_cons_of_mem p hq)
    rw [pushComponents]
    split_ifs with hskip hup
    · exact pushComponents_isName hstack hrest
    · exact pushComponents_isName (fun c hc => hstack c (List.dropLast_subset stack hc)) hrest
    · refine pushComponents_isName ?_ hrest
      intro c hc
      rcases List.mem_append.mp hc with hc | hc
      · exact hstack c hc
      · obtain rfl := List.mem_singleton.mp hc
        obtain ⟨hslash, hback⟩ := hps c (List.mem_cons_self ..)
        exact ⟨fun h => hskip (.inl h), fun h => hskip (.inr h), hup, hslash, hback⟩

/-- An empty piece pushes nothing. -/
theorem length_pushComponents_le : ∀ stack ps : List Bytes,
    (pushComponents stack ps).length ≤ stack.length + (ps.filter (· ≠ [])).length
  | stack, [] => Nat.le_add_right _ _
  | stack, p :: ps => by
    have hrest : (ps.filter (· ≠ [])).length ≤ ((p :: ps).filter (· ≠ [])).length :=
      ((List.sublist_cons_self p ps).filter _).length_le
    rw [pushComponents]
    split_ifs with hskip hup
    · have ih := length_pushComponents_le stack ps
      omega
    · have ih := length_pushComponents_le stack.dropLast ps
      rw [List.length_dropLast] at ih
      omega
    · have ih := length_pushComponents_le (stack ++ [p]) ps
      have hp : p ≠ [] := fun h => hskip (.inl h)
      rw [List.length_append, List.length_singleton] at ih
      rw [List.filter_cons_of_pos (by simpa using hp), List.length_cons]
      omega

/-! ## Walking -/

/-- The absolute path of a stack. -/
def render (stack : List Bytes) : Bytes := 0x2F :: [0x2F].intercalate stack

/-- Where a name leads from a directory, both as stacks. -/
def walk (stack : List Bytes) (name : Bytes) : List Bytes :=
  pushComponents (if isRooted name then [] else stack) (pieces name)

variable {stack : List Bytes}

theorem walk_isName (h : ∀ c ∈ stack, IsName c) (name : Bytes) : ∀ c ∈ walk stack name, IsName c := by
  refine pushComponents_isName ?_ ?_
  · intro c hc
    split_ifs at hc with hroot
    · exact absurd hc List.not_mem_nil
    · exact h c hc
  · intro p hp
    exact ⟨notMem_pieces (by decide) hp, notMem_pieces (by decide) hp⟩

theorem length_walk_le (stack : List Bytes) (name : Bytes) :
    (walk stack name).length ≤ stack.length + ((pieces name).filter (· ≠ [])).length := by
  refine (length_pushComponents_le _ _).trans (Nat.add_le_add_right ?_ _)
  split_ifs with hroot
  · exact Nat.zero_le _
  · exact le_rfl

theorem walk_of_isRooted {name : Bytes} (h : isRooted name = true) (stack : List Bytes) :
    walk stack name = walk [] name := by
  rw [walk, walk, if_pos h, if_pos h]

theorem walk_dot (stack : List Bytes) : walk stack (str ".") = stack := rfl

theorem walk_append {a b : Bytes} (ha : a ≠ []) (hb : isRooted b = false) (hc : isSeparator c = true)
    (stack : List Bytes) : walk stack (a ++ c :: b) = walk (walk stack a) b := by
  have hwalk : walk (walk stack a) b = pushComponents (walk stack a) (pieces b) := by
    rw [walk, hb]
    rfl
  rw [hwalk, walk, isRooted_append ha, pieces, List.splitOnP_append_cons a b hc, pushComponents_append]
  rfl

theorem render_eq_root (h : ∀ c ∈ stack, IsName c) : render stack = str "/" ↔ stack = [] := by
  constructor
  · intro hroot
    rcases stack with _ | ⟨c, cs⟩
    · rfl
    · have hnil : [0x2F].intercalate (c :: cs) = [] := List.tail_eq_of_cons_eq hroot
      have hsplit := List.splitOn_intercalate 0x2F (fun l hl => (h l hl).no_slash)
        (List.cons_ne_nil c cs)
      rw [hnil, List.splitOn_nil] at hsplit
      exact absurd (List.head_eq_of_cons_eq hsplit).symm (h c (List.mem_cons_self ..)).nonempty
  · rintro rfl
    rfl

theorem components_render (h : ∀ c ∈ stack, IsName c) : components (render stack) = stack := by
  unfold components
  by_cases hnil : stack = []
  · rw [if_pos ((render_eq_root h).mpr hnil), hnil]
  · rw [if_neg (mt (render_eq_root h).mp hnil)]
    show split ([0x2F].intercalate stack) [0x2F] = stack
    rw [split_byte]
    exact List.splitOn_intercalate 0x2F (fun l hl => (h l hl).no_slash) hnil

/-- The seed of the stack is the stack that the current path was joined from. -/
theorem seed_render (h : ∀ c ∈ stack, IsName c) :
    (split (trimPrefix (render stack) (str "/")) (str "/")).filter (· ≠ []) = stack := by
  show (split ([0x2F].intercalate stack) [0x2F]).filter (· ≠ []) = stack
  rw [split_byte]
  by_cases hnil : stack = []
  · rw [hnil]
    rfl
  · rw [List.splitOn_intercalate 0x2F (fun l hl => (h l hl).no_slash) hnil, List.filter_eq_self]
    exact fun c hc => decide_eq_true (h c hc).nonempty

theorem sfsJoinPath_eq_render (cur name : Bytes) :
    sfsJoinPath cur name =
      render (walk ((split (trimPrefix cur (str "/")) (str "/")).filter (· ≠ [])) name) := by
  unfold sfsJoinPath
  dsimp only
  rw [split_slashed, hasPrefix_slashed, ← walk]
  split_ifs with hnil
  · rw [hnil]
    rfl
  · rfl

theorem sfsJoinPath_render (h : ∀ c ∈ stack, IsName c) (name : Bytes) :
    sfsJoinPath (render stack) name = render (walk stack name) := by
  rw [sfsJoinPath_eq_render, seed_render h]

theorem Reached.render {cur : Bytes} (h : Reached cur) :
    ∃ stack, (∀ c ∈ stack, IsName c) ∧ cur = Sfs.render stack := by
  induction h with
  | root => exact ⟨[], nofun, rfl⟩
  | join name _ ih =>
    obtain ⟨stack, hstack, rfl⟩ := ih
    exact ⟨walk stack name, walk_isName hstack name, sfsJoinPath_render hstack name⟩

theorem notMem_intercalate {x y : UInt8} (hxy : y ≠ x) : ∀ {stack : List Bytes},
    (∀ c ∈ stack, y ∉ c) → y ∉ [x].intercalate stack
  | [], _ => List.not_mem_nil
  | [c], h => by
    rw [List.intercalate_singleton]
    exact h c (List.mem_singleton_self c)
  | c :: d :: cs, h => by
    have hrest : y ∉ [x].intercalate (d :: cs) :=
      notMem_intercalate hxy fun e he => h e (List.mem_cons_of_mem c he)
    rw [List.intercalate_cons_cons, List.append_assoc, List.singleton_append]
    intro hmem
    rcases List.mem_append.mp hmem with hmem | hmem
    · exact h c (List.mem_cons_self ..) hmem
    · rcases List.mem_cons.mp hmem with heq | hmem
      · exact hxy heq
      · exact hrest hmem

theorem no_backslash_render (h : ∀ c ∈ stack, IsName c) : 0x5C ∉ render stack := by
  intro hmem
  rcases List.mem_cons.mp hmem with hroot | hmem
  · exact absurd hroot (by decide)
  · exact notMem_intercalate (by decide) (fun c hc => (h c hc).no_backslash) hmem

/-! ## The laws -/

/-- A joined path is absolute and clean, no deeper than its two parts, and joining is a walk: a name
that begins with a separator forgets where it started, and two names are walked one after the other. -/
theorem sfsJoinPath_laws {cur : Bytes} (hcur : Reached cur) {a : Bytes} (ha : a ≠ []) (b : Bytes) :
    hasPrefix (sfsJoinPath cur a) (str "/") = true ∧
    (∀ c ∈ components (sfsJoinPath cur a), c ≠ [] ∧ c ≠ str "." ∧ c ≠ str "..") ∧
    0x5C ∉ sfsJoinPath cur a ∧
    (components (sfsJoinPath cur a)).length ≤
      (components cur).length + ((pieces a).filter (· ≠ [])).length ∧
    sfsJoinPath (sfsJoinPath cur a) (str ".") = sfsJoinPath cur a ∧
    (isRooted a = true → ∀ cur', sfsJoinPath cur' a = sfsJoinPath cur a) ∧
    (isRooted b = false → ∀ c, isSeparator c = true →
      sfsJoinPath (sfsJoinPath cur a) b = sfsJoinPath cur (a ++ c :: b)) := by
  obtain ⟨stack, hstack, rfl⟩ := hcur.render
  have hwalk := walk_isName hstack a
  rw [sfsJoinPath_render hstack, sfsJoinPath_render hwalk, components_render hwalk,
    components_render hstack, walk_dot]
  refine ⟨rfl, ?_, no_backslash_render hwalk, length_walk_le stack a, rfl, ?_, ?_⟩
  · intro c hc
    exact ⟨(hwalk c hc).nonempty, (hwalk c hc).not_dot, (hwalk c hc).not_dotdot⟩
  · intro hroot cur'
    rw [sfsJoinPath_eq_render, walk_of_isRooted hroot, walk_of_isRooted hroot stack]
  · intro hb c hc
    rw [sfsJoinPath_render hwalk, sfsJoinPath_render hstack, walk_append ha hb hc]

theorem sfsJoinPath_laws_climb :
    Reached (sfsJoinPath (str "/") (str "boot")) ∧
    sfsJoinPath (sfsJoinPath (sfsJoinPath (str "/") (str "boot")) (str "..\\..\\efi")) (str "x/./y") =
      sfsJoinPath (sfsJoinPath (str "/") (str "boot")) (str "..\\..\\efi" ++ 0x5C :: str "x/./y") := by
  have hcur : Reached (sfsJoinPath (str "/") (str "boot")) := Reached.join (str "boot") Reached.root
  obtain ⟨-, -, -, -, -, -, h⟩ :=
    sfsJoinPath_laws hcur (a := str "..\\..\\efi") (by decide) (str "x/./y")
  exact ⟨hcur, h (by decide) 0x5C (by decide)⟩

end TamagoUefi.Sfs
