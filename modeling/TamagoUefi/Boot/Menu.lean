import TamagoUefi.Go.Strings
import TamagoUefi.Lib.Run

/-!
# TamagoUefi.Boot.Menu — the boot menu

`bootmenu.Parse` and the loop that shows the menu, polls the console and dispatches an entry
(`uefiboard/bootmenu/bootmenu.go`, `menuLoop` of `phase2_dhcp_oci_menu.go`).

* `parse` is the checks of `Parse` over the HCL library, which is the parameter `Hcl`.
* `Menu.step` is one round of the loop: what a poll of the console and the clock after it do to the
  selection, the arming flag and the deadline.  A run is the fold of its rounds (`Lib.Run`).
* `running_inv` says which state a loop that still runs is in, `Loop.round_dispatched` and
  `Loop.round_silent` when a round ends it.
* `MenuMeets` is what the menu promises.  Two rounds break it: an error other than `ErrNoKey` and
  `ErrNoConIn` is never measured against the deadline, and the deadline itself is a product in
  `int64` that wraps.  `menuMeets_iff` says which runs that leaves.

Instants are nanoseconds.  What the renderer prints and what `bootEntry` goes on to do
(`Boot.Handoff`) are left out.
-/

namespace TamagoUefi.Boot

open Go Lib

/-! ## The configuration -/

structure Entry where
  label : Bytes
  kernelRef : Bytes
  initrdRef : Bytes
  cmdline : Bytes
  deriving DecidableEq

structure BootConfig where
  title : Bytes
  timeout : Int64
  default : Bytes
  entries : List Entry
  deriving DecidableEq

inductive ParseErr
  | emptyInput
  /-- `bootmenu: HCL syntax error: %s`. -/
  | badSyntax (diags : Bytes)
  /-- `bootmenu: HCL decode error: %s`. -/
  | badBody (diags : Bytes)
  | noEntries
  /-- `bootmenu: duplicate entry label: %q`. -/
  | duplicateLabel (label : Bytes)
  /-- `bootmenu: default does not match any entry label: default=%q`. -/
  | defaultNotFound (default : Bytes)
  deriving DecidableEq

/-- The HCL library: `ParseHCL`, and `DecodeBody` into a `BootConfig`. -/
structure Hcl (Body : Type) where
  parseHCL : Bytes → Except Bytes Body
  decodeBody : Body → Except Bytes BootConfig

/-- The loop of `Parse` over the entries; the result is the set of labels seen. -/
def seenLabels : List Bytes → List Entry → Except ParseErr (List Bytes)
  | seen, [] => .ok seen
  | seen, e :: es =>
    if e.label ∈ seen then .error (.duplicateLabel e.label) else seenLabels (e.label :: seen) es

/-- What `Parse` checks of a decoded configuration. -/
def checkConfig (cfg : BootConfig) : Except ParseErr BootConfig :=
  if cfg.entries = [] then .error .noEntries
  else match seenLabels [] cfg.entries with
    | .error e => .error e
    | .ok seen =>
      if cfg.default ≠ [] ∧ cfg.default ∉ seen then .error (.defaultNotFound cfg.default)
      else .ok cfg

def parse {Body : Type} (hcl : Hcl Body) (hclBytes : Bytes) : Except ParseErr BootConfig :=
  if hclBytes = [] then .error .emptyInput
  else match hcl.parseHCL hclBytes with
    | .error d => .error (.badSyntax d)
    | .ok body => match hcl.decodeBody body with
      | .error d => .error (.badBody d)
      | .ok cfg => checkConfig cfg

/-- What `Parse` has checked of a configuration it returns. -/
structure BootConfig.Checked (cfg : BootConfig) : Prop where
  entries_ne : cfg.entries ≠ []
  labels_nodup : (cfg.entries.map Entry.label).Nodup
  default_found : cfg.default ≠ [] → cfg.default ∈ cfg.entries.map Entry.label

theorem seenLabels_ok : ∀ {es : List Entry} {seen seen' : List Bytes},
    seenLabels seen es = .ok seen' →
      (es.map Entry.label).Nodup ∧ (∀ l ∈ es.map Entry.label, l ∉ seen) ∧
        ∀ l, l ∈ seen' ↔ l ∈ seen ∨ l ∈ es.map Entry.label
  | [], seen, seen', h => by
    obtain rfl : seen = seen' := Except.ok.inj h
    simp
  | e :: es, seen, seen', h => by
    rw [seenLabels] at h
    split_ifs at h with hdup
    obtain ⟨hnodup, hnew, hmem⟩ := seenLabels_ok h
    have he : e.label ∉ es.map Entry.label := fun hl => hnew _ hl List.mem_cons_self
    refine ⟨List.nodup_cons.mpr ⟨he, hnodup⟩, ?_, ?_⟩
    · intro l hl
      rcases List.mem_cons.mp hl with rfl | hl
      · exact hdup
      · exact fun hs => hnew l hl (List.mem_cons_of_mem _ hs)
    · intro l
      rw [hmem l, List.mem_cons, List.map_cons, List.mem_cons]
      tauto

theorem checkConfig_ok {cfg cfg' : BootConfig} (h : checkConfig cfg = .ok cfg') :
    cfg' = cfg ∧ cfg.Checked := by
  rw [checkConfig] at h
  split_ifs at h with hes
  split at h
  · cases h
  next seen hseen =>
    split_ifs at h with hdef
    obtain ⟨hnodup, -, hmem⟩ := seenLabels_ok hseen
    refine ⟨(Except.ok.inj h).symm, hes, hnodup, ?_⟩
    intro hne
    have hin : cfg.default ∈ seen := not_not.mp fun hn => hdef ⟨hne, hn⟩
    simpa using (hmem cfg.default).mp hin

theorem parse_ok {Body : Type} {hcl : Hcl Body} {src : Bytes} {cfg : BootConfig}
    (h : parse hcl src = .ok cfg) : cfg.Checked := by
  rw [parse] at h
  split_ifs at h with hsrc
  split at h
  · cases h
  · split at h
    · cases h
    · obtain ⟨rfl, hchecked⟩ := checkConfig_ok h
      exact hchecked

def indexOfDefault (cfg : BootConfig) : ℕ :=
  if cfg.default = [] then 0
  else (cfg.entries.findIdx? fun e => e.label = cfg.default).getD 0

/-- The entry the menu starts on is the default entry where there is one. -/
theorem BootConfig.Checked.default_entry {cfg : BootConfig} (h : cfg.Checked) (hdef : cfg.default ≠ []) :
    ∃ e, cfg.entries[indexOfDefault cfg]? = some e ∧ e.label = cfg.default := by
  obtain ⟨e, he, hlabel⟩ := List.mem_map.mp (h.default_found hdef)
  have hsome : (cfg.entries.findIdx? fun e => e.label = cfg.default).isSome := by
    rw [List.findIdx?_isSome, List.any_eq_true]
    exact ⟨e, he, decide_eq_true hlabel⟩
  obtain ⟨i, hi⟩ := Option.isSome_iff_exists.mp hsome
  obtain ⟨hlt, hp, -⟩ := List.findIdx?_eq_some_iff_getElem.mp hi
  refine ⟨cfg.entries[i], ?_, of_decide_eq_true hp⟩
  rw [indexOfDefault, if_neg hdef, hi]
  exact List.getElem?_eq_getElem hlt

theorem BootConfig.Checked.indexOfDefault_lt {cfg : BootConfig} (h : cfg.Checked) :
    indexOfDefault cfg < cfg.entries.length := by
  by_cases hdef : cfg.default = []
  · rw [indexOfDefault, if_pos hdef]
    exact List.length_pos_of_ne_nil h.entries_ne
  · obtain ⟨e, he, -⟩ := h.default_entry hdef
    exact (List.getElem?_eq_some_iff.mp he).1

/-! ## The loop -/

structure Keystroke where
  scanCode : UInt16
  unicodeChar : UInt16
  deriving DecidableEq

def scanCodeUp : UInt16 := 0x01
def scanCodeDown : UInt16 := 0x02
def scanCodeHome : UInt16 := 0x05
def scanCodeEnd : UInt16 := 0x06
def scanCodeESC : UInt16 := 0x17
def unicodeCharEnter : UInt16 := 0x000D

/-- What the switch of the loop takes a key for. -/
inductive Press
  | up | down | home | last | enter | esc | ignored
  deriving DecidableEq

/-- The cases of the switch in their order: the four movements come before Enter. -/
def Keystroke.press (k : Keystroke) : Press :=
  if k.scanCode = scanCodeUp then .up
  else if k.scanCode = scanCodeDown then .down
  else if k.scanCode = scanCodeHome then .home
  else if k.scanCode = scanCodeEnd then .last
  else if k.unicodeChar = unicodeCharEnter then .enter
  else if k.scanCode = scanCodeESC then .esc
  else .ignored

/-- What `ReadKeyNonblocking` returns. -/
inductive Poll
  | key (k : Keystroke)
  | noKey
  | noConIn
  /-- `ErrNoBootServices`, or the `EFIError` of any other status. -/
  | otherErr
  deriving DecidableEq

/-- A round of the loop: the clock when the menu is shown, the poll, and the clock after it. -/
structure Round where
  shown : ℤ
  poll : Poll
  now : ℤ
  deriving DecidableEq

structure Loop where
  selected : ℕ
  autoBootArmed : Bool
  deadline : ℤ
  deriving DecidableEq

open Loop

inductive Menu
  | running (l : Loop)
  /-- `bootEntry` was called; the loop returns the label and `true`. -/
  | dispatched (e : Entry)
  /-- The loop returned `"", false`. -/
  | halted
  /-- The index into the entries was out of range. -/
  | panicked
  deriving DecidableEq

/-- `time.Second`. -/
def second : ℤ := 1000000000

/-- `time.Duration(cfg.Timeout) * time.Second`, a product in `int64`. -/
def BootConfig.duration (cfg : BootConfig) : Int64 := cfg.timeout * 1000000000

def BootConfig.armed (cfg : BootConfig) : Bool := 0 < cfg.timeout.toInt && cfg.default != []

/-- `menuLoop` up to its loop, entered at the instant `start`. -/
def menuLoop (cfg : BootConfig) (startSelected : ℕ) (start : ℤ) : Menu :=
  if cfg.entries = [] then .halted
  else .running {
    selected := if cfg.entries.length ≤ startSelected then 0 else startSelected
    autoBootArmed := cfg.armed
    deadline := if cfg.armed then start + cfg.duration.toInt else start }

def dispatch (cfg : BootConfig) (selected : ℕ) : Menu :=
  match cfg.entries[selected]? with
  | some e => .dispatched e
  | none => .panicked

/-- The switch, for a loop that the key has disarmed. -/
def Loop.press (cfg : BootConfig) (l : Loop) : Press → Menu
  | .up => .running (if 0 < l.selected then { l with selected := l.selected - 1 } else l)
  | .down => .running
      (if l.selected < cfg.entries.length - 1 then { l with selected := l.selected + 1 } else l)
  | .home => .running { l with selected := 0 }
  | .last => .running { l with selected := cfg.entries.length - 1 }
  | .enter => dispatch cfg l.selected
  | .esc => .halted
  | .ignored => .running l

def Loop.round (cfg : BootConfig) (l : Loop) (r : Round) : Menu :=
  match r.poll with
  | .noKey | .noConIn =>
    if l.autoBootArmed ∧ l.deadline < r.now then dispatch cfg l.selected else .running l
  | .otherErr => .running l
  | .key k => { l with autoBootArmed := false }.press cfg k.press

/-- One round of a menu; one that has ended stays as it is. -/
def Menu.step (cfg : BootConfig) : Menu → Round → Menu
  | .running l, r => l.round cfg r
  | m, _ => m

/-- The menu as `runDHCPOCIMenuProbe` starts it, after these rounds. -/
def menuRun (cfg : BootConfig) (start : ℤ) (rounds : List Round) : Menu :=
  runFrom (Menu.step cfg) (menuLoop cfg (indexOfDefault cfg) start) rounds

/-- The clock never goes back. -/
def Clock : ℤ → List Round → Prop
  | _, [] => True
  | t, r :: rs => t ≤ r.shown ∧ r.shown ≤ r.now ∧ Clock r.now rs

/-! ## What the menu promises -/

def Round.key? (r : Round) : Option Keystroke :=
  match r.poll with
  | .key k => some k
  | _ => none

/-- One key, with clamping. -/
def moved (n i : ℕ) : Press → ℕ
  | .up => i - 1
  | .down => min (i + 1) (n - 1)
  | .home => 0
  | .last => n - 1
  | _ => i

/-- The entry that the keys of these rounds lead to. -/
def selection (cfg : BootConfig) (rounds : List Round) : ℕ :=
  (rounds.filterMap Round.key?).foldl (fun i k => moved cfg.entries.length i k.press)
    (indexOfDefault cfg)

def KeyFree (rounds : List Round) : Prop := ∀ r ∈ rounds, r.key? = none

def Round.isEnter (r : Round) : Prop := ∃ k, r.key? = some k ∧ k.press = .enter

/-- The instant at which `Timeout` seconds have passed. -/
def BootConfig.due (cfg : BootConfig) (start : ℤ) : ℤ := start + cfg.timeout.toInt * second

/-- What the menu promises of the rounds of a run. -/
structure MenuMeets (cfg : BootConfig) (start : ℤ) (rounds : List Round) : Prop where
  valid : ∀ pre, pre <+: rounds → ∀ l, menuRun cfg start pre = .running l →
    l.selected < cfg.entries.length
  enter : ∀ pre r, pre ++ [r] <+: rounds → ∀ l, menuRun cfg start pre = .running l → r.isEnter →
    ∃ e, cfg.entries[selection cfg pre]? = some e ∧
      menuRun cfg start (pre ++ [r]) = .dispatched e
  only_due : ∀ pre r, pre ++ [r] <+: rounds → ∀ l e, menuRun cfg start pre = .running l →
    ¬ r.isEnter → menuRun cfg start (pre ++ [r]) = .dispatched e →
    cfg.default ≠ [] ∧ e ∈ cfg.entries ∧ e.label = cfg.default ∧ 0 < cfg.timeout.toInt ∧
      KeyFree (pre ++ [r]) ∧ cfg.due start ≤ r.now
  once_due : ∀ pre r, pre ++ [r] <+: rounds → ∀ l, menuRun cfg start pre = .running l →
    cfg.default ≠ [] → 0 < cfg.timeout.toInt → KeyFree (pre ++ [r]) → cfg.due start < r.shown →
    ∃ e ∈ cfg.entries, e.label = cfg.default ∧ menuRun cfg start (pre ++ [r]) = .dispatched e

/-! ## One round -/

section
variable {cfg : BootConfig} {l l' : Loop} {r : Round} {e : Entry}

@[simp] theorem dispatch_ne_running {i : ℕ} : dispatch cfg i ≠ .running l := by
  rw [dispatch]
  split <;> nofun

theorem dispatch_of_lt {i : ℕ} (h : i < cfg.entries.length) :
    ∃ e, cfg.entries[i]? = some e ∧ dispatch cfg i = .dispatched e := by
  refine ⟨cfg.entries[i], List.getElem?_eq_getElem h, ?_⟩
  rw [dispatch, List.getElem?_eq_getElem h]

/-- A key that does not end the loop moves the selection, with clamping. -/
theorem Loop.press_running {p : Press} (hl : l.selected < cfg.entries.length)
    (h : l.press cfg p = .running l') :
    l' = { l with selected := moved cfg.entries.length l.selected p } ∧
      l'.selected < cfg.entries.length := by
  obtain ⟨selected, armed, deadline⟩ := l
  rcases p with _ | _ | _ | _ | _ | _ | _
  case up =>
    obtain rfl := Menu.running.inj h
    dsimp only [moved] at hl ⊢
    split_ifs with hpos
    · exact ⟨rfl, by show selected - 1 < _; omega⟩
    · obtain rfl : selected = 0 := by omega
      exact ⟨rfl, hl⟩
  case down =>
    obtain rfl := Menu.running.inj h
    dsimp only [moved] at hl ⊢
    split_ifs with hlt
    · exact ⟨by rw [Nat.min_eq_left (by omega)], by show selected + 1 < _; omega⟩
    · rw [Nat.min_eq_right (by omega)]
      obtain rfl : selected = cfg.entries.length - 1 := by omega
      exact ⟨rfl, hl⟩
  case home =>
    obtain rfl := Menu.running.inj h
    exact ⟨rfl, Nat.zero_lt_of_lt hl⟩
  case last =>
    obtain rfl := Menu.running.inj h
    exact ⟨rfl, Nat.sub_one_lt_of_lt hl⟩
  case enter => exact absurd h dispatch_ne_running
  case esc => cases h
  case ignored =>
    obtain rfl := Menu.running.inj h
    exact ⟨rfl, hl⟩

/-- A loop that goes on is as it was, or a key has disarmed it and moved its selection. -/
theorem Loop.round_running (hl : l.selected < cfg.entries.length) (h : l.round cfg r = .running l') :
    l'.selected < cfg.entries.length ∧
      ((r.key? = none ∧ l' = l) ∨ ∃ k, r.key? = some k ∧
        l' = ⟨moved cfg.entries.length l.selected k.press, false, l.deadline⟩) := by
  obtain ⟨shown, poll, now⟩ := r
  rcases poll with k | _ | _ | _
  case key =>
    obtain ⟨hl', hlt⟩ := press_running (l := { l with autoBootArmed := false }) hl h
    exact ⟨hlt, .inr ⟨k, rfl, hl'⟩⟩
  case otherErr =>
    obtain rfl := Menu.running.inj h
    exact ⟨hl, .inl ⟨rfl, rfl⟩⟩
  all_goals
    simp only [round] at h
    split_ifs at h with hdue
    · exact absurd h dispatch_ne_running
    · obtain rfl := Menu.running.inj h
      exact ⟨hl, .inl ⟨rfl, rfl⟩⟩

def Round.silent (r : Round) : Bool := r.poll = .noKey || r.poll = .noConIn

theorem Round.silent_key (h : r.silent = true) : r.key? = none := by
  obtain ⟨shown, poll, now⟩ := r
  rcases poll with k | _ | _ | _
  case key => cases h
  all_goals rfl

theorem Loop.round_silent (h : r.silent = true) :
    l.round cfg r =
      if l.autoBootArmed ∧ l.deadline < r.now then dispatch cfg l.selected else .running l := by
  obtain ⟨shown, poll, now⟩ := r
  rcases poll with k | _ | _ | _
  case key => cases h
  case otherErr => cases h
  all_goals rfl

/-- A loop is left through a dispatch only by Enter, or by a silent poll after the deadline. -/
theorem Loop.round_dispatched (h : l.round cfg r = .dispatched e) (hr : ¬ r.isEnter) :
    r.silent = true ∧ l.autoBootArmed = true ∧ l.deadline < r.now := by
  obtain ⟨shown, poll, now⟩ := r
  rcases poll with k | _ | _ | _
  case key =>
    -- every case of the switch but Enter goes on or halts
    have hne : k.press ≠ .enter := fun hk => hr ⟨k, rfl, hk⟩
    simp only [round] at h
    generalize k.press = p at h hne
    rcases p with _ | _ | _ | _ | _ | _ | _
    case enter => exact absurd rfl hne
    all_goals cases h
  case otherErr => cases h
  all_goals
    simp only [round] at h
    split_ifs at h with hdue
    exact ⟨rfl, hdue⟩

theorem Loop.round_enter (h : r.isEnter) : l.round cfg r = dispatch cfg l.selected := by
  obtain ⟨shown, poll, now⟩ := r
  obtain ⟨k, hk, hpress⟩ := h
  rcases poll with k' | _ | _ | _
  case key =>
    obtain rfl : k' = k := Option.some.inj hk
    simp only [round, hpress, press]
  all_goals cases hk

/-- A poll that is neither a key nor silent leaves the loop as it is. -/
theorem Loop.round_otherErr (hkey : r.key? = none) (h : r.silent = false) : l.round cfg r = .running l := by
  obtain ⟨shown, poll, now⟩ := r
  rcases poll with k | _ | _ | _
  case key => cases hkey
  case otherErr => rfl
  all_goals cases h

end

/-! ## Whole runs -/

section
variable {cfg : BootConfig} {start : ℤ} {pre rounds : List Round} {r : Round} {l : Loop}

theorem menuRun_concat (pre : List Round) (r : Round) :
    menuRun cfg start (pre ++ [r]) = Menu.step cfg (menuRun cfg start pre) r := by
  rw [menuRun, runFrom_append]
  rfl

theorem menuRun_concat_of_running (h : menuRun cfg start pre = .running l) (r : Round) :
    menuRun cfg start (pre ++ [r]) = l.round cfg r := by
  rw [menuRun_concat, h, Menu.step]

theorem running_of_concat (h : menuRun cfg start (pre ++ [r]) = .running l) :
    ∃ l₀, menuRun cfg start pre = .running l₀ ∧ l₀.round cfg r = .running l := by
  rw [menuRun_concat] at h
  generalize menuRun cfg start pre = m at h
  rcases m with l₀ | _ | _ | _
  case running => exact ⟨l₀, rfl, h⟩
  all_goals cases h

theorem keyFree_concat : KeyFree (pre ++ [r]) ↔ KeyFree pre ∧ r.key? = none := by
  simp only [KeyFree, List.mem_append, List.mem_singleton, or_imp, forall_and, forall_eq]

theorem selection_concat :
    selection cfg (pre ++ [r]) =
      match r.key? with
      | none => selection cfg pre
      | some k => moved cfg.entries.length (selection cfg pre) k.press := by
  rw [selection, List.filterMap_append, List.foldl_append, ← selection]
  rcases hk : r.key? with _ | k <;> simp [hk]

theorem menuLoop_checked (h : cfg.Checked) :
    menuLoop cfg (indexOfDefault cfg) start = .running {
      selected := indexOfDefault cfg
      autoBootArmed := cfg.armed
      deadline := if cfg.armed then start + cfg.duration.toInt else start } := by
  rw [menuLoop, if_neg h.entries_ne, if_neg (Nat.not_le.mpr h.indexOfDefault_lt)]

/-- The state of a loop that still runs: the selection is the fold of the keys, the deadline is the
one set at the start, and the loop is armed as long as no key was read. -/
theorem running_inv (h : cfg.Checked) (hl : menuRun cfg start pre = .running l) :
    l.selected = selection cfg pre ∧ l.selected < cfg.entries.length ∧
      l.deadline = (if cfg.armed then start + cfg.duration.toInt else start) ∧
      (l.autoBootArmed = true ↔ cfg.armed = true ∧ KeyFree pre) := by
  induction pre using List.reverseRecOn generalizing l with
  | nil =>
    have hstart : menuLoop cfg (indexOfDefault cfg) start = .running l := hl
    rw [menuLoop_checked h] at hstart
    obtain rfl := Menu.running.inj hstart
    exact ⟨rfl, h.indexOfDefault_lt, rfl, by simp [KeyFree]⟩
  | append_singleton pre r ih =>
    obtain ⟨l₀, hl₀, hround⟩ := running_of_concat hl
    obtain ⟨hsel, hlt, hdeadline, harmed⟩ := ih hl₀
    obtain ⟨hlt', hcases⟩ := round_running hlt hround
    rw [selection_concat, keyFree_concat]
    rcases hcases with ⟨hkey, rfl⟩ | ⟨k, hkey, rfl⟩
    · rw [hkey]
      exact ⟨hsel, hlt, hdeadline, by simp [harmed]⟩
    · rw [hkey]
      refine ⟨?_, hlt', hdeadline, by simp⟩
      show moved _ l₀.selected _ = moved _ (selection cfg pre) _
      rw [hsel]

theorem armed_iff : cfg.armed = true ↔ 0 < cfg.timeout.toInt ∧ cfg.default ≠ [] := by
  simp [BootConfig.armed]

theorem selection_keyFree (h : KeyFree pre) : selection cfg pre = indexOfDefault cfg := by
  have hnil : pre.filterMap Round.key? = [] := List.filterMap_eq_nil_iff.mpr h
  rw [selection, hnil, List.foldl_nil]

/-- A wrapped product of a positive timeout is never later than the product. -/
theorem duration_le (h : 0 < cfg.timeout.toInt) : cfg.duration.toInt ≤ cfg.timeout.toInt * second := by
  rw [BootConfig.duration, Int64.toInt_mul]
  have hs : (1000000000 : Int64).toInt = second := by decide
  rw [hs]
  have hpos : 0 ≤ cfg.timeout.toInt * second := Int.mul_nonneg h.le (by decide)
  generalize cfg.timeout.toInt * second = x at hpos
  rw [Int.bmod_def]
  split_ifs <;> omega

-- From 9223372037 seconds on the product wraps, here to an instant before the start.
example : (⟨[], 9223372037, str "a", []⟩ : BootConfig).duration.toInt < 0 := by decide

/-- A loop that still runs without a key has seen no silent poll after its deadline. -/
theorem silent_le_deadline (h : cfg.Checked) (harmed : cfg.armed = true)
    (hl : menuRun cfg start pre = .running l) (hfree : KeyFree pre) :
    ∀ u ∈ pre, u.silent = true → u.now ≤ start + cfg.duration.toInt := by
  induction pre using List.reverseRecOn generalizing l with
  | nil => simp
  | append_singleton pre r ih =>
    obtain ⟨l₀, hl₀, hround⟩ := running_of_concat hl
    have hfree₀ : KeyFree pre := (keyFree_concat.mp hfree).1
    obtain ⟨-, -, hdeadline, harmed₀⟩ := running_inv h hl₀
    rw [if_pos harmed] at hdeadline
    intro u hu hsilent
    rcases List.mem_append.mp hu with hu | hu
    · exact ih hl₀ hfree₀ u hu hsilent
    · obtain rfl := List.mem_singleton.mp hu
      by_contra hlate
      have hdue : l₀.autoBootArmed = true ∧ l₀.deadline < u.now :=
        ⟨harmed₀.mpr ⟨harmed, hfree₀⟩, by rw [hdeadline]; omega⟩
      rw [round_silent hsilent, if_pos hdue] at hround
      exact dispatch_ne_running hround

end

/-! ## Which runs keep the promise -/

/-- The polls that settle an armed menu: a key, a silent poll after the deadline of the loop, and
any other error once `Timeout` seconds have passed. -/
def Round.decisive (cfg : BootConfig) (start : ℤ) (r : Round) : Bool :=
  if r.key? ≠ none then true
  else if r.silent then start + cfg.duration.toInt < r.now
  else cfg.due start < r.shown

/-- Where the menu is armed, the first decisive poll is a key, or a silent one for which `Timeout`
seconds have passed. -/
def InTime (cfg : BootConfig) (start : ℤ) (rounds : List Round) : Prop :=
  cfg.armed = true → ∀ r, rounds.find? (Round.decisive cfg start) = some r →
    r.key? ≠ none ∨ (r.silent = true ∧ cfg.due start ≤ r.now)

section
variable {cfg : BootConfig} {start : ℤ} {pre rounds : List Round} {r : Round} {l : Loop}

theorem decisive_silent (h : r.silent = true) :
    r.decisive cfg start = true ↔ start + cfg.duration.toInt < r.now := by
  rw [Round.decisive, if_neg (not_not.mpr (Round.silent_key h)), if_pos h, decide_eq_true_iff]

theorem decisive_otherErr (hkey : r.key? = none) (h : r.silent = false) :
    r.decisive cfg start = true ↔ cfg.due start < r.shown := by
  rw [Round.decisive, if_neg (not_not.mpr hkey), if_neg (by simp [h]), decide_eq_true_iff]

/-- Until a decisive poll the menu waits on its default entry. -/
theorem running_of_undecided (h : cfg.Checked) (harmed : cfg.armed = true)
    (hpre : ∀ u ∈ pre, u.decisive cfg start = false) :
    KeyFree pre ∧ menuRun cfg start pre =
      .running ⟨indexOfDefault cfg, true, start + cfg.duration.toInt⟩ := by
  induction pre using List.reverseRecOn with
  | nil =>
    refine ⟨by simp [KeyFree], ?_⟩
    show menuLoop cfg (indexOfDefault cfg) start = _
    rw [menuLoop_checked h, harmed, if_pos rfl]
  | append_singleton pre r ih =>
    obtain ⟨hfree, hrun⟩ := ih fun u hu => hpre u (List.mem_append_left _ hu)
    have hr : ¬ r.decisive cfg start = true := by
      rw [hpre r (by simp)]
      simp
    have hkey : r.key? = none := not_not.mp fun hk => hr (if_pos hk)
    refine ⟨keyFree_concat.mpr ⟨hfree, hkey⟩, ?_⟩
    rw [menuRun_concat_of_running hrun]
    cases hsilent : r.silent with
    | true =>
      rw [round_silent hsilent, if_neg]
      exact fun hdue => hr ((decisive_silent hsilent).mpr hdue.2)
    | false => exact round_otherErr hkey hsilent

/-- A menu that still runs without a key, in a run that is in time, has seen no decisive poll:
a silent one would have ended it, and an error would have been the first. -/
theorem undecided_of_running (h : cfg.Checked) (harmed : cfg.armed = true)
    (hin : InTime cfg start rounds) (hpre : pre <+: rounds)
    (hl : menuRun cfg start pre = .running l) (hfree : KeyFree pre) :
    pre.find? (Round.decisive cfg start) = none := by
  rcases hfind : pre.find? (Round.decisive cfg start) with _ | u
  · rfl
  · have hu : u ∈ pre := List.mem_of_find?_eq_some hfind
    rcases hin harmed u (hpre.find?_eq_some hfind) with hkey | ⟨hsilent, -⟩
    · exact absurd (hfree u hu) hkey
    · have hlate := (decisive_silent hsilent).mp (List.find?_some hfind)
      have hle := silent_le_deadline h harmed hl hfree u hu hsilent
      omega

/-- So its next poll, if decisive, is the first decisive one of the run. -/
theorem inTime_next (h : cfg.Checked) (harmed : cfg.armed = true) (hin : InTime cfg start rounds)
    (hpre : pre ++ [r] <+: rounds) (hl : menuRun cfg start pre = .running l)
    (hfree : KeyFree (pre ++ [r])) (hr : r.decisive cfg start = true) :
    r.silent = true ∧ cfg.due start ≤ r.now := by
  obtain ⟨hfree₀, hkey⟩ := keyFree_concat.mp hfree
  have hnone := undecided_of_running h harmed hin ((List.prefix_append _ _).trans hpre) hl hfree₀
  have hfirst : (pre ++ [r]).find? (Round.decisive cfg start) = some r := by
    rw [List.find?_append, hnone, Option.none_or, List.find?_singleton, if_pos hr]
  rcases hin harmed r (hpre.find?_eq_some hfirst) with hk | hsilent
  · exact absurd hkey hk
  · exact hsilent

theorem Clock.shown_le : ∀ {rounds : List Round} {t : ℤ}, Clock t rounds → ∀ r ∈ rounds, r.shown ≤ r.now
  | [], _, _, r, hr => by simp at hr
  | u :: rounds, _, h, r, hr => by
    rcases List.mem_cons.mp hr with rfl | hr
    · exact h.2.1
    · exact Clock.shown_le h.2.2 r hr

theorem not_isEnter (h : r.key? = none) : ¬ r.isEnter := by
  rintro ⟨k, hk, -⟩
  rw [h] at hk
  cases hk

/-- A silent poll of an armed menu after the deadline dispatches the default entry. -/
theorem dispatches_default (h : cfg.Checked) (harmed : cfg.armed = true)
    (hl : menuRun cfg start pre = .running l) (hfree : KeyFree pre) (hsilent : r.silent = true)
    (hlate : start + cfg.duration.toInt < r.now) :
    ∃ e ∈ cfg.entries, e.label = cfg.default ∧ menuRun cfg start (pre ++ [r]) = .dispatched e := by
  obtain ⟨hsel, hlt, hdeadline, harmed'⟩ := running_inv h hl
  rw [if_pos harmed] at hdeadline
  obtain ⟨e, he, hlabel⟩ := h.default_entry (armed_iff.mp harmed).2
  refine ⟨e, List.mem_of_getElem? he, hlabel, ?_⟩
  have hdue : l.autoBootArmed = true ∧ l.deadline < r.now :=
    ⟨harmed'.mpr ⟨harmed, hfree⟩, by rw [hdeadline]; exact hlate⟩
  rw [menuRun_concat_of_running hl, round_silent hsilent, if_pos hdue, hsel,
    selection_keyFree hfree, dispatch, he]

/-- What holds in every run: the selection stays in range and Enter dispatches it. -/
theorem menuRun_enter (h : cfg.Checked) (hl : menuRun cfg start pre = .running l) (hr : r.isEnter) :
    ∃ e, cfg.entries[selection cfg pre]? = some e ∧
      menuRun cfg start (pre ++ [r]) = .dispatched e := by
  obtain ⟨hsel, hlt, -, -⟩ := running_inv h hl
  obtain ⟨e, he, hdispatch⟩ := dispatch_of_lt hlt
  refine ⟨e, by rw [← hsel]; exact he, ?_⟩
  rw [menuRun_concat_of_running hl, round_enter hr, hdispatch]

theorem menuMeets_of_inTime (h : cfg.Checked) (hclock : Clock start rounds)
    (hin : InTime cfg start rounds) : MenuMeets cfg start rounds where
  valid pre _ l hl := (running_inv h hl).2.1
  enter pre r _ l hl hr := menuRun_enter h hl hr
  only_due := by
    intro pre r hpre l e hl hr he
    rw [menuRun_concat_of_running hl] at he
    obtain ⟨hsilent, harmed', hlate⟩ := round_dispatched he hr
    obtain ⟨hsel, -, hdeadline, harmed_iff⟩ := running_inv h hl
    obtain ⟨harmed, hfree⟩ := harmed_iff.mp harmed'
    rw [if_pos harmed] at hdeadline
    rw [hdeadline] at hlate
    obtain ⟨htimeout, hdefault⟩ := armed_iff.mp harmed
    have hfree' : KeyFree (pre ++ [r]) := keyFree_concat.mpr ⟨hfree, Round.silent_key hsilent⟩
    have hdue := inTime_next h harmed hin hpre hl hfree' ((decisive_silent hsilent).mpr hlate)
    obtain ⟨e', he', hlabel, hrun⟩ := dispatches_default h harmed hl hfree hsilent hlate
    rw [menuRun_concat_of_running hl, he] at hrun
    obtain rfl := Menu.dispatched.inj hrun
    exact ⟨hdefault, he', hlabel, htimeout, hfree', hdue.2⟩
  once_due := by
    intro pre r hpre l hl hdefault htimeout hfree hlate
    have harmed : cfg.armed = true := armed_iff.mpr ⟨htimeout, hdefault⟩
    obtain ⟨hfree₀, hkey⟩ := keyFree_concat.mp hfree
    have hclock_r : r.shown ≤ r.now :=
      hclock.shown_le r (hpre.subset (List.mem_append_right _ (List.mem_singleton.mpr rfl)))
    have hle := duration_le htimeout
    rw [BootConfig.due] at hlate
    cases hsilent : r.silent with
    | true => exact dispatches_default h harmed hl hfree₀ hsilent (by omega)
    | false =>
      -- an error this late is decisive, and a run in time has none
      have hdec : r.decisive cfg start = true := (decisive_otherErr hkey hsilent).mpr hlate
      rw [(inTime_next h harmed hin hpre hl hfree hdec).1] at hsilent
      cases hsilent

theorem inTime_of_menuMeets (h : cfg.Checked) (hmeets : MenuMeets cfg start rounds) :
    InTime cfg start rounds := by
  intro harmed r hfind
  obtain ⟨hdec, pre, post, rfl, hpre⟩ := List.find?_eq_some_iff_append.mp hfind
  have hprefix : pre ++ [r] <+: pre ++ r :: post := ⟨post, by simp⟩
  have hquiet : ∀ u ∈ pre, u.decisive cfg start = false := fun u hu => by simpa using hpre u hu
  obtain ⟨hfree, hrun⟩ := running_of_undecided h harmed hquiet
  by_cases hkey : r.key? = none
  · right
    obtain ⟨htimeout, hdefault⟩ := armed_iff.mp harmed
    have hfree' : KeyFree (pre ++ [r]) := keyFree_concat.mpr ⟨hfree, hkey⟩
    cases hsilent : r.silent with
    | true =>
      have hlate := (decisive_silent hsilent).mp hdec
      obtain ⟨e, -, -, he⟩ := dispatches_default h harmed hrun hfree hsilent hlate
      exact ⟨rfl, (hmeets.only_due pre r hprefix _ e hrun (not_isEnter hkey) he).2.2.2.2.2⟩
    | false =>
      -- the code goes on, so the promise is broken
      have hlate := (decisive_otherErr hkey hsilent).mp hdec
      obtain ⟨e, -, -, he⟩ := hmeets.once_due pre r hprefix _ hrun hdefault htimeout hfree' hlate
      rw [menuRun_concat_of_running hrun, round_otherErr hkey hsilent] at he
      cases he
  · exact .inl hkey

/-- **The boot menu.**  For a configuration that `Parse` returned and a clock that never goes back,
the menu keeps its promise exactly in the runs that are in time. -/
theorem menuMeets_iff {Body : Type} {hcl : Hcl Body} {src : Bytes}
    (h : parse hcl src = .ok cfg) (hclock : Clock start rounds) :
    MenuMeets cfg start rounds ↔ InTime cfg start rounds :=
  ⟨inTime_of_menuMeets (parse_ok h), menuMeets_of_inTime (parse_ok h) hclock⟩

end

/-! ## A menu of two entries -/

/-- The second of two entries is booted after one second. -/
def sampleMenu : BootConfig where
  title := []
  timeout := 1
  default := str "b"
  entries := [⟨str "a", str "ref-a", [], []⟩, ⟨str "b", str "ref-b", [], []⟩]

def sampleHcl : Hcl Unit where
  parseHCL _ := .ok ()
  decodeBody _ := .ok sampleMenu

/-- A poll that finds no key after two seconds boots the default entry, as promised. -/
theorem menuMeets_silent :
    parse sampleHcl (str "x") = .ok sampleMenu ∧
      MenuMeets sampleMenu 0 [⟨2000000000, .noKey, 2000000000⟩] ∧
      menuRun sampleMenu 0 [⟨2000000000, .noKey, 2000000000⟩] =
        .dispatched ⟨str "b", str "ref-b", [], []⟩ := by
  have hparse : parse sampleHcl (str "x") = .ok sampleMenu := by decide
  refine ⟨hparse, (menuMeets_iff hparse ?_).mpr ?_, by decide⟩
  · exact ⟨by decide, by decide, trivial⟩
  · intro _ r hr
    obtain rfl : (⟨2000000000, .noKey, 2000000000⟩ : Round) = r :=
      Option.some.inj ((show _ = _ by decide : some _ = _).trans hr)
    exact .inr ⟨rfl, by decide⟩

/-- After an error of another kind it waits on, however late it is. -/
theorem menuMeets_error_waits :
    parse sampleHcl (str "x") = .ok sampleMenu ∧
      Clock 0 [⟨2000000000, .otherErr, 2000000000⟩] ∧
      ¬ MenuMeets sampleMenu 0 [⟨2000000000, .otherErr, 2000000000⟩] := by
  refine ⟨by decide, ⟨by decide, by decide, trivial⟩, ?_⟩
  intro hmeets
  have hstart : menuRun sampleMenu 0 [] = .running ⟨1, true, 1000000000⟩ := by decide
  obtain ⟨e, -, -, he⟩ := hmeets.once_due [] _ (List.prefix_rfl) _ hstart (by decide) (by decide)
    (by intro u hu; obtain rfl := List.mem_singleton.mp hu; rfl) (by decide)
  have hrun : menuRun sampleMenu 0 ([] ++ [⟨2000000000, .otherErr, 2000000000⟩]) =
      .running ⟨1, true, 1000000000⟩ := by decide
  rw [hrun] at he
  cases he

end TamagoUefi.Boot
