import TamagoUefi.Sfs.ReadLaw

/-!
# TamagoUefi.Sfs.OpenVolume — the handles that `OpenVolume` returns

`OpenVolume` returns the root handle of the volume, which was made when the volume was published.  All
openers of a volume share this handle and its index, and `Close` does not reset it.

* `Cursor.Alike`: cursors that no reads tell apart; `not_alike`: a cursor that has moved is not like the
  one at the start.
* `Registries.freshView_iff`: a new opener has a view of its own only if nobody has opened or read the
  root before, or if there is no entry to read.
-/

namespace TamagoUefi.Sfs

open Go Lib
open Board (Uintptr)

/-! ## Cursors -/

/-- The largest size that a caller can pass. -/
def maxSize : Uintptr := 0xFFFFFFFFFFFFFFFF

/-- There is an entry at place `k`, and a buffer that holds its information. -/
def Readable (entries : List DirEntryCached) (k : ℕ) : Prop :=
  ∃ e, entries[k]? = some e ∧ (entryInfo e).length ≤ maxSize.toNat

namespace Cursor

/-- The cursor after some calls. -/
def after (c : Cursor) : List ReadCall → Cursor
  | [] => c
  | a :: as => (c.step a).1.after as

/-- No calls tell the cursors apart. -/
def Alike (c c' : Cursor) : Prop := ∀ calls, c.replies calls = c'.replies calls

theorem Alike.step {c c' : Cursor} (h : Alike c c') (a : ReadCall) :
    (c.step a).2 = (c'.step a).2 ∧ Alike (c.step a).1 (c'.step a).1 := by
  constructor
  · exact List.head_eq_of_cons_eq (h [a])
  · intro calls
    exact List.tail_eq_of_cons_eq (h (a :: calls))

section
variable {entries : List DirEntryCached} {i j k : ℕ}

theorem entryReply_ne_end (e : DirEntryCached) : entryReply (some e) ≠ entryReply none := by
  intro h
  have hsize : (entryInfo e).length = 0 := Option.some.inj (congrArg Reply.size h)
  rw [entryInfo, length_fileInfo, sfsFileInfoSizeForName, sfsFileInfoHeaderSize] at hsize
  omega

theorem read_readable {e : DirEntryCached} (he : entries[k]? = some e)
    (hfit : (entryInfo e).length ≤ maxSize.toNat) :
    (dir (some entries) k).step (.read maxSize) = (dir (some entries) (k + 1), entryReply (some e)) := by
  simp only [step, read, he]
  rw [if_neg (Nat.not_lt.mpr hfit)]

theorem read_end (h : entries.length ≤ k) :
    ((dir (some entries) k).step (.read maxSize)).2 = entryReply none := by
  simp only [step, read, List.getElem?_eq_none h]

/-- A reply with an entry moves the cursor on. -/
theorem read_moves {e : DirEntryCached}
    (h : ((dir (some entries) j).step (.read maxSize)).2 = entryReply (some e)) :
    ((dir (some entries) j).step (.read maxSize)).1 = dir (some entries) (j + 1) := by
  simp only [step, read] at h ⊢
  cases hj : entries[j]? with
  | none =>
    rw [hj] at h
    exact absurd h.symm (entryReply_ne_end e)
  | some e' =>
    rw [hj] at h
    simp only at h ⊢
    split_ifs at h ⊢ with hroom
    · exact absurd (show sfsEFIBufferTooSmall = sfsEFISuccess from congrArg Reply.status h) (by decide)
    · rfl

theorem Alike.next (h : Alike (dir (some entries) j) (dir (some entries) k)) (hk : Readable entries k) :
    Alike (dir (some entries) (j + 1)) (dir (some entries) (k + 1)) := by
  obtain ⟨e, he, hfit⟩ := hk
  have hread := read_readable he hfit
  obtain ⟨hreply, hstep⟩ := h.step (.read maxSize)
  rw [hread] at hreply hstep
  rw [read_moves hreply] at hstep
  exact hstep

theorem Alike.add (h : Alike (dir (some entries) j) (dir (some entries) 0)) : ∀ {n : ℕ},
    (∀ k < n, Readable entries k) → Alike (dir (some entries) (j + n)) (dir (some entries) n)
  | 0, _ => h
  | n + 1, hread => (h.add fun k hk => hread k (Nat.lt_succ_of_lt hk)).next (hread n (Nat.lt_succ_self n))

/-- **A cursor that has moved shows it.**  If it were like the one at the start, it would be so again
after as many reads, and so on beyond the end. -/
theorem not_alike (hi : 0 < i) (hread : ∀ k < i, Readable entries k) :
    ¬ Alike (dir (some entries) i) (dir (some entries) 0) := by
  intro h
  have hround : ∀ n, Alike (dir (some entries) (n * i)) (dir (some entries) 0) := by
    intro n
    induction n with
    | zero =>
      rw [Nat.zero_mul]
      exact fun _ => rfl
    | succ n ih =>
      intro calls
      rw [Nat.succ_mul, ih.add hread calls, h calls]
  obtain ⟨e, he, hfit⟩ := hread 0 hi
  have hreply := ((hround entries.length).step (.read maxSize)).1
  rw [read_end (Nat.le_mul_of_pos_right _ hi), read_readable he hfit] at hreply
  exact entryReply_ne_end e hreply.symm

/-- A cursor at an entry that no buffer holds stays there. -/
theorem after_stuck {o : Option (List DirEntryCached)} (h : ∀ entries, o = some entries → ¬ Readable entries i) :
    ∀ sizes : List Uintptr, (dir o i).after (sizes.map .read) = dir o i
  | [] => rfl
  | s :: sizes => by
    have hstay : ((dir o i).step (.read s)).1 = dir o i := by
      cases o with
      | none => rfl
      | some entries =>
        simp only [step, read]
        cases he : entries[i]? with
        | none => rfl
        | some e =>
          have hs : s.toNat ≤ maxSize.toNat := by
            have hlt := s.isLt
            show s.toNat ≤ 0xFFFFFFFFFFFFFFFF
            omega
          have hroom : s.toNat < (entryInfo e).length := by
            by_contra hfit
            exact h entries rfl ⟨e, he, (Nat.not_lt.mp hfit).trans hs⟩
          simp only [if_pos hroom]
    rw [List.map_cons, after, hstay, after_stuck h sizes]

end

end Cursor

/-! ## The index of a directory -/

namespace FileHandle

/-- The entries before the index of a directory have been read. -/
def Passed (fs : Filesystem) (x : FileHandle) : Prop :=
  x.isDir = true → ∀ k < x.direntI, ∃ entries, listing fs x.path = some entries ∧ Readable entries k

variable {fs : Filesystem} {x y : FileHandle}

theorem New.passed (h : x.New) : x.Passed fs := by
  intro _ k hk
  rw [h.direntI] at hk
  exact absurd hk (Nat.not_lt_zero k)

theorem Passed.move {v : SfsPublishEntry} (hs : x.Sound v.fs) (hp : x.Passed v.fs) (h : x.Move (some v) y) :
    y.Passed v.fs := by
  cases h with
  | unread | loaded | seek => exact hp
  | listed | rewind => exact fun _ k hk => absurd hk (Nat.not_lt_zero k)
  | next bs he hroom =>
    intro hdir k hk
    rcases Nat.lt_succ_iff_lt_or_eq.mp hk with hlt | rfl
    · exact hp hdir k hlt
    · obtain ⟨ds, hds⟩ : ∃ ds, x.dirents = some ds := by
        refine Option.ne_none_iff_exists'.mp fun hnone => ?_
        rw [hnone] at he
        cases he
      rw [hds] at he
      have hmax : bs.toNat ≤ maxSize.toNat := by
        have hlt := bs.isLt
        show bs.toNat ≤ 0xFFFFFFFFFFFFFFFF
        omega
      refine ⟨ds, hs.dirents ds hds, _, he, ?_⟩
      rw [entryInfo, length_fileInfo]
      exact hroom.trans hmax

theorem Passed.act {v : SfsPublishEntry} (hs : x.Sound v.fs) (hp : x.Passed v.fs) {op : Op}
    (hy : (x.act (some v) op).1 = some y) : y.Passed v.fs :=
  (act_rule (P := fun y => y.Sound v.fs ∧ y.Passed v.fs)
    (fun hmove h => ⟨h.1.move hmove, h.2.move h.1 hmove⟩) hy ⟨hs, hp⟩).2

end FileHandle

/-! ## The registry -/

namespace Registries

variable {st : Registries} {h p : Uintptr} {x : FileHandle} {v : SfsPublishEntry} {es : List Event}

/-- The roots of the volumes are directories at the top. -/
def RootsAtTop (st : Registries) : Prop :=
  ∀ p v x, st.sfsPublishLookup p = some v → st.handle v.rootFileProto = some x →
    x.path = str "/" ∧ x.isDir = true

theorem rootsAtTop_step (hwf : st.WF) (htop : st.RootsAtTop) {e : Event} (hfresh : st.Fresh e) :
    (st.step e).RootsAtTop := by
  have hstay : ∀ p v y, st.sfsPublishLookup p = some v → (st.step e).handle v.rootFileProto = some y →
      y.path = str "/" ∧ y.isDir = true := by
    intro p v y hv hy
    obtain ⟨x, hx, -⟩ := hwf.root p v hv
    have hsame := same_step hwf hfresh hx hy
    rw [hsame.path, hsame.isDir]
    exact htop p v x hv hx
  intro p v y hv hy
  cases hold : st.sfsPublishLookup p with
  | some v' =>
    have hv' := lookup_step hwf hfresh hold
    rw [hv] at hv'
    cases hv'
    exact hstay p v y hold hy
  | none =>
    cases e with
    | openVolume => exact absurd (hold.symm.trans hv) nofun
    | publish c =>
      rw [step] at hv hy
      obtain hsame | ⟨fs, -, -, hlookup, hhandle⟩ := hwf.publishSFS hfresh
      · rw [hsame, hold] at hv
        cases hv
      · rw [hlookup] at hv
        by_cases hp : p = c.proto
        · rw [hp, Function.update_self] at hv
          cases hv
          have hy : Function.update st.handle c.rootProto (some c.root) c.rootProto = some y := hhandle ▸ hy
          rw [Function.update_self] at hy
          cases hy
          exact ⟨rfl, rfl⟩
        · rw [Function.update_of_ne hp, hold] at hv
          cases hv
    | call c =>
      have hvolumes : (st.call c).1.sfsPublishLookup = st.sfsPublishLookup := by
        cases hx : st.handle c.this with
        | none => rw [call_missing hx]
        | some x =>
          unfold sfsPublishLookup
          rw [(call_spec hwf.handles hfresh hx).1]
      rw [step, hvolumes, hold] at hv
      cases hv

theorem root_run (hes : RunMeets step Fresh init es) (hv : (runFrom step init es).sfsPublishLookup p = some v) :
    ∃ x, (runFrom step init es).handle v.rootFileProto = some x ∧ x.owner = p ∧ x.path = str "/" ∧
      x.isDir = true := by
  obtain ⟨x, hx, howner⟩ := (wf_run hes).root p v hv
  refine ⟨x, hx, howner, ?_⟩
  refine (hes.invariant (I := fun st => st.WF ∧ st.RootsAtTop) ?_ ⟨wf_init, ?_⟩ es List.prefix_rfl).2 p v x hv hx
  · intro st e hI hfresh
    exact ⟨wf_step hI.1 hfresh, rootsAtTop_step hI.1 hI.2 hfresh⟩
  · intro p v x hv
    obtain ⟨-, i, hi⟩ := (Slots.distinct_replicate _).find_iff.mp hv
    simp [List.getElem?_replicate] at hi

theorem passed_run (hes : RunMeets step Fresh init es) (hx : (runFrom step init es).handle h = some x)
    (hv : (runFrom step init es).sfsPublishLookup x.owner = some v) : x.Passed v.fs :=
  (handles_run (Q := fun fs x => x.Sound fs ∧ x.Passed fs) (fun _ _ hnew => ⟨hnew.sound, hnew.passed⟩)
    (fun _ _ _ _ hI hy => ⟨hI.1.act hy, hI.2.act hI.1 hy⟩) hes h x v hx hv).2

/-- Reads of a handle. -/
def readsOn (h : Uintptr) (sizes : List Uintptr) : List Event :=
  sizes.map fun s => .call ((ReadCall.read s).on h)

/-- Reads move the cursor of their handle and leave the other handles alone. -/
theorem run_readsOn : ∀ (sizes : List Uintptr) {st : Registries} {x : FileHandle}, st.WF →
    st.handle h = some x → st.sfsPublishLookup x.owner = some v → x.Sound v.fs →
    (runFrom step st (readsOn h sizes)).WF ∧
    (runFrom step st (readsOn h sizes)).sfsPublishLookup = st.sfsPublishLookup ∧
    (∀ h', h' ≠ h → (runFrom step st (readsOn h sizes)).handle h' = st.handle h') ∧
    ∃ y, (runFrom step st (readsOn h sizes)).handle h = some y ∧ y.owner = x.owner ∧ y.Sound v.fs ∧
      y.cursor v.fs = (x.cursor v.fs).after (sizes.map .read)
  | [], _, x, hwf, hx, _, hs => ⟨hwf, rfl, fun _ _ => rfl, x, hx, rfl, hs, rfl⟩
  | s :: sizes, st, x, hwf, hx, hv, hs => by
    obtain ⟨y, -, hcursor, hsound, hsame, hwf', hlookup, hhandle⟩ := call_on hwf hx hv hs (.read s)
    have hy : (st.call ((ReadCall.read s).on h)).1.handle h = some y := by rw [hhandle, Function.update_self]
    have hv' : (st.call ((ReadCall.read s).on h)).1.sfsPublishLookup y.owner = some v := by
      rw [hlookup, hsame.owner]
      exact hv
    obtain ⟨hwf'', hlookup', hframe, z, hz, howner, hzs, hzc⟩ := run_readsOn sizes hwf' hy hv' hsound
    refine ⟨hwf'', hlookup'.trans hlookup, ?_, z, hz, howner.trans hsame.owner, hzs, ?_⟩
    · intro h' hne
      refine (hframe h' hne).trans ?_
      rw [hhandle, Function.update_of_ne hne]
    · rw [hzc, hcursor]
      rfl

/-- The handles that earlier calls of `OpenVolume` have returned. -/
def Obtained (es : List Event) (h : Uintptr) : Prop :=
  ∃ pre post p, es = pre ++ .openVolume p true :: post ∧
    ((runFrom step init pre).sfsOpenVolume p true).handle = some h

/-- What a new opener expects of the handle `h` after `es`: it lists the root from the start, and reading
it does not disturb the handles of earlier openers. -/
structure FreshView (es : List Event) (v : SfsPublishEntry) (h : Uintptr) : Prop where
  fromStart : ∀ calls, (runFrom step init es).replies h calls =
    (Cursor.dir (listing v.fs (str "/")) 0).replies calls
  undisturbed : ∀ h', Obtained es h' → ∀ sizes calls,
    (runFrom step (runFrom step init es) (readsOn h sizes)).replies h' calls =
      (runFrom step init es).replies h' calls

theorem sfsOpenVolume_eq (hv : st.sfsPublishLookup p = some v) :
    st.sfsOpenVolume p true = { status := sfsEFISuccess, handle := some v.rootFileProto } := by
  rw [sfsOpenVolume, hv]
  rfl

theorem Obtained.handle (hes : RunMeets step Fresh init es) (ho : Obtained es h) :
    ∃ x, (runFrom step init es).handle h = some x := by
  obtain ⟨pre, post, p, rfl, hh⟩ := ho
  cases hv : (runFrom step init pre).sfsPublishLookup p with
  | none =>
    rw [sfsOpenVolume, hv] at hh
    cases hh
  | some v =>
    rw [sfsOpenVolume_eq hv] at hh
    cases hh
    have hrun := runMeets_append.mp hes
    have hv' := lookup_run (wf_run hrun.1) hrun.2 hv
    rw [← runFrom_append] at hv'
    obtain ⟨x, hx, -⟩ := root_run hes hv'
    exact ⟨x, hx⟩

theorem replies_root (hes : RunMeets step Fresh init es)
    (hx : (runFrom step init es).handle v.rootFileProto = some x)
    (hv : (runFrom step init es).sfsPublishLookup x.owner = some v) (hpath : x.path = str "/")
    (hdir : x.isDir = true) (sizes : List Uintptr) (calls : List ReadCall) :
    (runFrom step (runFrom step init es) (readsOn v.rootFileProto sizes)).replies v.rootFileProto calls =
      ((Cursor.dir (listing v.fs (str "/")) x.direntI).after (sizes.map .read)).replies calls := by
  have hs := allSound_run hes _ x v hx hv
  obtain ⟨hwf, hlookup, -, y, hy, howner, hys, hcursor⟩ := run_readsOn sizes (wf_run hes) hx hv hs
  have hv' : (runFrom step (runFrom step init es) (readsOn v.rootFileProto sizes)).sfsPublishLookup y.owner =
      some v := by
    rw [hlookup, howner]
    exact hv
  rw [replies_eq_cursor calls hwf hy hv' hys, hcursor, FileHandle.cursor_of_isDir hdir, hpath]

/-- Reads of the root leave the replies of the other handles alone. -/
theorem replies_other (hes : RunMeets step Fresh init es) (hx : (runFrom step init es).handle h = some x)
    (hv : (runFrom step init es).sfsPublishLookup x.owner = some v) {h' : Uintptr} {x' : FileHandle}
    (hx' : (runFrom step init es).handle h' = some x') (hne : h' ≠ h) (sizes : List Uintptr)
    (calls : List ReadCall) :
    (runFrom step (runFrom step init es) (readsOn h sizes)).replies h' calls =
      (runFrom step init es).replies h' calls := by
  have hwf := wf_run hes
  obtain ⟨hwf', hlookup, hframe, -⟩ := run_readsOn sizes hwf hx hv (allSound_run hes _ x v hx hv)
  obtain ⟨v', hv'⟩ := hwf.owned h' x' hx'
  have hs' := allSound_run hes h' x' v' hx' hv'
  rw [replies_eq_cursor calls hwf hx' hv' hs']
  exact replies_eq_cursor calls hwf' ((hframe h' hne).trans hx') (by rw [hlookup]; exact hv') hs'

/-- **Openers share one view.**  `OpenVolume` returns the root handle of the volume, which is a view of
its own exactly if the root has no entry to read, or nobody has opened the volume before and nothing of
the root has been read. -/
theorem freshView_iff (hes : RunMeets step Fresh init es)
    (hv : (runFrom step init es).sfsPublishLookup p = some v) :
    ∃ x, (runFrom step init es).sfsOpenVolume p true =
        { status := sfsEFISuccess, handle := some v.rootFileProto } ∧
      (runFrom step init es).handle v.rootFileProto = some x ∧
      (FreshView es v v.rootFileProto ↔ ∀ entries, listing v.fs (str "/") = some entries →
        Readable entries 0 → x.direntI = 0 ∧ ¬ Obtained es v.rootFileProto) := by
  obtain ⟨x, hx, howner, hpath, hdir⟩ := root_run hes hv
  refine ⟨x, sfsOpenVolume_eq hv, hx, ?_⟩
  have hv' : (runFrom step init es).sfsPublishLookup x.owner = some v := by
    rw [howner]
    exact hv
  have hpassed := passed_run hes hx hv' hdir
  have hroot := replies_root hes hx hv' hpath hdir
  have hstart : ∀ calls, (runFrom step init es).replies v.rootFileProto calls =
      (Cursor.dir (listing v.fs (str "/")) x.direntI).replies calls := hroot []
  rw [hpath] at hpassed
  constructor
  · intro hview entries hlist hreadable
    rw [hlist] at hroot hstart
    have hzero : x.direntI = 0 := by
      by_contra hne
      refine @Cursor.not_alike entries _ (Nat.pos_of_ne_zero hne) ?_ ?_
      · intro k hk
        obtain ⟨entries', hlist', hk'⟩ := hpassed k hk
        rw [hlist] at hlist'
        cases hlist'
        exact hk'
      · intro calls
        rw [← hstart, hview.fromStart, hlist]
    refine ⟨hzero, ?_⟩
    intro ho
    -- a read of the new opener moves the old one on
    obtain ⟨e, he, hfit⟩ := hreadable
    refine @Cursor.not_alike entries 1 Nat.one_pos ?_ ?_
    · intro k hk
      rw [Nat.lt_one_iff.mp hk]
      exact ⟨e, he, hfit⟩
    · intro calls
      have hsame := hview.undisturbed _ ho [maxSize] calls
      rw [hroot, hstart, hzero] at hsame
      have hmoved : (Cursor.dir (some entries) 0).after [.read maxSize] = .dir (some entries) 1 :=
        congrArg Prod.fst (Cursor.read_readable he hfit)
      exact hmoved ▸ hsame
  · intro hcond
    -- either nothing can be read, or nothing has been
    have hzero : x.direntI = 0 := by
      by_contra hne
      obtain ⟨entries, hlist, hreadable⟩ := hpassed 0 (Nat.pos_of_ne_zero hne)
      exact hne (hcond entries hlist hreadable).1
    refine ⟨fun calls => by rw [hstart, hzero], ?_⟩
    intro h' ho sizes calls
    by_cases hh : h' = v.rootFileProto
    · have hstuck : ∀ entries, listing v.fs (str "/") = some entries → ¬ Readable entries 0 := by
        intro entries hlist hreadable
        exact (hcond entries hlist hreadable).2 (hh ▸ ho)
      rw [hh, hroot, hstart, hzero, Cursor.after_stuck hstuck]
    · obtain ⟨x', hx'⟩ := ho.handle hes
      exact replies_other hes hx hv' hx' hh sizes calls

/-- The first opener has a view of its own. -/
theorem freshView_first :
    RunMeets step Fresh init [.publish (oneEntryVolume (str "k"))] ∧
    FreshView [.publish (oneEntryVolume (str "k"))] ((oneEntryVolume (str "k")).volume (oneEntry (str "k"))) 0x20 := by
  have hrun : RunMeets step Fresh init [.publish (oneEntryVolume (str "k"))] := ⟨⟨rfl, rfl⟩, trivial⟩
  obtain ⟨x, -, hx, hiff⟩ := freshView_iff (p := 0x10) hrun rfl
  cases hx
  refine ⟨hrun, hiff.mpr fun entries _ _ => ⟨rfl, ?_⟩⟩
  rintro ⟨pre, post, p, hes, -⟩
  rcases pre with _ | ⟨e, pre⟩
  · cases hes
  · exact absurd (List.tail_eq_of_cons_eq hes) (List.append_ne_nil_of_right_ne_nil pre (List.cons_ne_nil _ post)).symm

/-- One opener reads the entry and closes its handle. -/
def readAndClose : List Event :=
  [.publish (oneEntryVolume (str "k")), .openVolume 0x10 true, .call ((ReadCall.read 0x100).on 0x20),
    .call (closeAbc 0x20)]

/-- The next one finds the root at its end. -/
theorem freshView_second :
    RunMeets step Fresh init readAndClose ∧
    (runFrom step init readAndClose).sfsOpenVolume 0x10 true =
      { status := sfsEFISuccess, handle := some 0x20 } ∧
    (runFrom step init readAndClose).replies 0x20 [.read 0x100] = [{ status := sfsEFISuccess, size := some 0 }] ∧
    ¬ FreshView readAndClose ((oneEntryVolume (str "k")).volume (oneEntry (str "k"))) 0x20 := by
  have hread : (runFrom step init readAndClose).replies 0x20 [.read 0x100] =
      [{ status := sfsEFISuccess, size := some 0 }] := by decide +kernel
  refine ⟨⟨⟨rfl, rfl⟩, trivial, nofun, nofun, trivial⟩, rfl, hread, ?_⟩
  intro hview
  have hstart := hview.fromStart [.read 0x100]
  rw [hread] at hstart
  exact absurd hstart (by decide +kernel)

end Registries

end TamagoUefi.Sfs
