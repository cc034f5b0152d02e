import Mathlib.Logic.Relation
import TamagoUefi.Disk.Gpt
import TamagoUefi.Lib.Loop

/-!
# TamagoUefi.Cmd.ArMember — a member of an ar archive (`cmd/cloudboot-oci-extract/main.go`)

`arFindMember` walks the headers of a downloaded `.deb`.  The size of a member is a decimal field
of ten characters, read with `fmt.Sscanf`, which takes a sign: the offset of the next header may lie
before the present one.

* `archive`: a well-formed archive, from its members.
* `FirstMember`: the first member with a prefix, in archive order.
* `Met`: the offsets of the headers that the walk passes.
* `arFindMember_iff`: the files on which the search is right.
-/

namespace TamagoUefi.Cmd.Ar

open Go Lib Disk Lib.Loop

/-! ## The search -/

inductive ArErr
  | notArchive
  | badMagic (off : ℤ)
  | badSize (sizeStr : Bytes)
  | truncated (nameField : Bytes)
  | notFound (pre : Bytes)
  deriving DecidableEq

/-- What a search gives.  A slice out of range is a panic. -/
inductive ArResult
  | found (data nameField : Bytes)
  | err (e : ArErr)
  | outOfRange
  deriving DecidableEq

def archiveMagic : Bytes := str "!<arch>\n"

/-- The last two bytes of a header. -/
def headerMagic : Bytes := [0x60, 0x0A]

/-- Members begin at even offsets.  The remainder has the sign of the offset, as in Go. -/
def evenUp (off : ℤ) : ℤ := if off.tmod 2 = 1 then off + 1 else off

/-- One pass of the loop.  The size field has ten characters, so that the sums do not wrap. -/
def member (b pre : Bytes) (off : ℤ) : ArResult ⊕ ℤ :=
  if off + 60 ≤ b.length then
    match slice b off (off + 16), slice b (off + 48) (off + 58), slice b (off + 58) (off + 60) with
    | some name, some field, some fmagic =>
      let nameField := trimRight name (str " /")
      let sizeStr := trimSpace field
      if fmagic ≠ headerMagic then .inl (.err (.badMagic off))
      else
        match scanInt sizeStr with
        | none => .inl (.err (.badSize sizeStr))
        | some size =>
          let dataStart := off + 60
          if b.length < dataStart + size then .inl (.err (.truncated nameField))
          else if hasPrefix nameField pre then
            match slice b dataStart (dataStart + size) with
            | some data => .inl (.found data nameField)
            | none => .inl .outOfRange
          else .inr (evenUp (dataStart + size))
    | _, _, _ => .inl .outOfRange
  else .inl (.err (.notFound pre))

def IsArchive (b : Bytes) : Prop := 8 ≤ b.length ∧ readAt b 0 8 = archiveMagic

instance (b : Bytes) : Decidable (IsArchive b) :=
  inferInstanceAs (Decidable (8 ≤ b.length ∧ readAt b 0 8 = archiveMagic))

/-- The result of the search, if the loop ends within `fuel` passes. -/
def arFindMember (b pre : Bytes) (fuel : ℕ) : Option ArResult :=
  if IsArchive b then run (member b pre) fuel 8 else some (.err .notArchive)

/-! ## Archives -/

/-- A member of an archive.  The size is written with ten characters. -/
structure Member where
  name : Bytes
  /-- Time, owner, group and mode. -/
  attributes : Bytes
  data : Bytes
  pad : UInt8
  length_name : name.length = 16
  length_attributes : attributes.length = 32
  length_data : data.length < 10 ^ 10

namespace Member

def trimmedName (m : Member) : Bytes := trimRight m.name (str " /")

def sizeField (m : Member) : Bytes :=
  formatUint m.data.length ++ List.replicate (10 - (formatUint m.data.length).length) 0x20

def padding (m : Member) : Bytes := if m.data.length % 2 = 1 then [m.pad] else []

def bytes (m : Member) : Bytes :=
  m.name ++ m.attributes ++ m.sizeField ++ headerMagic ++ m.data ++ m.padding

end Member

/-- A well-formed archive. -/
def archive (ms : List Member) : Bytes := archiveMagic ++ ms.flatMap Member.bytes

/-- A header with its member in the file: the trimmed name and the size, which may be negative. -/
def header (b : Bytes) (off : ℕ) : Option (Bytes × ℤ) :=
  if off + 60 ≤ b.length ∧ readAt b (off + 58) 2 = headerMagic then
    ((scanInt (trimSpace (readAt b (off + 48) 10))).filter fun size : ℤ => off + 60 + size ≤ b.length).map
      fun size => (trimRight (readAt b off 16) (str " /"), size)
  else none

/-- The first member from an offset on whose trimmed name has the prefix. -/
inductive FirstMember (b pre : Bytes) : ℕ → Bytes → Bytes → Prop
  | here {off size : ℕ} {name : Bytes} : header b off = some (name, (size : ℤ)) → hasPrefix name pre →
      FirstMember b pre off (readAt b (off + 60) size) name
  | next {off size : ℕ} {name name' data : Bytes} : header b off = some (name', (size : ℤ)) →
      ¬ hasPrefix name' pre → FirstMember b pre (off + 60 + size + (off + 60 + size) % 2) data name →
      FirstMember b pre off data name

/-- From a header without the prefix to the next one, which a negative size may place anywhere
before the end of the member. -/
def Next (b pre : Bytes) (off off' : ℕ) : Prop :=
  ∃ name size, header b off = some (name, size) ∧ ¬ hasPrefix name pre ∧ evenUp (off + 60 + size) = off'

/-- The offsets that are reached from the first header. -/
def Met (b pre : Bytes) : ℕ → Prop := Relation.ReflTransGen (Next b pre) 8

/-- The search ends without a panic, what it finds is the first such member, and it finds it in
every well-formed archive that has one. -/
structure ArSound (b pre : Bytes) : Prop where
  ends : ∃ fuel r, arFindMember b pre fuel = some r ∧ r ≠ .outOfRange
  exact : ∀ fuel data name, arFindMember b pre fuel = some (.found data name) →
    IsArchive b ∧ FirstMember b pre 8 data name
  complete : ∀ ms, b = archive ms → ∀ m, ms.find? (fun m => hasPrefix m.trimmedName pre) = some m →
    ∃ fuel, arFindMember b pre fuel = some (.found m.data m.trimmedName)

/-! ## One pass -/

section
variable {b pre name data : Bytes} {off : ℕ} {size : ℤ}

theorem header_eq_some : header b off = some (name, size) ↔
    (off + 60 ≤ b.length ∧ readAt b (off + 58) 2 = headerMagic) ∧
      scanInt (trimSpace (readAt b (off + 48) 10)) = some size ∧ off + 60 + size ≤ b.length ∧
      trimRight (readAt b off 16) (str " /") = name := by
  unfold header
  split_ifs with h
  · simp only [Option.map_eq_some_iff, Option.filter_eq_some_iff, decide_eq_true_eq, Prod.mk.injEq]
    constructor
    · rintro ⟨z, ⟨hscan, hfits⟩, hname, rfl⟩
      exact ⟨h, hscan, hfits, hname⟩
    · rintro ⟨-, hscan, hfits, hname⟩
      exact ⟨size, ⟨hscan, hfits⟩, hname, rfl⟩
  · exact ⟨nofun, fun hall => absurd hall.1 h⟩

theorem slice_field {lo : ℕ} (n : ℕ) (h : lo + n ≤ b.length) :
    slice b lo (lo + n) = some (readAt b lo n) := by
  have hs := slice_eq (Nat.le_add_right lo n) h
  rwa [Nat.add_sub_cancel_left, Nat.cast_add] at hs

theorem member_eq (h : off + 60 ≤ b.length) : member b pre off =
    if readAt b (off + 58) 2 ≠ headerMagic then .inl (.err (.badMagic off))
    else
      match scanInt (trimSpace (readAt b (off + 48) 10)) with
      | none => .inl (.err (.badSize (trimSpace (readAt b (off + 48) 10))))
      | some size =>
        if b.length < off + 60 + size then .inl (.err (.truncated (trimRight (readAt b off 16) (str " /"))))
        else if hasPrefix (trimRight (readAt b off 16) (str " /")) pre then
          match slice b (off + 60) (off + 60 + size) with
          | some data => .inl (.found data (trimRight (readAt b off 16) (str " /")))
          | none => .inl .outOfRange
        else .inr (evenUp (off + 60 + size)) := by
  have hname : slice b off (off + 16) = some (readAt b off 16) := slice_field 16 (by omega)
  have hsize : slice b (off + 48) (off + 58) = some (readAt b (off + 48) 10) := by
    have := slice_field 10 (by omega : off + 48 + 10 ≤ b.length)
    push_cast at this
    rwa [add_assoc] at this
  have hmagic : slice b (off + 58) (off + 60) = some (readAt b (off + 58) 2) := by
    have := slice_field 2 (by omega : off + 58 + 2 ≤ b.length)
    push_cast at this
    rwa [add_assoc] at this
  rw [member, if_pos (by exact_mod_cast h), hname, hsize, hmagic]

theorem member_header (h : header b off = some (name, size)) : member b pre off =
    if hasPrefix name pre then
      match slice b (off + 60) (off + 60 + size) with
      | some data => .inl (.found data name)
      | none => .inl .outOfRange
    else .inr (evenUp (off + 60 + size)) := by
  obtain ⟨⟨hlen, hmagic⟩, hscan, hfits, rfl⟩ := header_eq_some.mp h
  rw [member_eq hlen, if_neg (not_not.mpr hmagic), hscan]
  exact if_neg hfits.not_gt

/-- The search stops where there is no header, with an error. -/
theorem member_stop (h : header b off = none) : ∃ e, member b pre off = .inl (.err e) := by
  by_cases hlen : off + 60 ≤ b.length
  · rw [member_eq hlen]
    by_cases hmagic : readAt b (off + 58) 2 = headerMagic
    · rw [if_neg (not_not.mpr hmagic)]
      cases hscan : scanInt (trimSpace (readAt b (off + 48) 10)) with
      | none => exact ⟨_, rfl⟩
      | some size =>
        have hpast : b.length < off + 60 + size := by
          by_contra hfits
          cases h.symm.trans (header_eq_some.mpr ⟨⟨hlen, hmagic⟩, hscan, not_lt.mp hfits, rfl⟩)
        exact ⟨_, if_pos hpast⟩
    · exact ⟨_, if_pos hmagic⟩
  · exact ⟨.notFound pre, if_neg (by exact_mod_cast hlen)⟩

theorem member_negative {off : ℤ} (h : off < 0) (hlen : 60 ≤ b.length) :
    member b pre off = .inl .outOfRange := by
  have hslice : slice b off (off + 16) = none := if_neg (by omega)
  rw [member, if_pos (by omega), hslice]

theorem member_found {size : ℕ} (h : header b off = some (name, (size : ℤ))) (hpre : hasPrefix name pre) :
    member b pre off = .inl (.found (readAt b (off + 60) size) name) := by
  have hfits := (header_eq_some.mp h).2.2.1
  have hslice := slice_field size (by omega : off + 60 + size ≤ b.length)
  push_cast at hslice
  rw [member_header h, if_pos hpre, hslice]

theorem member_panics (h : header b off = some (name, size)) (hpre : hasPrefix name pre) (hneg : size < 0) :
    member b pre off = .inl .outOfRange := by
  have hslice : slice b (off + 60) (off + 60 + size) = none := if_neg (by omega)
  rw [member_header h, if_pos hpre, hslice]

theorem member_next (h : header b off = some (name, size)) (hpre : ¬ hasPrefix name pre) :
    member b pre off = .inr (evenUp (off + 60 + size)) := by
  rw [member_header h, if_neg hpre]

theorem evenUp_natCast (n : ℕ) : evenUp n = (n + n % 2 : ℕ) := by
  have hmod : (n : ℤ).tmod 2 = (n % 2 : ℕ) := rfl
  rw [evenUp, hmod]
  split_ifs with h <;> omega

end

/-! ## The walk -/

section
variable {b pre name data : Bytes} {off off' : ℕ} {r : ArResult}

theorem next_of_header {size : ℕ} (h : header b off = some (name, (size : ℤ)))
    (hpre : ¬ hasPrefix name pre) : Next b pre off (off + 60 + size + (off + 60 + size) % 2) := by
  refine ⟨name, size, h, hpre, ?_⟩
  rw [← evenUp_natCast]
  push_cast
  rfl

theorem Next.unique {c c' : ℕ} (h : Next b pre off c) (h' : Next b pre off c') : c = c' := by
  obtain ⟨name, size, hheader, -, heven⟩ := h
  obtain ⟨name', size', hheader', -, heven'⟩ := h'
  cases hheader.symm.trans hheader'
  exact Int.ofNat.inj (heven.symm.trans heven')

/-- A result is the same from every header that is met. -/
theorem returns_iff_of_reaches (h : Relation.ReflTransGen (Next b pre) off off') :
    Returns (member b pre) off r ↔ Returns (member b pre) off' r := by
  induction h with
  | refl => rfl
  | tail _ hnext ih =>
    obtain ⟨name, size, hheader, hpre, heven⟩ := hnext
    rw [ih, returns_inr (member_next hheader hpre), heven]

theorem FirstMember.returns (h : FirstMember b pre off data name) :
    Returns (member b pre) off (.found data name) := by
  induction h with
  | here hheader hpre => exact (returns_inl (member_found hheader hpre)).mpr rfl
  | next hheader hpre _ ih =>
    exact (returns_iff_of_reaches (.single (next_of_header hheader hpre))).mpr ih

/-- Up to the first member with the prefix no size is negative. -/
theorem FirstMember.size_nonneg {name' : Bytes} {size : ℤ} (h : FirstMember b pre off data name)
    (hmet : Relation.ReflTransGen (Next b pre) off off') (hheader : header b off' = some (name', size)) :
    0 ≤ size := by
  induction h with
  | here hhere hpre =>
    obtain rfl | ⟨c, ⟨n, z, hc, hnot, -⟩, -⟩ := hmet.cases_head
    · cases hhere.symm.trans hheader
      omega
    · cases hhere.symm.trans hc
      exact absurd hpre hnot
  | next hhere hpre _ ih =>
    obtain rfl | ⟨c, hnext, hmet⟩ := hmet.cases_head
    · cases hhere.symm.trans hheader
      omega
    · rw [hnext.unique (next_of_header hhere hpre)] at hmet
      exact ih hmet

/-- A pass that does not find the member stops at an offset without a header, panics, or goes on
to the next header. -/
theorem member_cases (b pre : Bytes) (off : ℕ) :
    (header b off = none ∧ ∃ e, member b pre off = .inl (.err e)) ∨
    (∃ name size, header b off = some (name, size) ∧ hasPrefix name pre ∧
      ((∃ n : ℕ, size = n ∧ member b pre off = .inl (.found (readAt b (off + 60) n) name)) ∨
        size < 0 ∧ member b pre off = .inl .outOfRange)) ∨
    (∃ name size, header b off = some (name, size) ∧ ¬ hasPrefix name pre ∧
      member b pre off = .inr (evenUp (off + 60 + size))) := by
  cases hheader : header b off with
  | none => exact .inl ⟨rfl, member_stop hheader⟩
  | some h =>
    obtain ⟨name, size⟩ := h
    by_cases hpre : hasPrefix name pre
    · refine .inr (.inl ⟨name, size, rfl, hpre, ?_⟩)
      obtain hneg | hnat := lt_or_ge size 0
      · exact .inr ⟨hneg, member_panics hheader hpre hneg⟩
      · obtain ⟨n, rfl⟩ := Int.eq_ofNat_of_zero_le hnat
        exact .inl ⟨n, rfl, member_found hheader hpre⟩
    · exact .inr (.inr ⟨name, size, rfl, hpre, member_next hheader hpre⟩)

theorem eq_evenUp_of_inr {z : ℤ} (h : member b pre off = .inr z) : ∃ name size,
    header b off = some (name, size) ∧ ¬ hasPrefix name pre ∧ z = evenUp (off + 60 + size) := by
  obtain ⟨-, _, hpass⟩ | ⟨_, _, -, -, ⟨_, -, hpass⟩ | ⟨-, hpass⟩⟩ | ⟨name, size, hheader, hpre, hpass⟩ :=
    member_cases b pre off
  case inr.inr => exact ⟨name, size, hheader, hpre, Sum.inr.inj (h.symm.trans hpass)⟩
  all_goals cases h.symm.trans hpass

/-- A search that ends with an error ends at an offset without a header. -/
theorem stop_of_returns_err {e : ArErr} (h : Returns (member b pre) off (.err e)) :
    ∃ off', Relation.ReflTransGen (Next b pre) off off' ∧ header b off' = none := by
  have hall := h.passes (M := fun z : ℤ => ∀ off : ℕ, z = off →
    ∃ off', Relation.ReflTransGen (Next b pre) off off' ∧ header b off' = none) ?_ ?_
  · exact hall off rfl
  · rintro z hlast off rfl
    obtain ⟨hstop, -⟩ | ⟨_, _, -, -, ⟨_, -, hpass⟩ | ⟨-, hpass⟩⟩ | ⟨_, _, -, -, hpass⟩ := member_cases b pre off
    · exact ⟨off, .refl, hstop⟩
    all_goals cases hlast.symm.trans hpass
  · rintro z z' hpass hret ih off rfl
    obtain ⟨name, size, hheader, hpre, rfl⟩ := eq_evenUp_of_inr hpass
    obtain hneg | hnat := lt_or_ge (evenUp (off + 60 + size)) 0
    · -- the next pass would panic
      have hlen := (header_eq_some.mp hheader).1.1
      cases (returns_inl (member_negative hneg (by omega))).mp hret
    · obtain ⟨c, hc⟩ := Int.eq_ofNat_of_zero_le hnat
      obtain ⟨off', hreach, hstop⟩ := ih c hc
      exact ⟨off', .head ⟨name, size, hheader, hpre, hc⟩ hreach, hstop⟩

/-- No header that is reached from an offset has a negative size. -/
def Forward (b pre : Bytes) (off : ℕ) : Prop := ∀ off' name size,
  Relation.ReflTransGen (Next b pre) off off' → header b off' = some (name, size) → 0 ≤ size

theorem Forward.next (h : Forward b pre off) (hnext : Next b pre off off') : Forward b pre off' :=
  fun off'' name size hreach hheader => h off'' name size (.head hnext hreach) hheader

/-- Without a negative size the next header lies behind the present one. -/
theorem Forward.exists_next {size : ℤ} (h : Forward b pre off) (hheader : header b off = some (name, size))
    (hpre : ¬ hasPrefix name pre) : ∃ c : ℕ, evenUp (off + 60 + size) = c ∧ off < c ∧ Next b pre off c := by
  obtain ⟨n, rfl⟩ := Int.eq_ofNat_of_zero_le (h off name size .refl hheader)
  obtain ⟨_, _, hheader', _, heven⟩ := next_of_header hheader hpre
  cases hheader.symm.trans hheader'
  exact ⟨_, heven, by omega, next_of_header hheader hpre⟩

theorem FirstMember.forward (h : FirstMember b pre off data name) : Forward b pre off :=
  fun _ _ _ hreach hheader => h.size_nonneg hreach hheader

theorem Forward.ends (h : Forward b pre off) : ∃ r, Returns (member b pre) off r ∧ r ≠ .outOfRange := by
  -- every pass moves the offset towards the end of the file
  refine exists_returns (I := fun z : ℤ => ∃ off : ℕ, z = off ∧ Forward b pre off)
    (fun z => b.length - z.toNat) ?_ ⟨off, rfl, h⟩
  rintro _ ⟨off, rfl, h⟩
  obtain ⟨-, e, hpass⟩ | ⟨name, size, hheader, -, hpass⟩ | ⟨name, size, hheader, hpre, hpass⟩ :=
    member_cases b pre off
  · exact .inl ⟨_, hpass, nofun⟩
  · obtain ⟨n, -, hpass⟩ | ⟨hneg, -⟩ := hpass
    · exact .inl ⟨_, hpass, nofun⟩
    · exact absurd (h off name size .refl hheader) hneg.not_ge
  · obtain ⟨c, hc, hlt, hnext⟩ := h.exists_next hheader hpre
    have hlen := (header_eq_some.mp hheader).1.1
    exact .inr ⟨c, hc ▸ hpass, ⟨c, rfl, h.next hnext⟩, by omega⟩

theorem Forward.firstMember (h : Forward b pre off) (hret : Returns (member b pre) off (.found data name)) :
    FirstMember b pre off data name := by
  have hall := hret.passes (M := fun z : ℤ => ∀ off : ℕ, z = off → Forward b pre off →
    FirstMember b pre off data name) ?_ ?_
  · exact hall off rfl h
  · rintro z hlast off rfl -
    obtain ⟨-, _, hpass⟩ | ⟨_, _, hheader, hpre, ⟨n, rfl, hpass⟩ | ⟨-, hpass⟩⟩ | ⟨_, _, -, -, hpass⟩ :=
      member_cases b pre off
    case inr.inl.inl =>
      cases hlast.symm.trans hpass
      exact .here hheader hpre
    all_goals cases hlast.symm.trans hpass
  · rintro z z' hpass - ih off rfl h
    obtain ⟨name', size, hheader, hpre, rfl⟩ := eq_evenUp_of_inr hpass
    obtain ⟨n, rfl⟩ := Int.eq_ofNat_of_zero_le (h off name' size .refl hheader)
    obtain ⟨_, _, hheader', _, heven⟩ := next_of_header hheader hpre
    cases hheader.symm.trans hheader'
    exact .next hheader hpre (ih _ heven (h.next (next_of_header hheader hpre)))

end

/-! ## Well-formed archives -/

theorem trimSpace_formatUint (n : ℕ) : trimSpace (formatUint n) = formatUint n := by
  have hspaces : ∀ w ∈ spaces, ∀ c ∈ w, ¬ (48 ≤ c.toNat ∧ c.toNat ≤ 57) := by decide +kernel
  exact trimSpace_eq_self fun w hw c hc hmem => hspaces w hw c hc (digit_of_mem_formatUint hmem)

section
variable (m : Member)

theorem Member.length_sizeField : m.sizeField.length = 10 := by
  have hdigits : (formatUint m.data.length).length ≤ 10 := by
    rw [formatUint, List.length_map]
    exact (Nat.length_toDigits_le_iff (by decide) (by decide)).mpr m.length_data
  rw [sizeField, List.length_append, List.length_replicate]
  omega

theorem Member.scanInt_sizeField : scanInt (trimSpace m.sizeField) = some (m.data.length : ℤ) := by
  have hspace : ∀ c ∈ List.replicate (10 - (formatUint m.data.length).length) (0x20 : UInt8), [c] ∈ spaces := by
    intro c hc
    rw [List.eq_of_mem_replicate hc]
    decide
  have hlt := m.length_data
  rw [sizeField, trimSpace_append hspace, trimSpace_formatUint]
  exact scanInt_formatUint (by omega)

theorem Member.length_bytes : m.bytes.length = 60 + m.data.length + (60 + m.data.length) % 2 := by
  have hpad : m.padding.length = (60 + m.data.length) % 2 := by
    unfold padding
    split_ifs with h
    · rw [List.length_singleton]
      omega
    · rw [List.length_nil]
      omega
  simp only [bytes, List.length_append, m.length_name, m.length_attributes, m.length_sizeField, hpad]
  rfl

/-- The header of a member is read back, wherever it stands. -/
theorem header_member (front rest : Bytes) :
    header (front ++ (m.bytes ++ rest)) front.length = some (m.trimmedName, (m.data.length : ℤ)) := by
  have hlen := m.length_bytes
  have hname : readAt (front ++ (m.bytes ++ rest)) front.length 16 = m.name :=
    readAt_of_eq (c := m.attributes ++ m.sizeField ++ headerMagic ++ m.data ++ m.padding ++ rest)
      (by simp only [Member.bytes, List.append_assoc]) rfl m.length_name
  have hsize : readAt (front ++ (m.bytes ++ rest)) (front.length + 48) 10 = m.sizeField :=
    readAt_of_eq (a := front ++ m.name ++ m.attributes) (c := headerMagic ++ m.data ++ m.padding ++ rest)
      (by simp only [Member.bytes, List.append_assoc])
      (by rw [List.length_append, List.length_append, m.length_name, m.length_attributes]) m.length_sizeField
  have hmagic : readAt (front ++ (m.bytes ++ rest)) (front.length + 58) 2 = headerMagic :=
    readAt_of_eq (a := front ++ m.name ++ m.attributes ++ m.sizeField) (c := m.data ++ m.padding ++ rest)
      (by simp only [Member.bytes, List.append_assoc])
      (by simp only [List.length_append, m.length_name, m.length_attributes, m.length_sizeField]) rfl
  have hall : (front ++ (m.bytes ++ rest)).length = front.length + (m.bytes.length + rest.length) := by
    rw [List.length_append, List.length_append]
  refine header_eq_some.mpr ⟨⟨by omega, hmagic⟩, ?_, by omega, ?_⟩
  · rw [hsize, m.scanInt_sizeField]
  · rw [hname, Member.trimmedName]

theorem data_member (front rest : Bytes) :
    readAt (front ++ (m.bytes ++ rest)) (front.length + 60) m.data.length = m.data :=
  readAt_of_eq (a := front ++ m.name ++ m.attributes ++ m.sizeField ++ headerMagic) (c := m.padding ++ rest)
    (by simp only [Member.bytes, List.append_assoc])
    (by simp only [List.length_append, m.length_name, m.length_attributes, m.length_sizeField]; rfl) rfl

end

/-- The members of an archive follow each other at even offsets. -/
theorem firstMember_archive {pre front : Bytes} {ms : List Member} {m : Member} (heven : front.length % 2 = 0)
    (h : ms.find? (fun m => hasPrefix m.trimmedName pre) = some m) :
    FirstMember (front ++ ms.flatMap Member.bytes) pre front.length m.data m.trimmedName := by
  induction ms generalizing front with
  | nil => cases h
  | cons k ms ih =>
    have hheader := header_member k front (ms.flatMap Member.bytes)
    have hdata := data_member k front (ms.flatMap Member.bytes)
    rw [List.flatMap_cons]
    rw [List.find?_cons] at h
    split at h
    next hpre =>
      cases h
      have hfirst := FirstMember.here hheader hpre
      rwa [hdata] at hfirst
    next hpre =>
      refine .next hheader (by rw [hpre]; exact Bool.false_ne_true) ?_
      have hlen := k.length_bytes
      have heven' : (front ++ k.bytes).length % 2 = 0 := by
        rw [List.length_append]
        omega
      have hrest := ih heven' h
      rw [List.append_assoc, List.length_append] at hrest
      rwa [show front.length + 60 + k.data.length + (front.length + 60 + k.data.length) % 2 =
        front.length + k.bytes.length by omega]

/-! ## The search is right -/

section
variable {b pre : Bytes}

theorem arFindMember_archive (h : IsArchive b) (fuel : ℕ) :
    arFindMember b pre fuel = run (member b pre) fuel 8 := if_pos h

theorem isArchive_archive (ms : List Member) : IsArchive (archive ms) := by
  refine ⟨?_, readAt_of_eq (a := []) rfl rfl rfl⟩
  rw [archive, List.length_append]
  exact Nat.le_add_right 8 _

theorem archive_complete {ms : List Member} {m : Member}
    (h : ms.find? (fun m => hasPrefix m.trimmedName pre) = some m) :
    ∃ fuel, arFindMember (archive ms) pre fuel = some (.found m.data m.trimmedName) := by
  obtain ⟨fuel, hrun⟩ := (firstMember_archive (by decide : archiveMagic.length % 2 = 0) h).returns
  exact ⟨fuel, (arFindMember_archive (isArchive_archive ms) fuel).trans hrun⟩

theorem arSound_of_not_isArchive (h : ¬ IsArchive b) : ArSound b pre where
  ends := ⟨0, _, if_neg h, nofun⟩
  exact fuel data name hfound := by
    rw [arFindMember, if_neg h] at hfound
    cases hfound
  complete ms hb := absurd (hb ▸ isArchive_archive ms) h

theorem arSound_of_forward (h : IsArchive b) (hforward : Forward b pre 8) : ArSound b pre where
  ends := by
    obtain ⟨r, ⟨fuel, hrun⟩, hr⟩ := hforward.ends
    exact ⟨fuel, r, (arFindMember_archive h fuel).trans hrun, hr⟩
  exact fuel data name hfound :=
    ⟨h, hforward.firstMember ⟨fuel, (arFindMember_archive h fuel).symm.trans hfound⟩⟩
  complete ms hb m hm := hb ▸ archive_complete hm

/-- A walk that runs into an offset without a header finds nothing. -/
theorem arSound_of_stop {off : ℕ} (h : IsArchive b) (hmet : Met b pre off) (hstop : header b off = none) :
    ArSound b pre := by
  obtain ⟨e, hpass⟩ : ∃ e, member b pre off = .inl (.err e) := member_stop hstop
  have herr : Returns (member b pre) 8 (.err e) :=
    (returns_iff_of_reaches hmet).mpr ((returns_inl hpass).mpr rfl)
  refine ⟨?_, ?_, fun ms hb m hm => hb ▸ archive_complete hm⟩
  · obtain ⟨fuel, hrun⟩ := herr
    exact ⟨fuel, _, (arFindMember_archive h fuel).trans hrun, nofun⟩
  · intro fuel data name hfound
    cases herr.unique ⟨fuel, (arFindMember_archive h fuel).symm.trans hfound⟩

end

/-- **The files on which the search is right**: no header that is met has a negative size, or the
walk runs into an offset without a header all the same. -/
theorem arFindMember_iff (b pre : Bytes) :
    ArSound b pre ↔ ¬ IsArchive b ∨
      (∀ off name size, Met b pre off → header b off = some (name, size) → 0 ≤ size) ∨
      ∃ off, Met b pre off ∧ header b off = none := by
  constructor
  · intro h
    by_cases harchive : IsArchive b
    · obtain ⟨fuel, r, hrun, hr⟩ := h.ends
      have hret : Returns (member b pre) 8 r := ⟨fuel, (arFindMember_archive harchive fuel).symm.trans hrun⟩
      cases r with
      | found data name => exact .inr (.inl (h.exact fuel data name hrun).2.forward)
      | err e => exact .inr (.inr (stop_of_returns_err hret))
      | outOfRange => exact absurd rfl hr
    · exact .inl harchive
  · rintro (harchive | hforward | ⟨off, hmet, hstop⟩)
    · exact arSound_of_not_isArchive harchive
    · by_cases harchive : IsArchive b
      · exact arSound_of_forward harchive hforward
      · exact arSound_of_not_isArchive harchive
    · by_cases harchive : IsArchive b
      · exact arSound_of_stop harchive hmet hstop
      · exact arSound_of_not_isArchive harchive

/-- An archive of one empty member, `debian-binary`, with this size. -/
def debianBinary (size : String) : Bytes :=
  archiveMagic ++ str "debian-binary   0           0     0     100644  " ++ str size ++ headerMagic

/-- A size of `-60` leads back to the same header, for ever; a negative size of the member that is
looked for is a slice out of range. -/
theorem arFindMember_negative :
    (∀ fuel, arFindMember (debianBinary "-60       ") (str "data.tar") fuel = none) ∧
      arFindMember (debianBinary "-1        ") (str "debian") 1 = some .outOfRange := by
  constructor
  · intro fuel
    have harchive : IsArchive (debianBinary "-60       ") := by decide +kernel
    have hpass : member (debianBinary "-60       ") (str "data.tar") 8 = .inr 8 := by decide +kernel
    rw [arFindMember_archive harchive]
    cases hrun : run (member (debianBinary "-60       ") (str "data.tar")) fuel 8 with
    | none => rfl
    | some r =>
      refine absurd ⟨fuel, hrun⟩ (not_returns (I := fun z => z = 8) ?_ rfl)
      rintro _ rfl
      exact ⟨8, hpass, rfl⟩
  · decide +kernel

end TamagoUefi.Cmd.Ar
