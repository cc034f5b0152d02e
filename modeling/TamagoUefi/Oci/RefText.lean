import TamagoUefi.Lib.PrefixCode
import TamagoUefi.Oci.Base

/-!
# TamagoUefi.Oci.RefText — the text of a reference and `ParseRef` (`ref.go`)

`RefText` is a reference as it is written: an optional `http://` or `https://`, a host without slash,
a repository of non-empty components, and a tag or a digest.  `ParseRef` gives back the host, the
repository and the tag or digest (`parseRef_render`); no `://` can come from the parts themselves.

The scheme is another matter.  The override for local registries goes by the first letters of the
host and cannot tell a written `https` from the default one, so the scheme is the one meant exactly
in the cases of `RefText.SchemeKept` (`parseRef_render_iff`).
-/

namespace TamagoUefi.Oci

open Go Lib

/-! ## Texts -/

/-- The scheme in front of a reference. -/
inductive Written
  | implicit
  | http
  | https
  deriving DecidableEq

def Written.text : Written → Bytes
  | implicit => []
  | http => str "http://"
  | https => str "https://"

/-- What follows the repository. -/
inductive Tail
  | tag (t : Bytes)
  | digest (algo hex : Bytes)

namespace Tail

def text : Tail → Bytes
  | tag t => ':'.toUInt8 :: t
  | digest algo hex => '@'.toUInt8 :: (algo ++ ':'.toUInt8 :: hex)

/-- The field `Reference`. -/
def reference : Tail → Bytes
  | tag t => t
  | digest algo hex => algo ++ ':'.toUInt8 :: hex

/-- No slash, and nothing that would be taken for the start of the tail. -/
def Plain : Tail → Prop
  | tag t => '/'.toUInt8 ∉ t ∧ '@'.toUInt8 ∉ t ∧ ':'.toUInt8 ∉ t
  | digest algo hex => ('/'.toUInt8 ∉ algo ∧ '@'.toUInt8 ∉ algo) ∧ '/'.toUInt8 ∉ hex ∧ '@'.toUInt8 ∉ hex

end Tail

/-- A component of a repository. -/
def IsComponent (b : Bytes) : Prop :=
  b ≠ [] ∧ '/'.toUInt8 ∉ b ∧ '@'.toUInt8 ∉ b ∧ ':'.toUInt8 ∉ b

/-- A reference, taken apart. -/
structure RefText where
  written : Written
  host : Bytes
  /-- The components of the repository. -/
  components : List Bytes
  tail : Tail
  host_slash : '/'.toUInt8 ∉ host
  components_ne : components ≠ []
  isComponent : ∀ b ∈ components, IsComponent b
  plain : tail.Plain

namespace RefText

variable (p : RefText)

def repo : Bytes := List.intercalate ['/'.toUInt8] p.components

def render : Bytes :=
  p.written.text ++ (p.host ++ '/'.toUInt8 :: (p.repo ++ p.tail.text))

/-- The host without its port. -/
def hostname : Bytes := p.host.takeWhile (· ≠ ':'.toUInt8)

def isLocal : Bool := p.hostname = str "localhost" ∨ p.hostname = str "127.0.0.1"

/-- The scheme that is meant: the one written, and by default `http` for a local host. -/
def scheme : Bytes :=
  match p.written with
  | .http => str "http"
  | .https => str "https"
  | .implicit => if p.isLocal then str "http" else str "https"

def ref : Ref := ⟨p.scheme, p.host, p.repo, p.tail.reference⟩

/-- The first letters `ParseRef` goes by. -/
def looksLocal : Bool := hasPrefix p.host (str "localhost") || hasPrefix p.host (str "127.0.0.1")

/-- A host that looks local is one, and no `https` was written in front of it. -/
def SchemeKept : Prop :=
  p.looksLocal = true → p.written = .http ∨ p.written = .implicit ∧ p.isLocal = true

end RefText

/-! ## The parts -/

theorem splitScheme_append {scheme : Bytes} (h : Ends scheme (str "://")) (rest : Bytes) :
    splitScheme (scheme ++ str "://" ++ rest) = (scheme, rest) := by
  have hlen : scheme.length + 3 = (scheme ++ str "://").length := by
    rw [List.length_append]
    rfl
  unfold splitScheme
  rw [h.index_append]
  dsimp only
  rw [hlen, List.drop_left, List.append_assoc, List.take_left]

theorem mem_intercalate {sep b : UInt8} : ∀ {ls : List Bytes}, b ∈ List.intercalate [sep] ls →
    b = sep ∨ ∃ l ∈ ls, b ∈ l
  | [], h => by simp [List.intercalate] at h
  | [l], h => by
    rw [List.intercalate_singleton] at h
    exact .inr ⟨l, List.mem_singleton_self l, h⟩
  | l :: l' :: ls, h => by
    rw [List.intercalate_cons_cons, List.mem_append, List.mem_append, List.mem_singleton] at h
    rcases h with (h | h) | h
    · exact .inr ⟨l, List.mem_cons_self, h⟩
    · exact .inl h
    · rcases mem_intercalate h with h | ⟨l'', hl, h⟩
      · exact .inl h
      · exact .inr ⟨l'', List.mem_cons_of_mem l hl, h⟩

namespace RefText

variable {p : RefText}

theorem at_notMem_repo : '@'.toUInt8 ∉ p.repo := by
  intro h
  rcases mem_intercalate h with h | ⟨l, hl, h⟩
  · exact absurd h (by decide)
  · exact (p.isComponent l hl).2.2.1 h

theorem colon_notMem_repo : ':'.toUInt8 ∉ p.repo := by
  intro h
  rcases mem_intercalate h with h | ⟨l, hl, h⟩
  · exact absurd h (by decide)
  · exact (p.isComponent l hl).2.2.2 h

/-- The repository does not start with a slash. -/
theorem repo_eq_cons : ∃ b t, p.repo = b :: t ∧ b ≠ '/'.toUInt8 := by
  have hfirst : ∀ c ∈ p.components, ∃ b t, c = b :: t ∧ b ≠ '/'.toUInt8 := by
    intro c hc
    obtain ⟨hne, hslash, -⟩ := p.isComponent c hc
    obtain ⟨b, t, rfl⟩ := List.exists_cons_of_ne_nil hne
    exact ⟨b, t, rfl, fun h => hslash (h ▸ List.mem_cons_self)⟩
  have hne := p.components_ne
  unfold repo
  generalize p.components = cs at hfirst hne
  match cs with
  | [] => exact absurd rfl hne
  | [c] =>
    rw [List.intercalate_singleton]
    exact hfirst c List.mem_cons_self
  | c :: c' :: cs =>
    obtain ⟨b, t, rfl, hb⟩ := hfirst c List.mem_cons_self
    rw [List.intercalate_cons_cons]
    exact ⟨b, _, rfl, hb⟩

theorem slash_notMem_tail : '/'.toUInt8 ∉ p.tail.text := by
  have hplain := p.plain
  cases ht : p.tail with
  | tag t =>
    rw [ht] at hplain
    simp only [Tail.text, List.mem_cons, not_or]
    exact ⟨by decide, hplain.1⟩
  | digest algo hex =>
    rw [ht] at hplain
    simp only [Tail.text, List.mem_cons, List.mem_append, not_or]
    exact ⟨by decide, hplain.1.1, by decide, hplain.2.1⟩

/-- Behind the scheme there is no `://`: the first slash is not followed by another, and no colon
comes between it and the last slash. -/
theorem index_scheme : index (p.host ++ '/'.toUInt8 :: (p.repo ++ p.tail.text)) (str "://") = none := by
  cases hi : index (p.host ++ '/'.toUInt8 :: (p.repo ++ p.tail.text)) (str "://") with
  | none => rfl
  | some i =>
    exfalso
    have hat := index_eq_some hi
    generalize (p.host ++ '/'.toUInt8 :: (p.repo ++ p.tail.text)).take i = u,
      (p.host ++ '/'.toUInt8 :: (p.repo ++ p.tail.text)).drop (i + (str "://").length) = v at hat
    replace hat : p.host ++ '/'.toUInt8 :: (p.repo ++ p.tail.text) =
        u ++ ':'.toUInt8 :: '/'.toUInt8 :: '/'.toUInt8 :: v := by
      rw [hat, show str "://" = [':'.toUInt8, '/'.toUInt8, '/'.toUInt8] by decide]
      simp
    by_cases hu : '/'.toUInt8 ∈ u
    · -- the `://` starts behind the host
      obtain ⟨u₁, u₂, rfl, hu₁⟩ := List.eq_append_cons_of_mem hu
      rw [List.append_assoc, List.cons_append] at hat
      obtain ⟨-, hrest⟩ := split_at_stop p.host_slash hu₁ hat
      rcases List.append_eq_append_iff.mp hrest with ⟨w, rfl, htail⟩ | ⟨w, hrepo, hw⟩
      · exact slash_notMem_tail (p := p) (by rw [htail]; simp)
      · cases w with
        | nil => exact slash_notMem_tail (p := p) (by rw [← List.nil_append p.tail.text, ← hw]; simp)
        | cons b w =>
          obtain ⟨hb, -⟩ := List.cons.inj hw
          exact colon_notMem_repo (p := p) (by rw [hrepo, hb]; simp)
    · -- the slash after the host is its first
      have hu' : '/'.toUInt8 ∉ u ++ [':'.toUInt8] := by
        simp only [List.mem_append, List.mem_singleton, not_or]
        exact ⟨hu, by decide⟩
      obtain ⟨-, hrest⟩ := split_at_stop p.host_slash hu' (by simpa using hat)
      obtain ⟨b, t, hrepo, hb⟩ := repo_eq_cons (p := p)
      rw [hrepo] at hrest
      exact hb (List.cons.inj hrest).1

theorem splitScheme_render : splitScheme p.render =
    (if p.written = .http then str "http" else str "https",
      p.host ++ '/'.toUInt8 :: (p.repo ++ p.tail.text)) := by
  unfold render
  cases p.written with
  | implicit =>
    unfold splitScheme
    rw [Written.text, List.nil_append, index_scheme]
    rfl
  | http =>
    rw [show Written.http.text = str "http" ++ str "://" by decide, splitScheme_append ends_http]
    rfl
  | https =>
    rw [show Written.https.text = str "https" ++ str "://" by decide, splitScheme_append ends_https]
    rfl

theorem splitReference_render : splitReference (p.repo ++ p.tail.text) = (p.repo, p.tail.reference) := by
  have hplain := p.plain
  unfold splitReference
  cases ht : p.tail with
  | tag t =>
    rw [ht] at hplain
    obtain ⟨-, hat, hcolon⟩ := hplain
    have hnone : '@'.toUInt8 ∉ p.repo ++ ':'.toUInt8 :: t := by
      simp only [List.mem_append, List.mem_cons, not_or]
      exact ⟨at_notMem_repo, by decide, hat⟩
    simp only [Tail.text, Tail.reference, lastIndexByte_of_notMem hnone, lastIndexByte_append hcolon]
    simp
  | digest algo hex =>
    rw [ht] at hplain
    obtain ⟨⟨-, halgo⟩, -, hhex⟩ := hplain
    have hnone : '@'.toUInt8 ∉ algo ++ ':'.toUInt8 :: hex := by
      simp only [List.mem_append, List.mem_cons, not_or]
      exact ⟨halgo, by decide, hhex⟩
    simp only [Tail.text, Tail.reference, lastIndexByte_append hnone]
    simp

/-- The scheme `ParseRef` comes to. -/
def parsedScheme (p : RefText) : Bytes :=
  if p.looksLocal = true ∨ p.written = .http then str "http" else str "https"

/-- The override, as it is written in the source. -/
theorem override_eq (isLocalHost : Bool) (w : Written) :
    (if isLocalHost = true then
      if (if w = .http then str "http" else str "https") = str "https" then str "http"
      else if w = .http then str "http" else str "https"
    else if w = .http then str "http" else str "https") =
      if isLocalHost = true ∨ w = .http then str "http" else str "https" := by
  cases isLocalHost <;> cases w <;> decide

/-- **`ParseRef`** of a written reference: its parts, and a scheme. -/
theorem parseRef_render : parseRef p.render = .ok ⟨p.parsedScheme, p.host, p.repo, p.tail.reference⟩ := by
  have hdrop : (p.host ++ '/'.toUInt8 :: (p.repo ++ p.tail.text)).drop (p.host.length + 1) =
      p.repo ++ p.tail.text := by
    simp
  have hrepo : p.repo.isEmpty = false := by
    obtain ⟨b, t, h, -⟩ := repo_eq_cons (p := p)
    rw [h]
    rfl
  unfold parseRef parsedScheme looksLocal
  rw [splitScheme_render]
  dsimp only
  rw [indexByte_append p.host_slash]
  dsimp only
  rw [hdrop, List.take_left, splitReference_render]
  dsimp only
  rw [hrepo, if_neg Bool.false_ne_true]
  rw [override_eq]

theorem looksLocal_of_isLocal (h : p.isLocal = true) : p.looksLocal = true := by
  have hpre : p.hostname <+: p.host := List.takeWhile_prefix _
  unfold isLocal at h
  unfold looksLocal
  rw [Bool.or_eq_true, hasPrefix_iff, hasPrefix_iff]
  rcases of_decide_eq_true h with h | h
  · exact .inl (h ▸ hpre)
  · exact .inr (h ▸ hpre)

end RefText

/-- **`ParseRef` inverts rendering** exactly when the host does not merely look local and no `https`
is written in front of a host that looks local. -/
theorem parseRef_render_iff (p : RefText) : parseRef p.render = .ok p.ref ↔ p.SchemeKept := by
  have hscheme : parseRef p.render = .ok p.ref ↔ p.parsedScheme = p.scheme := by
    rw [RefText.parseRef_render, RefText.ref]
    simp
  have hne : str "http" ≠ str "https" := by decide
  rw [hscheme]
  unfold RefText.parsedScheme RefText.scheme RefText.SchemeKept
  cases hw : p.written with
  | http => simp
  | https => simp [hne]
  | implicit =>
    cases hl : p.isLocal with
    | true => simp [RefText.looksLocal_of_isLocal hl]
    | false => simp [hne]

/-- The host `localhost.example.com` with `r:t`. -/
def lookalike : RefText where
  written := .implicit
  host := str "localhost.example.com"
  components := [str "r"]
  tail := .tag (str "t")
  host_slash := by decide
  components_ne := by decide
  isComponent := by unfold IsComponent; decide
  plain := by unfold Tail.Plain; decide

/-- A host that is not local is asked for without TLS. -/
theorem parseRef_render_broken : ¬ ∀ p : RefText, parseRef p.render = .ok p.ref := by
  intro h
  have hlook := h lookalike
  revert hlook
  decide +kernel

end TamagoUefi.Oci
