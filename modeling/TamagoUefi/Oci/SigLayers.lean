import TamagoUefi.Oci.Cosign

/-!
# TamagoUefi.Oci.SigLayers — the layers of a signature manifest are independent (`cosign.go`)

Collecting keeps the first error and drops the layer, judging keeps the last error and goes on, so
neither can end the walk over the layers before a good signature is found.  Against a registry that
answers each request the same every time, `Verify` accepts exactly when the manifest was found and
some layer, with the body the registry has for it, is accepted (`accepts_iff`); the place of that
layer in the list and the other layers do not matter (`layers_independent`).

`CosignExt.reading m` is the environment in which the document found is read as the manifest `m`.
-/

namespace TamagoUefi.Oci

open Go Lib
open Lib.AskE

variable {K : Type}

/-- The same environment, with a signature manifest that reads as `m`. -/
def CosignExt.reading (c : CosignExt K) (m : SigManifest) : CosignExt K :=
  { c with unmarshalSigManifest := fun _ => .ok m }

/-- `Verify` returns nil for the signature manifest `m`, against the registry `s`. -/
def Accepts (c : CosignExt K) (s : Request → Reply) (pubKey : Option K) (reg : Registry) (ref : Ref)
    (manifestDigest : Bytes) (m : SigManifest) : Prop :=
  ((verify (c.reading m) pubKey reg ref manifestDigest).run.serve (fun _ => s) []).2 = .ok ()

/-- The registry has a document under one of the tags for signatures. -/
def HasSigManifest (s : Request → Reply) (reg : Registry) (manifestDigest : Bytes) : Prop :=
  (∃ r, parseDigest manifestDigest = .ok r) ∧
    ∃ tag raw, (fetchSigManifest reg none
      ((candidateSigTags manifestDigest).toOption.getD [])).run.eval s = .ok (tag, raw) ∧ raw ≠ []

section
variable {c : CosignExt K} {s : Request → Reply} {reg : Registry} {manifestDigest : Bytes}
  {m : SigManifest}

theorem parseSigManifest_reading {raw : Bytes} {m' : SigManifest} :
    parseSigManifest (c.reading m) raw = .ok m' ↔ raw ≠ [] ∧ m' = m := by
  unfold parseSigManifest decodeBody
  cases raw with
  | nil => simp
  | cons b raw => simp [CosignExt.reading, Except.mapError, eq_comm]

theorem eval_sigLayers {ls : List SigLayer} :
    (sigLayers (c.reading m) reg manifestDigest).run.eval s = .ok ls ↔
      HasSigManifest s reg manifestDigest ∧ m.layers ≠ [] ∧ ls = m.layers := by
  unfold sigLayers HasSigManifest
  cases hd : parseDigest manifestDigest with
  | error e =>
    simp only [reduceCtorEq, exists_false, false_and, iff_false]
    nofun
  | ok r =>
    dsimp only
    rw [eval_bind_eq_ok]
    constructor
    · rintro ⟨⟨tag, raw⟩, h₁, h₂⟩
      obtain ⟨m', h₃, h₄⟩ := eval_bind_eq_ok.mp h₂
      rw [eval_mapErr_eq_ok, eval_ofExcept] at h₃
      obtain ⟨hraw, rfl⟩ := parseSigManifest_reading.mp h₃
      by_cases hl : m'.layers.isEmpty = true
      · rw [if_pos hl] at h₄
        cases h₄
      · rw [if_neg hl] at h₄
        refine ⟨⟨⟨r, rfl⟩, tag, raw, eval_mapErr_eq_ok.mp h₁, hraw⟩, by simpa using hl, ?_⟩
        exact (Except.ok.inj h₄).symm
    · rintro ⟨⟨-, tag, raw, h₁, hraw⟩, hl, rfl⟩
      refine ⟨(tag, raw), eval_mapErr_eq_ok.mpr h₁, eval_bind_eq_ok.mpr ⟨m, ?_, ?_⟩⟩
      · rw [eval_mapErr_eq_ok, eval_ofExcept]
        exact parseSigManifest_reading.mpr ⟨hraw, rfl⟩
      · rw [if_neg (by simpa using hl)]
        rfl

theorem eval_collectSignatures : ∀ (ls : List SigLayer) (i : ℕ),
    (collectSignatures c reg i ls).eval s =
      parseLayers c i (ls.map fun l => (l, (fetchLayerBody c reg l).eval s))
  | [], _ => rfl
  | l :: ls, i => by
    rw [collectSignatures, Ask.eval_bind, Ask.eval_bind, eval_collectSignatures ls (i + 1),
      List.map_cons, parseLayers]
    dsimp only
    cases parseLayer c i l ((fetchLayerBody c reg l).eval s) <;> rfl

/-- **`Verify`**, against a registry that answers each request the same every time. -/
theorem accepts_iff {pubKey : Option K} {ref : Ref} :
    Accepts c s pubKey reg ref manifestDigest m ↔
      HasSigManifest s reg manifestDigest ∧ ∃ key, pubKey = some key ∧
        ∃ l ∈ m.layers, Accepted c key ref manifestDigest (l, (fetchLayerBody c reg l).eval s) := by
  unfold Accepts
  rw [Ask.serve_memoryless]
  cases pubKey with
  | none =>
    simp only [reduceCtorEq, false_and, exists_false, and_false, iff_false]
    nofun
  | some key =>
    unfold verify
    rw [eval_bind_eq_ok]
    constructor
    · rintro ⟨layers, h₁, h₂⟩
      obtain ⟨hfound, -, rfl⟩ := eval_sigLayers.mp h₁
      obtain ⟨⟨sigs, err⟩, h₃, h₄⟩ := eval_bind_eq_ok.mp h₂
      rw [eval_lift, eval_collectSignatures] at h₃
      rw [eval_ofExcept, judgeSignatures_ok] at h₄
      obtain ⟨sig, hmem, hok⟩ := h₄
      have hsigs : _ = sigs := congrArg Prod.fst (Except.ok.inj h₃)
      rw [← hsigs, mem_parseLayers] at hmem
      obtain ⟨d, hd, hp⟩ := hmem
      obtain ⟨l, hl, rfl⟩ := List.mem_map.mp hd
      exact ⟨hfound, key, rfl, l, hl, sig, hp, hok⟩
    · rintro ⟨hfound, key', hkey, l, hl, sig, hp, hok⟩
      cases hkey
      refine ⟨m.layers, eval_sigLayers.mpr ⟨hfound, List.ne_nil_of_mem hl, rfl⟩, ?_⟩
      refine eval_bind_eq_ok.mpr ⟨_, eval_lift, ?_⟩
      rw [eval_collectSignatures, eval_ofExcept, judgeSignatures_ok]
      exact ⟨sig, (mem_parseLayers _ _ _).mpr ⟨_, List.mem_map_of_mem hl, hp⟩, hok⟩

/-- **The layers are independent**: `Verify` accepts a signature manifest when it accepts one of its
layers alone; so it accepts every manifest that has all the layers of an accepted one, whatever their
order and the layers added to them. -/
theorem layers_independent (c : CosignExt K) (s : Request → Reply) (pubKey : Option K) (reg : Registry)
    (ref : Ref) (manifestDigest : Bytes) (m : SigManifest) :
    (Accepts c s pubKey reg ref manifestDigest m ↔
      ∃ l ∈ m.layers, Accepts c s pubKey reg ref manifestDigest { m with layers := [l] }) ∧
    ∀ m' : SigManifest, m.layers ⊆ m'.layers → Accepts c s pubKey reg ref manifestDigest m →
      Accepts c s pubKey reg ref manifestDigest m' := by
  simp only [accepts_iff, List.mem_singleton, exists_eq_left]
  constructor
  · constructor
    · rintro ⟨hfound, key, hkey, l, hl, hacc⟩
      exact ⟨l, hl, hfound, key, hkey, hacc⟩
    · rintro ⟨l, hl, hfound, key, hkey, hacc⟩
      exact ⟨hfound, key, hkey, l, hl, hacc⟩
  · rintro m' hsub ⟨hfound, key, hkey, l, hl, hacc⟩
    exact ⟨hfound, key, hkey, l, hsub hl, hacc⟩

end

/-- The bundle of `twoSubjectExt` under its digest, and a signature manifest under every tag. -/
def bundleServer (q : Request) : Reply :=
  if q.url = (toyRef (str "latest")).blobURL twoSubjectLayer.digest then ⟨none, 200, [], [str "B"]⟩
  else ⟨none, 200, [], [str "M"]⟩

/-- A good layer after one that is not recognised and before one that cannot be fetched. -/
theorem layers_independent_mixed :
    Accepts twoSubjectExt bundleServer (some ()) ⟨toyRef (str "latest"), [], true⟩
      (toyRef (str "latest")) wrongDigest
      ⟨2, [], [⟨[], [], 0, []⟩, twoSubjectLayer, { twoSubjectLayer with digest := [] }]⟩ := by
  refine (layers_independent _ _ _ _ _ _ _).1.mpr ⟨twoSubjectLayer, by simp, ?_⟩
  unfold Accepts
  decide +kernel

end TamagoUefi.Oci
