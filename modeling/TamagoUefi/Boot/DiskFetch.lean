import TamagoUefi.Boot.Handoff

/-!
# TamagoUefi.Boot.DiskFetch — the size in a manifest and the disk image (`phase2_oci_freebsd_boot.go`)

The size of the first layer is a signed number from the registry.  `runOCIFreeBSDBootProbe` compares
it with the cap, allocates that many bytes and a padding, and slices the allocation.

* `runs_probe`: what a run ends with, from the manifest that was served.
* `diskFetch_iff`: a run is right if the first layer has no negative size, and only then.
-/

namespace TamagoUefi.Boot

open Go Lib Oci
open Lib.Ask (Runs)
open Lib.AskE

variable (x : Ext)

/-- The answer to the request for the manifest. -/
def ServedManifest (tr : List (Request × Reply)) (resp : Reply) : Prop :=
  (∃ q, tr[firstDocAt tr]? = some (q, resp)) ∧ resp.err = none ∧ resp.status = 200

/-- The first layer of the manifest that the registry serves in a run. -/
def ServedLayer (tr : List (Request × Reply)) (d : Descriptor) : Prop :=
  ∃ resp m, ServedManifest tr resp ∧ parseManifest x resp.body = .ok m ∧ m.layers.head? = some d

/-- A published image: the layer, and zeros up to a multiple of 512. -/
structure Published (h : Handoff) : Prop where
  length : (h.image.length : ℤ) = (h.target.size + 511) / 512 * 512
  bounded : (h.image.length : ℤ) ≤ freebsdBootMaxImageSize + 511
  digest : HashesTo x (h.image.take h.target.size.toNat) h.target.digest
  zero : h.image.drop h.target.size.toNat = List.replicate (h.image.length - h.target.size.toNat) 0

/-- A run stops with a message or publishes an image of the layer that was served; it does not panic. -/
def Tolerates (tr : List (Request × Reply)) : Except BootErr Handoff → Prop
  | .ok h => ServedLayer x tr h.target ∧ Published x h
  | .error e => e ≠ .panicked

/-! ## The request for the manifest -/

section
variable {x}

theorem getElem?_firstDocAt {r r' : Registry} {t₁ : List (Request × Reply)} (doc : Request × Reply)
    (t₂ : List (Request × Reply)) (h : Yields (authenticate r) t₁ r') :
    (t₁ ++ doc :: t₂)[firstDocAt (t₁ ++ doc :: t₂)]? = some doc := by
  simp [firstDocAt_append h]

theorem one_le_firstDocAt (qr : Request × Reply) (tr : List (Request × Reply)) : 1 ≤ firstDocAt (qr :: tr) := by
  unfold firstDocAt
  dsimp only
  split_ifs
  · exact le_rfl
  · decide

/-- A failed `Authenticate` is not followed by a request for the manifest. -/
theorem length_le_of_authenticate_error {r : Registry} {tr : List (Request × Reply)} {e : OciErr}
    (h : Runs (authenticate r).run tr (.error e)) : tr.length ≤ firstDocAt tr := by
  unfold authenticate at h
  rcases runs_bind.mp h with ⟨e', -, hprobe⟩ | ⟨t₁, t₂, resp, rfl, hprobe, hrest⟩
  · obtain ⟨resp, rfl, -⟩ := runs_mapErr_httpGet hprobe
    exact one_le_firstDocAt _ _
  · obtain ⟨rfl, -⟩ := yields_httpGet.mp (yields_mapErr.mp hprobe)
    split_ifs at hrest with h200 h401
    · obtain ⟨-, hbad⟩ := runs_run_pure.mp hrest
      cases hbad
    · obtain ⟨rfl, -⟩ := runs_run_throw.mp hrest
      exact one_le_firstDocAt _ _
    · rcases runs_bind.mp hrest with ⟨e', -, hurl⟩ | ⟨t₃, t₄, url, rfl, hurl, hfetch⟩
      · obtain ⟨rfl, -⟩ := runs_run_ofExcept.mp hurl
        exact one_le_firstDocAt _ _
      · obtain ⟨rfl, -⟩ := yields_ofExcept.mp hurl
        rcases runs_bind.mp hfetch with ⟨e', -, hfail⟩ | ⟨t₅, t₆, tok, rfl, -, hset⟩
        · obtain ⟨tok, rfl⟩ := runs_fetchToken hfail
          simp [firstDocAt, h200]
        · obtain ⟨-, hbad⟩ := runs_run_pure.mp hset
          cases hbad

theorem runs_fetchManifestRaw_error {r : Registry} {reference : Bytes} {tr : List (Request × Reply)}
    {e : OciErr} (h : Runs (fetchManifestRaw r reference).run tr (.error e)) :
    ∃ q resp, tr = [(q, resp)] ∧ ¬ (resp.err = none ∧ resp.status = 200) := by
  obtain ⟨resp, t, rfl, ⟨herr, rfl, -⟩ | ⟨herr, hrest⟩⟩ := runs_httpGet_bind h
  · exact ⟨_, resp, rfl, fun hok => herr hok.1⟩
  · split_ifs at hrest with hs
    · obtain ⟨rfl, -⟩ := runs_run_throw.mp hrest
      exact ⟨_, resp, rfl, fun hok => hs hok.2⟩
    · obtain ⟨-, hbad⟩ := runs_run_pure.mp hrest
      cases hbad

theorem runs_step_error {α : Type} {text : Bytes} {q : Net α} {tr : List (Request × Reply)} {e : BootErr}
    (h : Runs (step text q).run tr (.error e)) : ∃ cause, e = .oci text cause ∧ Runs q.run tr (.error cause) := by
  obtain ⟨y, hy, hrun⟩ := runs_run_mapErr.mp h
  cases y with
  | ok a => cases hy
  | error cause =>
    cases hy
    exact ⟨cause, rfl, hrun⟩

end

/-! ## The padding -/

theorem add_tailPad {size : ℤ} (h : 0 ≤ size) : size + tailPad size = (size + 511) / 512 * 512 := by
  unfold tailPad blockIOLogicalBlockSize
  dsimp only
  rw [Int.tmod_eq_emod_of_nonneg h]
  split_ifs with hrem <;> omega

theorem published_of_stored {h : Handoff} (hcap : h.target.size ≤ freebsdBootMaxImageSize)
    (hsize : 0 ≤ h.target.size) (hlayer : h.layer.length = h.target.size.toNat)
    (hstored : Stored x h.layer h.target)
    (himage : h.image = h.layer ++ List.replicate (tailPad h.target.size).toNat 0) : Published x h := by
  have hpad := add_tailPad hsize
  have hpos : 0 ≤ tailPad h.target.size := by omega
  have hlen : (h.image.length : ℤ) = h.target.size + tailPad h.target.size := by
    rw [himage, List.length_append, List.length_replicate]
    omega
  refine ⟨hlen.trans hpad, by omega, ?_, ?_⟩
  · rw [himage, ← hlayer, List.take_left]
    exact hstored.1
  · rw [himage, ← hlayer, List.drop_left, List.length_append, List.length_replicate, Nat.add_sub_cancel_left]

/-! ## Every run -/

section
variable {x}
variable {tr : List (Request × Reply)}

theorem servedLayer_iff {q : Request} {resp : Reply} {d : Descriptor}
    (h : tr[firstDocAt tr]? = some (q, resp)) : ServedLayer x tr d ↔ (resp.err = none ∧ resp.status = 200) ∧
      ∃ m, parseManifest x resp.body = .ok m ∧ m.layers.head? = some d := by
  constructor
  · rintro ⟨resp', m, ⟨⟨q', hget⟩, hok⟩, hm, hd⟩
    cases h.symm.trans hget
    exact ⟨hok, m, hm, hd⟩
  · rintro ⟨hok, m, hm, hd⟩
    exact ⟨resp, m, ⟨⟨q, h⟩, hok⟩, hm, hd⟩

theorem not_servedLayer (h : tr.length ≤ firstDocAt tr) (d : Descriptor) : ¬ ServedLayer x tr d := by
  rintro ⟨resp, m, ⟨⟨q, hget⟩, -⟩, -⟩
  rw [List.getElem?_eq_none h] at hget
  cases hget

theorem runs_firstLayer_error {t₁ t₂ raw : Bytes} {e : BootErr}
    (h : Runs (firstLayer x t₁ t₂ raw).run tr (.error e)) :
    tr = [] ∧ e ≠ .panicked ∧ ∀ m d, parseManifest x raw = .ok m → m.layers.head? ≠ some d := by
  unfold firstLayer at h
  rcases runs_bind.mp h with ⟨e', heq, hparse⟩ | ⟨s₁, s₂, m, rfl, hparse, hrest⟩
  · cases heq
    obtain ⟨cause, rfl, hrun⟩ := runs_step_error hparse
    obtain ⟨rfl, hbad⟩ := runs_run_ofExcept.mp hrun
    exact ⟨rfl, nofun, fun m d hm => absurd (hbad.trans hm) nofun⟩
  · obtain ⟨rfl, hm⟩ := yields_step_ofExcept.mp hparse
    cases hl : m.layers with
    | nil =>
      rw [hl] at hrest
      obtain ⟨rfl, heq⟩ := runs_run_throw.mp hrest
      cases heq
      refine ⟨rfl, nofun, ?_⟩
      intro m' d hm' hd
      cases hm.symm.trans hm'
      rw [hl] at hd
      cases hd
    | cons d rest =>
      rw [hl] at hrest
      obtain ⟨-, hbad⟩ := runs_run_pure.mp hrest
      cases hbad

/-- How a run ends when the manifest has a first layer. -/
inductive Fetched (x : Ext) (d : Descriptor) : Except BootErr Handoff → Prop
  | stopped {e : BootErr} : 0 ≤ d.size → e ≠ .panicked → Fetched x d (.error e)
  | panicked : d.size < 0 → Fetched x d (.error .panicked)
  | published {h : Handoff} : 0 ≤ d.size → h.target = d → Published x h → Fetched x d (.ok h)

/-- The beginning of a path, up to the document that the reference names. -/
theorem runs_firstDocument {β : Type} {parseText authText fetchText target : Bytes}
    {k : Registry → Bytes × Bytes → BootM β} {y : Except BootErr β}
    (h : Runs (do
      let ref ← step parseText (AskE.ofExcept (parseRef target))
      let reg ← step authText (authenticate (newRegistry ref))
      let doc ← step fetchText (fetchManifestRaw reg ref.reference)
      k reg doc : BootM β).run tr y) :
    (∃ e, y = .error e ∧ e ≠ .panicked ∧ ∀ d, ¬ ServedLayer x tr d) ∨
      ∃ reg q resp t, tr[firstDocAt tr]? = some (q, resp) ∧ resp.err = none ∧ resp.status = 200 ∧
        Runs (k reg (resp.body, resp.header (str "content-type"))).run t y := by
  rcases runs_bind.mp h with ⟨e, rfl, hfail⟩ | ⟨t₁, t₂, ref, rfl, href, h₂⟩
  · obtain ⟨cause, rfl, hrun⟩ := runs_step_error hfail
    obtain ⟨rfl, -⟩ := runs_run_ofExcept.mp hrun
    exact .inl ⟨_, rfl, nofun, not_servedLayer le_rfl⟩
  obtain ⟨rfl, -⟩ := yields_step_ofExcept.mp href
  rw [List.nil_append]
  rcases runs_bind.mp h₂ with ⟨e, rfl, hfail⟩ | ⟨t₃, t₄, reg, rfl, hauth, h₃⟩
  · obtain ⟨cause, rfl, hrun⟩ := runs_step_error hfail
    exact .inl ⟨_, rfl, nofun, not_servedLayer (length_le_of_authenticate_error hrun)⟩
  rcases runs_bind.mp h₃ with ⟨e, rfl, hfail⟩ | ⟨t₅, t₆, doc, rfl, hfetch, h₄⟩
  · obtain ⟨cause, rfl, hrun⟩ := runs_step_error hfail
    obtain ⟨q, resp, rfl, hbad⟩ := runs_fetchManifestRaw_error hrun
    have hget := getElem?_firstDocAt (q, resp) [] (yields_step.mp hauth)
    exact .inl ⟨_, rfl, nofun, fun d hd => hbad ((servedLayer_iff hget).mp hd).1⟩
  · obtain ⟨resp, rfl, herr, hstatus, rfl⟩ := yields_fetchManifestRaw (yields_step.mp hfetch)
    exact .inr ⟨reg, _, resp, t₆, getElem?_firstDocAt _ _ (yields_step.mp hauth), herr, hstatus, h₄⟩

/-- **Every run**: without a layer in the manifest there is a message, with one the size decides. -/
theorem runs_probe {target : Bytes} {y : Except BootErr Handoff}
    (h : Runs (runOCIFreeBSDBootProbe x target).run tr y) :
    (∃ e, y = .error e ∧ e ≠ .panicked ∧ ∀ d, ¬ ServedLayer x tr d) ∨
      ∃ d, (∀ d', ServedLayer x tr d' ↔ d' = d) ∧ Fetched x d y := by
  unfold runOCIFreeBSDBootProbe at h
  split_ifs at h with hempty
  · obtain ⟨rfl, rfl⟩ := runs_run_throw.mp h
    exact .inl ⟨_, rfl, nofun, not_servedLayer le_rfl⟩
  obtain hstop | ⟨reg, q, resp, t, hget, herr, hstatus, h₂⟩ := runs_firstDocument (x := x) h
  · exact .inl hstop
  rcases runs_bind.mp h₂ with ⟨e, rfl, hfail⟩ | ⟨t₁, t₂, d, rfl, hlayer, h₃⟩
  · obtain ⟨rfl, he, hnone⟩ := runs_firstLayer_error hfail
    refine .inl ⟨e, rfl, he, fun d hd => ?_⟩
    obtain ⟨-, m, hm, hhead⟩ := (servedLayer_iff hget).mp hd
    exact hnone m d hm hhead
  obtain ⟨rfl, m, hm, hhead⟩ := yields_firstLayer hlayer
  refine .inr ⟨d, fun d' => (servedLayer_iff hget).trans ⟨?_, ?_⟩, ?_⟩
  · rintro ⟨-, m', hm', hhead'⟩
    cases hm.symm.trans hm'
    exact Option.some.inj (hhead'.symm.trans hhead)
  · rintro rfl
    exact ⟨⟨herr, hstatus⟩, m, hm, hhead⟩
  · split_ifs at h₃ with hcap hneg
    · obtain ⟨-, rfl⟩ := runs_run_throw.mp h₃
      exact .stopped (le_trans (by decide) hcap.le) nofun
    · obtain ⟨-, rfl⟩ := runs_run_throw.mp h₃
      refine .panicked ?_
      by_contra hsize
      have := add_tailPad (not_lt.mp hsize)
      omega
    · have hsize : 0 ≤ d.size := by omega
      rcases runs_bind.mp h₃ with ⟨e, rfl, hfail⟩ | ⟨t₃, t₄, ⟨buf, n⟩, rfl, hblob, h₄⟩
      · obtain ⟨cause, rfl, -⟩ := runs_step_error hfail
        exact .stopped hsize nofun
      · obtain ⟨b, hstored, hb, hbuf⟩ := fetchBlobToBuffer_stored x (yields_step.mp hblob)
        obtain ⟨rfl, rfl⟩ := Prod.mk.inj hbuf
        rw [layer_fills hstored hsize.not_gt hb] at h₄
        dsimp only at h₄
        split_ifs at h₄ with hmbr hgpt
        · obtain ⟨-, rfl⟩ := runs_run_pure.mp h₄
          rw [List.take_length]
          exact .published hsize rfl (published_of_stored x (not_lt.mp hcap) hsize
            (layer_length hstored hsize.not_gt hb) hstored rfl)
        · obtain ⟨-, rfl⟩ := runs_run_throw.mp h₄
          exact .stopped hsize nofun
        · obtain ⟨-, rfl⟩ := runs_run_throw.mp h₄
          exact .stopped hsize nofun

end

/-- **The disk image fetch** is right against every registry, whatever it serves, if the first layer of
the manifest has no negative size, and only then. -/
theorem diskFetch_iff (s : List Request → Request → Reply) (target : Bytes) :
    let run := Ask.serve s [] (runOCIFreeBSDBootProbe x target).run
    Tolerates x run.1 run.2 ↔ ∀ d, ServedLayer x run.1 d → 0 ≤ d.size := by
  intro run
  have hruns : Runs (runOCIFreeBSDBootProbe x target).run run.1 run.2 := (Ask.serve_eq_iff.mp rfl).1
  obtain ⟨e, hy, he, hnone⟩ | ⟨d, hd, hfetched⟩ := runs_probe hruns
  · rw [hy]
    exact ⟨fun _ d hd => absurd hd (hnone d), fun _ => he⟩
  · have hall : (∀ d', ServedLayer x run.1 d' → 0 ≤ d'.size) ↔ 0 ≤ d.size :=
      ⟨fun h => h d ((hd d).mpr rfl), fun h d' hd' => (hd d').mp hd' ▸ h⟩
    rw [hall]
    generalize run.2 = y at hfetched
    cases hfetched with
    | stopped hsize he => exact ⟨fun _ => hsize, fun _ => he⟩
    | panicked hneg => exact ⟨fun h => absurd rfl h, fun h => absurd hneg h.not_gt⟩
    | published hsize htarget hpub => exact ⟨fun _ => hsize, fun _ => ⟨(hd _).mpr htarget, hpub⟩⟩

/-- A manifest `M` with one layer of this size. -/
def sizedExt (size : ℤ) : Ext where
  sha256 := toyExt.sha256
  unmarshalIndex _ := .error (str "EOF")
  unmarshalManifest b :=
    if b = str "M" then .ok ⟨2, [], ⟨[], [], 0, none⟩, [⟨[], wrongDigest, size, none⟩]⟩ else .error (str "EOF")
  unmarshalProbe _ := .error (str "EOF")

/-- A layer of size `-1` is a panic: the slice `imageBytes[:-1]`. -/
theorem diskFetch_negative :
    (Ask.serve (fun _ _ => served (str "M")) [] (runOCIFreeBSDBootProbe (sizedExt (-1)) (str "r.io/a")).run).2 =
      .error .panicked := by
  simp only [runOCIFreeBSDBootProbe, parseRef_toy]
  rfl

end TamagoUefi.Boot
