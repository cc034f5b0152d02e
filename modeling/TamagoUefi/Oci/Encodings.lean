import TamagoUefi.Lib.PrefixCode
import TamagoUefi.Oci.Cosign

/-!
# TamagoUefi.Oci.Encodings — the signed encodings do not collide (`cosign.go`)

A signature is over the bytes of `CanonicalPayload` or of `dssePAE`.  Both put texts of the caller
between fixed ones: the first escapes them, the second writes their length in front.  Read with
`Lib.PrefixCode`, the escapes are a prefix-free code none of whose words starts with a quote, and a
decimal length ends at the first space; so each text can be split off whatever it was meant to
imitate (`signable_encode_inj`).
-/

namespace TamagoUefi.Oci

open Go Lib

/-! ## Escapes -/

/-- The bytes `jsonEscape` does not copy: quote, backslash and the control bytes. -/
def escaped : List UInt8 := 0x22 :: 0x5C :: (List.range 0x20).map UInt8.ofNat

theorem jsonEscapeByte_of_escaped : ∀ c ∈ escaped, ∃ t, jsonEscapeByte c = 0x5C :: t := by
  have htable : ∀ c ∈ escaped, (jsonEscapeByte c).head? = some 0x5C := by decide +kernel
  intro c hc
  exact List.head?_eq_some_iff.mp (htable c hc)

theorem mem_escaped_of_lt {c : UInt8} (h : c < 0x20) : c ∈ escaped := by
  refine List.mem_cons_of_mem _ (List.mem_cons_of_mem _ ?_)
  exact List.mem_map.mpr ⟨c.toNat, List.mem_range.mpr h, UInt8.ofNat_toNat⟩

theorem jsonEscapeByte_of_not_escaped {c : UInt8} (h : c ∉ escaped) : jsonEscapeByte c = [c] := by
  have hne : ∀ b ∈ escaped, c ≠ b := fun b hb hcb => h (hcb ▸ hb)
  have hlt : ¬ c < 0x20 := fun hlt => h (mem_escaped_of_lt hlt)
  unfold jsonEscapeByte
  rw [if_neg (hne _ (by decide)), if_neg (hne _ (by decide)), if_neg (hne _ (by decide)),
    if_neg (hne _ (by decide)), if_neg (hne _ (by decide)), if_neg hlt]

/-- The escapes of single bytes are a prefix code. -/
theorem jsonEscapeByte_prefixFree : PrefixFree jsonEscapeByte := by
  have htable : ∀ a ∈ escaped, ∀ b ∈ escaped, jsonEscapeByte a <+: jsonEscapeByte b → a = b := by
    decide +kernel
  have hback : (0x5C : UInt8) ∈ escaped := by decide
  refine prefixFree_of_isPrefix fun a b h => ?_
  by_cases ha : a ∈ escaped
  · by_cases hb : b ∈ escaped
    · exact htable a ha b hb h
    · obtain ⟨t, ht⟩ := jsonEscapeByte_of_escaped a ha
      rw [ht, jsonEscapeByte_of_not_escaped hb] at h
      have hbyte : 0x5C = b := (List.cons_prefix_cons.mp h).1
      exact absurd (hbyte ▸ hback) hb
  · rw [jsonEscapeByte_of_not_escaped ha] at h
    by_cases hb : b ∈ escaped
    · obtain ⟨t, ht⟩ := jsonEscapeByte_of_escaped b hb
      rw [ht] at h
      have hbyte : a = 0x5C := (List.cons_prefix_cons.mp h).1
      exact absurd (hbyte ▸ hback) ha
    · rw [jsonEscapeByte_of_not_escaped hb] at h
      exact (List.cons_prefix_cons.mp h).1

theorem jsonEscape_prefixFree : PrefixFree fun s => jsonEscape s ++ [0x22] := by
  refine jsonEscapeByte_prefixFree.flatMap fun c => ?_
  by_cases hc : c ∈ escaped
  · obtain ⟨t, ht⟩ := jsonEscapeByte_of_escaped c hc
    exact ⟨0x5C, t, ht, by decide⟩
  · refine ⟨c, [], jsonEscapeByte_of_not_escaped hc, fun h => ?_⟩
    exact hc (h ▸ by decide)

/-! ## The two encodings -/

theorem canonicalPayload_inj {r d r' d' : Bytes}
    (h : canonicalPayload r d = canonicalPayload r' d') : r = r' ∧ d = d' := by
  have hmiddle : str "\"\x7d,\"image\":\x7b\"docker-manifest-digest\":\"" =
      [0x22] ++ str "\x7d,\"image\":\x7b\"docker-manifest-digest\":\"" := by decide
  have htype : str "\"\x7d,\"type\":\"" = [0x22] ++ str "\x7d,\"type\":\"" := by decide
  unfold canonicalPayload at h
  rw [hmiddle, htype] at h
  simp only [List.append_assoc] at h
  replace h := List.append_cancel_left h
  rw [← List.append_assoc (jsonEscape r), ← List.append_assoc (jsonEscape r')] at h
  obtain ⟨hr, hrest⟩ := jsonEscape_prefixFree _ _ _ _ h
  replace hrest := List.append_cancel_left hrest
  rw [← List.append_assoc (jsonEscape d), ← List.append_assoc (jsonEscape d')] at hrest
  exact ⟨hr, (jsonEscape_prefixFree _ _ _ _ hrest).1⟩

/-- A length ends at the first space. -/
theorem length_prefixFree : PrefixFree fun n => formatUint n ++ [0x20] := by
  refine prefixFree_terminated formatUint_injective fun n hspace => ?_
  have hd := (digit_of_mem_formatUint hspace).1
  exact absurd hd (by decide)

theorem dssePAE_inj {t p t' p' : Bytes} (h : dssePAE t p = dssePAE t' p') : t = t' ∧ p = p' := by
  have htext := length_prefixFree.lengthPrefixed
  have hsplit : ∀ t p, dssePAE t p = str "DSSEv1 " ++ ((formatUint t.length ++ [0x20] ++ t) ++
      (str " " ++ ((formatUint p.length ++ [0x20] ++ p) ++ []))) := by
    intro t p
    simp only [dssePAE, show str " " = [0x20] by decide, List.append_assoc, List.append_nil]
  rw [hsplit, hsplit] at h
  obtain ⟨ht, hrest⟩ := htext _ _ _ _ (List.append_cancel_left h)
  exact ⟨ht, (htext _ _ _ _ (List.append_cancel_left hrest)).1⟩

/-! ## What is signed -/

/-- A statement a key can sign: an image at a digest, or the payload of an envelope. -/
inductive Signable
  | image (dockerReference manifestDigest : Bytes)
  | envelope (payloadType payload : Bytes)

/-- The bytes that are hashed and signed. -/
def Signable.encode : Signable → Bytes
  | image dockerReference manifestDigest => canonicalPayload dockerReference manifestDigest
  | envelope payloadType payload => dssePAE payloadType payload

/-- **No collisions**: two statements with the same bytes are the same statement. -/
theorem signable_encode_inj (m m' : Signable) : m.encode = m'.encode ↔ m = m' := by
  -- a payload starts with a brace, an envelope with a `D`
  have hkind : ∀ r d t p, canonicalPayload r d ≠ dssePAE t p := by
    intro r d t p h
    have hhead := congrArg List.head? h
    simp [canonicalPayload, dssePAE, str] at hhead
  refine ⟨fun h => ?_, congrArg Signable.encode⟩
  cases m with
  | image r d =>
    cases m' with
    | image r' d' =>
      obtain ⟨rfl, rfl⟩ := canonicalPayload_inj h
      rfl
    | envelope t p => exact absurd h (hkind r d t p)
  | envelope t p =>
    cases m' with
    | image r' d' => exact absurd h.symm (hkind r' d' t p)
    | envelope t' p' =>
      obtain ⟨rfl, rfl⟩ := dssePAE_inj h
      rfl

end TamagoUefi.Oci
