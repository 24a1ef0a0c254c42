import Beluga.Upstream.AssetId

/-! # Asset ids as a codec

`deriveAssetId` against `parseAssetId`, in both directions.

* `parseAssetId_eq_some`: what is read from an id;
* `asset_id_codec`: when an id is read back, and when it is the only one of its asset.
-/

namespace Upstream

open Js

/-! ## Reading -/

/-- What stands in front of the segments. -/
def idFront (kind : DataAssetKind) : List Char := ("asset-" ++ kind.text ++ "-").toList

theorem idFront_inj {kind kind' : DataAssetKind} {cs : List Char} (h : idFront kind <+: cs)
    (h' : idFront kind' <+: cs) : kind = kind' := by
  have hdec : ∀ kind kind' : DataAssetKind, idFront kind <+: idFront kind' → kind = kind' := by
    intro kind kind'
    cases kind <;> cases kind' <;> decide
  rcases List.prefix_or_prefix_of_prefix h h' with hp | hp
  · exact hdec _ _ hp
  · exact (hdec _ _ hp).symm

theorem matchAssetId_eq_some {id : String} {kind : DataAssetKind} {raw : List Char} :
    matchAssetId id = some (kind, raw) ↔
      kind ≠ .topic ∧ id.toList = idFront kind ++ raw ∧ raw ≠ [] ∧
        ∀ c ∈ raw, lineTerminator c = false := by
  have hone : ∀ kind' : DataAssetKind, ∀ found,
      (if idFront kind' <+: id.toList ∧ id.toList.drop (idFront kind').length ≠ [] ∧
          (id.toList.drop (idFront kind').length).all (!lineTerminator ·) = true then
        some (kind', id.toList.drop (idFront kind').length) else none) = some found ↔
      found.1 = kind' ∧ id.toList = idFront kind' ++ found.2 ∧ found.2 ≠ [] ∧
        ∀ c ∈ found.2, lineTerminator c = false := by
    intro kind' found
    rw [Option.ite_none_right_eq_some]
    constructor
    · rintro ⟨⟨⟨rest, hrest⟩, hne, hall⟩, hfound⟩
      rw [← hrest, List.drop_left] at hne hall hfound
      cases hfound
      exact ⟨rfl, hrest.symm, hne, by simpa using hall⟩
    · rintro ⟨hkind, heq, hne, hall⟩
      rw [heq, List.drop_left]
      exact ⟨⟨List.prefix_append _ _, hne, by simpa using hall⟩, by rw [← hkind]⟩
  constructor
  · intro h
    obtain ⟨kind', hmem, hk⟩ := List.exists_of_findSome?_eq_some h
    obtain ⟨heq, hrest⟩ := (hone kind' (kind, raw)).mp hk
    have htopic : DataAssetKind.topic ∉ [DataAssetKind.catalog, .schema, .table] := by decide
    refine ⟨fun hk => htopic ?_, ?_⟩
    · rw [← hk, show kind = kind' from heq]
      exact hmem
    · rw [show kind = kind' from heq]
      exact hrest
  · rintro ⟨hne, hrest⟩
    have hmem : kind ∈ [DataAssetKind.catalog, .schema, .table] := by
      cases kind with
      | topic => exact absurd rfl hne
      | _ => decide
    cases hfind : matchAssetId id with
    | none =>
        have hnone := List.findSome?_eq_none_iff.mp hfind kind hmem
        have hsome := (hone kind (kind, raw)).mpr ⟨rfl, hrest⟩
        cases hnone.symm.trans hsome
    | some found =>
        -- the fronts of two kinds do not start the same text
        obtain ⟨kind', -, hk⟩ := List.exists_of_findSome?_eq_some hfind
        obtain ⟨hkind', heq', -⟩ := (hone kind' found).mp hk
        have hfront : found.1 = kind := by
          rw [hkind']
          exact idFront_inj (heq' ▸ List.prefix_append _ _) (hrest.1 ▸ List.prefix_append _ _)
        have hraw : found.2 = raw := by
          rw [hrest.1, ← hkind', hfront] at heq'
          exact (List.append_cancel_left heq').symm
        rw [← hfront, ← hraw]

/-- The number of segments that a kind has. -/
def Counted : DataAssetKind → Nat → Prop
  | .catalog, n => n = 1
  | .schema, n => 2 ≤ n
  | .table, n => 3 ≤ n
  | .topic, _ => False

theorem counted_iff {kind : DataAssetKind} {n : Nat} (hne : kind ≠ .topic) :
    ¬ (n < minSegments kind ∨ (kind = .catalog ∧ n ≠ 1)) ↔ Counted kind n := by
  cases kind with
  | topic => exact absurd rfl hne
  | catalog =>
      simp only [minSegments, Counted, true_and]
      omega
  | schema =>
      simp only [minSegments, Counted, reduceCtorEq, false_and, or_false]
      omega
  | table =>
      simp only [minSegments, Counted, reduceCtorEq, false_and, or_false]
      omega

/-- What is read from an id. -/
theorem parseAssetId_eq_some {id : String} {p : ParsedId} :
    parseAssetId id = some p ↔
      length id ≤ MAX_ASSET_ID_LENGTH ∧ ∃ raw, matchAssetId id = some (p.kind, raw) ∧
        [] ∉ raw.splitOn '.' ∧ (∀ seg ∈ p.segments, isSafeUpstreamSegment seg = true) ∧
        Counted p.kind p.segments.length ∧
        p.segments = (raw.splitOn '.').map fun cs => decodeIdSegment (String.ofList cs) := by
  have hempty : ∀ raw : List Char,
      ((raw.splitOn '.').map String.ofList).any (· = "") = true ↔ [] ∈ raw.splitOn '.' := by
    intro raw
    rw [List.any_map, List.any_eq_true]
    constructor
    · rintro ⟨cs, hcs, heq⟩
      have hnil : cs = [] := by simpa using heq
      exact hnil ▸ hcs
    · intro h
      exact ⟨[], h, by simp⟩
  rw [parseAssetId]
  by_cases hlen : MAX_ASSET_ID_LENGTH < length id
  · rw [if_pos hlen]
    exact ⟨nofun, fun h => absurd h.1 (by omega)⟩
  · rw [if_neg hlen]
    cases hmatch : matchAssetId id with
    | none => exact ⟨nofun, fun ⟨_, raw, h, _⟩ => nomatch h⟩
    | some found =>
        obtain ⟨kind, raw⟩ := found
        have hne := (matchAssetId_eq_some.mp hmatch).1
        have hmap : (((raw.splitOn '.').map String.ofList).map decodeIdSegment) =
            (raw.splitOn '.').map fun cs => decodeIdSegment (String.ofList cs) := List.map_map
        have hcount := @counted_iff kind ((raw.splitOn '.').map String.ofList).length hne
        simp only
        rw [Option.ite_none_left_eq_some, Option.ite_none_left_eq_some,
          Option.ite_none_left_eq_some, hempty, hcount, hmap]
        constructor
        · rintro ⟨hnil, hsafe, hcounted, hp⟩
          cases hp
          exact ⟨by omega, raw, rfl, hnil, by simpa using hsafe, by simpa using hcounted, rfl⟩
        · rintro ⟨-, raw', hraw, hnil, hsafe, hcounted, hp⟩
          cases hraw
          rw [hp] at hsafe hcounted
          exact ⟨hnil, by simpa using hsafe, by simpa using hcounted, by rw [← hp]⟩

theorem toList_deriveAssetId (kind : DataAssetKind) (segments : List String) :
    (deriveAssetId kind segments).toList =
      idFront kind ++ ['.'].intercalate (segments.map fun seg => (encodeIdSegment seg).toList) := by
  rw [deriveAssetId, String.toList_append, join, String.toList_intercalate, List.map_map]
  rfl

theorem encode_ne_nil {segment : String} (h : isSafeUpstreamSegment segment = true) :
    (encodeIdSegment segment).toList ≠ [] := by
  have hne : segment ≠ "" := by
    rintro rfl
    cases h
  intro hnil
  have hempty : encodeIdSegment segment = "" := String.toList_inj.mp hnil
  have hread := decode_encode segment
  rw [hempty] at hread
  exact hne hread.symm

/-! ## The codec -/

/-- What a regular expression takes for the end of a line, without being a control character. -/
def LineSeparator (c : Char) : Prop := c = '\u2028' ∨ c = '\u2029'

theorem lineTerminator_of_safe {segment : String} (h : isSafeUpstreamSegment segment = true)
    {c : Char} (hc : c ∈ segment.toList) : lineTerminator c = true ↔ LineSeparator c := by
  have hnot : unsafeChar c = false := by
    simp only [isSafeUpstreamSegment, Bool.and_eq_true, Bool.not_eq_true', List.any_eq_false] at h
    simpa using h.2 c hc
  have hnl : c ≠ '\n' := by
    rintro rfl
    cases hnot
  have hcr : c ≠ '\r' := by
    rintro rfl
    cases hnot
  simp [lineTerminator, LineSeparator, hnl, hcr]

/-- Escapes are not line terminators. -/
theorem lineTerminator_encode (segment : String) :
    (∀ c ∈ (encodeIdSegment segment).toList, lineTerminator c = false) ↔
      ∀ c ∈ segment.toList, lineTerminator c = false := by
  have hone : ∀ c, (∀ d ∈ escaped c, lineTerminator d = false) ↔ lineTerminator c = false := by
    intro c
    unfold escaped
    split_ifs with h₁ h₂
    · simp [h₁, lineTerminator]
    · simp [h₂, lineTerminator]
    · simp
  rw [toList_encodeIdSegment]
  constructor
  · intro h c hc
    exact (hone c).mp fun d hd => h d (List.mem_flatMap.mpr ⟨c, hc, hd⟩)
  · intro h d hd
    obtain ⟨c, hc, hd'⟩ := List.mem_flatMap.mp hd
    exact (hone c).mpr (h c hc) d hd'

theorem mem_intercalate_dot {raws : List (List Char)} {c : Char}
    (h : c ∈ ['.'].intercalate raws) : c = '.' ∨ ∃ cs ∈ raws, c ∈ cs := by
  induction raws with
  | nil => cases h
  | cons cs raws ih =>
      cases raws with
      | nil => exact .inr ⟨cs, List.mem_cons_self, by simpa using h⟩
      | cons ds raws =>
          rw [List.intercalate_cons_cons, List.append_assoc, List.mem_append,
            List.singleton_append, List.mem_cons] at h
          rcases h with h | h | h
          · exact .inr ⟨cs, List.mem_cons_self, h⟩
          · exact .inl h
          · exact (ih h).imp_right fun ⟨es, hes, hc⟩ => ⟨es, List.mem_cons_of_mem _ hes, hc⟩

theorem mem_intercalate_of_mem {raws : List (List Char)} {c : Char} {cs : List Char}
    (hcs : cs ∈ raws) (hc : c ∈ cs) : c ∈ ['.'].intercalate raws := by
  induction raws with
  | nil => cases hcs
  | cons ds raws ih =>
      cases raws with
      | nil =>
          rw [List.mem_singleton.mp hcs] at hc
          simpa using hc
      | cons es raws =>
          rw [List.intercalate_cons_cons]
          rcases List.mem_cons.mp hcs with rfl | hcs
          · exact List.mem_append_left _ (List.mem_append_left _ hc)
          · exact List.mem_append_right _ (ih hcs)

theorem not_mem_of_mem_splitOn {x : Char} {cs piece : List Char} (h : piece ∈ cs.splitOn x) :
    x ∉ piece := by
  induction cs generalizing piece with
  | nil =>
      rw [List.splitOn_nil, List.mem_singleton] at h
      rw [h]
      exact List.not_mem_nil
  | cons c cs ih =>
      rw [List.splitOn_cons_eq_if_modifyHead] at h
      by_cases hc : c = x
      · rw [if_pos (beq_iff_eq.mpr hc)] at h
        rcases List.mem_cons.mp h with rfl | h
        · exact List.not_mem_nil
        · exact ih h
      · rw [if_neg (by simpa using hc)] at h
        cases hsplit : cs.splitOn x with
        | nil => exact absurd hsplit (List.splitOn_ne_nil _ _)
        | cons first rest =>
            rw [hsplit, List.modifyHead_cons] at h
            rcases List.mem_cons.mp h with rfl | h
            · have hfirst : x ∉ first := ih (hsplit ▸ List.mem_cons_self)
              exact fun hx => (List.mem_cons.mp hx).elim (fun heq => hc heq.symm) hfirst
            · exact ih (hsplit ▸ List.mem_cons_of_mem _ h)

/-- The segments of a derived id are cut apart again. -/
theorem splitOn_encoded {segments : List String} (hne : segments ≠ []) :
    (['.'].intercalate (segments.map fun seg => (encodeIdSegment seg).toList)).splitOn '.' =
      segments.map fun seg => (encodeIdSegment seg).toList := by
  refine List.splitOn_intercalate '.' (fun cs hcs => ?_) (by simpa using hne)
  obtain ⟨seg, -, rfl⟩ := List.mem_map.mp hcs
  exact dot_not_mem_encode seg

theorem parse_derive {kind : DataAssetKind} {segments : List String}
    (hsafe : ∀ seg ∈ segments, isSafeUpstreamSegment seg = true)
    (hcount : Counted kind segments.length)
    (hlen : length (deriveAssetId kind segments) ≤ MAX_ASSET_ID_LENGTH) :
    parseAssetId (deriveAssetId kind segments) = some ⟨kind, segments⟩ ↔
      ∀ seg ∈ segments, ∀ c ∈ seg.toList, ¬ LineSeparator c := by
  have hne : segments ≠ [] := by
    rintro rfl
    cases kind <;> simp [Counted] at hcount
  have hkind : kind ≠ .topic := by
    rintro rfl
    exact hcount
  have hplain : (∀ seg ∈ segments, ∀ c ∈ seg.toList, ¬ LineSeparator c) ↔
      ∀ seg ∈ segments, ∀ c ∈ (encodeIdSegment seg).toList, lineTerminator c = false := by
    refine forall₂_congr fun seg hseg => ?_
    rw [lineTerminator_encode]
    refine forall₂_congr fun c hc => ?_
    rw [← lineTerminator_of_safe (hsafe seg hseg) hc, Bool.not_eq_true]
  rw [hplain, parseAssetId_eq_some]
  simp only [matchAssetId_eq_some, toList_deriveAssetId]
  constructor
  · rintro ⟨_, raw, ⟨_, heq, _, hterm⟩, _⟩ seg hseg c hc
    have hraw := List.append_cancel_left heq
    exact hterm c (hraw ▸ mem_intercalate_of_mem (List.mem_map_of_mem hseg) hc)
  · intro hterm
    refine ⟨hlen, _, ⟨hkind, rfl, ?_, ?_⟩, ?_, hsafe, hcount, ?_⟩
    · -- a safe segment is not empty, nor is what is written for it
      intro hnil
      have hsplit := splitOn_encoded hne
      rw [hnil, List.splitOn_nil] at hsplit
      have hmem : [] ∈ segments.map fun seg => (encodeIdSegment seg).toList := by
        rw [← hsplit]
        exact List.mem_singleton_self _
      obtain ⟨seg, hseg, hempty⟩ := List.mem_map.mp hmem
      exact encode_ne_nil (hsafe seg hseg) hempty
    · intro c hc
      rcases mem_intercalate_dot hc with rfl | ⟨cs, hcs, hc'⟩
      · decide
      · obtain ⟨seg, hseg, rfl⟩ := List.mem_map.mp hcs
        exact hterm seg hseg c hc'
    · rw [splitOn_encoded hne]
      intro hmem
      obtain ⟨seg, hseg, hempty⟩ := List.mem_map.mp hmem
      exact encode_ne_nil (hsafe seg hseg) hempty
    · rw [splitOn_encoded hne, List.map_map]
      refine (List.map_id' segments).symm.trans (List.map_congr_left fun seg _ => ?_)
      show seg = decodeIdSegment (String.ofList (encodeIdSegment seg).toList)
      rw [String.ofList_toList, decode_encode]

theorem derive_parse {id : String} {p : ParsedId} (h : parseAssetId id = some p) :
    deriveAssetId p.kind p.segments = id ↔ Canonical id.toList := by
  obtain ⟨-, raw, hmatch, hnil, hsafe, hcount, hsegs⟩ := parseAssetId_eq_some.mp h
  obtain ⟨-, heq, -, -⟩ := matchAssetId_eq_some.mp hmatch
  have hdots : ∀ cs ∈ raw.splitOn '.', '.' ∉ cs := fun cs hcs => not_mem_of_mem_splitOn hcs
  have hfront : Canonical (idFront p.kind ++ raw) ↔ Canonical raw := by
    cases p.kind <;> simp [idFront, DataAssetKind.text, canonical_cons]
  have hraws : Canonical raw ↔ ∀ cs ∈ raw.splitOn '.', Canonical cs := by
    rw [← canonical_intercalate, List.intercalate_splitOn]
  have hwrite : ∀ cs ∈ raw.splitOn '.',
      (encodeIdSegment (decodeIdSegment (String.ofList cs))).toList = cs ↔ Canonical cs := by
    intro cs hcs
    have hiff := @encode_decode_iff (String.ofList cs) (by simpa using hdots cs hcs)
    rw [String.toList_ofList, ← String.toList_inj, String.toList_ofList] at hiff
    exact hiff
  have hmap : (p.segments.map fun seg => (encodeIdSegment seg).toList) =
      (raw.splitOn '.').map fun cs =>
        (encodeIdSegment (decodeIdSegment (String.ofList cs))).toList := by
    rw [hsegs, List.map_map]
    rfl
  rw [← String.toList_inj, toList_deriveAssetId, heq, hfront, hraws, List.append_cancel_left_eq,
    hmap]
  constructor
  · intro hjoin cs hcs
    have hsplit : (raw.splitOn '.').map _ = raw.splitOn '.' :=
      (List.splitOn_intercalate '.' (by simp [dot_not_mem_encode])
        (by simp)).symm.trans (congrArg (·.splitOn '.') hjoin)
    exact (hwrite cs hcs).mp (List.map_inj_left.mp (hsplit.trans (List.map_id _).symm) cs hcs)
  · intro hcanon
    have hsame : (raw.splitOn '.').map (fun cs =>
        (encodeIdSegment (decodeIdSegment (String.ofList cs))).toList) = raw.splitOn '.' :=
      (List.map_congr_left fun cs hcs => (hwrite cs hcs).mpr (hcanon cs hcs)).trans
        (List.map_id _)
    rw [hsame, List.intercalate_splitOn]

/-- An id that is derived from safe segments in the right number is read back, if and only if no
segment holds a line or paragraph separator; an id that is read is the one that is derived from
what it is read as, if and only if each of its `%` begins one of the two escapes. -/
theorem asset_id_codec (kind : DataAssetKind) (segments : List String) (id : String)
    (p : ParsedId) :
    ((∀ seg ∈ segments, isSafeUpstreamSegment seg = true) → Counted kind segments.length →
      length (deriveAssetId kind segments) ≤ MAX_ASSET_ID_LENGTH →
        (parseAssetId (deriveAssetId kind segments) = some ⟨kind, segments⟩ ↔
          ∀ seg ∈ segments, ∀ c ∈ seg.toList, ¬ LineSeparator c)) ∧
    (parseAssetId id = some p →
      (deriveAssetId p.kind p.segments = id ↔ Canonical id.toList)) :=
  ⟨parse_derive, derive_parse⟩

/-- A table whose name holds a line separator, and an id that escapes a letter. -/
theorem codec_broken :
    (isSafeUpstreamSegment "a\u2028b" = true ∧
      length (deriveAssetId .catalog ["a\u2028b"]) ≤ MAX_ASSET_ID_LENGTH ∧
      parseAssetId (deriveAssetId .catalog ["a\u2028b"]) = none) ∧
    parseAssetId "asset-catalog-a%41" = some ⟨.catalog, ["a%41"]⟩ ∧
    deriveAssetId .catalog ["a%41"] ≠ "asset-catalog-a%41" := by
  decide +kernel

/-- `asset_id_codec` on a table whose names need both escapes. -/
theorem asset_id_codec_escaped :
    parseAssetId (deriveAssetId .table ["lake", "a.b", "50%2E"]) =
      some ⟨.table, ["lake", "a.b", "50%2E"]⟩ ∧
    deriveAssetId .table ["lake", "a.b", "50%2E"] = "asset-table-lake.a%2Eb.50%252E" := by
  have hplain : ∀ seg ∈ ["lake", "a.b", "50%2E"], ∀ c ∈ seg.toList, ¬ LineSeparator c := by
    simp [LineSeparator]
  have hread := ((asset_id_codec .table ["lake", "a.b", "50%2E"] "asset-table-lake.a%2Eb.50%252E"
    ⟨.table, ["lake", "a.b", "50%2E"]⟩).1 (by decide) (Nat.le_refl 3) (by decide +kernel)).mpr hplain
  have hread' : parseAssetId "asset-table-lake.a%2Eb.50%252E" =
      some ⟨.table, ["lake", "a.b", "50%2E"]⟩ := by decide +kernel
  refine ⟨hread, (asset_id_codec .table [] _ ⟨.table, ["lake", "a.b", "50%2E"]⟩).2 hread' |>.mpr ?_⟩
  simp [canonical_cons, canonical_escape, canonical_nil]

end Upstream
