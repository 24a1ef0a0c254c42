import Beluga.Release.EvidenceBuild

/-! # A forged bundle

A bundle that says another version of a component than `VERSIONS.md`, and is verified.

* `clean_render`: the rendering of a small inventory has no carriage return;
* `evidence_forged`: the bundle, whatever the digest of its files.
-/

namespace Release

open Py

namespace EvidenceBundle

open Json (Writable sortKeys sortEntries)

open AssetInventory

/-! ## Clean texts -/

theorem clean_ofList (cs : List Char) (h : cs.contains '\r' = false) : Clean (String.ofList cs) := by
  rw [Clean, String.toList_ofList]
  simpa using h

theorem clean_append {s t : String} (hs : Clean s) (ht : Clean t) : Clean (s ++ t) := by
  rw [Clean, String.toList_append, List.mem_append, not_or]
  exact ⟨hs, ht⟩

theorem clean_intercalate {sep : String} {lines : List String} (hsep : Clean sep)
    (h : ∀ l ∈ lines, Clean l) : Clean (sep.intercalate lines) := by
  rw [Clean, String.toList_intercalate]
  induction lines with
  | nil => exact List.not_mem_nil
  | cons line lines ih =>
      rcases List.forall_mem_cons.mp h with ⟨hline, hlines⟩
      cases lines with
      | nil =>
          rw [List.map_singleton, List.intercalate_singleton]
          exact hline
      | cons line' lines =>
          rw [List.map_cons, List.map_cons, List.intercalate_cons_cons, ← List.map_cons,
            List.mem_append, List.mem_append, not_or, not_or]
          exact ⟨⟨hline, hsep⟩, ih hlines⟩

/-! The fixed lines of the document. -/

set_option maxRecDepth 8000 in
theorem clean_workloads_intro : ∀ l ∈ WORKLOADS_INTRO, Clean l := by
  unfold WORKLOADS_INTRO
  repeat' refine List.forall_mem_cons.mpr ⟨clean_ofList _ rfl, ?_⟩
  exact fun _ h => absurd h List.not_mem_nil

set_option maxRecDepth 8000 in
theorem clean_workloads_head : ∀ l ∈ WORKLOADS_HEAD, Clean l := by
  unfold WORKLOADS_HEAD
  repeat' refine List.forall_mem_cons.mpr ⟨clean_ofList _ rfl, ?_⟩
  exact fun _ h => absurd h List.not_mem_nil

set_option maxRecDepth 8000 in
theorem clean_custom_resources_intro : ∀ l ∈ CUSTOM_RESOURCES_INTRO, Clean l := by
  unfold CUSTOM_RESOURCES_INTRO
  repeat' refine List.forall_mem_cons.mpr ⟨clean_ofList _ rfl, ?_⟩
  exact fun _ h => absurd h List.not_mem_nil

set_option maxRecDepth 8000 in
theorem clean_custom_resources_head : ∀ l ∈ CUSTOM_RESOURCES_HEAD, Clean l := by
  unfold CUSTOM_RESOURCES_HEAD
  repeat' refine List.forall_mem_cons.mpr ⟨clean_ofList _ rfl, ?_⟩
  exact fun _ h => absurd h List.not_mem_nil

set_option maxRecDepth 8000 in
theorem clean_images_intro : ∀ l ∈ IMAGES_INTRO, Clean l := by
  unfold IMAGES_INTRO
  repeat' refine List.forall_mem_cons.mpr ⟨clean_ofList _ rfl, ?_⟩
  exact fun _ h => absurd h List.not_mem_nil

set_option maxRecDepth 8000 in
theorem clean_images_head : ∀ l ∈ IMAGES_HEAD, Clean l := by
  unfold IMAGES_HEAD
  repeat' refine List.forall_mem_cons.mpr ⟨clean_ofList _ rfl, ?_⟩
  exact fun _ h => absurd h List.not_mem_nil

set_option maxRecDepth 8000 in
theorem clean_storage_intro : ∀ l ∈ STORAGE_INTRO, Clean l := by
  unfold STORAGE_INTRO
  repeat' refine List.forall_mem_cons.mpr ⟨clean_ofList _ rfl, ?_⟩
  exact fun _ h => absurd h List.not_mem_nil

set_option maxRecDepth 8000 in
theorem clean_storage_head : ∀ l ∈ STORAGE_HEAD, Clean l := by
  unfold STORAGE_HEAD
  repeat' refine List.forall_mem_cons.mpr ⟨clean_ofList _ rfl, ?_⟩
  exact fun _ h => absurd h List.not_mem_nil

set_option maxRecDepth 8000 in
theorem clean_tail_intro : ∀ l ∈ TAIL_INTRO, Clean l := by
  unfold TAIL_INTRO
  repeat' refine List.forall_mem_cons.mpr ⟨clean_ofList _ rfl, ?_⟩
  exact fun _ h => absurd h List.not_mem_nil

set_option maxRecDepth 8000 in
theorem clean_tail_end : ∀ l ∈ TAIL_END, Clean l := by
  unfold TAIL_END
  repeat' refine List.forall_mem_cons.mpr ⟨clean_ofList _ rfl, ?_⟩
  exact fun _ h => absurd h List.not_mem_nil

/-- A section of one item. -/
theorem tableOf_one {inventory : Entries} {key : String} {intro head : List String}
    {before after line : String} {rowOf : Value → Try String} {v : Value}
    (hlookup : inventory.lookup key = some (.list [v])) (hrow : rowOf v = .ok line) :
    tableOf inventory key intro before after head rowOf =
      .ok (intro ++ [before ++ toString 1 ++ after] ++ head ++ [line]) := by
  unfold tableOf
  refine bind_ok_iff.mpr ⟨_, item_dict.mpr hlookup, ?_⟩
  refine bind_ok_iff.mpr ⟨1, rfl, bind_ok_iff.mpr ⟨[v], rfl, bind_ok_iff.mpr ⟨[line], ?_, rfl⟩⟩⟩
  rw [List.mapM_cons, hrow]
  rfl

theorem clean_table {intro head : List String} {before after line : String}
    (hintro : ∀ l ∈ intro, Clean l) (hhead : ∀ l ∈ head, Clean l) (hbefore : Clean before)
    (hafter : Clean after) (hline : Clean line) :
    ∀ l ∈ intro ++ [before ++ toString 1 ++ after] ++ head ++ [line], Clean l := by
  intro l hl
  simp only [List.mem_append, List.mem_singleton] at hl
  rcases hl with ((hl | rfl) | hl) | rfl
  · exact hintro l hl
  · exact clean_append (clean_append hbefore (clean_ofList ['1'] rfl)) hafter
  · exact hhead l hl
  · exact hline

/-! ## The bundle -/

section Sample

def sampleText : Py.Text where
  quote s := "'" ++ s ++ "'"
  float _ := "0.0"
  float_head := Py.float_head_zero

theorem sampleText_line (x : Js.Num) : '\r' ∉ (sampleText.float x).toList :=
  clean_ofList ['0', '.', '0'] rfl

/-- The hexadecimal digests of the files. -/
structure Digest where
  sha256 : ByteArray → String
  hex : ∀ data, (sha256 data).toList.length = 64 ∧
    ∀ c ∈ (sha256 data).toList, c.isDigit = true ∨ ('a' ≤ c ∧ c ≤ 'f')

def samplePolicy : Value :=
  .dict [("approved_licenses", .list [.str "MIT"]),
    ("own_project_marker", .dict [("value", .str "own"), ("rationale", .str "ours")])]

def sampleTools (digest : Digest) : Tools where
  py := sampleText
  shown _ := "error"
  repr _ := "error"
  float_line := sampleText_line
  safe_load _ := .ok samplePolicy
  dumps _ := ""
  uuid5 _ := ""
  casefold s := s
  sha256 := digest.sha256
  sha256_hex := digest.hex

def sampleField (key : String) : String × Value :=
  (key, if key = "profiles" then .list [.str "default"] else .str "x")

def sampleItem (fields : List String) : Value := .dict (fields.map sampleField)

/-- One item in each section; the keys are in order. -/
def sampleAssets : Entries :=
  [("charts", strList CHARTS),
    ("customResources", .list [sampleItem ["apiVersion", "id", "kind", "namespace", "operator",
      "profiles", "source"]]),
    ("images", .list [.dict [("component", .str "x"), ("consumers", .list []), ("image", .str "x"),
      ("license", .str "x"), ("profiles", .list [.str "default"]), ("version", .str "x")]]),
    ("profiles", strList PROFILES),
    ("storage", .list [sampleItem ["capacity", "consumer", "name", "namespace", "profiles",
      "source", "type"]]),
    ("summary", .dict [("customResources", .int 1), ("images", .int 1), ("storageAssets", .int 1),
      ("workloads", .int 1)]),
    ("workloads", .list [.dict [("chart", .str "x"), ("id", .str "x"), ("images", .list []),
      ("kind", .str "x"), ("namespace", .str "x"), ("profiles", .list [.str "default"]),
      ("replicas", .int 1), ("source", .str "x")]])]

theorem sortEntries_sampleAssets : sortEntries sampleAssets = sampleAssets := by
  simp +decide [sampleAssets, sampleItem, sampleField, strList, CHARTS, PROFILES, sortEntries, sortKeys,
    Json.sortItems, Json.insertEntry]

theorem writable_strs_list (xs : List String) : Writable sampleText (strList xs) := by
  refine .list fun v hv => ?_
  rcases List.mem_map.mp hv with ⟨x, _, rfl⟩
  exact .str x

theorem writable_one {v : Value} (h : Writable sampleText v) : Writable sampleText (.list [v]) :=
  .list fun w hw => by
    rw [List.mem_singleton.mp hw]
    exact h

theorem writable_sampleItem {fields : List String} (hnodup : fields.Nodup) :
    Writable sampleText (sampleItem fields) := by
  refine .dict ?_ fun e he => ?_
  · rw [List.map_map]
    exact (List.map_id fields).symm ▸ hnodup
  · rcases List.mem_map.mp he with ⟨key, _, rfl⟩
    unfold sampleField
    split
    · exact writable_one (.str _)
    · exact .str _

theorem writable_sampleAssets : Writable sampleText (.dict sampleAssets) := by
  refine .dict (by decide) fun e he => ?_
  simp only [sampleAssets, List.mem_cons, List.not_mem_nil, or_false] at he
  rcases he with rfl | rfl | rfl | rfl | rfl | rfl | rfl
  · exact writable_strs_list _
  · exact writable_one (writable_sampleItem (by decide))
  · refine writable_one (.dict (by decide) fun e he => ?_)
    simp only [List.mem_cons, List.not_mem_nil, or_false] at he
    rcases he with rfl | rfl | rfl | rfl | rfl | rfl
    · exact .str _
    · exact .list fun _ h => absurd h List.not_mem_nil
    · exact .str _
    · exact .str _
    · exact writable_one (.str _)
    · exact .str _
  · exact writable_strs_list _
  · exact writable_one (writable_sampleItem (by decide))
  · refine .dict (by decide) fun e he => ?_
    simp only [List.mem_cons, List.not_mem_nil, or_false] at he
    rcases he with rfl | rfl | rfl | rfl
    · exact .int _
    · exact .int _
    · exact .int _
    · exact .int _
  · refine writable_one (.dict (by decide) fun e he => ?_)
    simp only [List.mem_cons, List.not_mem_nil, or_false] at he
    rcases he with rfl | rfl | rfl | rfl | rfl | rfl | rfl | rfl
    · exact .str _
    · exact .str _
    · exact .list fun _ h => absurd h List.not_mem_nil
    · exact .str _
    · exact .str _
    · exact writable_one (.str _)
    · exact .int _
    · exact .str _

def sampleInventory : Inventory sampleText := ⟨sampleAssets, writable_sampleAssets⟩

theorem complete_sample : sampleInventory.Complete where
  sections := by
    intro key hkey
    simp only [SECTIONS, List.mem_cons, List.not_mem_nil, or_false] at hkey
    rcases hkey with rfl | rfl | rfl | rfl
    · rfl
    · rfl
    · rfl
    · rfl
  counts := ⟨_, rfl, rfl⟩

set_option maxRecDepth 8000 in
/-- The rendering of the sample. -/
theorem clean_render : ∃ markdown, render_markdown_en sampleText sampleAssets = .ok markdown ∧
    Clean markdown := by
  have hworkload : ∃ v, sampleAssets.lookup "workloads" = some (.list [v]) ∧
      ∃ line, workloadRow sampleText v = .ok line ∧ Clean line :=
    ⟨_, rfl, _, rfl, by unfold Clean; decide +kernel⟩
  have hresource : ∃ v, sampleAssets.lookup "customResources" = some (.list [v]) ∧
      ∃ line, customResourceRow sampleText v = .ok line ∧ Clean line :=
    ⟨_, rfl, _, rfl, by unfold Clean; decide +kernel⟩
  have himage : ∃ v, sampleAssets.lookup "images" = some (.list [v]) ∧
      ∃ line, imageRow sampleText v = .ok line ∧ Clean line :=
    ⟨_, rfl, _, rfl, by unfold Clean; decide +kernel⟩
  have hstorage : ∃ v, sampleAssets.lookup "storage" = some (.list [v]) ∧
      ∃ line, storageRow sampleText v = .ok line ∧ Clean line :=
    ⟨_, rfl, _, rfl, by unfold Clean; decide +kernel⟩
  rcases hworkload with ⟨w, hw, wline, hwline, hwclean⟩
  rcases hresource with ⟨r, hr, rline, hrline, hrclean⟩
  rcases himage with ⟨i, hi, iline, hiline, hiclean⟩
  rcases hstorage with ⟨t, ht, tline, htline, htclean⟩
  have hconditional : ∃ lines : List (List String), (do
      let ws ← item (.dict sampleAssets) "workloads"
      let crs ← item (.dict sampleAssets) "customResources"
      let assets ← concat ws crs
      assets.mapM (conditionalLine sampleText) : Try (List (List String))) = .ok lines ∧
      lines.flatten = [] := ⟨_, rfl, rfl⟩
  rcases hconditional with ⟨lines, hlines, hnone⟩
  rcases bind_ok_iff.mp hlines with ⟨ws, hws, hlines₁⟩
  rcases bind_ok_iff.mp hlines₁ with ⟨crs, hcrs, hlines₂⟩
  rcases bind_ok_iff.mp hlines₂ with ⟨assets, hassets, hlines₃⟩
  unfold render_markdown_en
  refine ⟨_, bind_ok_iff.mpr ⟨_, tableOf_one hw hwline, bind_ok_iff.mpr ⟨_, tableOf_one hr hrline,
    bind_ok_iff.mpr ⟨_, tableOf_one hi hiline, bind_ok_iff.mpr ⟨_, tableOf_one ht htline,
    bind_ok_iff.mpr ⟨ws, hws, bind_ok_iff.mpr ⟨crs, hcrs, bind_ok_iff.mpr ⟨assets, hassets,
    bind_ok_iff.mpr ⟨lines, hlines₃, rfl⟩⟩⟩⟩⟩⟩⟩⟩, ?_⟩
  refine clean_intercalate (clean_ofList ['\n'] rfl) fun l hl => ?_
  rw [hnone, List.append_nil] at hl
  have htotal : Clean "A total of " := clean_ofList _ rfl
  have hworkloads := clean_table clean_workloads_intro clean_workloads_head htotal
    (clean_ofList _ rfl : Clean " distinct declared workloads are rendered across the listed profiles. `Conditional` means absent from the default profile.") hwclean
  have hresources := clean_table clean_custom_resources_intro clean_custom_resources_head htotal
    (clean_ofList _ rfl : Clean " distinct custom resources are declared across the listed profiles.") hrclean
  have himages := clean_table clean_images_intro clean_images_head
    (clean_ofList _ rfl : Clean "All ")
    (clean_ofList _ rfl : Clean " distinct container images from the listed profiles appear below. Matching expected versions come from [VERSIONS.md](../VERSIONS.md); `Unmapped` means no matching row pin.") hiclean
  have hstorages := clean_table clean_storage_intro clean_storage_head htotal
    (clean_ofList _ rfl : Clean " persistent volume claims, volume claim templates, and operator-managed cluster storage specifications are cataloged.") htclean
  rcases List.mem_append.mp hl with hl | hl
  · rcases List.mem_append.mp hl with hl | hl
    · rcases List.mem_append.mp hl with hl | hl
      · rcases List.mem_append.mp hl with hl | hl
        · rcases List.mem_append.mp hl with hl | hl
          · exact hworkloads l hl
          · exact hresources l hl
        · exact himages l hl
      · exact hstorages l hl
    · exact clean_tail_intro l hl
  · exact clean_tail_end l hl

/-! ## The forgery -/

def sampleRow : LicensePolicy.Row := ⟨"a", "1", "-", "MIT"⟩

/-- The component in another version. -/
def forgedRow : LicensePolicy.Row := ⟨"a", "2", "-", "MIT"⟩

def sampleCommit : String := "0123456789abcdef0123456789abcdef01234567"

def sampleInputs (markdown : String) : Inputs where
  notice := ⟨"NOTICE", some ByteArray.empty⟩
  license_file := ⟨"LICENSE", some ByteArray.empty⟩
  versions_md := ⟨"VERSIONS.md", some (write_text "| a | 1 | - | MIT |\n")⟩
  policy := ⟨"license-policy.yaml", some (write_text "")⟩
  asset_md := ⟨"platform-asset-inventory.md", some (write_text markdown)⟩

def forgedParts (markdown : String) : Parts where
  items := [⟨"a", "2", "-", "MIT", "permissive", "attribution + license text", false⟩]
  versions := [Sbom.versionsComponent "own" 0 forgedRow]
  images := []
  notice := ByteArray.empty
  license := ByteArray.empty
  markdown := markdown

variable {digest : Digest} {markdown : String}

theorem derived_sample : Sbom.versions_components (sampleTools digest)
    (sampleInputs markdown).versions_md (sampleInputs markdown).policy =
      .ok [Sbom.versionsComponent "own" 0 sampleRow] := by
  have hpolicy : (sampleInputs markdown).policy.read_text = .ok "" :=
    read_text_clean (clean_ofList [] rfl)
  have hversions : (sampleInputs markdown).versions_md.read_text = .ok "| a | 1 | - | MIT |\n" :=
    read_text_clean (clean_ofList _ rfl : Clean "| a | 1 | - | MIT |\n")
  have hloaded : LicensePolicy.load_policy (sampleTools digest) (sampleInputs markdown).policy =
      .ok (["MIT"], "own") := by
    unfold LicensePolicy.load_policy
    rw [hpolicy]
    rfl
  have hrows : LicensePolicy.parse_versions_md (sampleInputs markdown).versions_md =
      .ok [sampleRow] := by
    unfold LicensePolicy.parse_versions_md
    rw [hversions]
    rfl
  unfold Sbom.versions_components
  rw [hloaded]
  refine bind_ok_iff.mpr ⟨_, rfl, ?_⟩
  rw [hrows]
  rfl

theorem made_forged :
    (forgedParts markdown).Made (sampleTools digest) "v1.0.0" sampleCommit
      (sampleInputs markdown) where
  identity := check_identity_ok.mpr ⟨by decide +kernel, by decide +kernel⟩
  items := List.cons_ne_nil _ _
  versions := ⟨"own", [forgedRow], _, rfl, derived_sample, "own", [sampleRow], rfl, rfl⟩
  images := fun _ h => absurd h List.not_mem_nil
  bom := by
    refine then_ok.mpr ⟨rfl, then_ok.mpr ⟨rfl, then_ok.mpr ⟨rfl, ?_⟩⟩⟩
    have hcommit : Sbom.isCommit sampleCommit = true := by decide +kernel
    exact bind_ok_iff.mpr ⟨[(.str "beluga:source-commit", .str sampleCommit)], rfl,
      demand_ok.mpr hcommit⟩
  notice := rfl
  license := rfl

/-- Verification does not vouch for the versions of the components. -/
theorem evidence_forged : ¬ ∃ digest : Digest, ∀ (bundle : Bundle) (commit : String)
    (inputs : Inputs), verify (sampleTools digest) bundle (some commit) inputs = .ok () →
      Vouched (sampleTools digest) bundle commit inputs := by
  intro hclaim
  rcases hclaim with ⟨digest, hclaim⟩
  rcases clean_render with ⟨markdown, hrendered, hclean⟩
  have hmade := @made_forged digest markdown
  have hmem : ∀ name ∈ REQUIRED, name ∈ (forgedParts markdown).files (sampleTools digest) "v1.0.0"
      sampleCommit sampleInventory.entries := fun name h => (mem_files name).mpr h
  have hsealed := @sealed_eq (sampleTools digest) _ hmem
  have hsurvives : sampleInventory.Survives markdown := by
    refine ⟨rfl, ?_⟩
    show render_markdown_en sampleText (sortEntries sampleAssets) = _
    rw [sortEntries_sampleAssets, newlines_clean hclean]
    exact hrendered
  have hverified := (verify_sealed hmade complete_sample rfl hsealed).mpr hsurvives
  rcases (hclaim _ _ _ hverified).components with
    ⟨bom, shipped, derived, hbom, hshipped, hderived, hperm⟩
  obtain rfl := Except.ok.inj ((readJson_bom hmade hsealed).symm.trans hbom)
  obtain rfl := Except.ok.inj (hmade.shipped.symm.trans hshipped)
  obtain rfl := Except.ok.inj (derived_sample.symm.trans hderived)
  -- the one component would have both versions
  have hone := List.perm_singleton.mp hperm
  have hversion : (declared (sortKeys (Sbom.versionsComponent "own" 0 forgedRow))).2.1 =
      (declared (Sbom.versionsComponent "own" 0 sampleRow)).2.1 :=
    congrArg (fun d => d.2.1) (List.cons.inj hone).1
  have hforged : (declared (sortKeys (Sbom.versionsComponent "own" 0 forgedRow))).2.1 = .str "2" :=
    get_sorted (@writable_versionsComponent (sampleTools digest) "own" 0 forgedRow) "version"
  rw [hforged] at hversion
  exact absurd (Value.str.inj hversion) (by decide)

end Sample

end EvidenceBundle

end Release
