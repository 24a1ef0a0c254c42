import Beluga.Py.JsonFiles
import Beluga.Release.EvidenceChecks

/-! # What a verified bundle vouches for -/

namespace Release

open Py

namespace EvidenceBundle

variable {tools : Tools} {bundle : Bundle}

/-! ## What is vouched for -/

/-- What a component says of itself: its name, its version and its licenses. -/
def declared (c : Value) : Value × Value × Value :=
  match c with
  | .dict d => (Py.get d "name", Py.get d "version", Py.get d "licenses")
  | _ => (.none, .none, .none)

/-- What is expected of a bundle that is verified for a commit. -/
structure Vouched (tools : Tools) (bundle : Bundle) (commit : String) (inputs : Inputs) : Prop where
  files : ∀ name, name ∈ bundle ↔ name ∈ REQUIRED ∨ name = SUMS
  notice : ∃ data, bundle.lookup NOTICE_NAME = some data ∧ inputs.notice.data = some data
  license : ∃ data, bundle.lookup LICENSE_NAME = some data ∧ inputs.license_file.data = some data
  asset_md : ∃ data, bundle.lookup ASSET_MD = some data ∧ inputs.asset_md.data = some data
  /-- The manifest and the bill of materials have the commit, and one version. -/
  identity : ∃ manifest bom version, readJson bundle MANIFEST = .ok manifest ∧
    readJson bundle SBOM = .ok bom ∧ item manifest "commit" = .ok (.str commit) ∧
    item manifest "version" = .ok (.str version) ∧
    sbomIdentity bom = .ok (.str commit, .str version)
  /-- The asset Markdown is what the asset JSON is rendered to. -/
  rendered : ∃ assets markdown, readJson bundle ASSET_JSON = .ok (.dict assets) ∧
    AssetInventory.render_markdown_en tools.py assets = .ok markdown ∧
    bundle.lookup ASSET_MD = some (write_text markdown)
  /-- The components from `VERSIONS.md` are those of the checkout. -/
  components : ∃ bom shipped derived, readJson bundle SBOM = .ok bom ∧
    shippedComponents bom = .ok shipped ∧
    Sbom.versions_components tools inputs.versions_md inputs.policy = .ok derived ∧
    (shipped.map declared).Perm (derived.map declared)

/-- What verification leaves open: a carriage return of the Markdown, and the versions and licenses
of the components, whose names alone it compares. -/
structure Faithful (tools : Tools) (bundle : Bundle) (inputs : Inputs) : Prop where
  markdown : ∀ data, bundle.lookup ASSET_MD = some data → CleanFile data
  components : ∀ bom shipped derived, readJson bundle SBOM = .ok bom →
    shippedComponents bom = .ok shipped →
    Sbom.versions_components tools inputs.versions_md inputs.policy = .ok derived →
    (shipped.map declared).Subperm (derived.map declared)

/-! ## The contents of a verified bundle -/

theorem item_dict {d : Entries} {key : String} {v : Value} :
    item (.dict d) key = .ok v ↔ d.lookup key = some v := by
  cases hlookup : d.lookup key with
  | none => simp [item, hlookup]
  | some w => simp [item, hlookup]

theorem readContents_ok {contents : Contents} (h : readContents bundle = .ok contents) :
    readJson bundle MANIFEST = .ok contents.manifest ∧ readJson bundle SBOM = .ok contents.bom ∧
      readJson bundle INV_JSON = .ok contents.inventory ∧
      readJson bundle ASSET_JSON = .ok contents.assets ∧
      readText bundle ASSET_MD = .ok contents.assets_md := by
  unfold readContents at h
  rcases bind_ok_iff.mp h with ⟨manifest, hmanifest, h₁⟩
  rcases bind_ok_iff.mp h₁ with ⟨bom, hbom, h₂⟩
  rcases bind_ok_iff.mp h₂ with ⟨inventory, hinventory, h₃⟩
  rcases bind_ok_iff.mp h₃ with ⟨assets, hassets, h₄⟩
  rcases bind_ok_iff.mp h₄ with ⟨assets_md, hmd, h₅⟩
  obtain rfl := Except.ok.inj h₅
  exact ⟨hmanifest, hbom, hinventory, hassets, hmd⟩

theorem check_identity_ok {version commit : String} :
    check_identity tools version commit = .ok () ↔
      VERSION_RE.test version = true ∧ Sbom.isCommit commit = true := by
  unfold check_identity
  rw [then_ok, demand_ok, demand_ok]

/-- A version begins with its letter. -/
theorem version_head {s : String} (h : VERSION_RE.test s = true) : 'v' ∈ s.toList.head? := by
  unfold Text.Regex.test at h
  cases hs : s.toList with
  | nil =>
      rw [hs] at h
      cases h
  | cons c cs =>
      by_cases hc : c = 'v'
      · rw [hc]
        exact rfl
      · rw [hs, Text.Regex.matches', List.foldl_cons] at h
        have hfail : VERSION_RE.deriv c = .fail := by
          simp [VERSION_RE, Text.Regex.deriv, Text.Regex.nullable, hc, Text.Regex.mkSeq]
        rw [hfail] at h
        exact absurd (h.symm.trans (Text.Regex.matches_fail cs)) (by decide)

theorem checkManifest_iff {m : Entries} {commit : String} :
    checkManifest tools (.dict m) (some commit) = .ok () ↔
      Py.get m "schema" = .str "beluga-release-evidence/v1" ∧
      (VERSION_RE.test ((Py.get m "version").text tools.py) = true ∧
        Sbom.isCommit ((Py.get m "commit").text tools.py) = true) ∧
      m.lookup "commit" = some (.str commit) := by
  have hexpected : checkExpected tools (.dict m) (some commit) = .ok () ↔
      m.lookup "commit" = some (.str commit) := by
    unfold checkExpected
    constructor
    · intro h
      rcases bind_ok_iff.mp h with ⟨v, hv, heq⟩
      rw [demand_ok, eq_str] at heq
      rw [item_dict.mp hv, heq]
    · intro h
      exact bind_ok_iff.mpr ⟨_, item_dict.mpr h, by rw [demand_ok, eq_str]⟩
  unfold checkManifest
  rw [then_ok, then_ok, demand_ok, eq_str, check_identity_ok, hexpected]

/-- A manifest that passes is for the commit, with a version. -/
theorem checkManifest_ok {manifest : Value} {commit : String}
    (h : checkManifest tools manifest (some commit) = .ok ()) :
    ∃ version, item manifest "commit" = .ok (.str commit) ∧
      item manifest "version" = .ok (.str version) := by
  cases manifest with
  | dict m =>
      rcases checkManifest_iff.mp h with ⟨_, hidentity, hcommit⟩
      have hhead := version_head hidentity.1
      have hversion : ∃ version, Py.get m "version" = .str version :=
        ⟨_, (text_eq_iff tools.py hhead rfl).mp rfl⟩
      rcases hversion with ⟨version, hversion⟩
      refine ⟨version, item_dict.mpr hcommit, item_dict.mpr ?_⟩
      exact (get_eq_iff (by simp)).mp hversion
  | _ => cases h

theorem matchesManifest_ok {bom manifest : Value} {commit version : String}
    (hcommit : item manifest "commit" = .ok (.str commit))
    (hversion : item manifest "version" = .ok (.str version)) :
    matchesManifest bom manifest = .ok true ↔
      sbomIdentity bom = .ok (.str commit, .str version) := by
  unfold matchesManifest
  rw [hcommit, hversion]
  constructor
  · intro h
    rcases bind_ok_iff.mp h with ⟨identity, hidentity, hrest⟩
    have hrest' : (if identity.1.eq (.str commit) then
        (.ok (identity.2.eq (.str version)) : Try Bool) else .ok false) = .ok true := hrest
    by_cases hsame : identity.1.eq (.str commit) = true
    · rw [if_pos hsame] at hrest'
      have hother := eq_str.mp (Except.ok.inj hrest')
      rw [hidentity, ← eq_str.mp hsame, ← hother]
    · rw [if_neg hsame] at hrest'
      cases hrest'
  · intro h
    refine bind_ok_iff.mpr ⟨_, h, ?_⟩
    show (if (Value.str commit).eq (.str commit) then
      (.ok ((Value.str version).eq (.str version)) : Try Bool) else .ok false) = .ok true
    rw [if_pos (eq_str.mpr rfl), eq_str.mpr rfl]

theorem checkSbom_iff {bom manifest : Value} {commit version : String}
    (hcommit : item manifest "commit" = .ok (.str commit))
    (hversion : item manifest "version" = .ok (.str version)) :
    checkSbom tools bom manifest = .ok () ↔ Sbom.validate_bom tools bom = .ok () ∧
      sbomIdentity bom = .ok (.str commit, .str version) := by
  unfold checkSbom
  rw [then_ok, caught_ok, ← matchesManifest_ok hcommit hversion]
  refine and_congr_right fun _ => ?_
  constructor
  · intro h
    rcases bind_ok_iff.mp h with ⟨same, hsame, hdemand⟩
    rw [caught_ok] at hsame
    rw [hsame, demand_ok.mp hdemand]
  · intro h
    exact bind_ok_iff.mpr ⟨true, caught_ok.mpr h, rfl⟩

/-- What the asset inventory has to be. -/
structure Shown (tools : Tools) (assets : Entries) (markdown : String) : Prop where
  lists : generatorLists assets = true
  sections : ∀ key ∈ SECTIONS, filled (Py.get assets key) = true
  counts : ∃ summary, Py.get assets "summary" = .dict summary ∧ countsMatch assets summary = true
  rendered : AssetInventory.render_markdown_en tools.py assets = .ok markdown

theorem check_asset_inventory_ok {assets : Value} {markdown : String} :
    check_asset_inventory tools assets markdown = .ok () ↔
      ∃ d, assets = .dict d ∧ Shown tools d markdown := by
  constructor
  · intro h
    unfold check_asset_inventory at h
    split at h
    · rename_i d
      split at h
      · rename_i summary hsummary
        rcases then_ok.mp h with ⟨hlists, h₁⟩
        rcases bind_ok_iff.mp h₁ with ⟨checked, hchecked, h₂⟩
        rcases then_ok.mp h₂ with ⟨hcounts, h₃⟩
        rcases bind_ok_iff.mp h₃ with ⟨rendered, hrendered, h₄⟩
        rw [demand_ok] at hlists hcounts h₄
        refine ⟨d, rfl, hlists, ?_, ⟨summary, hsummary, hcounts⟩, ?_⟩
        · intro key hkey
          rcases ok_of_mapM hchecked hkey with ⟨_, _, hfilled⟩
          exact demand_ok.mp hfilled
        · rw [← of_decide_eq_true h₄]
          exact caught_ok.mp hrendered
      · cases h
    · cases h
  · intro h
    rcases h with ⟨d, rfl, h⟩
    rcases h.counts with ⟨summary, hsummary, hcounts⟩
    have hchecked : ∀ message : String → String, (SECTIONS.mapM fun key =>
        demand (filled (Py.get d key)) (message key)) = .ok (SECTIONS.map fun _ => ()) := by
      intro message
      exact mapM_map fun key hkey => demand_ok.mpr (h.sections key hkey)
    simp only [check_asset_inventory, hsummary]
    refine then_ok.mpr ⟨demand_ok.mpr h.lists, bind_ok_iff.mpr ⟨_, hchecked _, ?_⟩⟩
    refine then_ok.mpr ⟨demand_ok.mpr hcounts, bind_ok_iff.mpr ⟨_, caught_ok.mpr h.rendered, ?_⟩⟩
    exact demand_ok.mpr (decide_eq_true rfl)

/-! ## The components -/

theorem insertValue_perm {v : Value} {vs ws : List Value} (h : insertValue v vs = .ok ws) :
    ws.Perm (v :: vs) := by
  induction vs generalizing ws with
  | nil =>
      obtain rfl := Except.ok.inj h
      exact .refl _
  | cons w vs ih =>
      rw [insertValue] at h
      rcases bind_ok_iff.mp h with ⟨later, _, h₁⟩
      cases later with
      | true =>
          rcases bind_ok_iff.mp h₁ with ⟨rest, hrest, h₂⟩
          obtain rfl := Except.ok.inj h₂
          exact ((ih hrest).cons w).trans (.swap v w vs)
      | false =>
          obtain rfl := Except.ok.inj h₁
          exact .refl _

theorem sortedValues_perm {vs ws : List Value} (h : sortedValues vs = .ok ws) : ws.Perm vs := by
  induction vs generalizing ws with
  | nil =>
      obtain rfl := Except.ok.inj h
      exact .refl _
  | cons v vs ih =>
      rw [sortedValues] at h
      rcases bind_ok_iff.mp h with ⟨rest, hrest, h₁⟩
      exact (insertValue_perm h₁).trans ((ih hrest).cons v)

theorem length_namesOf {comps names : List Value} (h : namesOf comps = .ok names) :
    names.length = comps.length := by
  unfold namesOf at h
  rcases bind_ok_iff.mp h with ⟨ns, hns, h₁⟩
  rw [(sortedValues_perm h₁).length_eq]
  exact (mapM_ok_iff.mp hns).length_eq.symm

theorem length_eqList {vs ws : List Value} (h : eqList vs ws = true) : vs.length = ws.length := by
  induction vs generalizing ws with
  | nil =>
      cases ws with
      | nil => rfl
      | cons w ws => cases h
  | cons v vs ih =>
      cases ws with
      | nil => cases h
      | cons w ws =>
          rw [eqList, Bool.and_eq_true] at h
          rw [List.length_cons, List.length_cons, ih h.2]

theorem checkComponents_ok {bom : Value} {inputs : Inputs} :
    checkComponents tools bom inputs = .ok () ↔ ∃ derived shipped expected names,
      Sbom.versions_components tools inputs.versions_md inputs.policy = .ok derived ∧
      shippedComponents bom = .ok shipped ∧ namesOf derived = .ok expected ∧
      namesOf shipped = .ok names ∧ eqList names expected = true := by
  unfold checkComponents
  constructor
  · intro h
    rcases bind_ok_iff.mp h with ⟨expected, hexpected, h₁⟩
    rcases bind_ok_iff.mp h₁ with ⟨shipped, hshipped, h₂⟩
    rcases bind_ok_iff.mp h₂ with ⟨names, hnames, h₃⟩
    rcases bind_ok_iff.mp (caught_ok.mp hexpected) with ⟨derived, hderived, hsorted⟩
    exact ⟨derived, shipped, expected, names, hderived, hshipped, hsorted, hnames,
      demand_ok.mp h₃⟩
  · intro h
    rcases h with ⟨derived, shipped, expected, names, hderived, hshipped, hsorted, hnames, heq⟩
    refine bind_ok_iff.mpr ⟨expected, caught_ok.mpr ?_, ?_⟩
    · exact bind_ok_iff.mpr ⟨derived, hderived, hsorted⟩
    · exact bind_ok_iff.mpr ⟨shipped, hshipped, bind_ok_iff.mpr ⟨names, hnames,
        demand_ok.mpr heq⟩⟩

/-- As many components are shipped as there are to ship. -/
theorem length_shipped {bom : Value} {inputs : Inputs} {shipped derived : List Value}
    (h : checkComponents tools bom inputs = .ok ()) (hshipped : shippedComponents bom = .ok shipped)
    (hderived : Sbom.versions_components tools inputs.versions_md inputs.policy = .ok derived) :
    shipped.length = derived.length := by
  rcases checkComponents_ok.mp h with ⟨d, s, expected, names, hd, hs, hsorted, hnames, heq⟩
  obtain rfl := Except.ok.inj (hd.symm.trans hderived)
  obtain rfl := Except.ok.inj (hs.symm.trans hshipped)
  rw [← length_namesOf hnames, ← length_namesOf hsorted]
  exact length_eqList heq

/-! ## What is vouched for -/

theorem readText_ok {name text : String} :
    readText bundle name = .ok text ↔
      ∃ data, bundle.lookup name = some data ∧ Py.read_text data = .ok text := by
  unfold readText
  cases bundle.lookup name with
  | none => simp
  | some data => simp

/-- A verified bundle has all that is expected of it, if and only if the versions and licenses of
its components are those of the checkout and its Markdown has no carriage return. -/
theorem vouched_iff {commit : String} {inputs : Inputs}
    (h : verify tools bundle (some commit) inputs = .ok ()) :
    Vouched tools bundle commit inputs ↔ Faithful tools bundle inputs := by
  rcases verify_ok_iff.mp h with ⟨hsums, contents, hchecked⟩
  rcases readContents_ok hchecked.read with ⟨hmanifest, hbom, _, hassets, hmd⟩
  rcases check_asset_inventory_ok.mp hchecked.assets with ⟨assets, hdict, hshown⟩
  rcases readText_ok.mp hmd with ⟨data, hdata, hread⟩
  rw [hdict] at hassets
  constructor
  · intro hvouched
    constructor
    · intro shipped hshipped
      rcases hvouched.rendered with ⟨d, markdown, hjson, hrendered, hfile⟩
      -- the Markdown that was read is the one that was rendered
      obtain rfl := Value.dict.inj (Except.ok.inj (hassets.symm.trans hjson))
      rw [Except.ok.inj (hrendered.symm.trans hshown.rendered), hdata] at hfile
      obtain rfl := Option.some.inj (hdata.symm.trans hshipped)
      exact (eq_write_text_iff hread).mp (Option.some.inj hfile)
    · intro bom shipped derived hjson hshipped hderived
      rcases hvouched.components with ⟨b, s, d, hb, hs, hd, hperm⟩
      obtain rfl := Except.ok.inj (hb.symm.trans hjson)
      obtain rfl := Except.ok.inj (hs.symm.trans hshipped)
      obtain rfl := Except.ok.inj (hd.symm.trans hderived)
      exact hperm.subperm
  · intro hfaithful
    rcases checkManifest_ok hchecked.manifest with ⟨version, hcommit, hversion⟩
    have hidentity := ((checkSbom_iff hcommit hversion).mp hchecked.sbom).2
    rcases checkComponents_ok.mp hchecked.components with
      ⟨derived, shipped, _, _, hderived, hshipped, _, _, _⟩
    have hsubperm := hfaithful.components _ _ _ hbom hshipped hderived
    have hlength := length_shipped hchecked.components hshipped hderived
    rcases hchecked.notice with ⟨_, hnotice⟩
    rcases hchecked.license with ⟨_, hlicense⟩
    rcases hchecked.asset_md with ⟨_, hasset_md⟩
    constructor
    · exact files_of_checkSums hsums
    · exact checkSame_ok.mp hnotice
    · exact checkSame_ok.mp hlicense
    · exact checkSame_ok.mp hasset_md
    · exact ⟨_, _, version, hmanifest, hbom, hcommit, hversion, hidentity⟩
    · refine ⟨assets, contents.assets_md, hassets, hshown.rendered, ?_⟩
      rw [hdata, ← (eq_write_text_iff hread).mpr (hfaithful.markdown data hdata)]
    · refine ⟨_, shipped, derived, hbom, hshipped, hderived, ?_⟩
      refine hsubperm.perm_of_length_le ?_
      rw [List.length_map, List.length_map, hlength]

end EvidenceBundle

end Release
