import Beluga.Release.EvidenceSorted

/-! # Verifying what was built

* `build_ok`: what a bundle that was built consists of;
* `components_built`: its components from `VERSIONS.md` are those of the checkout;
* `built_iff`: when it is verified against the files that it was built from.
-/

namespace Release

open Py

namespace EvidenceBundle

open Json (Writable sortKeys sortEntries get_sortEntries lookup_sortEntries)

variable {tools : Tools} {bundle : Bundle} {inputs : Inputs} {version commit rendered : String}
  {assets : Entries}

/-! ## What is built -/

/-- What goes into a bundle. -/
structure Parts where
  items : List LicenseInventory.Item
  versions : List Value
  images : List Value
  notice : ByteArray
  license : ByteArray
  markdown : String

/-- The bill of materials of these parts. -/
def Parts.bom (tools : Tools) (version commit : String) (parts : Parts) : Value :=
  .dict (Sbom.bomOf tools version commit none (parts.versions ++ parts.images))

/-- The files of a bundle, but for the checksums. -/
def Parts.files (tools : Tools) (version commit : String) (assets : Entries) (parts : Parts) :
    Bundle :=
  Py.dictOf [(NOTICE_NAME, parts.notice), (LICENSE_NAME, parts.license),
    (SBOM, jsonFile tools (parts.bom tools version commit)),
    (INV_JSON, jsonFile tools (.list (parts.items.map LicenseInventory.Item.value))),
    (INV_MD, write_text (LicenseInventory.render_markdown parts.items)),
    (ASSET_JSON, jsonFile tools (.dict assets)), (ASSET_MD, write_text parts.markdown),
    (MANIFEST, jsonFile tools (manifestOf version commit))]

/-- How the parts come from the checkout. -/
structure Parts.From (tools : Tools) (version commit : String) (inputs : Inputs)
    (rendered : String) (assets : Entries) (parts : Parts) : Prop where
  identity : check_identity tools version commit = .ok ()
  items : LicenseInventory.build_inventory tools inputs.versions_md inputs.notice inputs.policy =
    .ok parts.items
  versions : Sbom.versions_components tools inputs.versions_md inputs.policy = .ok parts.versions
  images : image_components tools.py rendered = .ok parts.images
  bom : Sbom.validate_bom tools (parts.bom tools version commit) = .ok ()
  notice : inputs.notice.data = some parts.notice
  license : inputs.license_file.data = some parts.license
  markdown : AssetInventory.render_markdown_en tools.py assets = .ok parts.markdown

theorem read_bytes_ok {file : File} {data : ByteArray} :
    file.read_bytes = .ok data ↔ file.data = some data := by
  unfold File.read_bytes
  cases file.data with
  | none => simp
  | some there => simp

theorem build_ok (h : build tools version commit inputs rendered assets = .ok bundle) :
    ∃ parts : Parts, parts.From tools version commit inputs rendered assets ∧
      sealed tools (parts.files tools version commit assets) = .ok bundle := by
  unfold build at h
  rcases then_ok.mp h with ⟨hidentity, h₁⟩
  rcases bind_ok_iff.mp h₁ with ⟨items, hitems, h₂⟩
  rcases bind_ok_iff.mp h₂ with ⟨bom, hbom, h₃⟩
  rcases bind_ok_iff.mp h₃ with ⟨notice, hnotice, h₄⟩
  rcases bind_ok_iff.mp h₄ with ⟨license, hlicense, h₅⟩
  rcases bind_ok_iff.mp h₅ with ⟨markdown, hmarkdown, h₆⟩
  unfold Sbom.build_bom at hbom
  rcases bind_ok_iff.mp hbom with ⟨versions, hversions, hbom₁⟩
  rcases bind_ok_iff.mp hbom₁ with ⟨images, himages, hbom₂⟩
  rcases bind_ok_iff.mp hbom₂ with ⟨refs, _, hbom₃⟩
  rcases then_ok.mp hbom₃ with ⟨_, hbom₄⟩
  rcases then_ok.mp hbom₄ with ⟨hvalid, hbom₅⟩
  obtain rfl := Except.ok.inj hbom₅
  exact ⟨⟨items, versions, images, notice, license, markdown⟩,
    ⟨hidentity, hitems, hversions, himages, hvalid, read_bytes_ok.mp hnotice,
      read_bytes_ok.mp hlicense, hmarkdown⟩, h₆⟩

theorem mem_files {parts : Parts} (name : String) :
    name ∈ parts.files tools version commit assets ↔ name ∈ REQUIRED := by
  rw [Parts.files, mem_dictOf]
  simp only [List.map_cons, List.map_nil, REQUIRED, List.mem_cons, List.not_mem_nil, or_false]
  tauto

/-- A file of a bundle that was sealed. -/
theorem lookup_built {parts : Parts} {name : String} {data : ByteArray}
    (h : sealed tools (parts.files tools version commit assets) = .ok bundle)
    (hname : name ∈ REQUIRED)
    (hfile : (name, data) ∈ [(NOTICE_NAME, parts.notice), (LICENSE_NAME, parts.license),
      (SBOM, jsonFile tools (parts.bom tools version commit)),
      (INV_JSON, jsonFile tools (.list (parts.items.map LicenseInventory.Item.value))),
      (INV_MD, write_text (LicenseInventory.render_markdown parts.items)),
      (ASSET_JSON, jsonFile tools (.dict assets)), (ASSET_MD, write_text parts.markdown),
      (MANIFEST, jsonFile tools (manifestOf version commit))]) :
    bundle.lookup name = some data := by
  rw [sealed_eq fun name hname => (mem_files name).mpr hname] at h
  obtain rfl := Except.ok.inj h
  have hother : name ≠ SUMS := by
    intro heq
    rw [heq] at hname
    exact sums_not_required hname
  rw [AList.lookup_insert_ne hother, Parts.files]
  refine (lookup_dictOf_of_count ?_).mpr hfile
  have hnodup : [NOTICE_NAME, LICENSE_NAME, SBOM, INV_JSON, INV_MD, ASSET_JSON, ASSET_MD,
      MANIFEST].Nodup := by
    decide
  exact List.nodup_iff_count_le_one.mp hnodup name

/-! ## The components -/

theorem writable_strs {es : Entries} (hkeys : (es.map Prod.fst).Nodup)
    (h : ∀ e ∈ es, ∃ s, e.2 = .str s) : Writable tools.py (.dict es) := by
  refine .dict hkeys fun e he => ?_
  rcases h e he with ⟨s, hs⟩
  rw [hs]
  exact .str s

theorem writable_properties (a b a' b' : String) :
    Writable tools.py (.list [property a b, property a' b']) := by
  refine .list fun v hv => ?_
  simp only [List.mem_cons, List.not_mem_nil, or_false] at hv
  rcases hv with rfl | rfl
  · exact writable_property _ _
  · exact writable_property _ _

theorem writable_licenses (parts : List String) :
    Writable tools.py (.list (parts.map fun part =>
      .dict [("license", .dict [("name", .str part)])])) := by
  refine .list fun v hv => ?_
  rcases List.mem_map.mp hv with ⟨part, _, rfl⟩
  refine .dict (by simp) fun e he => ?_
  rw [List.mem_singleton.mp he]
  exact writable_strs (by simp) fun e he => ⟨part, by rw [List.mem_singleton.mp he]⟩

theorem writable_versionsComponent (marker : String) (idx : ℕ) (row : LicensePolicy.Row) :
    Writable tools.py (Sbom.versionsComponent marker idx row) := by
  unfold Sbom.versionsComponent
  constructor
  · split_ifs <;> simp
  · intro e he
    rcases List.mem_append.mp he with he | he
    · rcases List.mem_append.mp he with he | he
      · simp only [List.mem_cons, List.not_mem_nil, or_false] at he
        rcases he with rfl | rfl | rfl | rfl
        · exact .str _
        · exact .str _
        · exact .str _
        · exact writable_properties _ _ _ _
      · split_ifs at he
        · rw [List.mem_singleton.mp he]
          exact .str _
        · cases he
    · split_ifs at he
      · cases he
      · rw [List.mem_singleton.mp he]
        exact writable_licenses _

theorem writable_imageComponent {ref : String} {comp : Value}
    (h : imageComponent tools.py ref = .ok comp) : Writable tools.py comp := by
  unfold imageComponent at h
  rcases bind_ok_iff.mp h with ⟨parts, _, h₁⟩
  obtain rfl := Except.ok.inj h₁
  refine .dict (by simp) fun e he => ?_
  simp only [List.mem_cons, List.not_mem_nil, or_false] at he
  rcases he with rfl | rfl | rfl | rfl | rfl
  · exact .str _
  · exact .str _
  · exact .str _
  · exact .str _
  · exact writable_properties _ _ _ _

/-- A component that was read back, with two properties. -/
theorem isShipped_sortKeys {c : Entries} {a b a' b' : String} (hw : Writable tools.py (.dict c))
    (h : c.lookup "properties" = some (.list [property a b, property a' b'])) :
    isShipped (sortKeys (.dict c)) = fromVersions [property a b, property a' b'] := by
  have hproperties : (sortEntries c).lookup "properties" =
      some (.list [property a b, property a' b']) := by
    rw [lookup_sorted hw, h]
    show some (sortKeys (.list [property a b, property a' b'])) = _
    rw [sortKeys, Json.sortItems_eq, List.map_cons, List.map_singleton, sortKeys_property,
      sortKeys_property]
  show (iter (getD (sortEntries c) "properties" (.list []))).bind fromVersions = _
  rw [getD, hproperties]
  rfl

theorem shipped_versionsComponent (tools : Tools) (marker : String) (idx : ℕ) (row : LicensePolicy.Row) :
    isShipped (sortKeys (Sbom.versionsComponent marker idx row)) = .ok true :=
  (isShipped_sortKeys (@writable_versionsComponent tools marker idx row) rfl).trans rfl

theorem shipped_imageComponent {ref : String} {comp : Value}
    (h : imageComponent tools.py ref = .ok comp) : isShipped (sortKeys comp) = .ok false := by
  have hw := writable_imageComponent h
  unfold imageComponent at h
  rcases bind_ok_iff.mp h with ⟨parts, _, h₁⟩
  obtain rfl := Except.ok.inj h₁
  exact (isShipped_sortKeys hw rfl).trans rfl

theorem name_sortKeys (tools : Tools) (marker : String) (idx : ℕ) (row : LicensePolicy.Row) :
    item (sortKeys (Sbom.versionsComponent marker idx row)) "name" = .ok (.str row.component) := by
  have hlookup := lookup_sorted (@writable_versionsComponent tools marker idx row) "name"
  refine item_dict.mpr (hlookup.trans ?_)
  rfl

/-- Strings can be sorted. -/
theorem insertValue_strs (x : String) (xs : List String) :
    ∃ ys : List String, insertValue (.str x) (xs.map .str) = .ok (ys.map .str) := by
  induction xs with
  | nil => exact ⟨[x], rfl⟩
  | cons y xs ih =>
      rcases ih with ⟨ys, hys⟩
      rw [List.map_cons, insertValue]
      by_cases hlt : y < x
      · refine ⟨y :: ys, bind_ok_iff.mpr ⟨true, ?_, bind_ok_iff.mpr ⟨_, hys, rfl⟩⟩⟩
        simp [greater, hlt]
      · refine ⟨x :: y :: xs, bind_ok_iff.mpr ⟨false, ?_, rfl⟩⟩
        simp [greater, hlt]

theorem sortedValues_strs (xs : List String) :
    ∃ ys : List String, sortedValues (xs.map .str) = .ok (ys.map .str) := by
  induction xs with
  | nil => exact ⟨[], rfl⟩
  | cons x xs ih =>
      rcases ih with ⟨ys, hys⟩
      rcases insertValue_strs x ys with ⟨zs, hzs⟩
      exact ⟨zs, bind_ok_iff.mpr ⟨_, hys, hzs⟩⟩

/-- Rows as components. -/
theorem versions_components_ok {versions_md policy_yaml : File} {versions : List Value}
    (h : Sbom.versions_components tools versions_md policy_yaml = .ok versions) :
    ∃ rows marker, LicensePolicy.parse_versions_md versions_md = .ok rows ∧ rows ≠ [] ∧
      versions = rows.mapIdx (Sbom.versionsComponent marker) := by
  unfold Sbom.versions_components at h
  rcases bind_ok_iff.mp h with ⟨policy, _, h₁⟩
  rcases bind_ok_iff.mp h₁ with ⟨rows, hrows, h₂⟩
  rcases then_ok.mp h₂ with ⟨hne, h₃⟩
  obtain rfl := Except.ok.inj h₃
  exact ⟨rows, policy.2, hrows, by simpa using demand_ok.mp hne, rfl⟩

theorem names_mapIdx {f : ℕ → LicensePolicy.Row → Value}
    (h : ∀ idx row, item (f idx row) "name" = .ok (.str row.component))
    (rows : List LicensePolicy.Row) : (rows.mapIdx f).mapM (fun c => item c "name") =
      .ok (rows.map fun row => .str row.component) := by
  induction rows generalizing f with
  | nil => rfl
  | cons row rows ih =>
      rw [List.mapIdx_cons, List.mapM_cons, h, ih fun idx row => h (idx + 1) row]
      rfl

theorem strs_inj {xs ys : List String} (h : xs.map Value.str = ys.map .str) : xs = ys :=
  List.map_injective_iff.mpr (fun _ _ heq => Value.str.inj heq) h

/-- The names of the components of rows, those that were read back and the others. -/
theorem namesOf_rows (tools : Tools) (marker : String) (rows : List LicensePolicy.Row) :
    ∃ names : List String,
      sortedValues ((rows.map LicensePolicy.Row.component).map .str) = .ok (names.map .str) ∧
      namesOf (rows.mapIdx (Sbom.versionsComponent marker)) = .ok (names.map .str) ∧
      namesOf ((rows.mapIdx (Sbom.versionsComponent marker)).map sortKeys) =
        .ok (names.map .str) := by
  rcases sortedValues_strs (rows.map LicensePolicy.Row.component) with ⟨names, hnames⟩
  have hsorted := hnames
  rw [List.map_map] at hsorted
  refine ⟨names, hnames, bind_ok_iff.mpr ⟨_, ?_, hsorted⟩, bind_ok_iff.mpr ⟨_, ?_, hsorted⟩⟩
  · exact names_mapIdx (fun idx row => rfl) rows
  · have hmap : (rows.mapIdx (Sbom.versionsComponent marker)).map sortKeys =
        rows.mapIdx fun idx row => sortKeys (Sbom.versionsComponent marker idx row) :=
      List.ext_getElem (by simp) (by simp)
    rw [hmap]
    exact names_mapIdx (name_sortKeys tools marker) rows

theorem image_components_ok {images : List Value}
    (h : image_components tools.py rendered = .ok images) :
    ∀ comp ∈ images, ∃ ref, imageComponent tools.py ref = .ok comp := by
  intro comp hcomp
  simp only [image_components] at h
  split_ifs at h
  rcases (mem_of_mapM h).mp hcomp with ⟨ref, _, href⟩
  exact ⟨ref, href⟩

/-- The parts are put together as those of a checkout are; the rows need not be the checkout's,
but for their components. -/
structure Parts.Made (tools : Tools) (version commit : String) (inputs : Inputs) (parts : Parts) :
    Prop where
  identity : check_identity tools version commit = .ok ()
  items : parts.items ≠ []
  versions : ∃ (marker : String) (rows : List LicensePolicy.Row) (derived : List Value),
    parts.versions = rows.mapIdx (Sbom.versionsComponent marker) ∧
    Sbom.versions_components tools inputs.versions_md inputs.policy = .ok derived ∧
    ∃ (marker' : String) (rows' : List LicensePolicy.Row),
      derived = rows'.mapIdx (Sbom.versionsComponent marker') ∧
      rows'.map LicensePolicy.Row.component = rows.map LicensePolicy.Row.component
  images : ∀ comp ∈ parts.images, ∃ ref, imageComponent tools.py ref = .ok comp
  bom : Sbom.validate_bom tools (parts.bom tools version commit) = .ok ()
  notice : inputs.notice.data = some parts.notice
  license : inputs.license_file.data = some parts.license

theorem Parts.From.made {parts : Parts}
    (h : parts.From tools version commit inputs rendered assets) :
    parts.Made tools version commit inputs := by
  rcases versions_components_ok h.versions with ⟨rows, marker, hrows, hne, hversions⟩
  refine ⟨h.identity, ?_, ?_, image_components_ok h.images, h.bom, h.notice, h.license⟩
  · have hitems := h.items
    unfold LicenseInventory.build_inventory at hitems
    rcases bind_ok_iff.mp hitems with ⟨policy, _, h₁⟩
    rcases bind_ok_iff.mp h₁ with ⟨rows', hrows', h₂⟩
    rcases bind_ok_iff.mp h₂ with ⟨notice, _, h₃⟩
    rcases bind_ok_iff.mp h₃ with ⟨items, hmap, h₄⟩
    obtain rfl := Except.ok.inj (hrows.symm.trans hrows')
    have hlength : parts.items.length = rows.length := by
      rw [← Except.ok.inj h₄, (mapM_ok_iff.mp hmap).length_eq]
      exact (List.perm_insertionSort _ _).length_eq
    intro hnil
    rw [hnil] at hlength
    exact hne (List.length_eq_zero_iff.mp hlength.symm)
  · exact ⟨marker, rows, _, hversions, h.versions, marker, rows, hversions, rfl⟩

section Made

variable {parts : Parts} (h : parts.Made tools version commit inputs)

include h

theorem Parts.Made.writable : ∀ comp ∈ parts.versions ++ parts.images, Writable tools.py comp := by
  intro comp hcomp
  rcases List.mem_append.mp hcomp with hcomp | hcomp
  · rcases h.versions with ⟨marker, rows, derived, hversions, _⟩
    rw [hversions] at hcomp
    rcases List.mem_mapIdx.mp hcomp with ⟨idx, hidx, rfl⟩
    exact writable_versionsComponent marker idx _
  · rcases h.images comp hcomp with ⟨ref, href⟩
    exact writable_imageComponent href

/-- The components whose source is `VERSIONS.md` are those of its rows. -/
theorem Parts.Made.shipped : shippedComponents (sortKeys (parts.bom tools version commit)) =
    .ok (parts.versions.map sortKeys) := by
  have hversions : ∀ c ∈ parts.versions.map sortKeys, isShipped c = .ok true := by
    rcases h.versions with ⟨marker, rows, derived, hversions, _⟩
    intro c hc
    rcases List.mem_map.mp hc with ⟨comp, hcomp, rfl⟩
    rw [hversions] at hcomp
    rcases List.mem_mapIdx.mp hcomp with ⟨idx, hidx, rfl⟩
    exact shipped_versionsComponent tools marker idx _
  have himages : ∀ c ∈ parts.images.map sortKeys, isShipped c = .ok false := by
    intro c hc
    rcases List.mem_map.mp hc with ⟨comp, hcomp, rfl⟩
    rcases h.images comp hcomp with ⟨ref, href⟩
    exact shipped_imageComponent href
  have hflags : (parts.versions.map sortKeys ++ parts.images.map sortKeys).mapM isShipped =
      .ok ((parts.versions.map sortKeys).map (fun _ => true) ++
        (parts.images.map sortKeys).map fun _ => false) := by
    rw [List.mapM_append, mapM_map hversions, mapM_map himages]
    rfl
  show shippedComponents (.dict (sortEntries _)) = _
  unfold shippedComponents
  refine bind_ok_iff.mpr ⟨_, item_dict.mpr (components_sorted h.writable), ?_⟩
  rw [List.map_append]
  refine bind_ok_iff.mpr ⟨_, rfl, bind_ok_iff.mpr ⟨_, hflags, ?_⟩⟩
  generalize parts.versions.map sortKeys = vs
  generalize parts.images.map sortKeys = is
  rw [List.zip_append (List.length_map _).symm, List.filter_append, List.map_append]
  have hkept : ((vs.zip (vs.map fun _ => true)).filter fun entry => entry.2).map (·.1) = vs := by
    induction vs with
    | nil => rfl
    | cons v vs ih =>
        rw [List.map_cons, List.zip_cons_cons, List.filter_cons_of_pos rfl, List.map_cons, ih]
  have hdropped : ((is.zip (is.map fun _ => false)).filter fun entry => entry.2).map (·.1) = [] := by
    induction is with
    | nil => rfl
    | cons v is ih =>
        rw [List.map_cons, List.zip_cons_cons, List.filter_cons_of_neg Bool.false_ne_true, ih]
  rw [hkept, hdropped, List.append_nil]

theorem Parts.Made.components :
    checkComponents tools (sortKeys (parts.bom tools version commit)) inputs = .ok () := by
  rcases h.versions with ⟨marker, rows, derived, hversions, hderived, marker', rows', hrows, hsame⟩
  rcases namesOf_rows tools marker rows with ⟨names, hnames, _, hsorted⟩
  rcases namesOf_rows tools marker' rows' with ⟨names', hnames', hplain, _⟩
  rw [hsame, hnames] at hnames'
  obtain rfl := strs_inj (Except.ok.inj hnames')
  rw [← hversions] at hsorted
  rw [← hrows] at hplain
  exact checkComponents_ok.mpr ⟨derived, _, _, _, hderived, h.shipped, hplain, hsorted,
    eqList_strs.mpr rfl⟩

end Made

/-! ## Verification -/

theorem writable_manifest : Writable tools.py (manifestOf version commit) := by
  unfold manifestOf
  refine .dict (by simp) fun e he => ?_
  simp only [List.mem_cons, List.not_mem_nil, or_false] at he
  have htexts : ∀ a b : String, Writable tools.py (.list [.str a, .str b]) := by
    intro a b
    refine .list fun v hv => ?_
    simp only [List.mem_cons, List.not_mem_nil, or_false] at hv
    rcases hv with rfl | rfl
    · exact .str _
    · exact .str _
  rcases he with rfl | rfl | rfl | rfl | rfl | rfl | rfl
  · exact .str _
  · exact .str _
  · exact .str _
  · exact .str _
  · exact htexts _ _
  · exact htexts _ _
  · exact htexts _ _

theorem writable_item (x : LicenseInventory.Item) : Writable tools.py x.value := by
  unfold LicenseInventory.Item.value
  refine .dict (by simp) fun e he => ?_
  simp only [List.mem_cons, List.not_mem_nil, or_false] at he
  rcases he with rfl | rfl | rfl | rfl | rfl | rfl | rfl
  · exact .str _
  · exact .str _
  · exact .str _
  · exact .str _
  · exact .str _
  · exact .str _
  · exact .bool _

/-- The manifest that was read back. -/
theorem manifest_sorted : ∃ m : Entries, sortKeys (manifestOf version commit) = .dict m ∧
    Py.get m "schema" = .str "beluga-release-evidence/v1" ∧
    Py.get m "version" = .str version ∧ Py.get m "commit" = .str commit := by
  unfold manifestOf
  refine ⟨_, rfl, ?_, ?_, ?_⟩
  · rw [get_sortEntries (by simp)]
    rfl
  · rw [get_sortEntries (by simp)]
    rfl
  · rw [get_sortEntries (by simp)]
    rfl

theorem checkManifest_built (h : check_identity tools version commit = .ok ()) :
    checkManifest tools (sortKeys (manifestOf version commit)) (some commit) = .ok () := by
  rcases @manifest_sorted version commit with ⟨m, hm, hschema, hversion, hcommit⟩
  rw [hm, checkManifest_iff, hversion, hcommit]
  exact ⟨hschema, check_identity_ok.mp h, (get_eq_iff (by simp)).mp hcommit⟩

/-- An asset inventory, with each key once in its dicts. -/
structure Inventory (py : Py.Text) where
  entries : Entries
  writable : Writable py (.dict entries)

/-- The sections of the inventory are not empty, and their counts are those of its summary. -/
structure Inventory.Complete {py : Py.Text} (inventory : Inventory py) : Prop where
  sections : ∀ key ∈ SECTIONS, filled (Py.get inventory.entries key) = true
  counts : ∃ summary, Py.get inventory.entries "summary" = .dict summary ∧
    countsMatch inventory.entries summary = true

/-- The inventory is that of the generator's charts and profiles, and its rendering survives the
files: its JSON, in which the keys are in order, and its Markdown, which is read in text mode. -/
structure Inventory.Survives {py : Py.Text} (inventory : Inventory py) (markdown : String) :
    Prop where
  lists : generatorLists inventory.entries = true
  rendered : AssetInventory.render_markdown_en py (sortEntries inventory.entries) =
    .ok (newlines markdown)

/-- The bill of materials that is read of a sealed bundle. -/
theorem readJson_bom {parts : Parts} (h : parts.Made tools version commit inputs)
    (hsealed : sealed tools (parts.files tools version commit assets) = .ok bundle) :
    readJson bundle SBOM = .ok (sortKeys (parts.bom tools version commit)) := by
  have hfile : bundle.lookup SBOM = some (jsonFile tools (parts.bom tools version commit)) :=
    lookup_built hsealed (by decide) (by simp)
  exact readJson_file hfile (writable_bom h.writable)

/-- A sealed bundle of such parts is verified if and only if its asset inventory survives. -/
theorem verify_sealed {parts : Parts} {inventory : Inventory tools.py}
    (h : parts.Made tools version commit inputs) (hcomplete : inventory.Complete)
    (hmarkdown : inputs.asset_md.data = some (write_text parts.markdown))
    (hsealed : sealed tools (parts.files tools version commit inventory.entries) = .ok bundle) :
    verify tools bundle (some commit) inputs = .ok () ↔ inventory.Survives parts.markdown := by
  have hmanifest_file : bundle.lookup MANIFEST = some (jsonFile tools (manifestOf version commit)) :=
    lookup_built hsealed (by decide) (by simp)
  have hitems_file : bundle.lookup INV_JSON =
      some (jsonFile tools (.list (parts.items.map LicenseInventory.Item.value))) :=
    lookup_built hsealed (by decide) (by simp)
  have hassets_file : bundle.lookup ASSET_JSON = some (jsonFile tools (.dict inventory.entries)) :=
    lookup_built hsealed (by decide) (by simp)
  have hmanifest : readJson bundle MANIFEST = .ok (sortKeys (manifestOf version commit)) :=
    readJson_file hmanifest_file writable_manifest
  have hbom := readJson_bom h hsealed
  have hitems : readJson bundle INV_JSON =
      .ok (sortKeys (.list (parts.items.map LicenseInventory.Item.value))) := by
    refine readJson_file hitems_file (.list fun v hv => ?_)
    rcases List.mem_map.mp hv with ⟨x, _, rfl⟩
    exact writable_item x
  have hassets : readJson bundle ASSET_JSON = .ok (.dict (sortEntries inventory.entries)) :=
    readJson_file hassets_file inventory.writable
  have hasset_md : bundle.lookup ASSET_MD = some (write_text parts.markdown) :=
    lookup_built hsealed (by decide) (by simp)
  have hmd : readText bundle ASSET_MD = .ok (newlines parts.markdown) :=
    readText_ok.mpr ⟨_, hasset_md, read_text_write_text _⟩
  have hread : readContents bundle = .ok ⟨sortKeys (manifestOf version commit),
      sortKeys (parts.bom tools version commit),
      sortKeys (.list (parts.items.map LicenseInventory.Item.value)),
      .dict (sortEntries inventory.entries), newlines parts.markdown⟩ := by
    unfold readContents
    rw [hmanifest, hbom, hitems, hassets, hmd]
    rfl
  have hshown : Shown tools (sortEntries inventory.entries) (newlines parts.markdown) ↔
      inventory.Survives parts.markdown := by
    rcases hcomplete.counts with ⟨summary, hsummary, hcounts⟩
    rw [shown_sortEntries inventory.writable hcomplete.sections hsummary hcounts]
    exact ⟨fun h => ⟨h.1, h.2⟩, fun h => ⟨h.lists, h.rendered⟩⟩
  rw [verify_ok_iff]
  constructor
  · intro hverified
    rcases hverified with ⟨_, contents, hchecked⟩
    obtain rfl := Except.ok.inj (hchecked.read.symm.trans hread)
    rcases check_asset_inventory_ok.mp hchecked.assets with ⟨d, hd, hshown'⟩
    obtain rfl := Value.dict.inj hd
    exact hshown.mp hshown'
  · intro hsurvives
    refine ⟨checkSums_sealed mem_files hsealed, _, hread, checkManifest_built h.identity, ?_, ?_,
      ?_, ⟨"", ?_⟩, ⟨"", ?_⟩, ⟨"", ?_⟩, h.components⟩
    · rcases @manifest_sorted version commit with ⟨m, hm, _, hversion, hcommit⟩
      rw [hm]
      refine (checkSbom_iff (item_dict.mpr ((get_eq_iff (by simp)).mp hcommit))
        (item_dict.mpr ((get_eq_iff (by simp)).mp hversion))).mpr ⟨?_, ?_⟩
      · exact validate_bom_sortKeys h.writable (check_identity_ok.mp h.identity).2 h.bom
      · exact sbomIdentity_sortKeys h.writable
    · show checkInventory (sortKeys (.list (parts.items.map LicenseInventory.Item.value))) = .ok ()
      have hne := h.items
      cases hparts : parts.items with
      | nil => exact absurd hparts hne
      | cons x xs => rfl
    · exact check_asset_inventory_ok.mpr ⟨_, rfl, hshown.mpr hsurvives⟩
    · exact checkSame_ok.mpr ⟨_, hasset_md, hmarkdown⟩
    · exact checkSame_ok.mpr ⟨_, lookup_built hsealed (by decide) (by simp), h.notice⟩
    · exact checkSame_ok.mpr ⟨_, lookup_built hsealed (by decide) (by simp), h.license⟩

/-- What verification says of every bundle, and of every bundle that was built. -/
theorem evidence_exact (tools : Tools) :
    (∀ (bundle : Bundle) (commit : String) (inputs : Inputs),
      verify tools bundle (some commit) inputs = .ok () →
        (Vouched tools bundle commit inputs ↔ Faithful tools bundle inputs)) ∧
    ∀ (version commit : String) (inputs : Inputs) (rendered : String)
      (inventory : Inventory tools.py) (bundle : Bundle) (markdown : String),
      build tools version commit inputs rendered inventory.entries = .ok bundle →
      inventory.Complete →
      AssetInventory.render_markdown_en tools.py inventory.entries = .ok markdown →
      inputs.asset_md.data = some (write_text markdown) →
        (verify tools bundle (some commit) inputs = .ok () ↔ inventory.Survives markdown) := by
  refine ⟨fun bundle commit inputs h => vouched_iff h, ?_⟩
  intro version commit inputs rendered inventory bundle markdown h hcomplete hmarkdown hcheckout
  rcases build_ok h with ⟨parts, hparts, hsealed⟩
  obtain rfl := Except.ok.inj (hparts.markdown.symm.trans hmarkdown)
  exact verify_sealed hparts.made hcomplete hcheckout hsealed

end EvidenceBundle

end Release
