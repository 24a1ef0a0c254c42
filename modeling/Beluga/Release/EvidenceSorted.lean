import Beluga.Release.EvidenceRules

/-! # Evidence with its keys in order

What is written to a file of a bundle comes back with its keys in order. None of the checks
sees the difference, but for the rendering of the asset inventory.

* `readJson_file`: what is read of a file;
* `validate_bom_sortKeys`, `sbomIdentity_sortKeys`, `shippedComponents_sortKeys`: the bill of
  materials;
* `shown_sortEntries`: the asset inventory.
-/

namespace Release

open Py

namespace EvidenceBundle

variable {tools : Tools} {bundle : Bundle}

/-! ## Values -/

open Json (Writable sortKeys sortEntries get_sortEntries lookup_sortEntries)

theorem truthy_sortKeys (v : Value) : (sortKeys v).truthy = v.truthy := by
  cases v with
  | list vs =>
      rw [sortKeys, Json.sortItems_eq]
      cases vs <;> rfl
  | dict es =>
      rw [sortKeys]
      have hlength := (Json.sortEntries_perm es).length_eq
      rw [List.length_map] at hlength
      show (!(sortEntries es).isEmpty) = !es.isEmpty
      cases es with
      | nil => rfl
      | cons e es =>
          cases hsorted : sortEntries (e :: es) with
          | nil =>
              rw [hsorted] at hlength
              cases hlength
          | cons => rfl
  | _ => rfl

theorem sortKeys_hashable {v : Value} (h : hashable v = true) : sortKeys v = v := by
  cases v with
  | list vs => cases h
  | dict es => cases h
  | _ => rfl

theorem sortKeys_property (name value : String) :
    sortKeys (property name value) = property name value := by
  have hsorted : ("name" : String) ≤ "value" := by decide
  simp [property, sortKeys, sortEntries, Json.insertEntry, hsorted]

theorem eqList_strs {vs : List Value} {xs : List String} :
    eqList vs (xs.map .str) = true ↔ vs = xs.map .str := by
  induction vs generalizing xs with
  | nil => cases xs <;> simp [eqList]
  | cons v vs ih =>
      cases xs with
      | nil => simp [eqList]
      | cons x xs => simp [eqList, ih]

theorem eq_strList {v : Value} {xs : List String} : v.eq (strList xs) = true ↔ v = strList xs := by
  cases v with
  | list vs =>
      show eqList vs (xs.map .str) = true ↔ _
      rw [eqList_strs, strList]
      exact ⟨fun h => congrArg Value.list h, fun h => Value.list.inj h⟩
  | _ => simp [strList, Value.eq, sameNumber, Value.number]

theorem sortKeys_eq_strList {v : Value} {xs : List String} :
    sortKeys v = strList xs ↔ v = strList xs := by
  cases v with
  | list vs =>
      rw [sortKeys, Json.sortItems_eq, strList, Value.list.injEq, Value.list.injEq]
      constructor
      · intro h
        induction vs generalizing xs with
        | nil =>
            cases xs with
            | nil => rfl
            | cons => cases h
        | cons v vs ih =>
            cases xs with
            | nil => cases h
            | cons x xs =>
                rw [List.map_cons, List.map_cons, List.cons.injEq] at h
                rw [List.map_cons, Json.sortKeys_eq_str.mp h.1, ih h.2]
      · intro h
        rw [h, List.map_map]
        exact List.map_congr_left fun x _ => Json.sortKeys_eq_str.mpr rfl
  | _ => simp [strList, sortKeys]

theorem filled_sortKeys (v : Value) : filled (sortKeys v) = filled v := by
  cases v with
  | list vs =>
      rw [sortKeys, Json.sortItems_eq]
      cases vs <;> rfl
  | _ => rfl

theorem listLength_sortKeys (v : Value) : listLength (sortKeys v) = listLength v := by
  cases v with
  | list vs =>
      rw [sortKeys, Json.sortItems_eq]
      exact List.length_map _
  | _ => rfl

theorem eq_int_sortKeys (v : Value) (n : ℤ) : (sortKeys v).eq (.int n) = v.eq (.int n) := by
  cases v with
  | list vs => rfl
  | dict es => rfl
  | _ => rfl

/-! ## Files -/

/-- A value that was written to a file of the bundle. -/
theorem readJson_file {name : String} {v : Value} (hfile : bundle.lookup name = some (jsonFile tools v))
    (h : Writable tools.py v) : readJson bundle name = .ok (sortKeys v) := by
  have hread : readText bundle name = .ok (Json.jsonText tools.py (sortKeys v)) := by
    refine readText_ok.mpr ⟨_, hfile, ?_⟩
    rw [jsonFile, Json.dumps_eq]
    exact Json.read_jsonText tools.float_line h.sortKeys
  unfold readJson
  refine bind_ok_iff.mpr ⟨_, hread, ?_⟩
  rw [Json.loads_jsonText h.sortKeys]

/-! ## Components -/

/-- Keys in order, in a dict that has each key once. -/
theorem get_sorted {d : Entries} (h : Writable tools.py (.dict d)) (key : String) :
    Py.get (sortEntries d) key = sortKeys (Py.get d key) := by
  cases h with
  | dict hkeys _ => exact get_sortEntries hkeys key

theorem lookup_sorted {d : Entries} (h : Writable tools.py (.dict d)) (key : String) :
    (sortEntries d).lookup key = (d.lookup key).map sortKeys := by
  cases h with
  | dict hkeys _ => exact lookup_sortEntries hkeys key

theorem componentRef_sortKeys {refs : List Value} {comp ref : Value}
    (hw : Writable tools.py comp) (h : Sbom.componentRef tools refs comp = .ok ref) :
    Sbom.componentRef tools refs (sortKeys comp) = .ok ref := by
  cases comp with
  | dict c =>
      unfold Sbom.componentRef at h
      rcases then_ok.mp h with ⟨hfields, h₁⟩
      rcases bind_ok_iff.mp h₁ with ⟨r, hr, h₂⟩
      rcases then_ok.mp h₂ with ⟨hfresh, h₃⟩
      rw [hashed_ok] at hr
      rcases hr with ⟨hhash, rfl⟩
      show Sbom.componentRef tools refs (.dict (sortEntries c)) = .ok ref
      unfold Sbom.componentRef
      simp only [get_sorted hw, truthy_sortKeys, sortKeys_hashable hhash]
      refine then_ok.mpr ⟨?_, bind_ok_iff.mpr ⟨_, hashed_ok.mpr ⟨hhash, rfl⟩, ?_⟩⟩
      · exact demand_ok.mpr (demand_ok.mp hfields)
      · exact then_ok.mpr ⟨hfresh, h₃⟩
  | _ => cases h

theorem checkComponents_sortKeys {refs comps : List Value}
    (hw : ∀ comp ∈ comps, Writable tools.py comp)
    (h : Sbom.checkComponents tools refs comps = .ok ()) :
    Sbom.checkComponents tools refs (comps.map sortKeys) = .ok () := by
  induction comps generalizing refs with
  | nil => rfl
  | cons comp comps ih =>
      rcases List.forall_mem_cons.mp hw with ⟨hcomp, hcomps⟩
      rw [Sbom.checkComponents] at h
      rcases bind_ok_iff.mp h with ⟨ref, href, hrest⟩
      rw [List.map_cons, Sbom.checkComponents]
      exact bind_ok_iff.mpr ⟨ref, componentRef_sortKeys hcomp href, ih hcomps hrest⟩

/-! ## The bill of materials -/

theorem writable_property (name value : String) : Writable tools.py (property name value) :=
  .dict (by simp) (by
    intro e he
    simp only [List.mem_cons, List.not_mem_nil, or_false] at he
    rcases he with rfl | rfl
    · exact .str _
    · exact .str _)

section Bom

variable {version commit : String} {comps : List Value}

theorem writable_metadata :
    Writable tools.py (.dict (Sbom.metadataOf version commit none)) := by
  refine .dict (by simp [Sbom.metadataOf]) fun e he => ?_
  simp only [Sbom.metadataOf, List.append_nil, List.mem_cons, List.not_mem_nil, or_false] at he
  rcases he with rfl | rfl
  · refine .dict (by simp) fun e he => ?_
    simp only [List.mem_cons, List.not_mem_nil, or_false] at he
    rcases he with rfl | rfl | rfl | rfl
    · exact .str _
    · exact .str _
    · exact .str _
    · exact .str _
  · refine .list fun v hv => ?_
    rw [List.mem_singleton.mp hv]
    exact writable_property _ _

theorem writable_bom (h : ∀ comp ∈ comps, Writable tools.py comp) :
    Writable tools.py (.dict (Sbom.bomOf tools version commit none comps)) := by
  refine .dict (by simp [Sbom.bomOf]) fun e he => ?_
  simp only [Sbom.bomOf, List.mem_cons, List.not_mem_nil, or_false] at he
  rcases he with rfl | rfl | rfl | rfl | rfl | rfl
  · exact .str _
  · exact .str _
  · exact .int _
  · exact .str _
  · exact writable_metadata
  · exact .list h

theorem metadata_of_bom :
    (Sbom.bomOf tools version commit none comps).lookup "metadata" =
      some (.dict (Sbom.metadataOf version commit none)) := rfl

theorem components_of_bom : (Sbom.bomOf tools version commit none comps).lookup "components" =
    some (.list comps) := rfl

/-- The metadata of a bill of materials that was read back. -/
theorem metadata_sorted (h : ∀ comp ∈ comps, Writable tools.py comp) :
    (sortEntries (Sbom.bomOf tools version commit none comps)).lookup "metadata" =
      some (.dict (sortEntries (Sbom.metadataOf version commit none))) := by
  rw [lookup_sorted (writable_bom h), metadata_of_bom]
  rfl

theorem properties_sorted :
    (sortEntries (Sbom.metadataOf version commit none)).lookup "properties" =
      some (.list [property "beluga:source-commit" commit]) := by
  rw [lookup_sortEntries (by simp [Sbom.metadataOf])]
  show some (sortKeys (.list [property "beluga:source-commit" commit])) = _
  rw [sortKeys, Json.sortItems_eq, List.map_singleton, sortKeys_property]

theorem components_sorted (h : ∀ comp ∈ comps, Writable tools.py comp) :
    (sortEntries (Sbom.bomOf tools version commit none comps)).lookup "components" =
      some (.list (comps.map sortKeys)) := by
  rw [lookup_sorted (writable_bom h), components_of_bom]
  show some (sortKeys (.list comps)) = _
  rw [sortKeys, Json.sortItems_eq]

theorem validate_bom_sortKeys (hw : ∀ comp ∈ comps, Writable tools.py comp)
    (hcommit : Sbom.isCommit commit = true)
    (h : Sbom.validate_bom tools (.dict (Sbom.bomOf tools version commit none comps)) = .ok ()) :
    Sbom.validate_bom tools (sortKeys (.dict (Sbom.bomOf tools version commit none comps))) =
      .ok () := by
  have hchecked : comps ≠ [] ∧ Sbom.checkComponents tools [] comps = .ok () := by
    unfold Sbom.validate_bom at h
    rcases then_ok.mp h with ⟨-, h₁⟩
    rcases then_ok.mp h₁ with ⟨hne, h₂⟩
    rcases then_ok.mp h₂ with ⟨hcomps, -⟩
    exact ⟨by simpa using demand_ok.mp hne, hcomps⟩
  have hmetadata := @metadata_sorted tools version commit comps hw
  have hproperties := @properties_sorted version commit
  have hformat : Py.get (sortEntries (Sbom.bomOf tools version commit none comps)) "bomFormat" =
      .str "CycloneDX" := get_sorted (writable_bom hw) _
  have hspec : Py.get (sortEntries (Sbom.bomOf tools version commit none comps)) "specVersion" =
      .str Sbom.SPEC_VERSION := get_sorted (writable_bom hw) _
  have hcomponents : Py.get (sortEntries (Sbom.bomOf tools version commit none comps))
      "components" = .list (comps.map sortKeys) := by
    rw [Py.get, getD, components_sorted hw]
    rfl
  have hprops : Sbom.propertiesOf (sortEntries (Sbom.bomOf tools version commit none comps)) =
      .ok [(.str "beluga:source-commit", .str commit)] := by
    unfold Sbom.propertiesOf
    rw [getD, hmetadata]
    refine bind_ok_iff.mpr ⟨_, rfl, ?_⟩
    rw [getD, hproperties]
    rfl
  show Sbom.validate_bom tools (.dict (sortEntries _)) = .ok ()
  simp only [Sbom.validate_bom, hformat, hspec, hcomponents]
  refine then_ok.mpr ⟨rfl, then_ok.mpr ⟨?_, then_ok.mpr ⟨?_, ?_⟩⟩⟩
  · rw [demand_ok]
    simpa using hchecked.1
  · exact checkComponents_sortKeys hw hchecked.2
  · exact bind_ok_iff.mpr ⟨_, hprops, demand_ok.mpr hcommit⟩

theorem sbomIdentity_sortKeys (hw : ∀ comp ∈ comps, Writable tools.py comp) :
    sbomIdentity (sortKeys (.dict (Sbom.bomOf tools version commit none comps))) =
      .ok (.str commit, .str version) := by
  have hmetadata := @metadata_sorted tools version commit comps hw
  have hproperties := @properties_sorted version commit
  have hcomponent : (sortEntries (Sbom.metadataOf version commit none)).lookup "component" =
      some (.dict (sortEntries [("type", .str "application"), ("bom-ref", .str "beluga"),
        ("name", .str "beluga"), ("version", .str version)])) := by
    rw [lookup_sortEntries (by simp [Sbom.metadataOf])]
    rfl
  have hversion : (sortEntries [("type", .str "application"), ("bom-ref", .str "beluga"),
      ("name", .str "beluga"), ("version", .str version)]).lookup "version" =
      some (.str version) := by
    rw [lookup_sortEntries (by simp)]
    rfl
  show sbomIdentity (.dict (sortEntries _)) = _
  unfold sbomIdentity
  refine bind_ok_iff.mpr ⟨_, item_dict.mpr hmetadata, ?_⟩
  refine bind_ok_iff.mpr ⟨_, item_dict.mpr hproperties, ?_⟩
  refine bind_ok_iff.mpr ⟨_, rfl, bind_ok_iff.mpr ⟨[(.str "beluga:source-commit", .str commit)],
    rfl, ?_⟩⟩
  refine bind_ok_iff.mpr ⟨_, item_dict.mpr hcomponent, ?_⟩
  exact bind_ok_iff.mpr ⟨_, item_dict.mpr hversion, rfl⟩

end Bom

/-! ## The asset inventory -/

theorem generatorLists_sortEntries {d : Entries} (h : Writable tools.py (.dict d)) :
    generatorLists (sortEntries d) = generatorLists d := by
  have heq : ∀ key xs, (Py.get (sortEntries d) key).eq (strList xs) =
      (Py.get d key).eq (strList xs) := by
    intro key xs
    rw [get_sorted h, Bool.eq_iff_iff, eq_strList, eq_strList, sortKeys_eq_strList]
  rw [generatorLists, heq, heq, generatorLists]

theorem countsMatch_sortEntries {d summary : Entries} (h : Writable tools.py (.dict d))
    (hs : Writable tools.py (.dict summary)) :
    countsMatch (sortEntries d) (sortEntries summary) = countsMatch d summary := by
  unfold countsMatch
  congr 1
  funext count
  rw [get_sorted h, get_sorted hs, listLength_sortKeys, eq_int_sortKeys]

/-- An inventory that was read back passes if it names the generator's charts and profiles and is
rendered as before. -/
theorem shown_sortEntries {d summary : Entries} {markdown : String}
    (h : Writable tools.py (.dict d)) (hsections : ∀ key ∈ SECTIONS, filled (Py.get d key) = true)
    (hsummary : Py.get d "summary" = .dict summary) (hcounts : countsMatch d summary = true) :
    Shown tools (sortEntries d) markdown ↔ generatorLists d = true ∧
      AssetInventory.render_markdown_en tools.py (sortEntries d) = .ok markdown := by
  constructor
  · intro hshown
    rw [← generatorLists_sortEntries h]
    exact ⟨hshown.lists, hshown.rendered⟩
  · intro hshown
    have hw : Writable tools.py (.dict summary) := by
      cases h with
      | dict _ hes =>
          have hlookup := (get_eq_iff (by simp)).mp hsummary
          rcases List.lookup_eq_some_iff.mp hlookup with ⟨front, back, heq, -⟩
          exact hes ("summary", .dict summary) (by rw [heq]; simp)
    refine ⟨(generatorLists_sortEntries h).trans hshown.1, fun key hkey => ?_, ?_, hshown.2⟩
    · rw [get_sorted h, filled_sortKeys]
      exact hsections key hkey
    · refine ⟨sortEntries summary, ?_, (countsMatch_sortEntries h hw).trans hcounts⟩
      rw [get_sorted h, hsummary]
      rfl

end EvidenceBundle

end Release
