import Beluga.Release.ImageLines

/-! # Where the readings of the images agree

* `mem_walk`: the tag gate finds what stands under a key `image`;
* `extracted_cases`: the inventory has these, and the images of database clusters;
* `components_iff`: the bill of materials has the references of the image lines;
* `readings_agree_iff`: so the three agree exactly on covered texts;
* `images_unlisted`: a database cluster and a container in flow style.
-/

namespace Release

open Py

/-! ## The tag gate -/

/-- The string stands under a key `image`. -/
inductive Under : Value → String → Prop where
  | here {es : Entries} {s : String} (h : ("image", .str s) ∈ es) : Under (.dict es) s
  | entry {es : Entries} {key s : String} {v : Value} (h : (key, v) ∈ es) (hv : Under v s) :
      Under (.dict es) s
  | item {vs : List Value} {s : String} {v : Value} (h : v ∈ vs) (hv : Under v s) :
      Under (.list vs) s

theorem Under.mono {es es' : Entries} {s : String} (h : Under (.dict es) s)
    (hes : ∀ e ∈ es, e ∈ es') : Under (.dict es') s := by
  cases h with
  | here h => exact .here (hes _ h)
  | entry h hv => exact .entry (hes _ h) hv

theorem imageString_some {key s : String} {v : Value} (h : imageString key v = some s) :
    key = "image" ∧ v = .str s := by
  cases v with
  | str t =>
      rw [imageString] at h
      by_cases hkey : key = "image"
      · rw [if_pos hkey] at h
        cases h
        exact ⟨hkey, rfl⟩
      · rw [if_neg hkey] at h
        cases h
  | _ => cases h

mutual
theorem under_of_walk : ∀ (v : Value) (s : String), s ∈ walk_image_keys v → Under v s
  | .dict es, s, h => under_of_entries es s (by rwa [walk_image_keys] at h)
  | .list vs, s, h => under_of_items vs s (by rwa [walk_image_keys] at h)
  | .none, _, h => by cases h
  | .bool _, _, h => by cases h
  | .int _, _, h => by cases h
  | .float _, _, h => by cases h
  | .str _, _, h => by cases h

theorem under_of_entries : ∀ (es : List (String × Value)) (s : String), s ∈ walkEntries es →
    Under (.dict es) s
  | [], _, h => by cases h
  | (key, v) :: rest, s, h => by
      have hrest : s ∈ walkEntries rest → Under (.dict ((key, v) :: rest)) s := fun hmem =>
        (under_of_entries rest s hmem).mono fun e he => List.mem_cons_of_mem _ he
      rw [walkEntries] at h
      cases himage : imageString key v with
      | some t =>
          rw [himage] at h
          rcases imageString_some himage with ⟨rfl, rfl⟩
          rcases List.mem_cons.mp h with rfl | h
          · exact .here List.mem_cons_self
          · exact hrest h
      | none =>
          rw [himage] at h
          rcases List.mem_append.mp h with h | h
          · exact .entry List.mem_cons_self (under_of_walk v s h)
          · exact hrest h

theorem under_of_items : ∀ (vs : List Value) (s : String), s ∈ walkItems vs → Under (.list vs) s
  | [], _, h => by cases h
  | v :: vs, s, h => by
      rw [walkItems] at h
      rcases List.mem_append.mp h with h | h
      · exact .item List.mem_cons_self (under_of_walk v s h)
      · cases under_of_items vs s h with
        | item hmem hv => exact .item (List.mem_cons_of_mem v hmem) hv
end

theorem walk_of_under {v : Value} {s : String} (h : Under v s) : s ∈ walk_image_keys v := by
  induction h with
  | @here es s h =>
      rw [walk_image_keys]
      induction es with
      | nil => cases h
      | cons e es ih =>
          rcases e with ⟨key, v⟩
          rw [walkEntries]
          rcases List.mem_cons.mp h with heq | h
          · cases heq
            exact List.mem_cons_self
          · cases imageString key v with
            | some t => exact List.mem_cons_of_mem t (ih h)
            | none => exact List.mem_append_right _ (ih h)
  | @entry es key s v h hv ih =>
      rw [walk_image_keys]
      have hstring : imageString key v = none := by
        cases hv with
        | here _ => rfl
        | entry _ _ => rfl
        | item _ _ => rfl
      induction es with
      | nil => cases h
      | cons e es ih' =>
          rcases e with ⟨key', v'⟩
          rw [walkEntries]
          rcases List.mem_cons.mp h with heq | h
          · cases heq
            rw [hstring]
            exact List.mem_append_left _ ih
          · cases imageString key' v' with
            | some t => exact List.mem_cons_of_mem t (ih' h)
            | none => exact List.mem_append_right _ (ih' h)
  | @item vs s v h hv ih =>
      rw [walk_image_keys]
      induction vs with
      | nil => cases h
      | cons v' vs ih' =>
          rw [walkItems]
          rcases List.mem_cons.mp h with rfl | h
          · exact List.mem_append_left _ ih
          · exact List.mem_append_right _ (ih' h)

theorem mem_walk {v : Value} {s : String} : s ∈ walk_image_keys v ↔ Under v s :=
  ⟨under_of_walk v s, walk_of_under⟩

/-! ## The inventory -/

section Inventory

variable {d : Entries} {v r : Value} {key ref s : String} {images : List Value}

theorem mem_of_lookup_some (h : d.lookup key = some v) : (key, v) ∈ d := by
  rcases List.lookup_eq_some_iff.mp h with ⟨front, back, rfl, -⟩
  simp

/-- What stands below a key that is read with a default stands below the dict. -/
theorem under_getD {default : Value} (hdefault : ¬Under default s)
    (h : Under (getD d key default) s) : Under (.dict d) s := by
  unfold getD at h
  cases hlookup : d.lookup key with
  | none =>
      rw [hlookup] at h
      exact absurd h hdefault
  | some v =>
      rw [hlookup] at h
      exact .entry (mem_of_lookup_some hlookup) h

theorem not_under_dict : ¬Under (.dict []) s := by
  intro h
  cases h with
  | here h => cases h
  | entry h _ => cases h

theorem not_under_list : ¬Under (.list []) s := by
  intro h
  cases h with
  | item h _ => cases h

theorem part_ok {w : Value} (h : part v key = .ok w) :
    ∃ d, v = .dict d ∧ w = getD d key (.dict []) := by
  rcases bind_ok_iff.mp h with ⟨d, hd, hw⟩
  exact ⟨d, entries_ok.mp hd, (Except.ok.inj hw).symm⟩

theorem under_part {w : Value} (h : part v key = .ok w) (hw : Under w s) : Under v s := by
  rcases part_ok h with ⟨d, rfl, rfl⟩
  exact under_getD not_under_dict hw

theorem containerImage_mem (h : containerImage v = .ok images) (hmem : .str ref ∈ images) :
    Under v ref := by
  rcases bind_ok_iff.mp h with ⟨has, hhas, h⟩
  cases has with
  | false =>
      cases h
      cases hmem
  | true =>
      cases v with
      | dict d =>
          cases h
          rw [List.mem_singleton, eq_comm, get_eq_iff (by simp)] at hmem
          exact .here (mem_of_lookup_some hmem)
      | _ => cases h

theorem podImages_ok (h : podImages v = .ok images) : ∃ d containers parts, v = .dict d ∧
    concat (getD d "initContainers" (.list [])) (getD d "containers" (.list [])) = .ok containers ∧
      containers.mapM containerImage = .ok parts ∧ images = parts.flatten := by
  rcases bind_ok_iff.mp h with ⟨d, hd, hrest⟩
  rcases bind_ok_iff.mp hrest with ⟨containers, hcontainers, hparts⟩
  rcases bind_ok_iff.mp hparts with ⟨parts, hmapM, himages⟩
  exact ⟨d, containers, parts, entries_ok.mp hd, hcontainers, hmapM, (Except.ok.inj himages).symm⟩

/-- The items of a sum: those of two lists, or letters. -/
theorem concat_mem {w : Value} {vs : List Value} (h : concat v w = .ok vs) {x : Value}
    (hx : x ∈ vs) : (∃ xs, (v = .list xs ∨ w = .list xs) ∧ x ∈ xs) ∨ ∃ t, x = .str t := by
  cases v with
  | list xs =>
      cases w with
      | list ys =>
          cases h
          rcases List.mem_append.mp hx with hx | hx
          · exact .inl ⟨xs, .inl rfl, hx⟩
          · exact .inl ⟨ys, .inr rfl, hx⟩
      | _ => cases h
  | str s =>
      cases w with
      | str t =>
          cases h
          rcases List.mem_map.mp hx with ⟨c, -, rfl⟩
          exact .inr ⟨_, rfl⟩
      | _ => cases h
  | _ => cases h

theorem podImages_mem (h : podImages v = .ok images) (hmem : .str ref ∈ images) : Under v ref := by
  rcases podImages_ok h with ⟨d, containers, parts, rfl, hcontainers, hparts, rfl⟩
  rcases List.mem_flatten.mp hmem with ⟨part, hpart, hin⟩
  rcases (mem_of_mapM hparts).mp hpart with ⟨container, hcontainer, himage⟩
  have hunder := containerImage_mem himage hin
  rcases concat_mem hcontainers hcontainer with ⟨xs, hxs, hmem⟩ | ⟨t, rfl⟩
  · rcases hxs with hxs | hxs
    · exact under_getD not_under_list (hxs ▸ Under.item hmem hunder)
    · exact under_getD not_under_list (hxs ▸ Under.item hmem hunder)
  · cases hunder

theorem ownImage_mem (h : ownImage v key = .ok images) (hmem : .str ref ∈ images) :
    ∃ d, v = .dict d ∧ (key, .str ref) ∈ d ∧ ref ≠ "" ∧ Py.get d key = .str ref := by
  rcases bind_ok_iff.mp h with ⟨d, hd, himages⟩
  obtain rfl := entries_ok.mp hd
  have hval := Except.ok.inj himages
  by_cases htruthy : (Py.get d key).truthy = true
  · rw [if_pos htruthy] at hval
    rw [← hval, List.mem_singleton] at hmem
    rw [← hmem] at htruthy
    have hget := hmem.symm
    refine ⟨d, rfl, mem_of_lookup_some ((get_eq_iff (by simp)).mp hget), ?_, hget⟩
    simpa [Value.truthy] using htruthy
  · rw [if_neg htruthy] at hval
    rw [← hval] at hmem
    cases hmem

/-- A database cluster names the image. -/
def ClusterImage (r : Value) (ref : String) : Prop :=
  ∃ d spec, r = .dict d ∧ Py.get d "kind" = .str "Cluster" ∧
    getD d "spec" (.dict []) = .dict spec ∧ "template" ∉ spec.map Prod.fst ∧ ref ≠ "" ∧
    Py.get spec "imageName" = .str ref

theorem extracted_cases (h : extract_workload_images r = .ok images) (hmem : .str ref ∈ images) :
    Under r ref ∨ ClusterImage r ref := by
  rcases bind_ok_iff.mp h with ⟨d, hd, hbody⟩
  obtain rfl := entries_ok.mp hd
  dsimp only at hbody
  by_cases hcron : (Py.get d "kind").eq (.str "CronJob") = true
  · rw [if_pos hcron] at hbody
    rcases bind_ok_iff.mp hbody with ⟨jobTemplate, hjob, hbody⟩
    rcases bind_ok_iff.mp hbody with ⟨jobSpec, hjobSpec, hbody⟩
    rcases bind_ok_iff.mp hbody with ⟨template, htemplate, hbody⟩
    rcases bind_ok_iff.mp hbody with ⟨pod_spec, hpod, hbody⟩
    have hunder := podImages_mem hbody hmem
    exact .inl (under_getD not_under_dict (under_part hjob (under_part hjobSpec
      (under_part htemplate (under_part hpod hunder)))))
  · rw [if_neg hcron] at hbody
    rcases bind_ok_iff.mp hbody with ⟨has, hhas, hbody⟩
    cases has with
    | true =>
        rw [if_pos rfl] at hbody
        cases hspec : getD d "spec" (.dict []) with
        | dict spec =>
            rw [hspec] at hbody
            rcases bind_ok_iff.mp hbody with ⟨pod_spec, hpod, hbody⟩
            have hunder := under_part hpod (podImages_mem hbody hmem)
            have hbelow : Under (getD d "spec" (.dict [])) ref := by
              rw [hspec]
              exact @under_getD spec "template" ref .none (fun h => by cases h) hunder
            exact .inl (under_getD not_under_dict hbelow)
        | _ =>
            rw [hspec] at hbody
            cases hbody
    | false =>
        rw [if_neg (by simp)] at hbody
        by_cases hflink : (Py.get d "kind").eq (.str "FlinkDeployment") = true
        · rw [if_pos hflink] at hbody
          rcases ownImage_mem hbody hmem with ⟨spec, hspec, hin, -⟩
          exact .inl (under_getD not_under_dict (hspec ▸ Under.here hin))
        · rw [if_neg hflink] at hbody
          by_cases hcluster : (Py.get d "kind").eq (.str "Cluster") = true
          · rw [if_pos hcluster] at hbody
            rcases ownImage_mem hbody hmem with ⟨spec, hspec, -, hne, hget⟩
            refine .inr ⟨d, spec, rfl, eq_str.mp hcluster, hspec, ?_, hne, hget⟩
            rw [hspec] at hhas
            have hany := Except.ok.inj hhas
            intro hkey
            rcases List.mem_map.mp hkey with ⟨e, he, hfst⟩
            rw [List.any_eq_false] at hany
            exact hany e he (by simpa using hfst)
          · rw [if_neg hcluster] at hbody
            cases hbody
            cases hmem

theorem ClusterImage.extracted (h : ClusterImage r ref) :
    extract_workload_images r = .ok [.str ref] := by
  rcases h with ⟨d, spec, rfl, hkind, hspec, htemplate, hne, hget⟩
  have hany : (spec.any fun entry => entry.1 = "template") = false := by
    rw [List.any_eq_false]
    intro e he hfst
    exact htemplate (List.mem_map.mpr ⟨e, he, by simpa using hfst⟩)
  have hcron : (Value.str "Cluster").eq (.str "CronJob") = false := by decide
  have hflink : (Value.str "Cluster").eq (.str "FlinkDeployment") = false := by decide
  have hcluster : (Value.str "Cluster").eq (.str "Cluster") = true := by decide
  have htruthy : (Value.str ref).truthy = true := by simpa [Value.truthy] using hne
  simp only [extract_workload_images, entries, hspec, hkind, hcron, hflink, hcluster, inValue, hany,
    ownImage, hget, htruthy, bind, Except.bind, if_true, if_false, Bool.false_eq_true]

end Inventory

/-! ## The bill of materials -/

section Components

variable {py : Py.Text} {text ref : String} {comps : List Value}

/-- A container component for the reference. -/
def IsContainer (ref : String) (c : Value) : Prop :=
  ∃ d, c = .dict d ∧ Py.get d "type" = .str "container" ∧
    Py.get d "bom-ref" = .str ("image:" ++ ref)

/-- The reference has a name and a tag or digest. -/
def Resolvable (py : Py.Text) (ref : String) : Prop := ∃ parts, split_image py ref = .ok parts

/-- There are image lines, all with such references. -/
def Listed (py : Py.Text) (text : String) : Prop :=
  (∃ ref, OnImageLine text ref) ∧ ∀ ref, OnImageLine text ref → Resolvable py ref

theorem mem_sortedRefs : ref ∈ (imageRefs text).dedup.insertionSort (· ≤ ·) ↔
    OnImageLine text ref := by
  rw [List.mem_insertionSort, List.mem_dedup, mem_imageRefs]

theorem imageComponent_ok {c : Value} (h : imageComponent py ref = .ok c) :
    ∀ ref', IsContainer ref' c ↔ ref' = ref := by
  intro ref'
  rcases bind_ok_iff.mp h with ⟨parts, -, hc⟩
  cases hc
  constructor
  · intro hcontainer
    rcases hcontainer with ⟨d, hd, -, href⟩
    cases hd
    have hsame : "image:" ++ ref = "image:" ++ ref' := Value.str.inj href
    have hlist : "image:".toList ++ ref.toList = "image:".toList ++ ref'.toList := by
      rw [← String.toList_append, ← String.toList_append, hsame]
    exact (String.toList_inj.mp (List.append_cancel_left hlist)).symm
  · intro heq
    rw [heq]
    exact ⟨_, rfl, rfl, rfl⟩

theorem imageComponent_resolvable : (∃ c, imageComponent py ref = .ok c) ↔ Resolvable py ref := by
  unfold imageComponent Resolvable
  cases split_image py ref with
  | error e =>
      refine iff_of_false (fun h => ?_) (fun h => ?_)
      · rcases h with ⟨c, hc⟩
        cases hc
      · rcases h with ⟨parts, hparts⟩
        cases hparts
  | ok parts => exact iff_of_true ⟨_, rfl⟩ ⟨parts, rfl⟩

theorem components_iff : (∃ comps, image_components py text = .ok comps) ↔ Listed py text := by
  unfold image_components Listed
  dsimp only
  by_cases hnil : (imageRefs text).dedup.insertionSort (· ≤ ·) = []
  · rw [if_pos hnil]
    refine iff_of_false (fun h => ?_) (fun h => ?_)
    · rcases h with ⟨comps, hcomps⟩
      cases hcomps
    · rcases h.1 with ⟨ref, href⟩
      have hmem := mem_sortedRefs.mpr href
      rw [hnil] at hmem
      cases hmem
  · rw [if_neg hnil]
    constructor
    · intro h
      rcases h with ⟨comps, hcomps⟩
      rcases List.exists_mem_of_ne_nil _ hnil with ⟨ref, href⟩
      refine ⟨⟨ref, mem_sortedRefs.mp href⟩, fun ref' href' => ?_⟩
      rcases ok_of_mapM hcomps (mem_sortedRefs.mpr href') with ⟨c, -, hc⟩
      exact imageComponent_resolvable.mp ⟨c, hc⟩
    · intro h
      exact exists_mapM fun ref href =>
        imageComponent_resolvable.mpr (h.2 ref (mem_sortedRefs.mp href))

theorem container_iff (h : image_components py text = .ok comps) :
    (∃ c ∈ comps, IsContainer ref c) ↔ OnImageLine text ref := by
  unfold image_components at h
  dsimp only at h
  by_cases hnil : (imageRefs text).dedup.insertionSort (· ≤ ·) = []
  · rw [if_pos hnil] at h
    cases h
  · rw [if_neg hnil] at h
    rw [← mem_sortedRefs]
    constructor
    · intro hc
      rcases hc with ⟨c, hmem, hcontainer⟩
      rcases (mem_of_mapM h).mp hmem with ⟨ref', href', hc⟩
      rwa [(imageComponent_ok hc ref).mp hcontainer]
    · intro href
      rcases ok_of_mapM h href with ⟨c, hmem, hc⟩
      exact ⟨c, hmem, (imageComponent_ok hc ref).mpr rfl⟩

end Components

/-! ## The three readings -/

section Agreement

variable (py : Py.Text) (safe_load_all : String → Try (List Value)) (text : String)

/-- The inventory has the reference, of one of the resources. -/
def Extracted (docs : List Value) (ref : String) : Prop :=
  ∃ r ∈ docs, ∃ images, extract_workload_images r = .ok images ∧ .str ref ∈ images

/-- Each reference of the inventory is in the bill of materials, where there is one, and the tag
gate finds it. -/
def Agree : Prop :=
  ∀ docs, safe_load_all text = .ok docs → ∀ ref, Extracted docs ref →
    (∀ comps, image_components py text = .ok comps → ∃ c ∈ comps, IsContainer ref c) ∧
      ∃ found, extract_images_from_yaml safe_load_all text = .ok found ∧ ref ∈ found

/-- What database clusters name stands under a key `image` as well, and each reference of the
inventory on an image line, unless these are refused. -/
def Covered : Prop :=
  ∀ docs, safe_load_all text = .ok docs →
    (∀ r ∈ docs, ∀ ref, ClusterImage r ref → ∃ doc ∈ docs, Under doc ref) ∧
      (Listed py text → ∀ ref, Extracted docs ref → OnImageLine text ref)

variable {safe_load_all text}

theorem found_iff {docs : List Value} (h : safe_load_all text = .ok docs) (ref : String) :
    (∃ found, extract_images_from_yaml safe_load_all text = .ok found ∧ ref ∈ found) ↔
      ∃ doc ∈ docs, Under doc ref := by
  have hfound : extract_images_from_yaml safe_load_all text =
      .ok (docs.flatMap walk_image_keys).reverse.dedup.reverse := by
    rw [extract_images_from_yaml, h]
    rfl
  rw [hfound]
  simp only [Except.ok.injEq, exists_eq_left', List.mem_reverse, List.mem_dedup, List.mem_flatMap,
    mem_walk]

variable (safe_load_all text)

theorem readings_agree_iff : Agree py safe_load_all text ↔ Covered py safe_load_all text := by
  unfold Agree Covered
  refine forall_congr' fun docs => forall_congr' fun hload => ?_
  constructor
  · intro h
    refine ⟨fun r hr ref hcluster => ?_, fun hlisted ref href => ?_⟩
    · have hextracted : Extracted docs ref :=
        ⟨r, hr, _, hcluster.extracted, List.mem_singleton.mpr rfl⟩
      exact (found_iff hload ref).mp (h ref hextracted).2
    · rcases components_iff.mpr hlisted with ⟨comps, hcomps⟩
      exact (container_iff hcomps).mp ((h ref href).1 comps hcomps)
  · intro h ref hextracted
    refine ⟨fun comps hcomps => ?_, (found_iff hload ref).mpr ?_⟩
    · exact (container_iff hcomps).mpr (h.2 (components_iff.mp ⟨comps, hcomps⟩) ref hextracted)
    · rcases hextracted with ⟨r, hr, images, himages, hmem⟩
      rcases extracted_cases himages hmem with hunder | hcluster
      · exact ⟨r, hr, hunder⟩
      · exact h.1 r hr ref hcluster

end Agreement

/-! A database cluster, and a container in flow style. -/

section Sample

def imageText : Py.Text where
  quote s := "'" ++ s ++ "'"
  float _ := "0.0"
  float_head := Py.float_head_zero

def samplePod (containers : Value) : Value :=
  .dict [("template", .dict [("spec", .dict [("containers", containers)])])]

def sampleContainer (image : String) : Value := .dict [("image", .str image)]

def sampleResources : List Value :=
  [.dict [("kind", .str "Deployment"), ("spec", samplePod (.list [sampleContainer "busybox:1.36"]))],
    .dict [("kind", .str "Deployment"), ("spec", samplePod (.list [sampleContainer "redis:7.4"]))],
    .dict [("kind", .str "Cluster"), ("spec", .dict [("imageName", .str "postgresql:17.2")])]]

def sampleLines : List String :=
  ["kind: Deployment", "spec:", "  template:", "    spec:", "      containers:",
    "        - image: \"busybox:1.36\"", "---", "kind: Deployment",
    "spec: \x7btemplate: \x7bspec: \x7bcontainers: [\x7bimage: redis:7.4\x7d]\x7d\x7d\x7d", "---",
    "kind: Cluster", "spec:", "  imageName: postgresql:17.2"]

def sampleManifest : String := String.ofList (['\n'].intercalate (sampleLines.map String.toList))

def loadSample (text : String) : Try (List Value) :=
  if text = sampleManifest then .ok sampleResources else .error .raised

theorem imageRefs_sample : imageRefs sampleManifest = ["busybox:1.36"] := by
  have hlines : sampleManifest.toList.splitOn '\n' = sampleLines.map String.toList := by
    rw [sampleManifest, String.toList_ofList,
      List.splitOn_intercalate '\n' (by decide +kernel) (by decide)]
  rw [imageRefs_lines, hlines]
  decide +kernel

theorem onImageLine_sample {ref : String} :
    OnImageLine sampleManifest ref ↔ ref = "busybox:1.36" := by
  rw [← mem_imageRefs, imageRefs_sample, List.mem_singleton]

/-- Two images that are not in the bill of materials, one of them not seen by the tag gate. -/
theorem images_unlisted :
    loadSample sampleManifest = .ok sampleResources ∧
      (∃ comps, image_components imageText sampleManifest = .ok comps ∧
        (Extracted sampleResources "redis:7.4" ∧ ¬∃ c ∈ comps, IsContainer "redis:7.4" c) ∧
          Extracted sampleResources "postgresql:17.2" ∧
            ¬∃ c ∈ comps, IsContainer "postgresql:17.2" c) ∧
      ¬∃ found, extract_images_from_yaml loadSample sampleManifest = .ok found ∧
        "postgresql:17.2" ∈ found := by
  have hload : loadSample sampleManifest = .ok sampleResources := if_pos rfl
  have hlisted : Listed imageText sampleManifest := by
    refine ⟨⟨"busybox:1.36", onImageLine_sample.mpr rfl⟩, fun ref href => ?_⟩
    rw [onImageLine_sample.mp href]
    exact ⟨("busybox", "1.36"), by decide +kernel⟩
  rcases components_iff.mpr hlisted with ⟨comps, hcomps⟩
  refine ⟨hload, ⟨comps, hcomps, ⟨⟨_, .tail _ (.head _), _, rfl, .head _⟩, ?_⟩,
    ⟨_, .tail _ (.tail _ (.head _)), _, rfl, .head _⟩, ?_⟩, ?_⟩
  · rw [container_iff hcomps, onImageLine_sample]
    decide
  · rw [container_iff hcomps, onImageLine_sample]
    decide
  · intro h
    rcases h with ⟨found, hfound, hmem⟩
    have himages : extract_images_from_yaml loadSample sampleManifest =
        .ok ["busybox:1.36", "redis:7.4"] := by
      rw [extract_images_from_yaml, hload]
      decide +kernel
    rw [himages] at hfound
    cases hfound
    exact absurd hmem (by decide)

end Sample

end Release
