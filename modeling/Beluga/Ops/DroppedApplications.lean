import Beluga.Ops.DriftReports

/-! # Applications with one name

The report keys Applications by their names alone, so of two with one name in different namespaces
only the one listed last is looked at.

* `report_meets_iff`: the report can be relied on if and only if no expected name is listed twice;
* `dropped_application`: an Application that is not synced passes for no drift. -/

namespace Ops

open Py

/-! ## Applications that can be read -/

/-- An Application at a path, that tracks one workload or none. -/
structure Sample where
  key : ObjectKey
  path : String
  tracks : Bool

def deployment : Entries :=
  [("kind", .str "Deployment"), ("name", .str "web"), ("namespace", .str "apps")]

def liveDeployment : Entries :=
  [("kind", .str "Deployment"),
    ("metadata", .dict [("name", .str "web"), ("namespace", .str "apps")])]

def Sample.app (s : Sample) : Entries :=
  [("metadata", .dict [("name", .str s.key.name), ("namespace", .str s.key.ns)]),
    ("spec", .dict [("source", .dict [("path", .str s.path)])]),
    ("status", .dict [("resources", .list (if s.tracks then [.dict deployment] else []))])]

variable {py : Text} {samples : List Sample} {expectedApps : List String}
  {revision revisionSource : String} {report : Report}

theorem metaOf_sample (s : Sample) (what : String) :
    metaOf py s.app what = .ok (s.key.name, s.key.ns) := by
  have hns : (Value.str s.key.ns).truthy = true := by
    simpa [Value.truthy] using s.key.ns_ne
  show (if s.key.name = "" then _ else Except.ok (s.key.name,
    if (Value.str s.key.ns).truthy = true then _ else _)) = _
  rw [if_neg s.key.name_ne, if_pos hns]
  rfl

theorem sourcePaths_sample (s : Sample) : sourcePaths s.app = .ok {s.path} := rfl

theorem resourcesOf_sample (s : Sample) :
    resourcesOf s.app = if s.tracks then [deployment] else [] := by
  cases htracks : s.tracks with
  | true =>
      simp only [resourcesOf, statusOf, Sample.app, htracks]
      rfl
  | false =>
      simp only [resourcesOf, statusOf, Sample.app, htracks]
      rfl

theorem applicationFindings_sample (s : Sample) (name : String) :
    ∃ fs, applicationFindings py name s.app revision = .ok (fs, resourcesOf s.app) := by
  rw [resourcesOf_sample]
  cases htracks : s.tracks with
  | true =>
      simp only [Sample.app, htracks]
      exact ⟨_, rfl⟩
  | false =>
      simp only [Sample.app, htracks]
      exact ⟨_, rfl⟩

/-! ## Their reports -/

theorem listed_samples (samples : List Sample) :
    Listed py (samples.map (·.key)) (samples.map (·.app)) := by
  unfold Listed
  rw [List.map_map, List.map_map]
  refine List.map_congr_left fun s _ => ?_
  rw [Function.comp_apply, metaOf_sample]
  rfl

theorem named_samples (samples : List Sample) :
    (samples.map (·.app)).mapM (nameApplication py) =
      .ok (samples.map fun s => (s.key.name, s.app)) := by
  rw [mapM_ok_iff, List.forall₂_map_left_iff, List.forall₂_map_right_iff, List.forall₂_same]
  exact fun s _ => bind_ok_iff.mpr ⟨_, metaOf_sample s _, rfl⟩

/-- The root is the first one listed. -/
theorem deployedRoot_samples (samples : List Sample) :
    deployedRoot py (samples.map (·.app)) =
      .ok (((samples.find? (·.key.name = "beluga-root")).map fun s => {s.path}).getD DEFAULT_ROOT) := by
  induction samples with
  | nil => rfl
  | cons s samples ih =>
      rw [List.map_cons, deployedRoot, metaOf_sample]
      show (if s.key.name = "beluga-root" then _ else _) = _
      by_cases hroot : s.key.name = "beluga-root"
      · rw [if_pos hroot, sourcePaths_sample, List.find?_cons_of_pos (by simpa using hroot)]
        rfl
      · rw [if_neg hroot, ih, List.find?_cons_of_neg (by simpa using hroot)]

/-- The Application that is looked at under a name. -/
def lookedAt (samples : List Sample) (name : String) : Option Entries :=
  (dictOf (samples.map fun s => (s.key.name, s.app))).lookup name

theorem sample_of_lookedAt {name : String} {app : Entries} (h : lookedAt samples name = some app) :
    ∃ s ∈ samples, s.key.name = name ∧ s.app = app := by
  obtain ⟨s, hs, heq⟩ := List.mem_map.mp (mem_of_lookup h)
  exact ⟨s, hs, (Prod.mk.inj heq).1, (Prod.mk.inj heq).2⟩

theorem workloadKey_live : workloadKey py liveDeployment = .ok "Deployment/apps/web" := rfl

theorem resourceId_deployment : resourceId py deployment = "Deployment/apps/web" := rfl

/-- The report of such Applications, one live workload and nothing declared. -/
theorem evaluate_samples (samples : List Sample) :
    ∃ report, evaluate py (samples.map (·.app)) [liveDeployment] ∅ expectedApps revision
      revisionSource = .ok report := by
  have hchecked : ∀ name ∈ expectedApps, ∃ pair, expectedFindings py
      (dictOf (samples.map fun s => (s.key.name, s.app))) revision name = .ok pair := by
    intro name _
    cases hlookup : lookedAt samples name with
    | none =>
        obtain ⟨f, -, -, hf⟩ := @expectedFindings_none py _ revision _ hlookup
        exact ⟨_, hf⟩
    | some app =>
        obtain ⟨s, -, -, rfl⟩ := sample_of_lookedAt hlookup
        obtain ⟨fs, hfs⟩ := applicationFindings_sample s name
        exact ⟨_, (expectedFindings_some hlookup).trans hfs⟩
  obtain ⟨checked, hchecked⟩ := exists_mapM hchecked
  have hkeyed : [liveDeployment].mapM (keyWorkload py) =
      .ok [("Deployment/apps/web", liveDeployment)] := rfl
  exact ⟨_, evaluate_ok.mpr ⟨_, _, checked, _, [], named_samples samples,
    deployedRoot_samples samples, hchecked, hkeyed, rfl, rfl⟩⟩

/-- The workload is skipped if no Application that is looked at tracks it. -/
theorem skipped_samples (h : evaluate py (samples.map (·.app)) [liveDeployment] ∅ expectedApps
    revision revisionSource = .ok report) :
    Skipped report "Deployment/apps/web" ↔
      ∀ name ∈ expectedApps, ∀ app, lookedAt samples name = some app → resourcesOf app = [] := by
  obtain ⟨named, rootPaths, checked, keyed, compared, he⟩ := evaluate_ok.mp h
  have hnamed : named = samples.map fun s => (s.key.name, s.app) :=
    Except.ok.inj (he.named_eq.symm.trans (named_samples samples))
  subst hnamed
  have hreport := he.report_eq
  subst hreport
  rw [skipped_iff, mem_live he.keyed_eq]
  have hkeys : "Deployment/apps/web" ∈ workloadKeys py [liveDeployment] := List.mem_singleton.mpr rfl
  have hdeclared : "Deployment/apps/web" ∉ AList.keys (∅ : Declared) := List.not_mem_nil
  rw [and_iff_right hkeys, and_iff_right hdeclared, mem_managedKeys]
  constructor
  · intro hnot name hname app hlookup
    obtain ⟨⟨fs, resources⟩, hpair, hfs⟩ := ok_of_mapM he.checked_eq hname
    rw [expectedFindings_some hlookup] at hfs
    obtain ⟨rfl, -⟩ := applicationFindings_ok hfs
    obtain ⟨s, -, -, rfl⟩ := sample_of_lookedAt hlookup
    by_contra hne
    refine hnot ⟨deployment, List.mem_flatMap.mpr ⟨_, hpair, ?_⟩, rfl, resourceId_deployment⟩
    show deployment ∈ resourcesOf s.app
    rw [resourcesOf_sample] at hne ⊢
    split_ifs at hne ⊢
    · exact List.mem_singleton.mpr rfl
    · exact absurd rfl hne
  · rintro hnone ⟨res, hres, -, -⟩
    obtain ⟨⟨fs, resources⟩, hpair, hres⟩ := List.mem_flatMap.mp hres
    obtain ⟨name, hname, hfs⟩ := (mem_of_mapM he.checked_eq).mp hpair
    cases hlookup : lookedAt samples name with
    | none =>
        obtain ⟨f, -, -, hf⟩ := @expectedFindings_none py _ revision _ hlookup
        rw [hf] at hfs
        obtain ⟨-, rfl⟩ := Prod.mk.inj (Except.ok.inj hfs)
        cases hres
    | some app =>
        rw [expectedFindings_some hlookup] at hfs
        obtain ⟨rfl, -⟩ := applicationFindings_ok hfs
        rw [show resourcesOf app = [] from hnone name hname app hlookup] at hres
        cases hres

/-- The root is reported if its paths are not those of a committed root. -/
theorem source_samples (h : evaluate py (samples.map (·.app)) [liveDeployment] ∅ expectedApps
    revision revisionSource = .ok report) :
    (∃ f ∈ report.findings, f.check = .source) ↔
      ((samples.find? (·.key.name = "beluga-root")).map fun s => {s.path}).getD DEFAULT_ROOT ∉
        rootSources := by
  obtain ⟨named, rootPaths, checked, keyed, compared, he⟩ := evaluate_ok.mp h
  rw [← Except.ok.inj (he.root_eq.symm.trans (deployedRoot_samples samples))]
  have hplain := plain_found he
  have hreport := he.report_eq
  subst hreport
  constructor
  · rintro ⟨f, hf, hcheck⟩ hknown
    rcases List.mem_append.mp (mem_sortFindings.mp hf) with hf | hf
    · rw [rootFindings, if_pos hknown, List.append_assoc, List.nil_append] at hf
      have hnot := hplain f hf
      rw [hcheck] at hnot
      cases hnot
    · rcases List.mem_append.mp hf with hf | hf
      · obtain ⟨key, -, rfl⟩ := List.mem_map.mp hf
        cases hcheck
      · obtain ⟨key, -, rfl⟩ := List.mem_map.mp hf
        cases hcheck
  · intro hunknown
    have hroot : rootFindings py rootPaths ≠ [] := by
      rw [rootFindings, if_neg hunknown]
      exact List.cons_ne_nil _ _
    obtain ⟨f, hf⟩ := List.exists_mem_of_ne_nil _ hroot
    have hmem := List.mem_append_left compared.flatten
      (List.mem_append_left (checked.flatMap Prod.fst) hf)
    exact ⟨f, mem_sortFindings.mpr (List.mem_append_left _ hmem), rootFindings_check f hf⟩

/-! ## Two Applications with one name -/

theorem split_of_count {keys : List ObjectKey} {name : String}
    (h : 1 < (keys.map (·.name)).count name) :
    ∃ front key back, keys = front ++ key :: back ∧ key.name = name ∧
      name ∉ front.map (·.name) ∧ name ∈ back.map (·.name) := by
  induction keys with
  | nil => cases h
  | cons key keys ih =>
      rw [List.map_cons] at h
      by_cases hkey : key.name = name
      · rw [hkey, List.count_cons_self] at h
        exact ⟨[], key, keys, rfl, hkey, List.not_mem_nil, List.count_pos_iff.mp (by omega)⟩
      · rw [List.count_cons_of_ne hkey] at h
        obtain ⟨front, first, back, rfl, hfirst, hfront, hback⟩ := ih h
        refine ⟨key :: front, first, back, rfl, hfirst, ?_, hback⟩
        rw [List.map_cons, List.mem_cons, not_or]
        exact ⟨fun heq => hkey heq.symm, hfront⟩

def quiet (key : ObjectKey) : Sample := ⟨key, "gitops/apps", false⟩

/-- An Application with the name comes from elsewhere and tracks the workload. -/
def loud (name : String) (key : ObjectKey) : Sample :=
  if key.name = name then ⟨key, "elsewhere", true⟩ else quiet key

def pairSamples (name : String) (front : List ObjectKey) (key : ObjectKey)
    (back : List ObjectKey) : List Sample :=
  front.map quiet ++ quiet key :: back.map (loud name)

theorem loud_key (name : String) (key : ObjectKey) : (loud name key).key = key := by
  unfold loud
  split_ifs
  · rfl
  · rfl

theorem pairSamples_keys (name : String) (front : List ObjectKey) (key : ObjectKey)
    (back : List ObjectKey) :
    (pairSamples name front key back).map (·.key) = front ++ key :: back := by
  have hfront : ∀ keys : List ObjectKey, (keys.map quiet).map (·.key) = keys := by
    intro keys
    rw [List.map_map]
    exact List.map_id'' (fun _ => rfl) keys
  have hback : (back.map (loud name)).map (·.key) = back := by
    rw [List.map_map]
    exact List.map_id'' (fun key => loud_key name key) back
  rw [pairSamples, List.map_append, List.map_cons, hfront, hback]
  rfl

section Pair

variable {name : String} {front back : List ObjectKey} {key : ObjectKey}

/-- In this order the Application that tracks the workload is looked at. -/
theorem lookedAt_pair (hback : name ∈ back.map (·.name)) :
    ∃ app, lookedAt (pairSamples name front key back) name = some app ∧ resourcesOf app ≠ [] := by
  have hmem : name ∈ ((back.map (loud name)).map fun s => (s.key.name, s.app)).map Prod.fst := by
    obtain ⟨k, hk, rfl⟩ := List.mem_map.mp hback
    rw [List.map_map, List.map_map]
    exact List.mem_map.mpr ⟨k, hk, by rw [Function.comp_apply, Function.comp_apply, loud_key]⟩
  have hlookup : lookedAt (pairSamples name front key back) name =
      (dictOf ((back.map (loud name)).map fun s => (s.key.name, s.app))).lookup name := by
    rw [lookedAt, pairSamples, List.append_cons, List.map_append, lookup_append_right hmem]
  obtain ⟨app, happ⟩ := Option.isSome_iff_exists.mp (AList.lookup_isSome.mpr (mem_dictOf.mpr hmem))
  refine ⟨app, hlookup.trans happ, ?_⟩
  obtain ⟨s, hs, heq⟩ := List.mem_map.mp (mem_of_lookup happ)
  obtain ⟨k, -, rfl⟩ := List.mem_map.mp hs
  obtain ⟨hname, rfl⟩ := Prod.mk.inj heq
  rw [loud_key] at hname
  rw [resourcesOf_sample, loud, if_pos hname]
  exact List.cons_ne_nil _ _

/-- In the other order it is the first one. -/
theorem lookedAt_reverse (hkey : key.name = name) (hfront : name ∉ front.map (·.name))
    {other : String} {app : Entries}
    (h : lookedAt (pairSamples name front key back).reverse other = some app) :
    resourcesOf app = [] := by
  by_cases hother : other = name
  · subst hother
    have hnot : other ∉ ((front.map quiet).reverse.map fun s => (s.key.name, s.app)).map Prod.fst := by
      rw [List.map_map, List.map_reverse, List.mem_reverse, List.map_map]
      exact hfront
    have hlookup : lookedAt (pairSamples other front key back).reverse other =
        some (quiet key).app := by
      rw [lookedAt, pairSamples, List.reverse_append, List.reverse_cons, List.append_assoc,
        List.map_append, List.singleton_append, List.map_cons]
      subst hkey
      exact lookup_dictOf_last hnot
    rw [hlookup] at h
    obtain rfl := Option.some.inj h
    rw [resourcesOf_sample]
    rfl
  · obtain ⟨s, hs, hname, rfl⟩ := sample_of_lookedAt h
    rw [resourcesOf_sample, if_neg]
    rcases List.mem_append.mp (List.mem_reverse.mp hs) with hs | hs
    · obtain ⟨k, -, rfl⟩ := List.mem_map.mp hs
      exact Bool.false_ne_true
    · rcases List.mem_cons.mp hs with rfl | hs
      · exact Bool.false_ne_true
      · obtain ⟨k, -, rfl⟩ := List.mem_map.mp hs
        rw [loud_key] at hname
        rw [loud, if_neg fun heq => hother (hname.symm.trans heq)]
        exact Bool.false_ne_true

theorem root_pair (hkey : key.name = "beluga-root") (hfront : "beluga-root" ∉ front.map (·.name)) :
    ((pairSamples name front key back).find? (·.key.name = "beluga-root")) = some (quiet key) := by
  have hnone : (front.map quiet).find? (·.key.name = "beluga-root") = none := by
    rw [List.find?_eq_none]
    intro s hs
    obtain ⟨k, hk, rfl⟩ := List.mem_map.mp hs
    have hne : k.name ≠ "beluga-root" := fun heq => hfront (List.mem_map.mpr ⟨k, hk, heq⟩)
    exact fun heq => hne (of_decide_eq_true heq)
  rw [pairSamples, List.find?_append, hnone, Option.none_or]
  exact List.find?_cons_of_pos (decide_eq_true hkey)

theorem root_reverse (hback : "beluga-root" ∈ back.map (·.name)) :
    ∃ s, (pairSamples "beluga-root" front key back).reverse.find? (·.key.name = "beluga-root") =
      some s ∧ s.path = "elsewhere" := by
  obtain ⟨k, hk, hname⟩ := List.mem_map.mp hback
  have hsome : ((back.map (loud "beluga-root")).reverse.find? (·.key.name = "beluga-root")).isSome := by
    rw [List.find?_isSome]
    refine ⟨loud "beluga-root" k, List.mem_reverse.mpr (List.mem_map.mpr ⟨k, hk, rfl⟩), ?_⟩
    rw [loud_key]
    exact decide_eq_true hname
  obtain ⟨s, hs⟩ := Option.isSome_iff_exists.mp hsome
  refine ⟨s, ?_, ?_⟩
  · rw [pairSamples, List.reverse_append, List.reverse_cons, List.append_assoc, List.find?_append, hs]
    rfl
  · have hroot : s.key.name = "beluga-root" :=
      of_decide_eq_true (List.find?_some (p := fun s : Sample => s.key.name = "beluga-root") hs)
    obtain ⟨k', -, rfl⟩ := List.mem_map.mp (List.mem_reverse.mp (List.mem_of_find?_eq_some hs))
    rw [loud_key] at hroot
    rw [loud, if_pos hroot]

end Pair

/-- The report can be relied on, whatever the Applications, the workloads and the declarations are,
if and only if no expected name, nor that of the root, is listed twice. -/
theorem report_meets_iff (py : Text) (keys : List ObjectKey) (expectedApps : List String) :
    (∀ apps workloads declared revision revisionSource, Listed py keys apps →
      (workloadKeys py workloads).Nodup →
        Meets py apps workloads declared expectedApps revision revisionSource) ↔
      OneEach keys expectedApps := by
  constructor
  · intro hmeets name hname
    by_contra hcount
    obtain ⟨front, key, back, hkeys, hkey, hfront, hback⟩ := split_of_count (not_le.mp hcount)
    let samples := pairSamples name front key back
    have hlisted : Listed py keys (samples.map (·.app)) := by
      rw [hkeys, ← pairSamples_keys name]
      exact listed_samples samples
    have horder := (hmeets _ [liveDeployment] ∅ "" "" hlisted (List.nodup_singleton _)).order
      (samples.reverse.map (·.app)) [liveDeployment]
      (((List.reverse_perm samples).symm).map _) (List.Perm.refl _)
    obtain ⟨report, hreport⟩ := @evaluate_samples py expectedApps "" "" samples
    obtain ⟨report', hreport'⟩ := @evaluate_samples py expectedApps "" "" samples.reverse
    rw [hreport, hreport'] at horder
    obtain rfl : report' = report := Option.some.inj horder
    rcases hname with hexpected | rfl
    · -- the workload is skipped in one order only
      have hskipped : Skipped report' "Deployment/apps/web" := (skipped_samples hreport').mpr
        fun other _ app happ => lookedAt_reverse hkey hfront happ
      obtain ⟨app, happ, hne⟩ := @lookedAt_pair name front back key hback
      exact hne ((skipped_samples hreport).mp hskipped name hexpected app happ)
    · -- the root is a committed one in one order only
      obtain ⟨s, hs, hpath⟩ := @root_reverse front back key hback
      have hsource : ∃ f ∈ report'.findings, f.check = .source := by
        rw [source_samples hreport', hs, Option.map_some, hpath]
        decide
      refine (source_samples hreport).mp hsource ?_
      rw [root_pair hkey hfront, Option.map_some]
      exact List.mem_cons_self
  · intro hone apps workloads declared revision revisionSource hlisted hdistinct
    exact report_meets hlisted hdistinct hone

def sampleText : Text where
  quote s := "'" ++ s ++ "'"
  float _ := "0.0"
  float_head _ := ⟨'0', by decide, .inl rfl⟩

/-- An Application with its sync status. -/
def dataApplication (ns status revision : String) : Entries :=
  [("metadata", .dict [("name", .str "beluga-data"), ("namespace", .str ns)]),
    ("status", .dict [("sync", .dict [("status", .str status), ("revision", .str revision)])])]

/-- Two Applications named `beluga-data`: that one of them is out of sync at an old revision is
reported in one order of the list only. -/
theorem dropped_application :
    (∃ report, evaluate sampleText
        [dataApplication "argocd" "OutOfSync" "old", dataApplication "team" "Synced" "new"] [] ∅
        ["beluga-data"] "new" "explicit" = .ok report ∧ report.summary .unauthorized = 0) ∧
      ¬ Sound sampleText
        [dataApplication "argocd" "OutOfSync" "old", dataApplication "team" "Synced" "new"] [] ∅
        ["beluga-data"] "new" ∧
      ∃ report, evaluate sampleText
        [dataApplication "team" "Synced" "new", dataApplication "argocd" "OutOfSync" "old"] [] ∅
        ["beluga-data"] "new" "explicit" = .ok report ∧ report.summary .unauthorized = 2 := by
  refine ⟨?_, ?_, ?_⟩
  · refine ⟨_, rfl, ?_⟩
    decide +kernel
  · intro h
    have hsync : Value.str "OutOfSync" = .str "Synced" := (h.inSync "beluga-data"
      (List.mem_singleton.mpr rfl) _ List.mem_cons_self ⟨"argocd", rfl⟩).synced
    exact absurd (Value.str.inj hsync) (by decide)
  · refine ⟨_, rfl, ?_⟩
    decide +kernel

end Ops
