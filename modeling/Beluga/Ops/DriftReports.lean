import Beluga.Ops.DriftRules

/-! # What a drift report says of the cluster

* `report_meets`: where no expected name is listed twice, a report without unauthorized findings
  means that there is no drift, each workload is counted once, and the order of the lists does not
  matter;
* `dropped_application`: of two Applications with one name only the last is looked at. -/

namespace Ops

open Py

/-! ## The statement -/

/-- The name and the namespace of an object in the cluster. -/
structure ObjectKey where
  name : String
  ns : String
  name_ne : name ≠ ""
  ns_ne : ns ≠ ""

section Statement

variable (py : Text)

/-- The Applications have these keys, in this order. -/
def Listed (keys : List ObjectKey) (apps : List Entries) : Prop :=
  apps.map (fun app => (metaOf py app "Application").toOption) =
    keys.map fun key => some (key.name, key.ns)

def Named (app : Entries) (name : String) : Prop :=
  ∃ ns, metaOf py app "Application" = .ok (name, ns)

/-- The keys of the workloads. -/
def workloadKeys (workloads : List Entries) : List String :=
  workloads.filterMap fun w => (workloadKey py w).toOption

/-- What is true of the cluster where there is no drift. -/
structure Sound (apps workloads : List Entries) (declared : Declared) (expectedApps : List String)
    (revision : String) : Prop where
  present : ∀ name ∈ expectedApps, ∃ app ∈ apps, Named py app name
  inSync : ∀ name ∈ expectedApps, ∀ app ∈ apps, Named py app name → InSync revision app
  images : ∀ key want, declared.lookup key = some want →
    ∃ w ∈ workloads, workloadKey py w = .ok key ∧ ∃ got, podContainers w key = .ok got ∧
      SameImages got.containers want.containers ∧
      SameImages got.initContainers want.initContainers
  tracked : ∀ name ∈ expectedApps, ∀ app ∈ apps, Named py app name → ∀ res ∈ resourcesOf app,
    isWorkloadKind (get res "kind") = true → resourceId py res ∈ workloadKeys py workloads →
      resourceId py res ∈ declared

def Undeclared (report : Report) (key : String) : Prop :=
  ∃ f ∈ report.findings, f.check = .undeclared ∧ f.subject = key

def Skipped (report : Report) (key : String) : Prop := skippedText key ∈ report.skipped

/-- Each workload is image-checked, reported as undeclared or skipped, and only one of these. -/
structure Counted (workloads : List Entries) (declared : Declared) (report : Report) : Prop where
  once : ∀ key ∈ workloadKeys py workloads,
    (key ∈ declared ∧ ¬ Undeclared report key ∧ ¬ Skipped report key) ∨
      (key ∉ declared ∧ Undeclared report key ∧ ¬ Skipped report key) ∨
      (key ∉ declared ∧ ¬ Undeclared report key ∧ Skipped report key)
  live : report.live = workloads.length
  image_checked : report.image_checked = (workloadKeys py workloads).countP (· ∈ declared.keys)
  all : report.live = report.image_checked + report.findings.countP (·.check = .undeclared) +
    report.skipped.length

/-- What the report is relied on for. -/
structure Meets (apps workloads : List Entries) (declared : Declared) (expectedApps : List String)
    (revision revisionSource : String) : Prop where
  sound : ∀ report, evaluate py apps workloads declared expectedApps revision revisionSource =
    .ok report → report.summary .unauthorized = 0 →
      Sound py apps workloads declared expectedApps revision
  counted : ∀ report, evaluate py apps workloads declared expectedApps revision revisionSource =
    .ok report → Counted py workloads declared report
  order : ∀ apps' workloads', apps.Perm apps' → workloads.Perm workloads' →
    (evaluate py apps' workloads' declared expectedApps revision revisionSource).toOption =
      (evaluate py apps workloads declared expectedApps revision revisionSource).toOption

/-- No expected name, nor that of the root, is listed twice. -/
def OneEach (keys : List ObjectKey) (expectedApps : List String) : Prop :=
  ∀ name, name ∈ expectedApps ∨ name = "beluga-root" → (keys.map (·.name)).count name ≤ 1

end Statement

variable {py : Text} {apps workloads : List Entries} {declared : Declared}
  {expectedApps : List String} {revision revisionSource : String} {report : Report}
  {named keyed : List (String × Entries)} {rootPaths : Finset String}
  {checked : List (List Finding × List Entries)} {compared : List (List Finding)}

/-! ## Names and keys -/

theorem nameApplication_ok {app : Entries} {pair : String × Entries}
    (h : nameApplication py app = .ok pair) : pair.2 = app ∧ Named py app pair.1 := by
  obtain ⟨⟨name, ns⟩, hmeta, h⟩ := bind_ok_iff.mp h
  obtain rfl := Except.ok.inj h
  exact ⟨rfl, ns, hmeta⟩

theorem names_of_listed {keys : List ObjectKey} (hlisted : Listed py keys apps)
    (h : apps.mapM (nameApplication py) = .ok named) :
    named.map Prod.fst = keys.map (·.name) := by
  have hall := mapM_ok_iff.mp h
  clear h
  unfold Listed at hlisted
  induction hall generalizing keys with
  | nil =>
      rw [List.map_nil, eq_comm, List.map_eq_nil_iff] at hlisted
      rw [hlisted]
      rfl
  | @cons app pair apps named hpair _ ih =>
      obtain ⟨-, ns, hmeta⟩ := nameApplication_ok hpair
      cases keys with
      | nil => cases hlisted
      | cons key keys =>
          rw [List.map_cons, List.map_cons, hmeta] at hlisted
          obtain ⟨hhead, htail⟩ := List.cons.inj hlisted
          rw [List.map_cons, List.map_cons, ih htail]
          rw [(Prod.mk.inj (Option.some.inj hhead)).1]

theorem mem_named (h : apps.mapM (nameApplication py) = .ok named) {app : Entries} {name : String} :
    (name, app) ∈ named ↔ app ∈ apps ∧ Named py app name := by
  rw [mem_of_mapM h]
  constructor
  · rintro ⟨app', happ, hname⟩
    obtain ⟨rfl, hnamed⟩ := nameApplication_ok hname
    exact ⟨happ, hnamed⟩
  · rintro ⟨happ, ns, hmeta⟩
    exact ⟨app, happ, bind_ok_iff.mpr ⟨_, hmeta, rfl⟩⟩

theorem keyWorkload_ok {w : Entries} {pair : String × Entries} (h : keyWorkload py w = .ok pair) :
    pair.2 = w ∧ workloadKey py w = .ok pair.1 := by
  obtain ⟨key, hkey, h⟩ := bind_ok_iff.mp h
  obtain rfl := Except.ok.inj h
  exact ⟨rfl, hkey⟩

theorem keys_of_keyed (h : workloads.mapM (keyWorkload py) = .ok keyed) :
    keyed.map Prod.fst = workloadKeys py workloads ∧ keyed.length = workloads.length := by
  have hall := mapM_ok_iff.mp h
  refine ⟨?_, hall.length_eq.symm⟩
  clear h
  unfold workloadKeys
  induction hall with
  | nil => rfl
  | @cons w pair workloads keyed hpair _ ih =>
      have hkey : (workloadKey py w).toOption = some pair.1 := by
        rw [(keyWorkload_ok hpair).2]
        rfl
      rw [List.map_cons, ih]
      exact (List.filterMap_cons_some (f := fun w => (workloadKey py w).toOption) hkey).symm

theorem mem_keyed (h : workloads.mapM (keyWorkload py) = .ok keyed) {w : Entries} {key : String} :
    (key, w) ∈ keyed ↔ w ∈ workloads ∧ workloadKey py w = .ok key := by
  rw [mem_of_mapM h]
  constructor
  · rintro ⟨w', hw, hkey⟩
    obtain ⟨rfl, hkey'⟩ := keyWorkload_ok hkey
    exact ⟨hw, hkey'⟩
  · rintro ⟨hw, hkey⟩
    exact ⟨w, hw, bind_ok_iff.mpr ⟨_, hkey, rfl⟩⟩

/-! ## The order of the lists -/

/-- The root, by the dict of the names. -/
def rootOf (byName : Dict String Entries) : Except InputError (Finset String) :=
  match byName.lookup "beluga-root" with
  | none => .ok DEFAULT_ROOT
  | some app => sourcePaths app

theorem deployedRoot_eq (h : apps.mapM (nameApplication py) = .ok named)
    (hcount : (named.map Prod.fst).count "beluga-root" ≤ 1) :
    deployedRoot py apps = rootOf (dictOf named) := by
  have hall := mapM_ok_iff.mp h
  clear h
  induction hall with
  | nil => rfl
  | @cons app pair apps named hpair _ ih =>
      obtain ⟨rfl, ns, hmeta⟩ := nameApplication_ok hpair
      have hstep : deployedRoot py (pair.2 :: apps) =
          if pair.1 = "beluga-root" then sourcePaths pair.2 else deployedRoot py apps := by
        rw [deployedRoot, hmeta]
        rfl
      rw [hstep]
      by_cases hroot : pair.1 = "beluga-root"
      · have hlookup : (dictOf (pair :: named)).lookup "beluga-root" = some pair.2 := by
          rw [lookup_dictOf_of_count hcount, ← hroot]
          exact List.mem_cons_self
        rw [if_pos hroot, rootOf, hlookup]
      · rw [List.map_cons, List.count_cons_of_ne hroot] at hcount
        have hlookup : (dictOf (pair :: named)).lookup "beluga-root" =
            (dictOf named).lookup "beluga-root" := by
          ext v
          rw [lookup_dictOf_of_count hcount, lookup_dictOf_of_count]
          · rw [List.mem_cons, or_iff_right]
            intro heq
            exact hroot (Prod.mk.inj heq).1.symm
          · rwa [List.map_cons, List.count_cons_of_ne hroot]
        rw [if_neg hroot, ih hcount, rootOf, rootOf, hlookup]

theorem sorted_perm {keys keys' : List String} (h : keys.Perm keys') : sorted keys = sorted keys' :=
  ((List.perm_insertionSort _ keys).trans (h.trans (List.perm_insertionSort _ keys').symm)).eq_of_pairwise'
    (List.pairwise_insertionSort _ keys) (List.pairwise_insertionSort _ keys')

/-- A report depends on the live workloads only by their keys. -/
theorem reportOf_perm {live live' : Dict String Entries} {found : List Finding}
    {resources : List Entries} (h : live.keys.Perm live'.keys) :
    reportOf py revision revisionSource live declared found resources =
      reportOf py revision revisionSource live' declared found resources := by
  have htracked : trackedFindings (managedKeys py resources) live.keys declared.keys =
      trackedFindings (managedKeys py resources) live'.keys declared.keys := by
    unfold trackedFindings
    simp only [h.mem_iff]
  unfold reportOf
  dsimp only
  rw [htracked, h.length_eq, h.countP_eq, sorted_perm (h.filter _)]

theorem mapM_congr {α β ε : Type} {f g : α → Except ε β} {xs : List α}
    (h : ∀ x ∈ xs, f x = g x) : xs.mapM f = xs.mapM g := by
  induction xs with
  | nil => rfl
  | cons x xs ih =>
      obtain ⟨hx, hxs⟩ := List.forall_mem_cons.mp h
      rw [List.mapM_cons, List.mapM_cons, hx, ih hxs]

theorem expectedFindings_perm {named' : List (String × Entries)} (hp : named.Perm named')
    (hcount : ∀ name ∈ expectedApps, (named.map Prod.fst).count name ≤ 1) :
    expectedApps.mapM (expectedFindings py (dictOf named) revision) =
      expectedApps.mapM (expectedFindings py (dictOf named') revision) := by
  refine mapM_congr fun name hname => ?_
  rw [expectedFindings, expectedFindings, lookup_dictOf_perm hp (hcount name hname)]

/-- The names that matter are read once at most. -/
def NamedOnce (py : Text) (apps : List Entries) (expectedApps : List String) : Prop :=
  ∀ named, apps.mapM (nameApplication py) = .ok named → ∀ name,
    name ∈ expectedApps ∨ name = "beluga-root" → (named.map Prod.fst).count name ≤ 1

theorem namedOnce_of_listed {keys : List ObjectKey} (hlisted : Listed py keys apps)
    (hone : OneEach keys expectedApps) : NamedOnce py apps expectedApps := by
  intro named hnamed name hname
  rw [names_of_listed hlisted hnamed]
  exact hone name hname

theorem NamedOnce.perm {apps' : List Entries} (h : NamedOnce py apps expectedApps)
    (happs : apps.Perm apps') : NamedOnce py apps' expectedApps := by
  intro named' hnamed' name hname
  obtain ⟨named, hnamed, hp⟩ := mapM_perm happs.symm hnamed'
  rw [(hp.map Prod.fst).count_eq]
  exact h named hnamed name hname

theorem evaluate_perm {apps' workloads' : List Entries} (honce : NamedOnce py apps expectedApps)
    (hdistinct : (workloadKeys py workloads).Nodup) (happs : apps.Perm apps')
    (hworkloads : workloads.Perm workloads')
    (h : evaluate py apps workloads declared expectedApps revision revisionSource = .ok report) :
    evaluate py apps' workloads' declared expectedApps revision revisionSource = .ok report := by
  obtain ⟨named, rootPaths, checked, keyed, compared, he⟩ := evaluate_ok.mp h
  obtain ⟨named', hnamed', hpnamed⟩ := mapM_perm happs he.named_eq
  obtain ⟨keyed', hkeyed', hpkeyed⟩ := mapM_perm hworkloads he.keyed_eq
  have hcount := honce named he.named_eq
  have hnodup : (keyed.map Prod.fst).Nodup := by rwa [(keys_of_keyed he.keyed_eq).1]
  have hlive : ∀ key, (dictOf keyed).lookup key = (dictOf keyed').lookup key := fun key =>
    lookup_dictOf_perm hpkeyed (List.nodup_iff_count_le_one.mp hnodup key)
  refine evaluate_ok.mpr ⟨named', rootPaths, checked, keyed', compared, hnamed', ?_, ?_, hkeyed', ?_,
    ?_⟩
  · have hroot := hcount _ (.inr rfl)
    have hroot' : (named'.map Prod.fst).count "beluga-root" ≤ 1 := by
      rwa [← (hpnamed.map Prod.fst).count_eq]
    rw [deployedRoot_eq hnamed' hroot', rootOf, ← lookup_dictOf_perm hpnamed hroot]
    rw [← he.root_eq, deployedRoot_eq he.named_eq hroot]
    rfl
  · rw [← expectedFindings_perm hpnamed fun name hname => hcount name (.inl hname)]
    exact he.checked_eq
  · rw [← he.compared_eq]
    refine mapM_congr fun entry _ => ?_
    rw [declaredFindings, declaredFindings, hlive]
  · rw [he.report_eq]
    refine reportOf_perm ?_
    rw [List.perm_ext_iff_of_nodup (AList.keys_nodup _) (AList.keys_nodup _)]
    intro key
    rw [← AList.mem_keys, ← AList.mem_keys, mem_dictOf, mem_dictOf, (hpkeyed.map Prod.fst).mem_iff]

/-! ## Reports without unauthorized findings -/

theorem quiet_of_summary {live : Dict String Entries} {found : List Finding}
    {resources : List Entries} (h : (reportOf py revision revisionSource live declared found
      resources).summary .unauthorized = 0) :
    Quiet found ∧ Quiet (trackedFindings (managedKeys py resources) live.keys declared.keys) := by
  have hzero := List.countP_eq_zero.mp h
  refine quiet_append.mp fun f hf hcls => ?_
  exact hzero f (mem_sortFindings.mpr hf) (decide_eq_true hcls)

theorem mem_managedKeys {resources : List Entries} {key : String} :
    key ∈ managedKeys py resources ↔
      ∃ res ∈ resources, isWorkloadKind (get res "kind") = true ∧ resourceId py res = key := by
  simp only [managedKeys, List.mem_dedup, List.mem_map, List.mem_filter, and_assoc]

/-- A tracked workload that is live and not declared is found. -/
theorem mem_trackedFindings {managed live declared : List String} {key : String}
    (hmanaged : key ∈ managed) (hlive : key ∈ live) (hdeclared : key ∉ declared) :
    ∃ f ∈ trackedFindings managed live declared,
      f.check = .undeclared ∧ f.subject = key ∧ f.cls = .unauthorized := by
  refine ⟨_, List.mem_append_right _ (List.mem_map.mpr ⟨key, mem_sorted.mpr ?_, rfl⟩), rfl, rfl, rfl⟩
  exact List.mem_filter.mpr ⟨hmanaged, decide_eq_true ⟨hlive, hdeclared⟩⟩

theorem mem_live (h : workloads.mapM (keyWorkload py) = .ok keyed) {key : String} :
    key ∈ (dictOf keyed).keys ↔ key ∈ workloadKeys py workloads := by
  rw [← AList.mem_keys, mem_dictOf, (keys_of_keyed h).1]

section Evaluated

variable (he : Evaluated py apps workloads declared expectedApps revision revisionSource report named
  rootPaths checked keyed compared)

include he

/-- What is found of an expected Application that is listed once. -/
theorem checked_of_named (hcount : ∀ name ∈ expectedApps, (named.map Prod.fst).count name ≤ 1)
    {name : String} (hname : name ∈ expectedApps) {app : Entries} (happ : app ∈ apps)
    (hnamed : Named py app name) :
    ∃ fs, (fs, resourcesOf app) ∈ checked ∧
      applicationFindings py name app revision = .ok (fs, resourcesOf app) := by
  have hmem := (mem_named he.named_eq).mpr ⟨happ, hnamed⟩
  have hlookup := (lookup_dictOf_of_count (hcount name hname)).mpr hmem
  obtain ⟨⟨fs, resources⟩, hmem', hfound⟩ := ok_of_mapM he.checked_eq hname
  rw [expectedFindings_some hlookup] at hfound
  obtain ⟨rfl, -⟩ := applicationFindings_ok hfound
  exact ⟨fs, hmem', hfound⟩

theorem sound_of_quiet (hcount : ∀ name ∈ expectedApps, (named.map Prod.fst).count name ≤ 1)
    (h : report.summary .unauthorized = 0) :
    Sound py apps workloads declared expectedApps revision := by
  rw [he.report_eq] at h
  obtain ⟨hfound, htracked⟩ := quiet_of_summary h
  obtain ⟨hfirst, hcompared⟩ := quiet_append.mp hfound
  have hchecked : ∀ pair ∈ checked, Quiet pair.1 := fun pair hpair f hf =>
    (quiet_append.mp hfirst).2 f (List.mem_flatMap.mpr ⟨pair, hpair, hf⟩)
  constructor
  case present =>
    intro name hname
    obtain ⟨pair, hpair, hfs⟩ := ok_of_mapM he.checked_eq hname
    cases hlookup : (dictOf named).lookup name with
    | none =>
        obtain ⟨f, hcls, -, hf⟩ := @expectedFindings_none py _ revision _ hlookup
        rw [hf] at hfs
        obtain rfl := Except.ok.inj hfs
        exact absurd (hchecked _ hpair) (not_quiet (List.mem_singleton.mpr rfl) hcls)
    | some app => exact ⟨app, (mem_named he.named_eq).mp (mem_of_lookup hlookup)⟩
  case inSync =>
    intro name hname app happ hnamed
    obtain ⟨fs, hmem, hfs⟩ := checked_of_named he hcount hname happ hnamed
    exact inSync_of_quiet hfs (hchecked _ hmem)
  case images =>
    intro key want hwant
    have hentry : (⟨key, want⟩ : Sigma fun _ => Containers) ∈
        declared.entries.insertionSort fun a b => a.1 ≤ b.1 :=
      (List.mem_insertionSort _).mpr (AList.mem_lookup_iff.mp hwant)
    obtain ⟨fs, hmem, hfs⟩ := ok_of_mapM he.compared_eq hentry
    have hquiet : Quiet fs := fun f hf => hcompared f (List.mem_flatten.mpr ⟨fs, hmem, hf⟩)
    cases hlive : (dictOf keyed).lookup key with
    | none =>
        rw [declaredFindings, hlive] at hfs
        obtain rfl := Except.ok.inj hfs
        exact absurd hquiet (not_quiet (List.mem_singleton.mpr rfl) rfl)
    | some w =>
        obtain ⟨hw, hkey⟩ := (mem_keyed he.keyed_eq).mp (mem_of_lookup hlive)
        rw [declaredFindings, hlive] at hfs
        obtain ⟨got, hgot, hfs⟩ := bind_ok_iff.mp hfs
        obtain rfl := Except.ok.inj hfs
        exact ⟨w, hw, hkey, got, hgot, containerFindings_quiet hquiet⟩
  case tracked =>
    intro name hname app happ hnamed res hres hkind hlive
    obtain ⟨fs, hmem, -⟩ := checked_of_named he hcount hname happ hnamed
    have hmanaged : resourceId py res ∈ managedKeys py (checked.flatMap Prod.snd) :=
      mem_managedKeys.mpr ⟨res, List.mem_flatMap.mpr ⟨_, hmem, hres⟩, hkind, rfl⟩
    by_contra hdeclared
    rw [AList.mem_keys] at hdeclared
    obtain ⟨f, hf, -, -, hcls⟩ :=
      mem_trackedFindings hmanaged ((mem_live he.keyed_eq).mpr hlive) hdeclared
    exact htracked f hf hcls

/-! ## Workloads are counted once -/

theorem plain_found : Plain (checked.flatMap Prod.fst ++ compared.flatten) := by
  refine plain_append ?_ (plain_flatten fun fs hfs => ?_)
  · intro f hf
    obtain ⟨⟨fs, resources⟩, hpair, hf⟩ := List.mem_flatMap.mp hf
    obtain ⟨name, -, hfs⟩ := (mem_of_mapM he.checked_eq).mp hpair
    cases hlookup : (dictOf named).lookup name with
    | none =>
        obtain ⟨g, -, hplain, hg⟩ := @expectedFindings_none py _ revision _ hlookup
        rw [hg] at hfs
        obtain ⟨rfl, -⟩ := Prod.mk.inj (Except.ok.inj hfs)
        exact plain_singleton hplain f hf
    | some app =>
        rw [expectedFindings_some hlookup] at hfs
        exact applicationFindings_plain hfs f hf
  · obtain ⟨entry, -, hfs'⟩ := (mem_of_mapM he.compared_eq).mp hfs
    exact declaredFindings_plain hfs'

end Evaluated

theorem rootFindings_check {paths : Finset String} :
    ∀ f ∈ rootFindings py paths, f.check = .source := by
  intro f hf
  unfold rootFindings at hf
  split_ifs at hf
  · cases hf
  · rw [List.mem_singleton.mp hf]

/-- The findings about workloads that are not declared. -/
theorem filter_undeclared {found : List Finding} {managed live declared : List String}
    (hfound : ∀ f ∈ found, f.check ≠ .undeclared) :
    (found ++ trackedFindings managed live declared).filter (·.check = .undeclared) =
      (sorted (managed.filter fun key => key ∈ live ∧ key ∉ declared)).map (⟨.undeclared,
        .unauthorized, ·,
        "live and Argo-tracked but absent from the chart render: image cannot be checked"⟩) := by
  have hnone : found.filter (·.check = .undeclared) = [] :=
    List.filter_eq_nil_iff.mpr fun f hf => by simpa using hfound f hf
  rw [List.filter_append, hnone, List.nil_append, trackedFindings, List.filter_append]
  rw [List.filter_eq_nil_iff.mpr, List.nil_append, List.filter_eq_self.mpr]
  · intro f hf
    obtain ⟨key, -, rfl⟩ := List.mem_map.mp hf
    exact decide_eq_true rfl
  · intro f hf
    obtain ⟨key, -, rfl⟩ := List.mem_map.mp hf
    simp

theorem skippedText_inj {key key' : String} (h : skippedText key = skippedText key') :
    key = key' := by
  unfold skippedText at h
  rw [← String.toList_inj] at h ⊢
  simp only [String.toList_append] at h
  exact List.append_cancel_right (List.append_cancel_right h)

section Report

variable {live : Dict String Entries} {found : List Finding} {resources : List Entries} {key : String}

theorem undeclared_iff (hfound : ∀ f ∈ found, f.check ≠ .undeclared) :
    Undeclared (reportOf py revision revisionSource live declared found resources) key ↔
      key ∈ managedKeys py resources ∧ key ∈ live.keys ∧ key ∉ declared.keys := by
  have hiff : Undeclared (reportOf py revision revisionSource live declared found resources) key ↔
      ∃ f ∈ (found ++ trackedFindings (managedKeys py resources) live.keys declared.keys).filter
        (·.check = .undeclared), f.subject = key := by
    simp only [Undeclared, reportOf, mem_sortFindings, List.mem_filter, decide_eq_true_eq, and_assoc]
  rw [hiff, filter_undeclared hfound]
  simp only [List.mem_map, exists_exists_and_eq_and, exists_eq_right, mem_sorted, List.mem_filter,
    decide_eq_true_eq]

theorem skipped_iff :
    Skipped (reportOf py revision revisionSource live declared found resources) key ↔
      key ∈ live.keys ∧ key ∉ declared.keys ∧ key ∉ managedKeys py resources := by
  constructor
  · intro h
    obtain ⟨key', hkey', heq⟩ := List.mem_map.mp h
    rw [skippedText_inj heq] at hkey'
    simpa using mem_sorted.mp hkey'
  · intro h
    exact List.mem_map.mpr ⟨key, mem_sorted.mpr (by simpa using h), rfl⟩

theorem length_split {α : Type} (p q : α → Prop) [DecidablePred p] [DecidablePred q] (xs : List α) :
    xs.length = xs.countP (fun x => p x) + (xs.filter fun x => ¬ p x ∧ q x).length +
      (xs.filter fun x => ¬ p x ∧ ¬ q x).length := by
  induction xs with
  | nil => rfl
  | cons x xs ih =>
      by_cases hp : p x
      · simp only [List.length_cons, List.countP_cons, List.filter_cons, hp, not_true, false_and,
          decide_true, decide_false, if_true, Bool.false_eq_true, if_false]
        omega
      · by_cases hq : q x
        · simp only [List.length_cons, List.countP_cons, List.filter_cons, hp, hq, not_true,
            not_false_eq_true, and_true, and_false, decide_true, decide_false, if_true,
            Bool.false_eq_true, if_false]
          omega
        · simp only [List.length_cons, List.countP_cons, List.filter_cons, hp, hq,
            not_false_eq_true, and_true, and_false, decide_true, decide_false, if_true,
            Bool.false_eq_true, if_false]
          omega

/-- The report's numbers are those of the three kinds of live workloads. -/
theorem length_live (hfound : ∀ f ∈ found, f.check ≠ .undeclared) :
    live.keys.length = live.keys.countP (· ∈ declared.keys) +
      (reportOf py revision revisionSource live declared found resources).findings.countP
        (·.check = .undeclared) +
      (reportOf py revision revisionSource live declared found resources).skipped.length := by
  have hperm : ((managedKeys py resources).filter fun key =>
        key ∈ live.keys ∧ key ∉ declared.keys).Perm
      (live.keys.filter fun key => key ∉ declared.keys ∧ key ∈ managedKeys py resources) := by
    refine (List.perm_ext_iff_of_nodup ((List.nodup_dedup _).filter _)
      ((AList.keys_nodup live).filter _)).mpr fun key => ?_
    simp only [List.mem_filter, decide_eq_true_eq]
    tauto
  have hundeclared : (reportOf py revision revisionSource live declared found
      resources).findings.countP (·.check = .undeclared) = (live.keys.filter fun key =>
        key ∉ declared.keys ∧ key ∈ managedKeys py resources).length := by
    show (sortFindings _).countP _ = _
    rw [(sortFindings_perm _).countP_eq, List.countP_eq_length_filter,
      filter_undeclared hfound, List.length_map, sorted, List.length_insertionSort, hperm.length_eq]
  have hskipped : (reportOf py revision revisionSource live declared found resources).skipped.length =
      (live.keys.filter fun key =>
        key ∉ declared.keys ∧ key ∉ managedKeys py resources).length := by
    show (List.map _ (sorted _)).length = _
    rw [List.length_map, sorted, List.length_insertionSort]
  rw [hundeclared, hskipped]
  exact length_split (· ∈ declared.keys) (· ∈ managedKeys py resources) live.keys

end Report

theorem counted_of_evaluated (he : Evaluated py apps workloads declared expectedApps revision
    revisionSource report named rootPaths checked keyed compared)
    (hdistinct : (workloadKeys py workloads).Nodup) : Counted py workloads declared report := by
  have hfound : ∀ f ∈ rootFindings py rootPaths ++ checked.flatMap Prod.fst ++ compared.flatten,
      f.check ≠ .undeclared := by
    intro f hf heq
    rw [List.append_assoc] at hf
    rcases List.mem_append.mp hf with hf | hf
    · rw [rootFindings_check f hf] at heq
      cases heq
    · have hplain := plain_found he f hf
      rw [heq] at hplain
      cases hplain
  have hlive := @mem_live _ _ _ he.keyed_eq
  have hlength : (dictOf keyed).keys.length = workloads.length := by
    rw [length_keys (by rwa [(keys_of_keyed he.keyed_eq).1]), (keys_of_keyed he.keyed_eq).2]
  have hperm : (dictOf keyed).keys.Perm (workloadKeys py workloads) :=
    (List.perm_ext_iff_of_nodup (AList.keys_nodup _) hdistinct).mpr fun key => hlive
  have hreport := he.report_eq
  subst hreport
  refine ⟨fun key hkey => ?_, hlength, hperm.countP_eq _, length_live hfound⟩
  rw [AList.mem_keys, undeclared_iff hfound, skipped_iff, hlive]
  by_cases hdeclared : key ∈ declared.keys
  · exact .inl ⟨hdeclared, fun h => h.2.2 hdeclared, fun h => h.2.1 hdeclared⟩
  · by_cases hmanaged : key ∈ managedKeys py (checked.flatMap Prod.snd)
    · exact .inr (.inl ⟨hdeclared, ⟨hmanaged, hkey, hdeclared⟩, fun h => h.2.2 hmanaged⟩)
    · exact .inr (.inr ⟨hdeclared, fun h => hmanaged h.1, hkey, hdeclared, hmanaged⟩)

theorem report_meets {keys : List ObjectKey} (hlisted : Listed py keys apps)
    (hdistinct : (workloadKeys py workloads).Nodup) (hone : OneEach keys expectedApps) :
    Meets py apps workloads declared expectedApps revision revisionSource := by
  have honce := namedOnce_of_listed hlisted hone
  constructor
  case sound =>
    intro report h hzero
    obtain ⟨named, rootPaths, checked, keyed, compared, he⟩ := evaluate_ok.mp h
    exact sound_of_quiet he (fun name hname => honce named he.named_eq name (.inl hname)) hzero
  case counted =>
    intro report h
    obtain ⟨named, rootPaths, checked, keyed, compared, he⟩ := evaluate_ok.mp h
    exact counted_of_evaluated he hdistinct
  case order =>
    intro apps' workloads' happs hworkloads
    have hdistinct' : (workloadKeys py workloads').Nodup :=
      ((hworkloads.filterMap _).nodup_iff).mp hdistinct
    cases h : evaluate py apps workloads declared expectedApps revision revisionSource with
    | ok report => rw [evaluate_perm honce hdistinct happs hworkloads h]
    | error e =>
        cases h' : evaluate py apps' workloads' declared expectedApps revision revisionSource with
        | error e' => rfl
        | ok report' =>
            rw [evaluate_perm (honce.perm happs) hdistinct' happs.symm hworkloads.symm h'] at h
            cases h

end Ops
