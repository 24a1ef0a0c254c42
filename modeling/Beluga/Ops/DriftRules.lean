import Beluga.Ops.LiveDrift

/-! # What the parts of the drift report say

* `inSync_of_quiet`: an Application about which nothing unauthorized is found is synced,
  and its rules cover its resources;
* `sectionFindings_quiet`: a section of a workload about which nothing is found is the declared one;
* `evaluate_ok`: a report, by the results of its loops. -/

namespace Ops

open Py

variable {py : Text}

/-- Nothing unauthorized is found. -/
def Quiet (findings : List Finding) : Prop := ∀ f ∈ findings, f.cls ≠ .unauthorized

theorem quiet_append {fs gs : List Finding} : Quiet (fs ++ gs) ↔ Quiet fs ∧ Quiet gs :=
  List.forall_mem_append

theorem not_quiet {f : Finding} {fs : List Finding} (hf : f ∈ fs) (hcls : f.cls = .unauthorized) :
    ¬ Quiet fs := fun h => h f hf hcls

/-- Findings are not about the root, nor about workloads that are not declared. -/
def Check.plain : Check → Bool
  | .source | .undeclared => false
  | _ => true

def Plain (findings : List Finding) : Prop := ∀ f ∈ findings, f.check.plain = true

theorem plain_nil : Plain [] := fun _ hf => absurd hf List.not_mem_nil

theorem plain_singleton {f : Finding} (h : f.check.plain = true) : Plain [f] :=
  List.forall_mem_singleton.mpr h

theorem plain_append {fs gs : List Finding} (hfs : Plain fs) (hgs : Plain gs) : Plain (fs ++ gs) :=
  List.forall_mem_append.mpr ⟨hfs, hgs⟩

theorem plain_ite {p : Prop} [Decidable p] {fs gs : List Finding} (hfs : Plain fs)
    (hgs : Plain gs) : Plain (if p then fs else gs) := by
  split_ifs
  · exact hfs
  · exact hgs

theorem plain_flatten {fss : List (List Finding)} (h : ∀ fs ∈ fss, Plain fs) :
    Plain fss.flatten := by
  intro f hf
  obtain ⟨fs, hfs, hf⟩ := List.mem_flatten.mp hf
  exact h fs hfs f hf

/-! ## Reading objects -/

/-- The entries of an object, none of anything else. -/
def asDict : Value → Entries
  | .dict entries => entries
  | _ => []

/-- The objects of a list. -/
def dicts : Value → List Entries
  | .list items => items.map asDict
  | _ => []

theorem sub_ok {d entries : Entries} {key what : String} (h : sub d key what = .ok entries) :
    entries = asDict (get d key) := by
  unfold sub at h
  split at h
  · rename_i heq
    rw [heq]
    exact (Except.ok.inj h).symm
  · rename_i heq
    rw [heq]
    exact (Except.ok.inj h).symm
  · cases h

theorem objects_ok {v : Value} {error : InputError} {xs : List Entries}
    (h : objects v error = .ok xs) : xs = dicts v := by
  unfold objects at h
  split at h
  · exact (Except.ok.inj h).symm
  · rename_i items
    have hall := mapM_ok_iff.mp h
    clear h
    show xs = items.map asDict
    induction hall with
    | nil => rfl
    | @cons v entries items xs hv _ ih =>
        have hentries : entries = asDict v := by
          split at hv
          · exact (Except.ok.inj hv).symm
          · cases hv
        rw [List.map_cons, ← hentries, ih]
  · cases h

def statusOf (app : Entries) : Entries := asDict (get app "status")

def syncOf (app : Entries) : Entries := asDict (get (statusOf app) "sync")

/-- The resources that an Application tracks. -/
def resourcesOf (app : Entries) : List Entries := dicts (get (statusOf app) "resources")

/-- The rules of an Application for differences that are ignored. -/
def rulesOf (app : Entries) : List Entries :=
  dicts (get (asDict (get app "spec")) "ignoreDifferences")

/-! ## One Application -/

/-- An Application without drift: synced, at the revision, with a rule for each resource that is
not. -/
structure InSync (revision : String) (app : Entries) : Prop where
  synced : get (syncOf app) "status" = .str "Synced"
  revision : ∃ revs, syncedRevisions (syncOf app) = .list revs ∧ .str revision ∈ revs
  covered : ∀ res ∈ resourcesOf app, get res "status" = .str "OutOfSync" →
    ∃ rule ∈ rulesOf app, matchesRule res rule = true

theorem syncFindings_quiet {what revision : String} {sync : Entries} {revs : List Value}
    (h : Quiet (syncFindings py what sync revs revision)) :
    get sync "status" = .str "Synced" ∧ .str revision ∈ revs := by
  obtain ⟨hstatus, hrevision⟩ := quiet_append.mp h
  constructor
  · by_contra hne
    rw [if_neg (by rwa [eq_str])] at hstatus
    exact not_quiet (List.mem_singleton.mpr rfl) rfl hstatus
  · by_contra hnot
    have hany : ¬ revs.any (·.eq (.str revision)) = true := by
      intro hany
      obtain ⟨v, hv, heq⟩ := List.any_eq_true.mp hany
      rw [eq_str.mp heq] at hv
      exact hnot hv
    rw [if_neg hany] at hrevision
    exact not_quiet (List.mem_singleton.mpr rfl) rfl hrevision

theorem statusFindings_quiet {subject : String} {res : Entries} {rules : List Entries}
    (h : Quiet (statusFindings py subject res rules)) (hstatus : get res "status" = .str "OutOfSync") :
    ∃ rule ∈ rules, matchesRule res rule = true := by
  rw [← List.any_eq_true]
  by_contra hnot
  simp only [statusFindings, hstatus, ignored, hnot] at h
  exact not_quiet (List.mem_singleton.mpr rfl) rfl h

theorem syncFindings_plain {what revision : String} {sync : Entries} {revs : List Value} :
    Plain (syncFindings py what sync revs revision) :=
  plain_append (plain_ite plain_nil (plain_singleton rfl))
    (plain_ite plain_nil (plain_singleton rfl))

theorem statusFindings_plain {subject : String} {res : Entries} {rules : List Entries} :
    Plain (statusFindings py subject res rules) :=
  plain_ite (plain_singleton rfl)
    (plain_ite (plain_ite (plain_singleton rfl)
      (plain_singleton rfl))
      (plain_ite plain_nil (plain_singleton rfl)))

theorem resourceFindings_ok {name : String} {rules : List Entries} {res : Entries}
    {fs : List Finding} (h : resourceFindings py name rules res = .ok fs) :
    ∃ subject before, Plain before ∧ fs = before ++ statusFindings py subject res rules := by
  obtain ⟨health, -, h⟩ := bind_ok_iff.mp h
  exact ⟨_, _, plain_ite plain_nil (plain_singleton rfl),
    (Except.ok.inj h).symm⟩

theorem applicationFindings_ok {name revision : String} {app : Entries} {fs : List Finding}
    {resources : List Entries} (h : applicationFindings py name app revision = .ok (fs, resources)) :
    resources = resourcesOf app ∧ ∃ revs middle found,
      syncedRevisions (syncOf app) = .list revs ∧
      (resourcesOf app).mapM (resourceFindings py name (rulesOf app)) = .ok found ∧
      Plain middle ∧ fs = syncFindings py ("Application/" ++ name) (syncOf app) revs revision ++ middle ++
          found.flatten := by
  obtain ⟨status, hstatus, h⟩ := bind_ok_iff.mp h
  obtain rfl := sub_ok hstatus
  obtain ⟨sync, hsync, h⟩ := bind_ok_iff.mp h
  obtain rfl := sub_ok hsync
  obtain ⟨revs, hrevs, h⟩ := bind_ok_iff.mp h
  obtain ⟨health, -, h⟩ := bind_ok_iff.mp h
  obtain ⟨spec, hspec, h⟩ := bind_ok_iff.mp h
  obtain rfl := sub_ok hspec
  obtain ⟨rules, hrules, h⟩ := bind_ok_iff.mp h
  obtain rfl := objects_ok hrules
  obtain ⟨tracked, htracked, h⟩ := bind_ok_iff.mp h
  obtain rfl := objects_ok htracked
  obtain ⟨found, hfound, h⟩ := bind_ok_iff.mp h
  obtain ⟨rfl, rfl⟩ := Prod.mk.inj (Except.ok.inj h)
  have hrevs' : syncedRevisions (syncOf app) = .list revs := by
    unfold revisionList at hrevs
    split at hrevs
    · rename_i heq
      rw [← Except.ok.inj hrevs]
      exact heq
    · cases hrevs
  refine ⟨rfl, revs, _, found, hrevs', hfound, ?_, rfl⟩
  exact plain_append (plain_ite plain_nil (plain_singleton rfl))
    (plain_ite (plain_singleton rfl) plain_nil)

theorem inSync_of_quiet {name revision : String} {app : Entries} {fs : List Finding}
    {resources : List Entries} (h : applicationFindings py name app revision = .ok (fs, resources))
    (hquiet : Quiet fs) : InSync revision app := by
  obtain ⟨-, revs, middle, found, hrevs, hfound, -, rfl⟩ := applicationFindings_ok h
  obtain ⟨hfirst, hresources⟩ := quiet_append.mp hquiet
  obtain ⟨hsynced, hrevision⟩ := syncFindings_quiet (quiet_append.mp hfirst).1
  refine ⟨hsynced, ⟨revs, hrevs, hrevision⟩, fun res hres hstatus => ?_⟩
  obtain ⟨gs, hgs, hres'⟩ := ok_of_mapM hfound hres
  obtain ⟨subject, before, -, rfl⟩ := resourceFindings_ok hres'
  have hquiet' : Quiet (statusFindings py subject res (rulesOf app)) := fun f hf =>
    hresources f (List.mem_flatten.mpr ⟨_, hgs, List.mem_append_right _ hf⟩)
  exact statusFindings_quiet hquiet' hstatus

theorem applicationFindings_plain {name revision : String} {app : Entries} {fs : List Finding}
    {resources : List Entries} (h : applicationFindings py name app revision = .ok (fs, resources)) :
    Plain fs := by
  obtain ⟨-, revs, middle, found, -, hfound, hmiddle, rfl⟩ := applicationFindings_ok h
  refine plain_append (plain_append syncFindings_plain hmiddle) (plain_flatten fun gs hgs => ?_)
  obtain ⟨res, -, hres⟩ := (mem_of_mapM hfound).mp hgs
  obtain ⟨subject, before, hbefore, rfl⟩ := resourceFindings_ok hres
  exact plain_append hbefore statusFindings_plain

theorem expectedFindings_some {byName : Dict String Entries} {revision name : String}
    {app : Entries} (h : byName.lookup name = some app) :
    expectedFindings py byName revision name = applicationFindings py name app revision := by
  rw [expectedFindings, h]

/-- An Application that is not there is found to be missing. -/
theorem expectedFindings_none {byName : Dict String Entries} {revision name : String}
    (h : byName.lookup name = none) : ∃ f : Finding, f.cls = .unauthorized ∧
      f.check.plain = true ∧ expectedFindings py byName revision name = .ok ([f], []) := by
  refine ⟨_, ?_, ?_, by rw [expectedFindings, h]⟩
  · rfl
  · rfl

/-! ## Workloads -/

/-- The same images under the same names. -/
def SameImages (got want : Images) : Prop :=
  ∀ name, Option.Rel (fun g w => g.eq w = true) (got.lookup name) (want.lookup name)

theorem mem_sorted {keys : List String} {key : String} : key ∈ sorted keys ↔ key ∈ keys :=
  List.mem_insertionSort _

theorem sectionFindings_quiet {key label : String} {got want : Images}
    (h : Quiet (sectionFindings py key label got want)) : SameImages got want := by
  intro name
  by_cases hname : name ∈ got.keys ++ want.keys
  · have hquiet : Quiet _ := fun f hf => h f
      (List.mem_flatMap.mpr ⟨name, mem_sorted.mpr (List.mem_dedup.mpr hname), hf⟩)
    cases hgot : got.lookup name with
    | none =>
        rw [hgot] at hquiet
        exact absurd hquiet (not_quiet (List.mem_singleton.mpr rfl) rfl)
    | some g =>
        cases hwant : want.lookup name with
        | none =>
            rw [hgot, hwant] at hquiet
            exact absurd hquiet (not_quiet (List.mem_singleton.mpr rfl) rfl)
        | some w =>
            rw [hgot, hwant] at hquiet
            refine .some ?_
            by_contra hne
            simp only [hne] at hquiet
            exact not_quiet (List.mem_singleton.mpr rfl) rfl hquiet
  · rw [List.mem_append, not_or, ← AList.mem_keys, ← AList.mem_keys] at hname
    rw [AList.lookup_eq_none.mpr hname.1, AList.lookup_eq_none.mpr hname.2]
    exact .none

theorem containerFindings_quiet {key : String} {got want : Containers}
    (h : Quiet (containerFindings py key got want)) :
    SameImages got.containers want.containers ∧
      SameImages got.initContainers want.initContainers :=
  ⟨sectionFindings_quiet (quiet_append.mp h).1, sectionFindings_quiet (quiet_append.mp h).2⟩

theorem sectionFindings_plain {key label : String} {got want : Images} :
    Plain (sectionFindings py key label got want) := by
  intro f hf
  obtain ⟨name, -, hf⟩ := List.mem_flatMap.mp hf
  dsimp only at hf
  split at hf
  · exact plain_singleton rfl f hf
  · exact plain_singleton rfl f hf
  · exact plain_ite plain_nil (plain_singleton rfl) f hf

theorem declaredFindings_plain {live : Dict String Entries} {key : String} {want : Containers}
    {fs : List Finding} (h : declaredFindings py live key want = .ok fs) : Plain fs := by
  unfold declaredFindings at h
  split at h
  · rw [← Except.ok.inj h]
    exact plain_singleton rfl
  · obtain ⟨got, -, h⟩ := bind_ok_iff.mp h
    rw [← Except.ok.inj h]
    exact plain_append sectionFindings_plain sectionFindings_plain

/-! ## Reports -/

theorem sortFindings_perm (findings : List Finding) : (sortFindings findings).Perm findings :=
  List.perm_insertionSort _ _

theorem mem_sortFindings {findings : List Finding} {f : Finding} :
    f ∈ sortFindings findings ↔ f ∈ findings := (sortFindings_perm findings).mem_iff

/-- A report, by the results of its loops. -/
structure Evaluated (py : Text) (apps workloads : List Entries) (declared : Declared)
    (expectedApps : List String) (revision revisionSource : String) (report : Report)
    (named : List (String × Entries)) (rootPaths : Finset String)
    (checked : List (List Finding × List Entries)) (keyed : List (String × Entries))
    (compared : List (List Finding)) : Prop where
  named_eq : apps.mapM (nameApplication py) = .ok named
  root_eq : deployedRoot py apps = .ok rootPaths
  checked_eq : expectedApps.mapM (expectedFindings py (dictOf named) revision) = .ok checked
  keyed_eq : workloads.mapM (keyWorkload py) = .ok keyed
  compared_eq : (declared.entries.insertionSort fun a b => a.1 ≤ b.1).mapM
    (fun entry => declaredFindings py (dictOf keyed) entry.1 entry.2) = .ok compared
  report_eq : report = reportOf py revision revisionSource (dictOf keyed) declared
    (rootFindings py rootPaths ++ checked.flatMap Prod.fst ++ compared.flatten)
    (checked.flatMap Prod.snd)

theorem evaluate_ok {apps workloads : List Entries} {declared : Declared}
    {expectedApps : List String} {revision revisionSource : String} {report : Report} :
    evaluate py apps workloads declared expectedApps revision revisionSource = .ok report ↔
      ∃ named rootPaths checked keyed compared, Evaluated py apps workloads declared expectedApps
        revision revisionSource report named rootPaths checked keyed compared := by
  constructor
  · intro h
    obtain ⟨named, hnamed, h⟩ := bind_ok_iff.mp h
    obtain ⟨rootPaths, hroot, h⟩ := bind_ok_iff.mp h
    obtain ⟨checked, hchecked, h⟩ := bind_ok_iff.mp h
    obtain ⟨keyed, hkeyed, h⟩ := bind_ok_iff.mp h
    obtain ⟨compared, hcompared, h⟩ := bind_ok_iff.mp h
    exact ⟨named, rootPaths, checked, keyed, compared, hnamed, hroot, hchecked, hkeyed, hcompared,
      (Except.ok.inj h).symm⟩
  · rintro ⟨named, rootPaths, checked, keyed, compared, h⟩
    refine bind_ok_iff.mpr ⟨named, h.named_eq, bind_ok_iff.mpr ⟨rootPaths, h.root_eq, ?_⟩⟩
    refine bind_ok_iff.mpr ⟨checked, h.checked_eq, bind_ok_iff.mpr ⟨keyed, h.keyed_eq, ?_⟩⟩
    exact bind_ok_iff.mpr ⟨compared, h.compared_eq, congrArg _ h.report_eq.symm⟩

end Ops
