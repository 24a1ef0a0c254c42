import Beluga.Ci.VulnerabilityGate
import Beluga.Py.Dict

/-! # Which findings the vulnerability gate lets pass

* `passes_iff`: what holds of the report where the gate passes;
* `gate_sound_iff`: when nothing of a failing severity passes without an exception.
-/

namespace Ci

open Js

open Py (bind_ok_iff mem_of_mapM ok_of_mapM exists_mapM)

variable {rt : Runtime} {report vuln adv : Value} {exceptions : List Exception} {now : ℤ}
  {pkg : String} {f : Finding} {fs : List Finding}

/-! ## Severities -/

/-- A string, or nothing that counts. -/
def ReadableText (v : Option Value) : Prop := ∀ x ∈ v, x.truthy = true → ∃ s, x = .str s

def textOf : Option Value → String
  | some (.str s) => s
  | _ => ""

def ownSeverity (vuln : Value) : String := textOf (vuln.member "severity")

/-- The severity of an advisory: its own, else that of its entry. -/
def advisorySeverity (vuln adv : Value) : String :=
  if textOf (adv.member "severity") = "" then ownSeverity vuln else textOf (adv.member "severity")

/-- A severity is high or critical. -/
def High (rt : Runtime) (severity : String) : Prop := isHighOrCritical (rt.lower severity) = true

theorem lowerOr_eq {v : Option Value} {default : String} (h : ReadableText v) :
    orElse v (.str default) = .str (if textOf v = "" then default else textOf v) := by
  unfold orElse
  cases v with
  | none => rfl
  | some x =>
      by_cases hx : x.truthy = true
      · rcases h x rfl hx with ⟨s, rfl⟩
        have hs : s ≠ "" := by simpa [Value.truthy] using hx
        dsimp only
        rw [if_pos hx]
        show Value.str s = .str (if s = "" then default else s)
        rw [if_neg hs]
      · have hempty : textOf (some x) = "" := by
          cases x with
          | str s =>
              show s = ""
              simpa [Value.truthy] using hx
          | _ => rfl
        dsimp only
        rw [if_neg hx, hempty, if_pos rfl]

theorem lowerOr_ok {v : Option Value} {default t : String} : lowerOr rt v default = .ok t ↔
    ReadableText v ∧ rt.lower (if textOf v = "" then default else textOf v) = t := by
  constructor
  · intro h
    have hread : ReadableText v := by
      intro x hx htruthy
      rw [Option.mem_def.mp hx, lowerOr, orElse, if_pos htruthy] at h
      cases x with
      | str s => exact ⟨s, rfl⟩
      | _ => cases h
    rw [lowerOr, lowerOr_eq hread] at h
    exact ⟨hread, Except.ok.inj h⟩
  · intro h
    rw [lowerOr, lowerOr_eq h.1, ← h.2]

/-! ## What an entry has to be for its findings to be read -/

/-- The source of an advisory has a text. -/
def ReadableSource (adv : Value) : Prop := ∀ source ∈ adv.member "source", ∃ id, source.text = .ok id

structure Readable (vuln : Value) : Prop where
  present : vuln ≠ .null
  severity : ReadableText (vuln.member "severity")
  advisories : ∀ adv ∈ advisoryObjects vuln,
    ReadableText (adv.member "severity") ∧ ReadableSource adv

theorem get_ok {key : String} {v : Value} {x : Option Value} :
    v.get key = .ok x ↔ v ≠ .null ∧ v.member key = x := by
  cases v <;> simp [Value.get]

theorem mem_advisoryObjects (h : adv ∈ advisoryObjects vuln) : adv.isObject = true :=
  (List.mem_filter.mp h).2

theorem sourceIds_ok (source : Value) :
    (∃ ids, sourceIds (some source) = .ok ids) ↔ ∃ id, source.text = .ok id := by
  by_cases hnull : source = .null
  · subst hnull
    exact ⟨fun _ => ⟨"null", by unfold Value.text; rfl⟩, fun _ => ⟨[], by unfold sourceIds; rfl⟩⟩
  · have hids : sourceIds (some source) = (do let id ← source.text; .ok [id]) := by
      cases source with
      | null => exact absurd rfl hnull
      | _ => unfold sourceIds; rfl
    rw [hids]
    constructor
    · intro h
      rcases h with ⟨ids, h⟩
      rcases bind_ok_iff.mp h with ⟨id, hid, -⟩
      exact ⟨id, hid⟩
    · intro h
      rcases h with ⟨id, hid⟩
      exact ⟨[id], bind_ok_iff.mpr ⟨id, hid, rfl⟩⟩

theorem extract_ok (h : adv.isObject = true) :
    (∃ ids, extractAdvisoryIds adv = .ok ids) ↔ ReadableSource adv := by
  unfold extractAdvisoryIds ReadableSource
  rw [if_pos h]
  constructor
  · intro hids source hsource
    rcases hids with ⟨ids, hids⟩
    rcases bind_ok_iff.mp hids with ⟨texts, htexts, -⟩
    rw [Option.mem_def.mp hsource] at htexts
    exact (sourceIds_ok source).mp ⟨texts, htexts⟩
  · intro hsource
    have htexts : ∃ texts, sourceIds (adv.member "source") = .ok texts := by
      cases hmember : adv.member "source" with
      | none => exact ⟨[], by unfold sourceIds; rfl⟩
      | some source =>
          exact (sourceIds_ok source).mpr (hsource source hmember)
    rcases htexts with ⟨texts, htexts⟩
    exact ⟨_, bind_ok_iff.mpr ⟨texts, htexts, rfl⟩⟩

/-- What a finding says of an advisory. -/
structure FindingOf (rt : Runtime) (pkg : String) (vuln adv : Value) (f : Finding) : Prop where
  package : f.package = pkg
  severity : isHighOrCritical f.severity = true ↔ High rt (advisorySeverity vuln adv)
  ids : extractAdvisoryIds adv = .ok f.advisoryIds

theorem advisoryFinding_ok
    (h : advisoryFinding rt pkg (rt.lower (ownSeverity vuln)) vuln adv = .ok f) :
    FindingOf rt pkg vuln adv f ∧ ReadableText (adv.member "severity") := by
  rcases bind_ok_iff.mp h with ⟨ids, hids, hown⟩
  rcases bind_ok_iff.mp hown with ⟨own, hown, hf⟩
  rcases lowerOr_ok.mp hown with ⟨hread, rfl⟩
  rw [← Except.ok.inj hf]
  refine ⟨⟨rfl, ?_, hids⟩, hread⟩
  unfold High advisorySeverity
  dsimp only
  by_cases hempty : textOf (adv.member "severity") = ""
  · rw [if_pos hempty, if_pos hempty, rt.lower_lower]
  · rw [if_neg hempty, if_neg hempty]

theorem exists_advisoryFinding {severity : String} (h : adv.isObject = true)
    (hsource : ReadableSource adv) (hread : ReadableText (adv.member "severity")) :
    ∃ f, advisoryFinding rt pkg severity vuln adv = .ok f := by
  rcases (extract_ok h).mpr hsource with ⟨ids, hids⟩
  exact ⟨_, bind_ok_iff.mpr ⟨ids, hids, bind_ok_iff.mpr ⟨_, lowerOr_ok.mpr ⟨hread, rfl⟩, rfl⟩⟩⟩

/-! ## The chain of an entry without advisories -/

theorem itemTexts_ok {items : List Value} (h : ∀ item ∈ items, item.isObject = false) :
    ∃ texts, Value.itemTexts items = .ok texts := by
  induction items with
  | nil => exact ⟨[], by unfold Value.itemTexts; rfl⟩
  | cons item rest ih =>
      rcases List.forall_mem_cons.mp h with ⟨hitem, hrest⟩
      rcases ih hrest with ⟨texts, htexts⟩
      cases item with
      | null => exact ⟨"" :: texts, by simp [Value.itemTexts, htexts, bind, Except.bind]⟩
      | bool b => exact ⟨_, by simp [Value.itemTexts, Value.text, htexts, bind, Except.bind]; rfl⟩
      | num x => exact ⟨_, by simp [Value.itemTexts, Value.text, htexts, bind, Except.bind]; rfl⟩
      | str s => exact ⟨_, by simp [Value.itemTexts, Value.text, htexts, bind, Except.bind]; rfl⟩
      | arr items => cases hitem
      | obj fields => cases hitem

theorem chain_ok {severity : String} (h : advisoryObjects vuln = []) :
    ∃ f, chainFinding pkg severity vuln = .ok f := by
  have hplain : ∀ item ∈ viasOf vuln, item.isObject = false := by
    intro item hitem
    have hnot := List.filter_eq_nil_iff.mp h item hitem
    exact Bool.not_eq_true _ ▸ hnot
  rcases itemTexts_ok hplain with ⟨texts, htexts⟩
  exact ⟨_, bind_ok_iff.mpr ⟨_, bind_ok_iff.mpr ⟨texts, htexts, rfl⟩, rfl⟩⟩

theorem chainFinding_ok {severity : String} (h : chainFinding pkg severity vuln = .ok f) :
    f.package = pkg ∧ f.severity = severity ∧ f.advisoryIds = [] := by
  rcases bind_ok_iff.mp h with ⟨vias, -, hf⟩
  rw [← Except.ok.inj hf]
  exact ⟨rfl, rfl, rfl⟩

/-! ## The exceptions that suppress a finding -/

/-- An exception for the package that has not expired. -/
def Covers (rt : Runtime) (now : ℤ) (pkg : String) (e : Exception) : Prop :=
  e.package = pkg ∧ expired rt now e = false

/-- An exception names an identifier of the advisory. -/
def Names (rt : Runtime) (adv : Value) (e : Exception) : Prop :=
  ∃ ids, extractAdvisoryIds adv = .ok ids ∧ ∃ id ∈ ids, rt.lower id = rt.lower e.advisoryId

/-- Some exception covers all findings of the package. -/
def Waived (rt : Runtime) (exceptions : List Exception) (now : ℤ) (pkg : String) : Prop :=
  ∃ e ∈ exceptions, Covers rt now pkg e ∧ e.advisoryId = "*"

/-- Every advisory of a failing severity has an exception. -/
def AdvisoriesCovered (rt : Runtime) (exceptions : List Exception) (now : ℤ) (pkg : String)
    (vuln : Value) : Prop :=
  ∀ adv ∈ advisoryObjects vuln, High rt (advisorySeverity vuln adv) →
    ∃ e ∈ exceptions, Covers rt now pkg e ∧ (e.advisoryId = "*" ∨ Names rt adv e)

/-- No exception has expired. -/
def Current (rt : Runtime) (exceptions : List Exception) (now : ℤ) : Prop :=
  ∀ e ∈ exceptions, expired rt now e = false

theorem Current.unsuppressed_none (h : Current rt exceptions now) :
    unsuppressed rt exceptions now f = none ↔ ∃ e ∈ exceptions, matchesFinding rt f e = true := by
  unfold unsuppressed
  cases hfind : exceptions.find? (matchesFinding rt f) with
  | none =>
      simpa using List.find?_eq_none.mp hfind
  | some exc =>
      have hmem := List.mem_of_find?_eq_some hfind
      dsimp only
      rw [if_neg (Bool.eq_false_iff.mp (h exc hmem))]
      exact ⟨fun _ => ⟨exc, hmem, List.find?_some hfind⟩, fun _ => rfl⟩

theorem matchesFinding_iff {e : Exception} : matchesFinding rt f e = true ↔
    e.package = f.package ∧ (e.advisoryId = "*" ∨
      ∃ id ∈ f.advisoryIds, rt.lower id = rt.lower e.advisoryId) := by
  unfold matchesFinding
  simp

theorem FindingOf.suppressed (h : Current rt exceptions now) (hf : FindingOf rt pkg vuln adv f) :
    unsuppressed rt exceptions now f = none ↔
      ∃ e ∈ exceptions, Covers rt now pkg e ∧ (e.advisoryId = "*" ∨ Names rt adv e) := by
  rw [h.unsuppressed_none]
  constructor
  · intro hmatch
    rcases hmatch with ⟨e, he, hmatch⟩
    rcases matchesFinding_iff.mp hmatch with ⟨hpackage, hid⟩
    exact ⟨e, he, ⟨hpackage.trans hf.package, h e he⟩, hid.imp id fun hid => ⟨_, hf.ids, hid⟩⟩
  · intro hcovered
    rcases hcovered with ⟨e, he, hcovers, hid⟩
    refine ⟨e, he, matchesFinding_iff.mpr ⟨hcovers.1.trans hf.package.symm, hid.imp id ?_⟩⟩
    intro hnames
    rcases hnames with ⟨ids, hids, hid⟩
    rwa [Except.ok.inj (hids.symm.trans hf.ids)] at hid

theorem chain_suppressed (h : Current rt exceptions now) {severity : String}
    (hf : chainFinding pkg severity vuln = .ok f) :
    unsuppressed rt exceptions now f = none ↔ Waived rt exceptions now pkg := by
  rcases chainFinding_ok hf with ⟨hpackage, -, hids⟩
  rw [h.unsuppressed_none]
  constructor
  · intro hmatch
    rcases hmatch with ⟨e, he, hmatch⟩
    rcases matchesFinding_iff.mp hmatch with ⟨hsame, hid⟩
    rw [hids] at hid
    refine ⟨e, he, ⟨hsame.trans hpackage, h e he⟩, hid.resolve_right ?_⟩
    intro hex
    rcases hex with ⟨id, hid, -⟩
    cases hid
  · intro hwaived
    rcases hwaived with ⟨e, he, hcovers, hid⟩
    exact ⟨e, he, matchesFinding_iff.mpr ⟨hcovers.1.trans hpackage.symm, .inl hid⟩⟩

/-! ## An entry of the report -/

/-- The findings of an entry are read, and those of a failing severity are suppressed. -/
def Clean (rt : Runtime) (exceptions : List Exception) (now : ℤ) (pkg : String) (vuln : Value) :
    Prop :=
  ∃ fs, findingsForPkg rt pkg vuln = .ok fs ∧
    ∀ f ∈ fs, isHighOrCritical f.severity = true → unsuppressed rt exceptions now f = none

theorem findings_ok : findingsForPkg rt pkg vuln = .ok fs ↔
    vuln ≠ .null ∧ ReadableText (vuln.member "severity") ∧
      if advisoryObjects vuln = [] then
        ∃ f, chainFinding pkg (rt.lower (ownSeverity vuln)) vuln = .ok f ∧ fs = [f]
      else (advisoryObjects vuln).mapM
        (advisoryFinding rt pkg (rt.lower (ownSeverity vuln)) vuln) = .ok fs := by
  have hown : ∀ t : String, (if t = "" then "" else t) = t := by
    intro t
    split_ifs with ht
    · exact ht.symm
    · rfl
  have hrest : ∀ severity, (if (advisoryObjects vuln).isEmpty then do
        let finding ← chainFinding pkg severity vuln
        .ok [finding]
      else (advisoryObjects vuln).mapM (advisoryFinding rt pkg severity vuln) : Try _) = .ok fs ↔
      if advisoryObjects vuln = [] then ∃ f, chainFinding pkg severity vuln = .ok f ∧ fs = [f]
      else (advisoryObjects vuln).mapM (advisoryFinding rt pkg severity vuln) = .ok fs := by
    intro severity
    by_cases hnil : advisoryObjects vuln = []
    · rw [if_pos (List.isEmpty_iff.mpr hnil), if_pos hnil]
      constructor
      · intro h
        rcases bind_ok_iff.mp h with ⟨f, hf, hfs⟩
        exact ⟨f, hf, (Except.ok.inj hfs).symm⟩
      · intro h
        rcases h with ⟨f, hf, rfl⟩
        exact bind_ok_iff.mpr ⟨f, hf, rfl⟩
    · rw [if_neg fun h => hnil (List.isEmpty_iff.mp h), if_neg hnil]
  unfold findingsForPkg
  constructor
  · intro h
    rcases bind_ok_iff.mp h with ⟨own, hget, h⟩
    rcases bind_ok_iff.mp h with ⟨severity, hsev, h⟩
    rcases get_ok.mp hget with ⟨hnull, rfl⟩
    rcases lowerOr_ok.mp hsev with ⟨hread, rfl⟩
    rw [hown] at h
    exact ⟨hnull, hread, (hrest _).mp h⟩
  · intro h
    rcases h with ⟨hnull, hread, h⟩
    refine bind_ok_iff.mpr ⟨_, get_ok.mpr ⟨hnull, rfl⟩, bind_ok_iff.mpr ⟨_, lowerOr_ok.mpr
      ⟨hread, rfl⟩, ?_⟩⟩
    rw [hown]
    exact (hrest _).mpr h

theorem Current.clean_iff (h : Current rt exceptions now) : Clean rt exceptions now pkg vuln ↔
    Readable vuln ∧ AdvisoriesCovered rt exceptions now pkg vuln ∧
      (advisoryObjects vuln = [] → High rt (ownSeverity vuln) → Waived rt exceptions now pkg) := by
  by_cases hnil : advisoryObjects vuln = []
  · have hcovered : AdvisoriesCovered rt exceptions now pkg vuln := by
      intro adv hadv
      rw [hnil] at hadv
      cases hadv
    constructor
    · intro hclean
      rcases hclean with ⟨fs, hfs, hall⟩
      rcases findings_ok.mp hfs with ⟨hnull, hread, hfs⟩
      rw [if_pos hnil] at hfs
      rcases hfs with ⟨f, hf, rfl⟩
      refine ⟨⟨hnull, hread, fun adv hadv => ?_⟩, hcovered, fun _ hhigh => ?_⟩
      · rw [hnil] at hadv
        cases hadv
      · refine (chain_suppressed h hf).mp (hall f List.mem_cons_self ?_)
        rw [(chainFinding_ok hf).2.1]
        exact hhigh
    · intro hentry
      rcases hentry with ⟨hreadable, -, hwaived⟩
      rcases @chain_ok vuln pkg (rt.lower (ownSeverity vuln)) hnil with ⟨f, hf⟩
      refine ⟨[f], findings_ok.mpr ⟨hreadable.present, hreadable.severity, ?_⟩, ?_⟩
      · rw [if_pos hnil]
        exact ⟨f, hf, rfl⟩
      · intro f' hf' hhigh
        rw [List.mem_singleton.mp hf', (chainFinding_ok hf).2.1] at hhigh
        rw [List.mem_singleton.mp hf']
        exact (chain_suppressed h hf).mpr (hwaived hnil hhigh)
  · constructor
    · intro hclean
      rcases hclean with ⟨fs, hfs, hall⟩
      rcases findings_ok.mp hfs with ⟨hnull, hread, hfs⟩
      rw [if_neg hnil] at hfs
      refine ⟨⟨hnull, hread, fun adv hadv => ?_⟩, fun adv hadv hhigh => ?_, fun h => absurd h hnil⟩
      · rcases ok_of_mapM hfs hadv with ⟨f, -, hf⟩
        rcases advisoryFinding_ok hf with ⟨hof, hown⟩
        exact ⟨hown, (extract_ok (mem_advisoryObjects hadv)).mp ⟨_, hof.ids⟩⟩
      · rcases ok_of_mapM hfs hadv with ⟨f, hmem, hf⟩
        rcases advisoryFinding_ok hf with ⟨hof, -⟩
        exact (hof.suppressed h).mp (hall f hmem (hof.severity.mpr hhigh))
    · intro hentry
      rcases hentry with ⟨hreadable, hcovered, -⟩
      have hall : ∀ adv ∈ advisoryObjects vuln,
          ∃ f, advisoryFinding rt pkg (rt.lower (ownSeverity vuln)) vuln adv = .ok f := by
        intro adv hadv
        rcases hreadable.advisories adv hadv with ⟨hown, hsource⟩
        exact exists_advisoryFinding (mem_advisoryObjects hadv) hsource hown
      rcases exists_mapM hall with ⟨fs, hfs⟩
      refine ⟨fs, findings_ok.mpr ⟨hreadable.present, hreadable.severity, ?_⟩, ?_⟩
      · rw [if_neg hnil]
        exact hfs
      · intro f hf hhigh
        rcases (mem_of_mapM hfs).mp hf with ⟨adv, hadv, hfinding⟩
        rcases advisoryFinding_ok hfinding with ⟨hof, -⟩
        exact (hof.suppressed h).mpr (hcovered adv hadv (hof.severity.mp hhigh))

/-! ## The gate -/

/-- The entries of a report. -/
def reported (report : Value) : List (String × Value) :=
  (orElse (report.member "vulnerabilities") (.obj [])).entries

def Passes (rt : Runtime) (report : Value) (exceptions : List Exception) (now : ℤ) : Prop :=
  ∃ result, evaluateAudit rt report exceptions now = .ok result ∧ result.ok = true

/-- What the gate asks for. -/
structure Accepted (rt : Runtime) (report : Value) (exceptions : List Exception) (now : ℤ) :
    Prop where
  present : report ≠ .null
  current : Current rt exceptions now
  readable : ∀ entry ∈ reported report, Readable entry.2
  advisories : ∀ entry ∈ reported report,
    AdvisoriesCovered rt exceptions now entry.1 entry.2
  chains : ∀ entry ∈ reported report, advisoryObjects entry.2 = [] →
    High rt (ownSeverity entry.2) → Waived rt exceptions now entry.1

theorem passes_iff_clean : Passes rt report exceptions now ↔
    report ≠ .null ∧ Current rt exceptions now ∧
      ∀ entry ∈ reported report, Clean rt exceptions now entry.1 entry.2 := by
  have hcurrent : ((exceptions.filter (expired rt now)).map fun e => (e, expiredReason e)).isEmpty =
      true ↔ Current rt exceptions now := by
    rw [List.isEmpty_iff, List.map_eq_nil_iff, List.filter_eq_nil_iff]
    exact forall₂_congr fun e _ => Bool.not_eq_true _ |>.to_iff
  have hclean : ∀ fss : List (List Finding),
      ((fss.flatten.filter fun finding => isHighOrCritical finding.severity).filterMap
        (unsuppressed rt exceptions now)).isEmpty = true ↔
      ∀ fs ∈ fss, ∀ f ∈ fs, isHighOrCritical f.severity = true →
        unsuppressed rt exceptions now f = none := by
    intro fss
    rw [List.isEmpty_iff, List.filterMap_eq_nil_iff]
    simp only [List.mem_filter, List.mem_flatten]
    constructor
    · intro h fs hfs f hf hhigh
      exact h f ⟨⟨fs, hfs, hf⟩, hhigh⟩
    · intro h f hf
      rcases hf with ⟨⟨fs, hfs, hf⟩, hhigh⟩
      exact h fs hfs f hf hhigh
  unfold Passes evaluateAudit
  constructor
  · intro h
    rcases h with ⟨result, h, hok⟩
    rcases bind_ok_iff.mp h with ⟨found, hget, h⟩
    rcases bind_ok_iff.mp h with ⟨fss, hfss, h⟩
    rw [← Except.ok.inj h] at hok
    rcases Bool.and_eq_true_iff.mp hok with ⟨hnone, hexpired⟩
    refine ⟨(get_ok.mp hget).1, hcurrent.mp hexpired, fun entry hentry => ?_⟩
    rcases ok_of_mapM hfss hentry with ⟨fs, hmem, hfs⟩
    exact ⟨fs, hfs, (hclean fss).mp hnone fs hmem⟩
  · intro h
    rcases h with ⟨hnull, hexpired, hall⟩
    have hread : ∀ entry ∈ reported report, ∃ fs, findingsForPkg rt entry.1 entry.2 = .ok fs := by
      intro entry hentry
      rcases hall entry hentry with ⟨fs, hfs, -⟩
      exact ⟨fs, hfs⟩
    rcases exists_mapM hread with ⟨fss, hfss⟩
    refine ⟨_, bind_ok_iff.mpr ⟨_, get_ok.mpr ⟨hnull, rfl⟩, bind_ok_iff.mpr ⟨fss, hfss, rfl⟩⟩, ?_⟩
    refine Bool.and_eq_true_iff.mpr ⟨(hclean fss).mpr fun fs hmem => ?_, hcurrent.mpr hexpired⟩
    rcases (mem_of_mapM hfss).mp hmem with ⟨entry, hentry, hfs⟩
    rcases hall entry hentry with ⟨fs', hfs', hnone⟩
    rw [Except.ok.inj (hfs.symm.trans hfs')]
    exact hnone

theorem passes_iff : Passes rt report exceptions now ↔ Accepted rt report exceptions now := by
  rw [passes_iff_clean]
  constructor
  · intro h
    rcases h with ⟨hnull, hcurrent, hall⟩
    have hentry := fun entry hentry => hcurrent.clean_iff.mp (hall entry hentry)
    exact ⟨hnull, hcurrent, fun e he => (hentry e he).1, fun e he => (hentry e he).2.1,
      fun e he => (hentry e he).2.2⟩
  · intro h
    exact ⟨h.present, h.current, fun e he => h.current.clean_iff.mpr
      ⟨h.readable e he, h.advisories e he, h.chains e he⟩⟩

/-- A report that lists no vulnerabilities at all passes, whatever else it says. -/
theorem passes_of_no_list (hnull : report ≠ .null) (hcurrent : Current rt exceptions now)
    (h : report.member "vulnerabilities" = none) : Passes rt report exceptions now := by
  have hnone : ∀ entry, entry ∉ reported report := by
    intro entry hentry
    rw [reported, h] at hentry
    cases hentry
  exact passes_iff.mpr ⟨hnull, hcurrent, fun e he => absurd he (hnone e),
    fun e he => absurd he (hnone e), fun e he => absurd he (hnone e)⟩

/-- The report lists the vulnerabilities, and every one that is high or critical, by itself or by an
advisory, has an exception that has not expired. -/
structure Protected (rt : Runtime) (report : Value) (exceptions : List Exception) (now : ℤ) :
    Prop where
  listed : ∃ fields, report.member "vulnerabilities" = some (.obj fields)
  current : Current rt exceptions now
  advisories : ∀ entry ∈ reported report,
    AdvisoriesCovered rt exceptions now entry.1 entry.2
  chains : ∀ entry ∈ reported report, High rt (ownSeverity entry.2) →
    (∀ adv ∈ advisoryObjects entry.2, ¬ High rt (advisorySeverity entry.2 adv)) →
      Waived rt exceptions now entry.1

def Sound (rt : Runtime) (report : Value) (exceptions : List Exception) (now : ℤ) : Prop :=
  Passes rt report exceptions now → Protected rt report exceptions now

/-- The gate is sound if and only if, where it has nothing to report, the report lists the
vulnerabilities, and an entry that is high or critical, with advisories none of which is, has an
exception for all findings of its package. -/
theorem gate_sound_iff (rt : Runtime) (report : Value) (exceptions : List Exception) (now : ℤ) :
    Sound rt report exceptions now ↔ (Accepted rt report exceptions now →
      (∃ fields, report.member "vulnerabilities" = some (.obj fields)) ∧
        ∀ entry ∈ reported report, High rt (ownSeverity entry.2) → advisoryObjects entry.2 ≠ [] →
          (∀ adv ∈ advisoryObjects entry.2, ¬ High rt (advisorySeverity entry.2 adv)) →
            Waived rt exceptions now entry.1) := by
  unfold Sound
  rw [passes_iff]
  constructor
  · intro h haccepted
    have hprotected := h haccepted
    exact ⟨hprotected.listed, fun entry hentry hown _ hnone =>
      hprotected.chains entry hentry hown hnone⟩
  · intro h haccepted
    rcases h haccepted with ⟨hlisted, hmixed⟩
    refine ⟨hlisted, haccepted.current, haccepted.advisories, fun entry hentry hown hnone => ?_⟩
    -- without advisory objects the entry has a finding of its own
    by_cases hnil : advisoryObjects entry.2 = []
    · exact haccepted.chains entry hentry hnil hown
    · exact hmixed entry hentry hown hnil hnone

/-! ## Reports that pass -/

/-- For texts in lower case. -/
def sampleRuntime : Runtime where
  lower s := s
  lower_lower _ := rfl
  getTime _ := none

/-- A package with a moderate advisory of its own, and a high one through a dependency. -/
def mixedReport : Value :=
  .obj [("vulnerabilities", .obj [("chain-pkg", .obj [("severity", .str "high"),
    ("via", .arr [.obj [("source", .num (.fin 101)), ("severity", .str "moderate")],
      .str "some-other-dep"])])])]

/-- What `npm audit` answers where the registry fails. -/
def errorReport : Value := .obj [("error", .obj [("code", .str "ENOAUDIT")])]

/-- Both reports pass. -/
theorem mixed_and_error_pass :
    ¬ Sound sampleRuntime mixedReport [] 0 ∧ ¬ Sound sampleRuntime errorReport [] 0 := by
  have hcurrent : Current sampleRuntime [] 0 := fun e he => by cases he
  constructor
  · intro hsound
    have hpasses : Passes sampleRuntime mixedReport [] 0 := by
      refine passes_iff_clean.mpr ⟨Value.noConfusion, hcurrent, fun entry hentry => ?_⟩
      rw [List.mem_singleton.mp hentry]
      refine ⟨_, rfl, fun f hf hhigh => ?_⟩
      rw [List.mem_singleton.mp hf] at hhigh
      exact absurd hhigh (by decide)
    have hwaived := (hsound hpasses).chains _ List.mem_cons_self rfl fun adv hadv => by
      rw [List.mem_singleton.mp hadv]
      exact Bool.false_ne_true
    rcases hwaived with ⟨e, he, -⟩
    cases he
  · intro hsound
    rcases (hsound (passes_of_no_list Value.noConfusion hcurrent rfl)).listed with ⟨fields, hfields⟩
    cases hfields

end Ci
