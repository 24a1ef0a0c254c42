import Beluga.Ops.NetworkCoverage

/-! # What the gate on network policies stands for

* `errors_nil_iff`: what holds of the renders where `check_coverage` reports nothing;
* `check_sound_iff`: when it reports nothing only of namespaces that are protected;
* `Protected.not_allowed`: what protection means for the traffic of a pod.
-/

namespace Ops.Network

open Kube

variable {Peer : Type} {resources : List (Resource Peer)} {combos : List (Combo Peer)}
  {baseline : List String} {ns : String}

/-! ## Policies of a namespace -/

theorem mem_policiesIn {p : Resource Peer} : p ∈ policiesIn resources ns ↔
    p ∈ networkPolicies resources ∧ p.namespaceName = ns := by
  simp [policiesIn]

theorem mem_netpols {entry : String × List (Resource Peer)} :
    entry ∈ networkpolicies_by_namespace resources ↔
      (∃ p ∈ networkPolicies resources, p.namespaceName = entry.1) ∧
        entry.2 = policiesIn resources entry.1 := by
  unfold networkpolicies_by_namespace
  rcases entry with ⟨name, policies⟩
  simp only [List.mem_map, List.mem_eraseDups, Prod.mk.injEq]
  constructor
  · intro h
    rcases h with ⟨ns', hns, rfl, rfl⟩
    exact ⟨hns, rfl⟩
  · intro h
    exact ⟨name, h.1, rfl, h.2.symm⟩

theorem mem_denied {require_egress : Bool} :
    ns ∈ ((networkpolicies_by_namespace resources).filter fun entry =>
      entry.2.any fun p => is_namespace_default_deny p require_egress).map Prod.fst ↔
        ∃ p ∈ policiesIn resources ns, is_namespace_default_deny p require_egress = true := by
  simp only [List.mem_map, List.mem_filter, mem_netpols, List.any_eq_true]
  constructor
  · intro h
    rcases h with ⟨entry, ⟨⟨-, hentry⟩, p, hp, hdeny⟩, rfl⟩
    rw [hentry] at hp
    exact ⟨p, hp, hdeny⟩
  · intro h
    rcases h with ⟨p, hp, hdeny⟩
    rcases mem_policiesIn.mp hp with ⟨hpolicy, hns⟩
    exact ⟨(ns, policiesIn resources ns), ⟨⟨⟨p, hpolicy, hns⟩, rfl⟩, p, hp, hdeny⟩, rfl⟩

theorem violations_nil : (evaluate_combo resources).violations = [] ↔
    ∀ p ∈ networkPolicies resources,
      is_leaky_namespace_wide_ingress p = false ∧ has_unrestricted_egress_rule p = false := by
  have hpolicy : ∀ (name : String) (p : Resource Peer), policyViolations name p = [] ↔
      is_leaky_namespace_wide_ingress p = false ∧ has_unrestricted_egress_rule p = false := by
    intro name p
    unfold policyViolations
    cases is_leaky_namespace_wide_ingress p <;> cases has_unrestricted_egress_rule p <;> simp
  show (networkpolicies_by_namespace resources).flatMap _ = [] ↔ _
  simp only [List.flatMap_eq_nil_iff, hpolicy]
  constructor
  · intro h p hp
    exact h (p.namespaceName, policiesIn resources p.namespaceName)
      (mem_netpols.mpr ⟨⟨p, hp, rfl⟩, rfl⟩) p (mem_policiesIn.mpr ⟨hp, rfl⟩)
  · intro h entry hentry p hp
    rw [(mem_netpols.mp hentry).2] at hp
    exact h p (mem_policiesIn.mp hp).1

/-! ## What the gate asks for -/

/-- In some render the namespace has a workload, and no policy that denies by default. -/
def Gap (combos : List (Combo Peer)) (require_egress : Bool) (ns : String) : Prop :=
  ∃ combo ∈ combos, ns ∈ workload_namespaces combo.2 ∧
    ¬ ∃ p ∈ policiesIn combo.2 ns, is_namespace_default_deny p require_egress = true

structure Accepted (combos : List (Combo Peer)) (baseline : List String) : Prop where
  policies : ∀ combo ∈ combos, ∀ p ∈ networkPolicies combo.2,
    is_leaky_namespace_wide_ingress p = false ∧ has_unrestricted_egress_rule p = false
  listed : ∀ ns, Gap combos false ns → ns ∈ baseline
  frozen : ∀ ns ∈ baseline, Gap combos false ns ∧ ns ∈ ACCEPTED_BASELINE_NAMESPACES
  egress : ∀ combo ∈ combos, ∀ ns ∈ workload_namespaces combo.2, ¬ Gap combos false ns →
    ¬ Gap combos true ns

theorem mem_gaps {require_egress : Bool} {denied : Evaluation → List String}
    (hdenied : ∀ resources : List (Resource Peer), ∀ ns, ns ∈ denied (evaluate_combo resources) ↔
      ∃ p ∈ policiesIn resources ns, is_namespace_default_deny p require_egress = true) :
    ns ∈ ((combos.map fun combo => (combo.1, evaluate_combo combo.2)).flatMap fun e =>
      gapsOf denied e.1 e.2).map Prod.fst ↔ Gap combos require_egress ns := by
  simp only [List.mem_map, List.mem_flatMap, gapsOf, List.mem_filter, decide_eq_true_eq]
  constructor
  · intro h
    rcases h with ⟨gap, ⟨e, ⟨combo, hcombo, rfl⟩, name, ⟨hworkload, hgap⟩, rfl⟩, rfl⟩
    exact ⟨combo, hcombo, hworkload, fun h => hgap ((hdenied _ _).mpr h)⟩
  · intro h
    rcases h with ⟨combo, hcombo, hworkload, hgap⟩
    exact ⟨(ns, combo.1), ⟨_, ⟨combo, hcombo, rfl⟩, ns,
      ⟨hworkload, fun h => hgap ((hdenied _ _).mp h)⟩, rfl⟩, rfl⟩

theorem errors_nil_iff : (check_coverage combos baseline).1 = [] ↔ Accepted combos baseline := by
  have hingress : ∀ ns, ns ∈ ((combos.map fun combo => (combo.1, evaluate_combo combo.2)).flatMap
      fun e => gapsOf (·.ingress) e.1 e.2).map Prod.fst ↔ Gap combos false ns :=
    fun ns => mem_gaps fun _ _ => mem_denied
  have hegress : ∀ ns, ns ∈ ((combos.map fun combo => (combo.1, evaluate_combo combo.2)).flatMap
      fun e => gapsOf (·.egress) e.1 e.2).map Prod.fst ↔ Gap combos true ns :=
    fun ns => mem_gaps fun _ _ => mem_denied
  have hbaseline : ∀ (gaps : List String) (name : String), baselineErrors gaps name = [] ↔
      name ∈ gaps ∧ name ∈ ACCEPTED_BASELINE_NAMESPACES := by
    intro gaps name
    unfold baselineErrors
    by_cases hgap : name ∈ gaps
    · by_cases haccepted : name ∈ ACCEPTED_BASELINE_NAMESPACES
      · simp [hgap, haccepted]
      · simp [hgap, haccepted]
    · simp [hgap]
  unfold check_coverage
  simp only [List.append_eq_nil_iff, List.flatMap_eq_nil_iff, List.map_eq_nil_iff,
    List.filter_eq_nil_iff, hbaseline, mem_sortedSet, hingress, hegress, List.mem_filter,
    decide_eq_true_eq, not_not]
  constructor
  · intro h
    rcases h with ⟨⟨⟨hviolations, hlisted⟩, hfrozen⟩, hopen⟩
    refine ⟨fun combo hcombo => ?_, hlisted, hfrozen, fun combo hcombo ns hns hgap => ?_⟩
    · exact violations_nil.mp (hviolations _ (List.mem_map_of_mem hcombo))
    · exact hopen ns ⟨List.mem_flatMap.mpr ⟨_, List.mem_map_of_mem hcombo, hns⟩, hgap⟩
  · intro h
    refine ⟨⟨⟨fun e he => ?_, h.listed⟩, h.frozen⟩, fun ns hns => ?_⟩
    · rcases List.mem_map.mp he with ⟨combo, hcombo, rfl⟩
      exact violations_nil.mpr (h.policies combo hcombo)
    · rcases List.mem_flatMap.mp hns.1 with ⟨e, he, hworkload⟩
      rcases List.mem_map.mp he with ⟨combo, hcombo, rfl⟩
      exact h.egress combo hcombo ns hworkload hns.2

/-! ## Protection -/

/-- The policies of a namespace, as Kubernetes reads them. -/
def specsIn (resources : List (Resource Peer)) (ns : String) : List (PolicySpec Peer) :=
  (policiesIn resources ns).map (·.policySpec)

/-- Every pod is isolated in both directions, and no policy opens one of them again. -/
structure Protected (resources : List (Resource Peer)) (ns : String) : Prop where
  ingress : ∀ labels, Isolated (specsIn resources ns) .ingress labels
  egress : ∀ labels, Isolated (specsIn resources ns) .egress labels
  closed : ∀ p ∈ specsIn resources ns, p.SelectsAll → p.InForce .ingress → p.rules .ingress = []
  restricted : ∀ p ∈ specsIn resources ns, p.InForce .egress → ∀ rule ∈ p.rules .egress,
    rule.peers.getD [] ≠ []

/-- A pod of a protected namespace that only policies for all pods select gets no traffic. -/
theorem Protected.not_allowed {Traffic : Type} (h : Protected resources ns)
    {covers : Peer → Traffic → Prop} {labels : Labels} {t : Traffic}
    (hall : ∀ p ∈ specsIn resources ns, p.selects labels = true → p.SelectsAll) :
    ¬ Allowed (specsIn resources ns) .ingress labels covers t :=
  Kube.not_allowed (h.ingress labels) fun p hp hforce hselects =>
    h.closed p hp (hall p hp hselects) hforce

theorem selectsAll_of_named {p : PolicySpec Peer} (h : selects_all_pods p.podSelector = true) :
    p.SelectsAll := by
  rw [PolicySpec.selectsAll_iff]
  cases hselector : p.podSelector with
  | none =>
      rw [hselector] at h
      cases h
  | some s =>
      rw [hselector] at h
      simpa [selects_all_pods] using h

theorem named_of_selectsAll {p : PolicySpec Peer} (h : p.SelectsAll) (hnamed : p.podSelector ≠ none) :
    selects_all_pods p.podSelector = true := by
  rw [PolicySpec.selectsAll_iff] at h
  cases hselector : p.podSelector with
  | none => exact absurd hselector hnamed
  | some s =>
      rw [hselector] at h
      simpa [selects_all_pods] using h

/-- What a policy says that denies by default. -/
structure Denies (p : PolicySpec Peer) (require_egress : Bool) : Prop where
  selects : selects_all_pods p.podSelector = true
  ingress : "Ingress" ∈ p.policyTypes.getD [] ∧ p.rules .ingress = []
  egress : require_egress = true → "Egress" ∈ p.policyTypes.getD [] ∧ p.rules .egress = []

theorem default_deny_iff {p : Resource Peer} {require_egress : Bool} :
    is_namespace_default_deny p require_egress = true ↔ Denies p.policySpec require_egress := by
  have hparts : is_namespace_default_deny p require_egress = true ↔
      selects_all_pods p.policySpec.podSelector = true ∧
        ("Ingress" ∈ p.policySpec.policyTypes.getD [] ∧ p.policySpec.rules .ingress = []) ∧
          (require_egress = true →
            "Egress" ∈ p.policySpec.policyTypes.getD [] ∧ p.policySpec.rules .egress = []) := by
    cases require_egress with
    | false => simp [is_namespace_default_deny]
    | true => simp [is_namespace_default_deny]
  rw [hparts]
  exact ⟨fun h => ⟨h.1, h.2.1, h.2.2⟩, fun h => ⟨h.selects, h.ingress, h.egress⟩⟩

theorem isolated_of_deny (require_egress : Bool) {d : Direction}
    (h : ∃ p ∈ policiesIn resources ns, is_namespace_default_deny p require_egress = true)
    (hd : d = .ingress ∨ require_egress = true) (labels : Labels) :
    Isolated (specsIn resources ns) d labels := by
  rcases h with ⟨p, hp, hdeny⟩
  have hspec := default_deny_iff.mp hdeny
  have htypes : d.text ∈ p.policySpec.policyTypes.getD [] := by
    cases d with
    | ingress => exact hspec.ingress.1
    | egress =>
        rcases hd with hd | hd
        · cases hd
        · exact (hspec.egress hd).1
  exact ⟨p.policySpec, List.mem_map_of_mem hp, PolicySpec.inForce_of_given htypes,
    selectsAll_of_named hspec.selects labels⟩

/-- Without an error, every namespace that has a workload in a render is protected there, unless it
is in the baseline, and then it is one of the accepted ones. -/
def Sound (combos : List (Combo Peer)) (baseline : List String) : Prop :=
  (check_coverage combos baseline).1 = [] →
    ∀ combo ∈ combos, ∀ ns ∈ workload_namespaces combo.2,
      (ns ∉ baseline → Protected combo.2 ns) ∧
        (¬ Protected combo.2 ns → ns ∈ baseline ∧ ns ∈ ACCEPTED_BASELINE_NAMESPACES)

/-- The gate is sound if and only if, where everything holds that it asks for, every policy that
lets ingress in to all pods of a namespace outside of the baseline has its selector and its types
written out. -/
theorem check_sound_iff (combos : List (Combo Peer)) (baseline : List String) :
    Sound combos baseline ↔
      (Accepted combos baseline → ∀ combo ∈ combos, ∀ ns ∈ workload_namespaces combo.2,
        ns ∉ baseline → ∀ p ∈ specsIn combo.2 ns, p.SelectsAll → p.InForce .ingress →
          p.rules .ingress ≠ [] → p.podSelector ≠ none ∧ p.policyTypes.getD [] ≠ []) := by
  unfold Sound
  rw [errors_nil_iff]
  constructor
  · intro h haccepted combo hcombo ns hns hbaseline p hp hall hforce hrules
    have hprotected := (h haccepted combo hcombo ns hns).1 hbaseline
    exact absurd (hprotected.closed p hp hall hforce) hrules
  · intro h haccepted combo hcombo ns hns
    have hprotected : ns ∉ baseline → Protected combo.2 ns := by
      intro hbaseline
      have hgap : ¬ Gap combos false ns := fun hgap => hbaseline (haccepted.listed ns hgap)
      have hopen := haccepted.egress combo hcombo ns hns hgap
      constructor
      case ingress =>
        refine isolated_of_deny false ?_ (.inl rfl)
        by_contra hnone
        exact hgap ⟨combo, hcombo, hns, hnone⟩
      case egress =>
        refine isolated_of_deny true ?_ (.inr rfl)
        by_contra hnone
        exact hopen ⟨combo, hcombo, hns, hnone⟩
      case closed =>
        intro p hp hall hforce
        by_contra hrules
        rcases h haccepted combo hcombo ns hns hbaseline p hp hall hforce hrules with ⟨hnamed, htypes⟩
        rcases List.mem_map.mp hp with ⟨r, hr, rfl⟩
        have hquiet := (haccepted.policies combo hcombo r (mem_policiesIn.mp hr).1).1
        rw [PolicySpec.inForce_iff_of_given htypes] at hforce
        have hingress : "Ingress" ∈ r.policySpec.policyTypes.getD [] := hforce
        rw [is_leaky_namespace_wide_ingress, named_of_selectsAll hall hnamed] at hquiet
        simp [hingress, hrules] at hquiet
      case restricted =>
        intro p hp _ rule hrule hpeers
        rcases List.mem_map.mp hp with ⟨r, hr, rfl⟩
        have hquiet := (haccepted.policies combo hcombo r (mem_policiesIn.mp hr).1).2
        rw [has_unrestricted_egress_rule, List.any_eq_false] at hquiet
        exact hquiet rule hrule (List.isEmpty_iff.mpr hpeers)
    refine ⟨hprotected, fun hnot => ?_⟩
    have hbaseline : ns ∈ baseline := by
      by_contra hnone
      exact hnot (hprotected hnone)
    exact ⟨hbaseline, (haccepted.frozen ns hbaseline).2⟩

/-! ## A policy that is not seen -/

/-- A namespace that denies by default, and a policy without types that lets all ingress in. -/
def reopened : List (Resource Unit) :=
  [{ kind := "Deployment", ns := some "storage" },
    { kind := "NetworkPolicy", name := some "default-deny-all", ns := some "storage"
      spec := .given { podSelector := some {}, policyTypes := some ["Ingress", "Egress"] } },
    { kind := "NetworkPolicy", name := some "allow-all", ns := some "storage"
      spec := .given { podSelector := some {}, ingress := some [⟨none⟩] } }]

theorem omitted_types_pass :
    (check_coverage [("default", reopened)] []).1 = [] ∧ ¬ Sound [("default", reopened)] [] := by
  have hclean : (check_coverage [("default", reopened)] []).1 = [] := by decide +kernel
  refine ⟨hclean, fun hsound => ?_⟩
  have hworkload : "storage" ∈ workload_namespaces reopened := by decide +kernel
  have hprotected := (hsound hclean _ List.mem_cons_self "storage" hworkload).1 List.not_mem_nil
  have hmem : (⟨some {}, none, some [⟨none⟩], none⟩ : PolicySpec Unit) ∈ specsIn reopened "storage" :=
    List.mem_cons_of_mem _ List.mem_cons_self
  have hnone := hprotected.closed _ hmem (fun _ => rfl) (by unfold PolicySpec.InForce; decide)
  cases hnone

end Ops.Network
