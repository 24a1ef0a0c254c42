import Beluga.Ops.NetworkRules
import Beluga.Py.Access

/-! # Default-deny coverage in two gates

`network_policy_coverage` of `check-k8s-security-baseline.py` looks at each direction, with the
defaults of Kubernetes; `evaluate_combo` of the other gate looks for one policy with both.

* `marks_iff`, `inBoth_iff`: what each of them asks of the policies of a namespace;
* `gates_agree_iff`: when the two agree.
-/

namespace Ops.Network

open Kube Py

variable {Peer : Type} {resources : List (Resource Peer)} {ns : String}

structure Coverage where
  policies : List (Option String) := []
  defaultDenyIngress : Bool := false
  defaultDenyEgress : Bool := false

/-- `resource.get("spec", {})`, of which fields are read. -/
def specOf (r : Resource Peer) : Try (PolicySpec Peer) :=
  match r.spec with
  | .absent => .ok {}
  | .null => .error .raised
  | .given spec => .ok spec

def is_all_pods (selector : Option Selector) : Bool :=
  match selector with
  | none => false
  | some s => !(!(s.matchLabels.getD []).isEmpty) && !(!(s.matchExpressions.getD []).isEmpty)

def coverageTypes (spec : PolicySpec Peer) : List String :=
  if !(spec.policyTypes.getD []).isEmpty then spec.policyTypes.getD []
  else if !(spec.rules .egress).isEmpty then ["Ingress", "Egress"]
  else ["Ingress"]

/-- The policy denies a direction by default. -/
def denies (spec : PolicySpec Peer) (d : Direction) : Bool :=
  is_all_pods spec.podSelector && d.text ∈ coverageTypes spec && (spec.rules d).isEmpty

def Coverage.add (c : Coverage) (policy : Resource Peer × PolicySpec Peer) : Coverage where
  policies := c.policies ++ [policy.1.name]
  defaultDenyIngress := c.defaultDenyIngress || denies policy.2 .ingress
  defaultDenyEgress := c.defaultDenyEgress || denies policy.2 .egress

def withSpec (r : Resource Peer) : Try (Resource Peer × PolicySpec Peer) := do
  let spec ← specOf r
  .ok (r, spec)

def network_policy_coverage (resources : List (Resource Peer)) : Try (List (String × Coverage)) := do
  let policies ← (networkPolicies resources).mapM withSpec
  let namespaces := (policies.map fun policy => policy.1.namespaceName).eraseDups
  .ok (namespaces.map fun ns =>
    (ns, (policies.filter fun policy => policy.1.namespaceName = ns).foldl Coverage.add {}))

/-! ## What each gate asks for -/

/-- `network_policy_coverage` marks the namespace for both directions. -/
def MarksBoth (resources : List (Resource Peer)) (ns : String) : Prop :=
  ∃ coverage, network_policy_coverage resources = .ok coverage ∧
    ∃ c, (ns, c) ∈ coverage ∧ c.defaultDenyIngress = true ∧ c.defaultDenyEgress = true

/-- `evaluate_combo` has the namespace in both of its sets. -/
def InBoth (resources : List (Resource Peer)) (ns : String) : Prop :=
  ns ∈ (evaluate_combo resources).ingress ∧ ns ∈ (evaluate_combo resources).egress

/-- One policy lists both directions and has no rules. -/
def OneDeniesBoth (resources : List (Resource Peer)) (ns : String) : Prop :=
  ∃ p ∈ specsIn resources ns, Denies p true

/-- A policy for all pods is in force for the direction, and has no rules for it. -/
def SomeDenies (resources : List (Resource Peer)) (ns : String) (d : Direction) : Prop :=
  ∃ p ∈ specsIn resources ns, selects_all_pods p.podSelector = true ∧ p.InForce d ∧ p.rules d = []

theorem coverageTypes_eq (spec : PolicySpec Peer) : coverageTypes spec = spec.types := by
  unfold coverageTypes PolicySpec.types
  cases (spec.policyTypes.getD []).isEmpty with
  | false => rfl
  | true =>
      cases (spec.rules .egress).isEmpty with
      | false => rfl
      | true => rfl

theorem denies_iff {spec : PolicySpec Peer} {d : Direction} : denies spec d = true ↔
    selects_all_pods spec.podSelector = true ∧ spec.InForce d ∧ spec.rules d = [] := by
  have hall : is_all_pods spec.podSelector = selects_all_pods spec.podSelector := by
    cases spec.podSelector with
    | none => rfl
    | some s => simp [is_all_pods, selects_all_pods]
  rw [denies, hall, coverageTypes_eq, Bool.and_eq_true, Bool.and_eq_true, decide_eq_true_eq,
    List.isEmpty_iff, and_assoc]
  rfl

theorem foldl_add (policies : List (Resource Peer × PolicySpec Peer)) (c : Coverage) :
    (policies.foldl Coverage.add c).defaultDenyIngress =
        (c.defaultDenyIngress || policies.any fun policy => denies policy.2 .ingress) ∧
      (policies.foldl Coverage.add c).defaultDenyEgress =
        (c.defaultDenyEgress || policies.any fun policy => denies policy.2 .egress) := by
  induction policies generalizing c with
  | nil => simp
  | cons policy policies ih =>
      rw [List.foldl_cons]
      rcases ih (c.add policy) with ⟨hingress, hegress⟩
      rw [hingress, hegress, List.any_cons, List.any_cons, ← Bool.or_assoc, ← Bool.or_assoc]
      exact ⟨rfl, rfl⟩

theorem withSpec_ok {r : Resource Peer} {policy : Resource Peer × PolicySpec Peer}
    (h : withSpec r = .ok policy) : policy = (r, r.policySpec) := by
  rcases bind_ok_iff.mp h with ⟨spec, hspec, hpolicy⟩
  rw [← Except.ok.inj hpolicy]
  unfold specOf at hspec
  unfold Resource.policySpec
  cases hr : r.spec with
  | absent =>
      rw [hr] at hspec
      rw [← Except.ok.inj hspec]
  | null =>
      rw [hr] at hspec
      cases hspec
  | given spec' =>
      rw [hr] at hspec
      rw [← Except.ok.inj hspec]

theorem exists_withSpec {r : Resource Peer} (h : r.spec ≠ .null) : ∃ policy, withSpec r = .ok policy := by
  unfold withSpec specOf
  cases hr : r.spec with
  | absent => exact ⟨_, rfl⟩
  | null => exact absurd hr h
  | given spec => exact ⟨_, rfl⟩

/-- The policies of a namespace that were read are those that the other gate reads. -/
theorem mem_read {policies : List (Resource Peer × PolicySpec Peer)}
    (h : (networkPolicies resources).mapM withSpec = .ok policies) {d : Direction} :
    (∃ policy ∈ policies.filter fun policy => policy.1.namespaceName = ns,
      denies policy.2 d = true) ↔ SomeDenies resources ns d := by
  unfold SomeDenies specsIn
  simp only [List.mem_filter, decide_eq_true_eq, denies_iff, List.mem_map, mem_policiesIn]
  constructor
  · intro hpolicy
    rcases hpolicy with ⟨policy, ⟨hmem, hns⟩, hdenies⟩
    rcases (mem_of_mapM h).mp hmem with ⟨r, hr, hread⟩
    rw [withSpec_ok hread] at hns hdenies
    exact ⟨_, ⟨r, ⟨hr, hns⟩, rfl⟩, hdenies⟩
  · intro hpolicy
    rcases hpolicy with ⟨p, ⟨r, ⟨hr, hns⟩, rfl⟩, hdenies⟩
    rcases ok_of_mapM h hr with ⟨policy, hmem, hread⟩
    rw [withSpec_ok hread] at hmem
    exact ⟨_, ⟨hmem, hns⟩, hdenies⟩

theorem marks_iff : MarksBoth resources ns ↔
    (∀ r ∈ networkPolicies resources, r.spec ≠ .null) ∧
      SomeDenies resources ns .ingress ∧ SomeDenies resources ns .egress := by
  unfold MarksBoth network_policy_coverage
  constructor
  · intro h
    rcases h with ⟨coverage, hcoverage, c, hc, hingress, hegress⟩
    rcases bind_ok_iff.mp hcoverage with ⟨policies, hpolicies, hcoverage⟩
    rw [← Except.ok.inj hcoverage] at hc
    rcases List.mem_map.mp hc with ⟨name, -, heq⟩
    rcases Prod.mk.inj heq with ⟨rfl, rfl⟩
    rw [(foldl_add _ _).1, Bool.false_or, List.any_eq_true] at hingress
    rw [(foldl_add _ _).2, Bool.false_or, List.any_eq_true] at hegress
    refine ⟨fun r hr hnull => ?_, (mem_read hpolicies).mp hingress, (mem_read hpolicies).mp hegress⟩
    rcases ok_of_mapM hpolicies hr with ⟨policy, -, hread⟩
    rw [withSpec, specOf, hnull] at hread
    cases hread
  · intro h
    rcases h with ⟨hspecs, hingress, hegress⟩
    rcases exists_mapM fun r hr => exists_withSpec (hspecs r hr) with ⟨policies, hpolicies⟩
    refine ⟨_, bind_ok_iff.mpr ⟨policies, hpolicies, rfl⟩, _, List.mem_map.mpr ⟨ns, ?_, rfl⟩, ?_, ?_⟩
    · rcases (mem_read hpolicies).mpr hingress with ⟨policy, hmem, -⟩
      rw [List.mem_filter, decide_eq_true_eq] at hmem
      exact List.mem_eraseDups.mpr (List.mem_map.mpr ⟨policy, hmem⟩)
    · rw [(foldl_add _ _).1, Bool.false_or, List.any_eq_true]
      exact (mem_read hpolicies).mpr hingress
    · rw [(foldl_add _ _).2, Bool.false_or, List.any_eq_true]
      exact (mem_read hpolicies).mpr hegress

theorem Denies.weaken {p : PolicySpec Peer} (h : Denies p true) : Denies p false :=
  ⟨h.selects, h.ingress, fun h => by cases h⟩

theorem inBoth_iff : InBoth resources ns ↔ OneDeniesBoth resources ns := by
  have hset : ∀ require_egress : Bool,
      (∃ p ∈ policiesIn resources ns, is_namespace_default_deny p require_egress = true) ↔
        ∃ p ∈ specsIn resources ns, Denies p require_egress := by
    intro require_egress
    simp only [specsIn, List.mem_map, default_deny_iff]
    constructor
    · intro h
      rcases h with ⟨p, hp, hdenies⟩
      exact ⟨_, ⟨p, hp, rfl⟩, hdenies⟩
    · intro h
      rcases h with ⟨_, ⟨p, hp, rfl⟩, hdenies⟩
      exact ⟨p, hp, hdenies⟩
  have hingress : ns ∈ (evaluate_combo resources).ingress ↔
      ∃ p ∈ specsIn resources ns, Denies p false := mem_denied.trans (hset false)
  have hegress : ns ∈ (evaluate_combo resources).egress ↔
      ∃ p ∈ specsIn resources ns, Denies p true := mem_denied.trans (hset true)
  rw [InBoth, hingress, hegress, OneDeniesBoth]
  constructor
  · intro h
    exact h.2
  · intro h
    rcases h with ⟨p, hp, hdenies⟩
    exact ⟨⟨p, hp, hdenies.weaken⟩, p, hp, hdenies⟩

/-! ## Agreement -/

theorem someDenies_of_one (h : OneDeniesBoth resources ns) (d : Direction) :
    SomeDenies resources ns d := by
  rcases h with ⟨p, hp, hdenies⟩
  refine ⟨p, hp, hdenies.selects, ?_⟩
  cases d with
  | ingress => exact ⟨PolicySpec.inForce_of_given hdenies.ingress.1, hdenies.ingress.2⟩
  | egress => exact ⟨PolicySpec.inForce_of_given (hdenies.egress rfl).1, (hdenies.egress rfl).2⟩

/-- The gates agree on a namespace if and only if, where a policy denies ingress by default and one
denies egress, a single policy lists both directions and has no rules; and, where the `spec` of a
policy is null, there is no such policy. -/
theorem gates_agree_iff (resources : List (Resource Peer)) (ns : String) :
    (MarksBoth resources ns ↔ InBoth resources ns) ↔
      ((∀ r ∈ networkPolicies resources, r.spec ≠ .null) → SomeDenies resources ns .ingress →
        SomeDenies resources ns .egress → OneDeniesBoth resources ns) ∧
      ((∃ r ∈ networkPolicies resources, r.spec = .null) → ¬ OneDeniesBoth resources ns) := by
  rw [marks_iff, inBoth_iff]
  constructor
  · intro h
    refine ⟨fun hspecs hingress hegress => h.mp ⟨hspecs, hingress, hegress⟩, fun hnull hone => ?_⟩
    rcases hnull with ⟨r, hr, hnull⟩
    exact (h.mpr hone).1 r hr hnull
  · intro h
    refine ⟨fun hmarks => h.1 hmarks.1 hmarks.2.1 hmarks.2.2, fun hone => ?_⟩
    refine ⟨fun r hr hnull => h.2 ⟨r, hr, hnull⟩ hone, ?_⟩
    exact ⟨someDenies_of_one hone .ingress, someDenies_of_one hone .egress⟩

/-- A namespace whose two directions are denied by two policies, the one without types. -/
def spread : List (Resource Unit) :=
  [{ kind := "NetworkPolicy", name := some "deny-ingress", ns := some "storage"
     spec := .given { podSelector := some {} } },
    { kind := "NetworkPolicy", name := some "deny-egress", ns := some "storage"
      spec := .given { podSelector := some {}, policyTypes := some ["Egress"] } }]

theorem spread_disagrees : MarksBoth spread "storage" ∧ ¬ InBoth spread "storage" := by
  constructor
  · refine ⟨_, rfl, _, List.mem_cons_self, ?_, ?_⟩
    · decide +kernel
    · decide +kernel
  · intro h
    have hnone : (evaluate_combo spread).ingress = [] := by decide +kernel
    have hmem := h.1
    rw [hnone] at hmem
    cases hmem

end Ops.Network
