import Beluga.Kube.NetworkPolicy
import Mathlib.Data.List.Dedup
import Mathlib.Data.List.Sort
import Mathlib.Data.String.Basic

/-! # The gate on network policies

`check-networkpolicy-coverage.py`: which namespaces with workloads deny ingress and egress by
default, over several renders of the charts, against a baseline. A field of a policy is `none` where
it is null or absent. -/

namespace Ops.Network

open Kube

/-- A field of a resource. -/
inductive Field (α : Type) where
  | absent
  | null
  | given (a : α)

/-- A rendered resource. `spec` is that of a NetworkPolicy. -/
structure Resource (Peer : Type) where
  kind : String
  name : Option String := none
  ns : Option String := none
  spec : Field (PolicySpec Peer) := .absent

/-- `sorted(set(xs))`. -/
def sortedSet (xs : List String) : List String := xs.dedup.insertionSort (· ≤ ·)

@[simp] theorem mem_sortedSet {x : String} {xs : List String} : x ∈ sortedSet xs ↔ x ∈ xs := by
  simp [sortedSet]

def WORKLOAD_KINDS : List String := ["Deployment", "StatefulSet", "DaemonSet", "Job", "CronJob"]

def ACCEPTED_BASELINE_NAMESPACES : List String :=
  ["iam", "database", "orchestration", "streaming", "analytics", "platform-system"]

section Gate

variable {Peer : Type}

/-- `resource.get("metadata", {}).get("namespace", "default")`. -/
def Resource.namespaceName (r : Resource Peer) : String := r.ns.getD "default"

/-- `netpol.get("spec") or {}`. -/
def Resource.policySpec (r : Resource Peer) : PolicySpec Peer :=
  match r.spec with
  | .given spec => spec
  | _ => {}

def workload_namespaces (resources : List (Resource Peer)) : List String :=
  ((resources.filter fun r => r.kind ∈ WORKLOAD_KINDS).map (·.namespaceName)).eraseDups

def networkPolicies (resources : List (Resource Peer)) : List (Resource Peer) :=
  resources.filter fun r => r.kind = "NetworkPolicy"

/-- The policies of a namespace. -/
def policiesIn (resources : List (Resource Peer)) (ns : String) : List (Resource Peer) :=
  (networkPolicies resources).filter fun r => r.namespaceName = ns

/-- The policies by namespace, in the order in which the namespaces come up. -/
def networkpolicies_by_namespace (resources : List (Resource Peer)) :
    List (String × List (Resource Peer)) :=
  ((networkPolicies resources).map (·.namespaceName)).eraseDups.map fun ns =>
    (ns, policiesIn resources ns)

/-- `_selects_all_pods`: an omitted selector does not count. -/
def selects_all_pods (pod_selector : Option Selector) : Bool :=
  match pod_selector with
  | none => false
  | some s => (s.matchLabels.getD []).isEmpty && (s.matchExpressions.getD []).isEmpty

def is_namespace_default_deny (netpol : Resource Peer) (require_egress : Bool) : Bool :=
  let spec := netpol.policySpec
  let policy_types := spec.policyTypes.getD []
  if !selects_all_pods spec.podSelector then false
  else if "Ingress" ∉ policy_types || !(spec.rules .ingress).isEmpty then false
  else if require_egress && ("Egress" ∉ policy_types || !(spec.rules .egress).isEmpty) then false
  else true

def is_leaky_namespace_wide_ingress (netpol : Resource Peer) : Bool :=
  let spec := netpol.policySpec
  if !selects_all_pods spec.podSelector then false
  else "Ingress" ∈ spec.policyTypes.getD [] && !(spec.rules .ingress).isEmpty

def has_unrestricted_egress_rule (netpol : Resource Peer) : Bool :=
  (netpol.policySpec.rules .egress).any fun rule => (rule.peers.getD []).isEmpty

structure Evaluation where
  workloads : List String
  ingress : List String
  egress : List String
  violations : List String

def policyViolations (ns : String) (policy : Resource Peer) : List String :=
  let name := policy.name.getD "None"
  (if is_leaky_namespace_wide_ingress policy then
    ["namespace '" ++ ns ++ "': policy '" ++ name ++ "' selects every pod and lists Ingress in " ++
      "policyTypes, but still carries ingress rules -- a namespace-wide policy " ++
      "claiming to gate Ingress cannot leak ingress through it (D-3); this cannot " ++
      "be silenced by baselining the namespace"] else []) ++
  (if has_unrestricted_egress_rule policy then
    ["namespace '" ++ ns ++ "': policy '" ++ name ++ "' has an unrestricted egress rule (no 'to' " ++
      "selector, matches every destination) -- this reopens egress to everything " ++
      "and defeats any default-deny egress policy in the same namespace (D-4)"] else [])

def evaluate_combo (resources : List (Resource Peer)) : Evaluation :=
  let netpols := networkpolicies_by_namespace resources
  { workloads := workload_namespaces resources
    ingress := (netpols.filter fun entry =>
      entry.2.any fun p => is_namespace_default_deny p false).map Prod.fst
    egress := (netpols.filter fun entry =>
      entry.2.any fun p => is_namespace_default_deny p true).map Prod.fst
    violations := netpols.flatMap fun entry => entry.2.flatMap (policyViolations entry.1) }

/-- A render with its label. -/
abbrev Combo (Peer : Type) := String × List (Resource Peer)

/-- The namespaces with a workload in a render that are not in the set, with the label of the
render. -/
def gapsOf (denied : Evaluation → List String) (label : String) (e : Evaluation) :
    List (String × String) :=
  (e.workloads.filter fun ns => ns ∉ denied e).map fun ns => (ns, label)

structure Report where
  covered : List String
  baselined : List String
  gaps : List String
  /-- Whether egress is open. -/
  egress : List (String × Bool)

def uncoveredError (ingress_gap_in : List (String × String)) (ns : String) : String :=
  let labels := sortedSet ((ingress_gap_in.filter fun gap => gap.1 = ns).map Prod.snd)
  "namespace '" ++ ns ++ "' has workloads without namespace-wide default-deny Ingress " ++
    "coverage in combo(s): " ++ ", ".intercalate labels ++
    ", and is not listed in networkpolicy-baseline.yaml " ++
    "(either add a baseline entry with reason+issue, or apply default-deny after " ++
    "cluster traffic validation)"

def baselineErrors (gap_namespaces : List String) (ns : String) : List String :=
  if ns ∉ gap_namespaces then
    ["stale baseline entry '" ++ ns ++ "': namespace now has default-deny Ingress coverage in " ++
      "every deployed combo; remove it from networkpolicy-baseline.yaml (ratchet only tightens)"]
  else if ns ∉ ACCEPTED_BASELINE_NAMESPACES then
    ["namespace '" ++ ns ++ "' is in networkpolicy-baseline.yaml but not in the frozen " ++
      "ACCEPTED_BASELINE_NAMESPACES ceiling in check-networkpolicy-coverage.py -- baseline growth " ++
      "requires bumping that ceiling as an explicit, reviewable code change, not just " ++
      "editing the YAML data file (D-1)"]
  else []

def egressError (ns : String) : String :=
  "namespace '" ++ ns ++ "' has namespace-wide default-deny Ingress coverage but not Egress " ++
    "-- coverage requires both (D-5); add an Egress default-deny for this namespace or " ++
    "revisit this requirement if it can no longer be met"

/-- `baseline` are the namespaces of the baseline. -/
def check_coverage (combos : List (Combo Peer)) (baseline : List String) : List String × Report :=
  let evaluations := combos.map fun combo => (combo.1, evaluate_combo combo.2)
  let all_workloads := evaluations.flatMap fun e => e.2.workloads
  let ingress_gap_in := evaluations.flatMap fun e => gapsOf (·.ingress) e.1 e.2
  let egress_gap_in := evaluations.flatMap fun e => gapsOf (·.egress) e.1 e.2
  let gap_namespaces := sortedSet (ingress_gap_in.map Prod.fst)
  let covered := sortedSet (all_workloads.filter fun ns => ns ∉ gap_namespaces)
  let open_namespaces := egress_gap_in.map Prod.fst
  let errors := (evaluations.flatMap fun e => e.2.violations) ++
    (gap_namespaces.filter fun ns => ns ∉ baseline).map (uncoveredError ingress_gap_in) ++
    (sortedSet baseline).flatMap (baselineErrors gap_namespaces) ++
    (covered.filter fun ns => ns ∈ open_namespaces).map egressError
  (errors, {
    covered
    baselined := sortedSet baseline
    gaps := gap_namespaces
    egress := covered.map fun ns => (ns, decide (ns ∈ open_namespaces)) })

end Gate

end Ops.Network
