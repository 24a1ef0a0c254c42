import Mathlib.Tactic.TypeStar

/-! # Network policies of Kubernetes

Label selectors, the directions that a policy is in force for, isolation, and the traffic that a pod
is allowed. Which traffic a peer stands for is a parameter. -/

namespace Kube

/-! ## Selectors -/

/-- The labels of a pod. -/
abbrev Labels := String → Option String

inductive Operator where
  | isIn
  | notIn
  | exist
  | doesNotExist
  deriving DecidableEq

/-- A requirement on one label. An operator on values has some. -/
structure Requirement where
  key : String
  operator : Operator
  values : List String
  values_ne : operator = .isIn ∨ operator = .notIn → values ≠ []

def Requirement.holds (r : Requirement) (labels : Labels) : Bool :=
  match r.operator with
  | .isIn => r.values.any fun v => labels r.key = some v
  | .notIn => !r.values.any fun v => labels r.key = some v
  | .exist => (labels r.key).isSome
  | .doesNotExist => (labels r.key).isNone

structure Selector where
  matchLabels : Option (List (String × String)) := none
  matchExpressions : Option (List Requirement) := none

def Selector.matches (s : Selector) (labels : Labels) : Bool :=
  ((s.matchLabels.getD []).all fun pair => labels pair.1 = some pair.2) &&
    (s.matchExpressions.getD []).all fun r => r.holds labels

/-- A requirement does not hold of all labels. -/
theorem Requirement.exists_not_holds (r : Requirement) : ∃ labels, r.holds labels = false := by
  cases hop : r.operator with
  | isIn => exact ⟨fun _ => none, by simp [holds, hop]⟩
  | notIn =>
      have hne := r.values_ne (.inr hop)
      rcases List.exists_mem_of_ne_nil _ hne with ⟨v, hv⟩
      refine ⟨fun _ => some v, ?_⟩
      simp only [holds, hop, Bool.not_eq_false', List.any_eq_true]
      exact ⟨v, hv, by simp⟩
  | exist => exact ⟨fun _ => none, by simp [holds, hop]⟩
  | doesNotExist => exact ⟨fun _ => some "", by simp [holds, hop]⟩

/-- Only a selector without requirements matches all labels. -/
theorem Selector.matches_all_iff {s : Selector} : (∀ labels, s.matches labels = true) ↔
    s.matchLabels.getD [] = [] ∧ s.matchExpressions.getD [] = [] := by
  constructor
  · intro h
    constructor
    · cases hlabels : s.matchLabels.getD [] with
      | nil => rfl
      | cons pair rest =>
          have hnone := h fun _ => none
          rw [Selector.matches, hlabels] at hnone
          simp at hnone
    · cases hexprs : s.matchExpressions.getD [] with
      | nil => rfl
      | cons r rest =>
          rcases r.exists_not_holds with ⟨labels, hr⟩
          have hall := h labels
          rw [Selector.matches, hexprs, List.all_cons, hr] at hall
          simp at hall
  · intro h labels
    rw [Selector.matches, h.1, h.2]
    rfl

/-! ## Policies -/

inductive Direction where
  | ingress
  | egress
  deriving DecidableEq

def Direction.text : Direction → String
  | .ingress => "Ingress"
  | .egress => "Egress"

/-- A rule for one direction; without peers it is for all of them. -/
structure Rule (Peer : Type) where
  peers : Option (List Peer)

structure PolicySpec (Peer : Type) where
  podSelector : Option Selector := none
  policyTypes : Option (List String) := none
  ingress : Option (List (Rule Peer)) := none
  egress : Option (List (Rule Peer)) := none

namespace PolicySpec

variable {Peer : Type}

/-- An omitted selector is an empty one. -/
def selects (p : PolicySpec Peer) (labels : Labels) : Bool := (p.podSelector.getD {}).matches labels

/-- The policy selects all pods, whatever their labels. -/
def SelectsAll (p : PolicySpec Peer) : Prop := ∀ labels, p.selects labels = true

def rules (p : PolicySpec Peer) : Direction → List (Rule Peer)
  | .ingress => p.ingress.getD []
  | .egress => p.egress.getD []

/-- Omitted types are `Ingress`, and `Egress` where there are egress rules. -/
def types (p : PolicySpec Peer) : List String :=
  if (p.policyTypes.getD []).isEmpty then
    if (p.rules .egress).isEmpty then ["Ingress"] else ["Ingress", "Egress"]
  else p.policyTypes.getD []

def InForce (p : PolicySpec Peer) (d : Direction) : Prop := d.text ∈ p.types

theorem inForce_of_given {p : PolicySpec Peer} {d : Direction}
    (h : d.text ∈ p.policyTypes.getD []) : p.InForce d := by
  have hne : (p.policyTypes.getD []).isEmpty = false := by
    cases hgiven : p.policyTypes.getD [] with
    | nil =>
        rw [hgiven] at h
        cases h
    | cons t ts => rfl
  unfold InForce types
  rw [hne, if_neg Bool.false_ne_true]
  exact h

theorem inForce_iff_of_given {p : PolicySpec Peer} {d : Direction}
    (hne : p.policyTypes.getD [] ≠ []) : p.InForce d ↔ d.text ∈ p.policyTypes.getD [] := by
  refine ⟨fun h => ?_, inForce_of_given⟩
  unfold InForce types at h
  rwa [if_neg fun hempty => hne (List.isEmpty_iff.mp hempty)] at h

theorem selectsAll_iff {p : PolicySpec Peer} : p.SelectsAll ↔
    (p.podSelector.getD {}).matchLabels.getD [] = [] ∧
      (p.podSelector.getD {}).matchExpressions.getD [] = [] :=
  Selector.matches_all_iff

end PolicySpec

/-! ## Pods -/

section Pods

variable {Peer Traffic : Type} (policies : List (PolicySpec Peer)) (d : Direction) (labels : Labels)

/-- A policy in force selects the pod. -/
def Isolated : Prop := ∃ p ∈ policies, p.InForce d ∧ p.selects labels = true

/-- The traffic is of a peer of the rule. -/
def Rule.Admits (covers : Peer → Traffic → Prop) (rule : Rule Peer) (t : Traffic) : Prop :=
  rule.peers.getD [] = [] ∨ ∃ peer ∈ rule.peers.getD [], covers peer t

/-- All traffic of a pod that is not isolated, else what some policy in force that selects it has a
rule for. -/
def Allowed (covers : Peer → Traffic → Prop) (t : Traffic) : Prop :=
  ¬ Isolated policies d labels ∨
    ∃ p ∈ policies, p.InForce d ∧ p.selects labels = true ∧ ∃ rule ∈ p.rules d, rule.Admits covers t

variable {policies d labels}

/-- Nothing is allowed where the policies in force that select the pod have no rules. -/
theorem not_allowed {covers : Peer → Traffic → Prop} {t : Traffic}
    (hisolated : Isolated policies d labels)
    (h : ∀ p ∈ policies, p.InForce d → p.selects labels = true → p.rules d = []) :
    ¬ Allowed policies d labels covers t := by
  intro hallowed
  rcases hallowed with hnot | ⟨p, hp, hforce, hselects, rule, hrule, -⟩
  · exact hnot hisolated
  · rw [h p hp hforce hselects] at hrule
    cases hrule

end Pods

end Kube
