import Beluga.Graph.Cycles
import Beluga.Policy.Validate

/-! # The graph of the roles

The two recursions of `validate.ts` over `includes`, compared with the relation
that the declaration writes down. Roles have distinct names here; what they
include may be undeclared, repeated and cyclic.

* `findCycle_isSome_iff`: a cycle is reported exactly when the declared roles have one;
* `expandRoles_ends`: the recursion ends, and what it has seen is what is sorted;
* `inheritance_exact`: both recursions together.
-/

namespace Policy

open Graph

variable {d : Declaration}

/-- Role `a` names `b` among what it includes. -/
def Includes (d : Declaration) (a b : String) : Prop := ∃ r ∈ d.roles, r.name = a ∧ b ∈ r.parents

/-- Both are declared. -/
def DeclaredIncludes (d : Declaration) (a b : String) : Prop :=
  a ∈ d.roleNames ∧ b ∈ d.roleNames ∧ Includes d a b

theorem edge_iff (hnames : d.roleNames.Nodup) {a b : String} :
    Edge (includesOf d) a b ↔ Includes d a b := by
  constructor
  · intro h
    by_cases ha : a ∈ d.roleNames
    · rcases List.mem_map.mp ha with ⟨r, hr, rfl⟩
      have hb : b ∈ includesOf d r.name := h
      rw [includesOf_eq hnames hr] at hb
      exact ⟨r, hr, rfl, hb⟩
    · have hb : b ∈ includesOf d a := h
      rw [includesOf_undeclared ha] at hb
      cases hb
  · intro h
    rcases h with ⟨r, hr, rfl, hb⟩
    show b ∈ includesOf d r.name
    rwa [includesOf_eq hnames hr]

theorem inherits_iff (hnames : d.roleNames.Nodup) {r s : String} :
    Inherits d r s ↔ Relation.ReflTransGen (Includes d) r s := by
  have hedge : Edge (includesOf d) = Includes d := by
    funext a b
    exact propext (edge_iff hnames)
  rw [Inherits, Reach, hedge]

theorem DeclaredIncludes.edge (hnames : d.roleNames.Nodup) {a b : String}
    (h : DeclaredIncludes d a b) : Edge (includesOf d) a b := (edge_iff hnames).mpr h.2.2

/-- What includes something is declared. -/
theorem declared_of_edge {a b : String} (h : Edge (includesOf d) a b) : a ∈ d.roleNames := by
  by_contra ha
  have hb : b ∈ includesOf d a := h
  rw [includesOf_undeclared ha] at hb
  cases hb

theorem declaredIncludes_of_edge (hnames : d.roleNames.Nodup) {a b : String}
    (h : Edge (includesOf d) a b) (hb : b ∈ d.roleNames) : DeclaredIncludes d a b :=
  ⟨declared_of_edge h, hb, (edge_iff hnames).mp h⟩

theorem declared_of_transGen {a b : String}
    (h : Relation.TransGen (Edge (includesOf d)) a b) : a ∈ d.roleNames := by
  rcases Relation.TransGen.head'_iff.mp h with ⟨c, hedge, -⟩
  exact declared_of_edge hedge

/-- A cycle of names is a cycle of declared roles. -/
theorem transGen_declared (hnames : d.roleNames.Nodup) {a b : String}
    (h : Relation.TransGen (Edge (includesOf d)) a b) (hb : b ∈ d.roleNames) :
    Relation.TransGen (DeclaredIncludes d) a b := by
  induction h with
  | single hedge => exact .single (declaredIncludes_of_edge hnames hedge hb)
  | tail _ hedge ih =>
      exact (ih (declared_of_edge hedge)).tail (declaredIncludes_of_edge hnames hedge hb)

/-! ## The reported cycle -/

theorem within_all (d : Declaration) : Within (includesOf d) d.names :=
  fun x _ _ hs => List.mem_append_right _ (includesOf_subset d x hs)

theorem findCycle_isSome_iff (hnames : d.roleNames.Nodup) :
    (∃ cycle, findCycle d = some cycle) ↔
      ∃ a, Relation.TransGen (DeclaredIncludes d) a a := by
  constructor
  · intro h
    by_contra hnone
    have hacyclic : ∀ y, ¬ Relation.TransGen (Edge (includesOf d)) y y := by
      intro y hy
      exact hnone ⟨y, transGen_declared hnames hy (declared_of_transGen hy)⟩
    rcases h with ⟨cycle, hcycle⟩
    rw [findCycle, findCycle_of_acyclic hacyclic] at hcycle
    cases hcycle
  · intro h
    rcases h with ⟨a, ha⟩
    have hedges : Relation.TransGen (Edge (includesOf d)) a a :=
      Relation.TransGen.mono (fun _ _ hab => DeclaredIncludes.edge hnames hab) a a ha
    cases hcycle : findCycle d with
    | some cycle => exact ⟨cycle, rfl⟩
    | none =>
        exact absurd hedges
          (acyclic_of_findCycle hcycle (declared_of_transGen hedges) .refl)

/-- The reported cycle goes through declared roles. -/
theorem chain_declared (hnames : d.roleNames.Nodup) {names : List String}
    (h : names.IsChain (Edge (includesOf d))) (hlast : ∀ x ∈ names.getLast?, x ∈ d.roleNames) :
    names.IsChain (DeclaredIncludes d) := by
  induction names with
  | nil => exact .nil
  | cons a names ih =>
      cases names with
      | nil => exact .singleton a
      | cons b names =>
          rw [List.isChain_cons_cons] at h ⊢
          have hrest := ih h.2 (by simpa using hlast)
          refine ⟨declaredIncludes_of_edge hnames h.1 ?_, hrest⟩
          -- `b` is the last name, or it includes the next one
          cases names with
          | nil => exact hlast b (by simp)
          | cons c names =>
              rw [List.isChain_cons_cons] at h
              exact declared_of_edge h.2.1

theorem findCycle_walk (hnames : d.roleNames.Nodup) {cycle : List String}
    (h : findCycle d = some cycle) :
    ∃ way last, cycle = way ++ [last] ∧ last ∈ way ∧ cycle.IsChain (DeclaredIncludes d) := by
  have hloops := loops_findCycle h
  rcases hloops.back with ⟨way, last, heq, hback⟩
  refine ⟨way, last, heq, hback, chain_declared hnames hloops.chain ?_⟩
  intro x hx
  have hxlast : x = last := by
    rw [heq] at hx
    simpa using hx.symm
  subst hxlast
  -- where it occurred before, it includes the next name
  rcases List.append_of_mem hback with ⟨before, after, rfl⟩
  have hchain := hloops.chain
  rw [heq, List.append_assoc] at hchain
  have htail := List.IsChain.right_of_append hchain
  cases after with
  | nil => exact declared_of_edge (List.isChain_cons_cons.mp htail).1
  | cons y after => exact declared_of_edge (List.isChain_cons_cons.mp htail).1

/-- The search of the validator ends, whatever the roles include. -/
theorem findCycle_ends (d : Declaration) :
    ∃ st, Searches (includesOf d) [] {} d.roleNames st ∧ st.cycle = findCycle d :=
  searches_findCycle (within_all d) (List.subset_append_left _ _) (by simp [Declaration.depth])

/-! ## The error -/

theorem mem_cycleErrors {e : ValidationError} :
    e ∈ cycleErrors d ↔ ∃ cycle, findCycle d = some cycle ∧ e = .cyclicInheritance cycle := by
  unfold cycleErrors
  cases findCycle d with
  | none => simp
  | some cycle => simp

/-- No other check reports a cycle. -/
theorem cyclicInheritance_mem {cycle : List String} :
    .cyclicInheritance cycle ∈ validateDeclaration d ↔ findCycle d = some cycle := by
  have hrequire : ∀ (ok : Bool) (e : ValidationError), e ≠ .cyclicInheritance cycle →
      .cyclicInheritance cycle ∉ require ok e := by
    intro ok e he hmem
    cases ok with
    | false => exact he (List.mem_singleton.mp hmem).symm
    | true => cases hmem
  have hgrant : ∀ res grant, .cyclicInheritance cycle ∉ grantErrors d res grant := by
    intro res grant
    cases hfilter : grant.rowFilter with
    | none => simp [grantErrors, hfilter, roleReference, knownRole, hrequire]
    | some filter => simp [grantErrors, hfilter, roleReference, knownRole, hrequire]
  simp [validateDeclaration, mem_cycleErrors, hrequire, hgrant, roleErrors, collisionErrors,
    groupErrors, duplicateResourceErrors, resourceErrors, conflictErrors, catalogGrantErrors,
    duplicateCatalogGrantErrors, loginErrors, roleReference, knownRole]

theorem cyclic_iff {e : ValidationError} :
    e ∈ validateDeclaration d ∧ e.code = .CYCLIC_INHERITANCE ↔
      ∃ cycle, findCycle d = some cycle ∧ e = .cyclicInheritance cycle := by
  constructor
  · intro h
    rcases h with ⟨he, hcode⟩
    cases e with
    | cyclicInheritance cycle => exact ⟨cycle, cyclicInheritance_mem.mp he, rfl⟩
    | _ => cases hcode
  · intro h
    rcases h with ⟨cycle, hcycle, rfl⟩
    exact ⟨cyclicInheritance_mem.mpr hcycle, rfl⟩

/-! ## The expansion -/

/-- The recursion ends, and what it has seen, sorted, is the expansion. -/
theorem expandRoles_ends (d : Declaration) (r : String) :
    ∃ seen, Walks (includesOf d) [] [r] seen ∧ expandRoles d r = Js.sort seen := by
  refine ⟨walk (includesOf d) d.depth [] r, ?_, rfl⟩
  exact walks_walk (within_names d r) d.depth [] r List.mem_cons_self
    (left_nil_lt (by simp [Declaration.depth]))

theorem nodup_expandRoles (d : Declaration) (r : String) : (expandRoles d r).Nodup :=
  (Js.sortOn_perm id _).nodup_iff.mpr (nodup_expand d r)

theorem sorted_expandRoles (d : Declaration) (r : String) :
    (expandRoles d r).Pairwise Js.le :=
  List.pairwise_insertionSort (fun a b => Js.le (id a) (id b)) _

theorem expandRoles_subset {r s : String} (hs : s ∈ expandRoles d r) :
    expandRoles d s ⊆ expandRoles d r := by
  intro t ht
  exact mem_expandRoles.mpr ((mem_expandRoles.mp hs).trans (mem_expandRoles.mp ht))

/-- To expand what an expansion has changes nothing. -/
theorem expandRoles_idempotent (d : Declaration) (r : String) :
    Js.sort ((expandRoles d r).flatMap (expandRoles d)).eraseDups = expandRoles d r := by
  have hsame : ∀ s, s ∈ (expandRoles d r).flatMap (expandRoles d) ↔
      s ∈ walk (includesOf d) d.depth [] r := by
    intro s
    have hmem : s ∈ walk (includesOf d) d.depth [] r ↔ s ∈ expandRoles d r := by
      rw [expandRoles, Js.mem_sort]
    rw [hmem, List.mem_flatMap]
    constructor
    · intro h
      rcases h with ⟨t, ht, hs⟩
      exact expandRoles_subset ht hs
    · intro hs
      exact ⟨s, hs, mem_expandRoles.mpr .refl⟩
  rw [Js.sort_eraseDups_congr hsame, expandRoles]
  refine Js.sort_congr ?_
  rw [List.perm_ext_iff_of_nodup (Js.nodup_eraseDups _) (nodup_expand d r)]
  simp

/-! ## Together -/

/-- Both recursions end and are exact for roles of distinct names, whatever they include. -/
theorem inheritance_exact (d : Declaration) (hnames : d.roleNames.Nodup) :
    ((∃ e ∈ validateDeclaration d, e.code = .CYCLIC_INHERITANCE) ↔
      ∃ a, Relation.TransGen (DeclaredIncludes d) a a) ∧
    (∀ e ∈ validateDeclaration d, e.code = .CYCLIC_INHERITANCE →
      ∃ way last, e = .cyclicInheritance (way ++ [last]) ∧ last ∈ way ∧
        (way ++ [last]).IsChain (DeclaredIncludes d)) ∧
    (∃ st, Searches (includesOf d) [] {} d.roleNames st) ∧
    ∀ r, (∃ seen, Walks (includesOf d) [] [r] seen) ∧
      (∀ seen, Walks (includesOf d) [] [r] seen → expandRoles d r = Js.sort seen) ∧
      (expandRoles d r).Pairwise Js.le ∧ (expandRoles d r).Nodup ∧
      (∀ s, s ∈ expandRoles d r ↔ Relation.ReflTransGen (Includes d) r s) ∧
      Js.sort ((expandRoles d r).flatMap (expandRoles d)).eraseDups = expandRoles d r ∧
      ∀ s ∈ expandRoles d r, expandRoles d s ⊆ expandRoles d r := by
  refine ⟨?_, ?_, ?_, ?_⟩
  · rw [← findCycle_isSome_iff hnames]
    constructor
    · intro h
      rcases h with ⟨e, he, hcode⟩
      rcases cyclic_iff.mp ⟨he, hcode⟩ with ⟨cycle, hcycle, -⟩
      exact ⟨cycle, hcycle⟩
    · intro h
      rcases h with ⟨cycle, hcycle⟩
      exact ⟨.cyclicInheritance cycle, cyclicInheritance_mem.mpr hcycle, rfl⟩
  · intro e he hcode
    rcases cyclic_iff.mp ⟨he, hcode⟩ with ⟨cycle, hcycle, rfl⟩
    rcases findCycle_walk hnames hcycle with ⟨way, last, rfl, hback, hchain⟩
    exact ⟨way, last, rfl, hback, hchain⟩
  · rcases findCycle_ends d with ⟨st, hst, -⟩
    exact ⟨st, hst⟩
  · intro r
    rcases expandRoles_ends d r with ⟨seen, hwalks, heq⟩
    refine ⟨⟨seen, hwalks⟩, ?_, sorted_expandRoles d r, nodup_expandRoles d r, ?_,
      expandRoles_idempotent d r, fun s hs => expandRoles_subset hs⟩
    · intro seen' hwalks'
      rw [heq, hwalks.unique hwalks']
    · intro s
      rw [mem_expandRoles, inherits_iff hnames]

/-- Two roles that include each other, an undeclared one and one that is repeated. -/
def tangled : Declaration where
  roles := [{ name := "a", includes := some ["b", "b", "x"] }, { name := "b", includes := some ["a"] }]
  groups := []
  resources := []

theorem tangled_exact :
    tangled.roleNames.Nodup ∧
    ((∃ e ∈ validateDeclaration tangled, e.code = .CYCLIC_INHERITANCE) ↔
      ∃ a, Relation.TransGen (DeclaredIncludes tangled) a a) ∧
    ∀ s, s ∈ expandRoles tangled "b" ↔ Relation.ReflTransGen (Includes tangled) "b" s := by
  have hnames : tangled.roleNames.Nodup := by decide
  have hexact := inheritance_exact tangled hnames
  exact ⟨hnames, hexact.1, (hexact.2.2.2 "b").2.2.2.2.1⟩

end Policy
