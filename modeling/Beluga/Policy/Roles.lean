import Beluga.Graph.Walk
import Beluga.Policy.Schema

/-! # Role inheritance

The part of `validate.ts` that the compilers share: what a role includes, who
holds it, and what a group brings together. `Inherits` is the meaning all of it
is compared with.

* `mem_expandRoles`, `mem_holdersOf`: both compute `Inherits`, in its two directions;
* `acyclic_of_findCycle`: a declaration without a reported cycle has none.
-/

namespace Policy

open Graph

variable {d : Declaration}

/-- `byName.get(name)?.includes ?? []`: the last role of a name counts. -/
def includesOf (d : Declaration) (name : String) : List String :=
  ((d.roles.reverse.find? fun r => r.name = name).map Role.parents).getD []

/-- All names that inheritance can lead to. -/
def Declaration.names (d : Declaration) : List String := d.roleNames ++ d.roles.flatMap Role.parents

/-- More than there are names, also with one more name to start from. -/
def Declaration.depth (d : Declaration) : Nat := d.names.length + 2

/-- A role with all roles it includes, directly or not. -/
def expandRoles (d : Declaration) (roleName : String) : List String :=
  Js.sort (walk (includesOf d) d.depth [] roleName)

/-- The roles that bring `role` along: itself and those that inherit it. -/
def holdersOf (d : Declaration) (role : String) : List String :=
  (d.roles.filter fun r => role ∈ expandRoles d r.name).map (·.name)

/-- The roles that a group effectively carries. -/
def groupEffectiveRoles (d : Declaration) (g : Group) : List String :=
  (g.roles.flatMap (expandRoles d)).eraseDups

/-- The groups that carry `role`, told apart from roles by a tag. -/
def taggedGroupHolders (d : Declaration) (role : String) : List String :=
  (d.groups.filter fun g => role ∈ groupEffectiveRoles d g).map fun g => "group:" ++ g.name

def holdersOfIncludingGroups (d : Declaration) (role : String) : List String :=
  (holdersOf d role ++ taggedGroupHolders d role).eraseDups

/-- A holder as the error messages name it. -/
def describeHolder (h : String) : String :=
  if "group:".toList.isPrefixOf h.toList then "그룹 " ++ String.ofList (h.toList.drop 6)
  else "롤 " ++ h

/-- The first cycle that inheritance has, from the roles in order. -/
def findCycle (d : Declaration) : Option (List String) :=
  Graph.findCycle (includesOf d) d.depth d.roleNames

/-! ## What they compute -/

/-- Role `r` has everything that role `s` has. -/
abbrev Inherits (d : Declaration) (r s : String) : Prop := Reach (includesOf d) r s

theorem includesOf_subset (d : Declaration) (name : String) :
    includesOf d name ⊆ d.roles.flatMap Role.parents := by
  intro s hs
  unfold includesOf at hs
  cases hfind : d.roles.reverse.find? fun r => r.name = name with
  | none => simp [hfind] at hs
  | some r =>
      rw [hfind] at hs
      have hr := List.mem_reverse.mp (List.mem_of_find?_eq_some hfind)
      exact List.mem_flatMap.mpr ⟨r, hr, hs⟩

theorem within_names (d : Declaration) (name : String) :
    Within (includesOf d) (name :: d.names) := by
  intro x _ s hs
  exact List.mem_cons_of_mem _ (List.mem_append_right _ (includesOf_subset d x hs))

theorem mem_expandRoles {r s : String} : s ∈ expandRoles d r ↔ Inherits d r s := by
  rw [expandRoles, Js.mem_sort,
    mem_walk (within_names d r) List.mem_cons_self (by simp [Declaration.depth])]

theorem mem_holdersOf {h s : String} :
    h ∈ holdersOf d s ↔ h ∈ d.roleNames ∧ Inherits d h s := by
  simp only [holdersOf, Declaration.roleNames, List.mem_map, List.mem_filter, decide_eq_true_eq,
    mem_expandRoles]
  constructor
  · rintro ⟨r, ⟨hr, hs⟩, rfl⟩
    exact ⟨⟨r, hr, rfl⟩, hs⟩
  · rintro ⟨⟨r, hr, rfl⟩, hs⟩
    exact ⟨r, ⟨hr, hs⟩, rfl⟩

theorem mem_groupEffectiveRoles {g : Group} {s : String} :
    s ∈ groupEffectiveRoles d g ↔ ∃ r ∈ g.roles, Inherits d r s := by
  simp [groupEffectiveRoles, mem_expandRoles]

theorem mem_taggedGroupHolders {h s : String} :
    h ∈ taggedGroupHolders d s ↔
      ∃ g ∈ d.groups, (∃ r ∈ g.roles, Inherits d r s) ∧ h = "group:" ++ g.name := by
  simp only [taggedGroupHolders, List.mem_map, List.mem_filter, decide_eq_true_eq,
    mem_groupEffectiveRoles]
  constructor
  · rintro ⟨g, ⟨hg, hs⟩, rfl⟩
    exact ⟨g, hg, hs, rfl⟩
  · rintro ⟨g, hg, hs, rfl⟩
    exact ⟨g, ⟨hg, hs⟩, rfl⟩

theorem mem_holdersOfIncludingGroups {h s : String} :
    h ∈ holdersOfIncludingGroups d s ↔ h ∈ holdersOf d s ∨ h ∈ taggedGroupHolders d s := by
  simp [holdersOfIncludingGroups]

/-- A declared role inherits declared roles only, if all that is included is declared. -/
theorem Inherits.declared {r s : String} (hdeclared : ∀ r ∈ d.roles, r.parents ⊆ d.roleNames)
    (h : Inherits d r s) (hr : r ∈ d.roleNames) : s ∈ d.roleNames := by
  refine Within.reach (fun x _ s hs => ?_) hr h
  obtain ⟨role, hrole, hs⟩ := List.mem_flatMap.mp (includesOf_subset d x hs)
  exact hdeclared role hrole hs

/-- The role of a name includes what it declares, if no other role has the name. -/
theorem includesOf_eq (hnodup : d.roleNames.Nodup) {r : Role} (hr : r ∈ d.roles) :
    includesOf d r.name = r.parents := by
  have hfind : d.roles.reverse.find? (fun r' => r'.name = r.name) = some r := by
    cases hfind : d.roles.reverse.find? fun r' => r'.name = r.name with
    | none => simpa using List.find?_eq_none.mp hfind r (List.mem_reverse.mpr hr)
    | some r' =>
        have hmem := List.mem_reverse.mp (List.mem_of_find?_eq_some hfind)
        have hname : r'.name = r.name := by simpa using List.find?_some hfind
        rw [List.inj_on_of_nodup_map hnodup hmem hr hname]
  simp [includesOf, hfind]

theorem includesOf_undeclared {name : String} (h : name ∉ d.roleNames) : includesOf d name = [] := by
  have hnone : d.roles.reverse.find? (fun r => r.name = name) = none := by
    rw [List.find?_eq_none]
    intro r hr hname
    exact h (List.mem_map.mpr ⟨r, List.mem_reverse.mp hr, by simpa using hname⟩)
  rw [includesOf, hnone]
  rfl

theorem nodup_expand (d : Declaration) (r : String) :
    (walk (includesOf d) d.depth [] r).Nodup :=
  nodup_walk (within_names d r) List.mem_cons_self (by simp [Declaration.depth])

/-- Inheritance is acyclic where no cycle is reported. -/
theorem acyclic_of_findCycle (h : findCycle d = none) {r s : String} (hr : r ∈ d.roleNames)
    (hinherits : Inherits d r s) : ¬ Relation.TransGen (Edge (includesOf d)) s s := by
  have hwithin : Within (includesOf d) d.names :=
    fun x _ s hs => List.mem_append_right _ (includesOf_subset d x hs)
  exact Graph.acyclic_of_findCycle hwithin (List.subset_append_left _ _)
    (by simp [Declaration.depth]) h hr hinherits

end Policy
