import Beluga.Policy.DriftOrder

/-! # What an empty report says

`diffState` reports nothing when the roles are the same, when the role lists of each
group have the same text, and when both maps of grants have the same keys and the
same privileges under each (`silent_iff`). No more is compared, so states that
differ elsewhere look equal.
-/

namespace Policy

open Text Js

variable {toUpperCase : String → String}

/-- All systems were read, and no item is reported. -/
def Silent (toUpperCase : String → String) (desired : Artifacts) (roles : List String)
    (groups : GroupRecord) (lines : List String) : Prop :=
  ∃ report, diffState toUpperCase desired
      { keycloakRoles := some roles, keycloakGroups := some groups, pgGrants := some lines } =
    .ok report ∧ report.items = []

theorem sortItems_eq_nil {items : List DriftItem} : sortItems items = [] ↔ items = [] := by
  have hperm := List.perm_insertionSort itemLe items
  constructor
  · intro h
    rw [← sortItems, h] at hperm
    exact hperm.symm.eq_nil
  · rintro rfl
    rfl

/-! ## Keycloak -/

theorem diffKeycloakRoles_eq_nil {desired : KeycloakSpec} {roles : List String} :
    diffKeycloakRoles desired roles = [] ↔
      ∀ name, name ∈ desired.realmRoles.map (·.name) ↔ name ∈ roles := by
  simp only [diffKeycloakRoles, List.append_eq_nil_iff, List.map_eq_nil_iff,
    List.filter_eq_nil_iff, decide_eq_true_eq, not_not]
  constructor
  · rintro ⟨h₁, h₂⟩ name
    exact ⟨h₁ name, h₂ name⟩
  · intro h
    exact ⟨fun name => (h name).mp, fun name => (h name).mpr⟩

/-- The text that role lists are compared by. -/
def roleText (roles : List String) : String := join "," (sort roles)

theorem diffGroup_eq_nil {actual : GroupRecord} {g : KeycloakGroup} :
    diffGroup actual g = .ok [] ↔
      ∃ roles, (g.name, roles) ∈ actual.entries ∧ roleText g.realmRoles = roleText roles := by
  cases hlook : actual.entries.lookup g.name with
  | none =>
      have hget : diffGroup actual g ≠ .ok [] := by
        rw [diffGroup, GroupRecord.get, hlook]
        intro h
        by_cases hname : g.name ∈ OBJECT_PROTOTYPE
        · rw [if_pos hname] at h
          cases h
        · rw [if_neg hname] at h
          cases h
      refine ⟨fun h => absurd h hget, ?_⟩
      rintro ⟨roles, hmem, -⟩
      rw [(lookup_eq_some actual.keys_nodup).mpr hmem] at hlook
      cases hlook
  | some roles =>
      have hmem := (lookup_eq_some actual.keys_nodup).mp hlook
      have hitem : diffGroup actual g = .ok [] ↔ roleText g.realmRoles = roleText roles := by
        rw [diffGroup, GroupRecord.get, hlook]
        show Except.ok _ = Except.ok _ ↔ _
        by_cases heq : roleText g.realmRoles = roleText roles
        · have hif : ¬ join "," (sort g.realmRoles) ≠ join "," (sort roles) := not_not.mpr heq
          simp only [if_neg hif, heq]
        · have hif : join "," (sort g.realmRoles) ≠ join "," (sort roles) := heq
          simp [if_pos hif, heq]
      rw [hitem]
      refine ⟨fun h => ⟨roles, hmem, h⟩, ?_⟩
      rintro ⟨roles', hmem', h⟩
      have hlook' := (lookup_eq_some actual.keys_nodup).mpr hmem'
      rw [hlook] at hlook'
      cases hlook'
      exact h

/-- Names that a role list can be read back from. -/
def PlainRoles (roles : List String) : Prop := ∀ r ∈ roles, r ≠ "" ∧ ',' ∉ r.toList

/-- Lists of such names have the same text only if they are the same. -/
theorem join_inj {xs ys : List String} (hxs : PlainRoles xs) (hys : PlainRoles ys)
    (h : join "," xs = join "," ys) : xs = ys := by
  have hsplit : ∀ {zs : List String}, PlainRoles zs → zs ≠ [] →
      (join "," zs).toList.splitOn ',' = zs.map String.toList := by
    intro zs hzs hne
    rw [join, String.toList_intercalate, show ("," : String).toList = [','] from rfl]
    exact List.splitOn_intercalate ',' (by simpa using fun z hz => (hzs z hz).2) (by simpa using hne)
  have hnil : ∀ {zs : List String}, PlainRoles zs → join "," zs = "" → zs = [] := by
    intro zs hzs hempty
    by_contra hne
    have hone := hsplit hzs hne
    rw [hempty, show ("" : String).toList.splitOn ',' = [[]] from rfl] at hone
    obtain ⟨z, zs, rfl⟩ := List.exists_cons_of_ne_nil hne
    have hz : z.toList = [] := ((List.cons.inj hone).1).symm
    exact (hzs z List.mem_cons_self).1 (String.toList_inj.mp hz)
  by_cases hx : xs = []
  · subst hx
    exact (hnil hys h.symm).symm
  · by_cases hy : ys = []
    · subst hy
      exact hnil hxs h
    · have heq := hsplit hxs hx
      rw [h, hsplit hys hy] at heq
      exact (List.map_injective_iff.mpr (fun _ _ => String.toList_inj.mp) heq).symm

theorem roleText_eq_iff {xs ys : List String} (hxs : PlainRoles xs) (hys : PlainRoles ys) :
    roleText xs = roleText ys ↔ xs.Perm ys := by
  constructor
  · intro h
    have hsort := join_inj (fun r hr => hxs r (mem_sort.mp hr)) (fun r hr => hys r (mem_sort.mp hr)) h
    exact (sortOn_perm id xs).symm.trans ((List.Perm.of_eq hsort).trans (sortOn_perm id ys))
  · intro h
    rw [roleText, roleText, sort_congr h]

/-- The groups of both sides, by what is compared. -/
structure GroupsMatch (desired : KeycloakSpec) (actual : GroupRecord) : Prop where
  declared : ∀ g ∈ desired.groups,
    ∃ roles, (g.name, roles) ∈ actual.entries ∧ roleText g.realmRoles = roleText roles
  only : ∀ e ∈ actual.entries, e.1 ∈ desired.groups.map (·.name)

theorem mapM_nil_iff {α β : Type} {f : α → Except TypeError (List β)} {xs : List α} :
    (∃ ys, xs.mapM f = .ok ys ∧ ys.flatten = []) ↔ ∀ x ∈ xs, f x = .ok [] := by
  induction xs with
  | nil => simp [pure, Except.pure]
  | cons x xs ih =>
      rw [List.mapM_cons, List.forall_mem_cons, ← ih]
      cases hx : f x with
      | error e =>
          constructor
          · rintro ⟨ys, h, _⟩
            cases h
          · rintro ⟨h, _⟩
            cases h
      | ok y =>
          cases hxs : xs.mapM f with
          | error e =>
              constructor
              · rintro ⟨ys, h, _⟩
                cases h
              · rintro ⟨_, ys, h, _⟩
                cases h
          | ok ys =>
              constructor
              · rintro ⟨zs, h, hnil⟩
                cases h
                rw [List.flatten_cons, List.append_eq_nil_iff] at hnil
                exact ⟨by rw [hnil.1], ys, rfl, hnil.2⟩
              · rintro ⟨hy, zs, h, hnil⟩
                cases h
                cases hy
                exact ⟨[] :: ys, rfl, by simpa using hnil⟩

theorem diffKeycloakGroups_eq_nil {desired : KeycloakSpec} {actual : GroupRecord} :
    diffKeycloakGroups desired actual = .ok [] ↔ GroupsMatch desired actual := by
  have hdeclared := @mapM_nil_iff _ _ (diffGroup actual) desired.groups
  simp only [diffGroup_eq_nil] at hdeclared
  have honly : ∀ items : List DriftItem,
      (items ++ ((actual.entries.map Prod.fst).filter
          (· ∉ desired.groups.map (·.name))).map fun name => (⟨.manual, "keycloak.group/" ++ name,
            "실제에만 존재 — 수동 변경 의심"⟩ : DriftItem)) = [] ↔
        items = [] ∧ ∀ e ∈ actual.entries, e.1 ∈ desired.groups.map (·.name) := by
    intro items
    simp only [List.append_eq_nil_iff, List.map_eq_nil_iff, List.filter_eq_nil_iff,
      decide_eq_true_eq, not_not, List.forall_mem_map]
  constructor
  · intro h
    cases hall : desired.groups.mapM (diffGroup actual) with
    | error e =>
        rw [diffKeycloakGroups, hall] at h
        cases h
    | ok declared =>
        rw [diffKeycloakGroups, hall] at h
        obtain ⟨hnil, hactual⟩ := (honly _).mp (Except.ok.inj h)
        exact ⟨hdeclared.mp ⟨declared, hall, hnil⟩, hactual⟩
  · intro h
    obtain ⟨declared, hall, hnil⟩ := hdeclared.mpr h.declared
    rw [diffKeycloakGroups, hall]
    exact congrArg Except.ok ((honly _).mpr ⟨hnil, h.only⟩)

/-! ## GRANT lines -/

theorem privilegesEqual_iff {a b : List String} (ha : a.Nodup) (hb : b.Nodup) :
    privilegesEqual a b = true ↔ ∀ p, p ∈ a ↔ p ∈ b := by
  rw [privilegesEqual, Bool.and_eq_true, decide_eq_true_eq, List.all_eq_true]
  simp only [decide_eq_true_eq]
  constructor
  · rintro ⟨hlen, hsub⟩ p
    have hperm := (List.subperm_of_subset ha hsub).perm_of_length_le hlen.ge
    exact hperm.mem_iff
  · intro h
    exact ⟨((List.perm_ext_iff_of_nodup ha hb).mpr h).length_eq, fun p hp => (h p).mp hp⟩

theorem desiredItem_eq_nil {byKey : List ParsedGrant} (hnodup : (keysOf byKey).Nodup)
    {g : ParsedGrant} : desiredItem byKey g = [] ↔
      g.key ∈ keysOf byKey ∧ ∀ p, Facts byKey g.key p ↔ p ∈ g.privileges := by
  cases hat : grantAt byKey g.key with
  | none =>
      rw [desiredItem, hat]
      have hnone := grantAt_eq_none.mp hat
      exact ⟨fun h => absurd h (List.cons_ne_nil _ _), fun h => absurd h.1 hnone⟩
  | some a =>
      obtain ⟨hmem, hkey⟩ := (grantAt_eq_some hnodup).mp hat
      have hmemkey : g.key ∈ keysOf byKey := List.mem_map.mpr ⟨a, hmem, hkey⟩
      have hequal := privilegesEqual_iff a.privileges_nodup g.privileges_nodup
      have hfacts : ∀ p, p ∈ a.privileges ↔ Facts byKey g.key p := fun p => by
        rw [mem_privileges hnodup hmem, hkey]
      simp only [hfacts] at hequal
      simp only [desiredItem, hat, hmemkey, true_and, ← hequal]
      by_cases heq : privilegesEqual a.privileges g.privileges = true
      · rw [if_pos heq]
        exact ⟨fun _ => heq, fun _ => rfl⟩
      · rw [if_neg heq]
        exact ⟨fun h => absurd h (List.cons_ne_nil _ _), fun h => absurd h heq⟩

theorem actualItem_eq_nil {byKey : List ParsedGrant} {a : ParsedGrant} :
    actualItem byKey a = [] ↔ a.key ∈ keysOf byKey := by
  cases hat : grantAt byKey a.key with
  | none =>
      rw [actualItem, hat]
      exact ⟨fun h => absurd h (List.cons_ne_nil _ _), fun h => absurd h (grantAt_eq_none.mp hat)⟩
  | some g =>
      have hmem : a.key ∈ keysOf byKey := by
        by_contra hnot
        rw [grantAt_eq_none.mpr hnot] at hat
        cases hat
      rw [actualItem, hat]
      exact ⟨fun _ => hmem, fun _ => rfl⟩

/-- The grants of both sides, by what is compared. -/
structure GrantsMatch (toUpperCase : String → String) (desired actual : List String) : Prop where
  parsed : ∀ line ∈ actual, (parseGrantLine toUpperCase line).isSome
  keys : ∀ key, key ∈ keysOf (parsedGrants toUpperCase desired) ↔
    key ∈ keysOf (parsedGrants toUpperCase actual)
  facts : ∀ key p, Facts (parsedGrants toUpperCase desired) key p ↔
    Facts (parsedGrants toUpperCase actual) key p

theorem diffPgGrants_eq_nil {pgddl : String} {lines : List String} :
    diffPgGrants toUpperCase pgddl lines = [] ↔
      GrantsMatch toUpperCase (splitLines pgddl) lines := by
  have hd := @gathered toUpperCase (splitLines pgddl)
  have ha := @gathered toUpperCase lines
  rw [diffPgGrants, desiredPgGrants]
  simp only [List.append_eq_nil_iff, List.map_eq_nil_iff, List.flatMap_eq_nil_iff,
    desiredItem_eq_nil ha.nodup, actualItem_eq_nil, unparsedLines, List.filter_eq_nil_iff,
    Option.isNone_iff_eq_none, ← Option.isSome_iff_ne_none, and_assoc]
  constructor
  · rintro ⟨hparsed, hdesired, hactual⟩
    have hkeys : ∀ key, key ∈ keysOf (mergeGrantLines toUpperCase (splitLines pgddl)) ↔
        key ∈ keysOf (mergeGrantLines toUpperCase lines) := by
      intro key
      constructor
      · intro h
        obtain ⟨g, hg, rfl⟩ := List.mem_map.mp h
        exact (hdesired g hg).1
      · intro h
        obtain ⟨a, hmem, rfl⟩ := List.mem_map.mp h
        exact hactual a hmem
    refine ⟨hparsed, fun key => ?_, fun key p => ?_⟩
    · rw [← hd.keys, ← ha.keys]
      exact hkeys key
    · rw [← hd.facts, ← ha.facts]
      by_cases hkey : key ∈ keysOf (mergeGrantLines toUpperCase (splitLines pgddl))
      · obtain ⟨g, hg, rfl⟩ := List.mem_map.mp hkey
        rw [← mem_privileges hd.nodup hg]
        exact ((hdesired g hg).2 p).symm
      · have hnone : ∀ {gs : List ParsedGrant}, key ∉ keysOf gs → ¬ Facts gs key p := by
          rintro gs hnot ⟨g, hg, hgkey, -⟩
          exact hnot (List.mem_map.mpr ⟨g, hg, hgkey⟩)
        exact iff_of_false (hnone hkey) (hnone fun h => hkey ((hkeys key).mpr h))
  · intro h
    refine ⟨h.parsed, fun g hg => ?_, fun a hmem => ?_⟩
    · have hkey : g.key ∈ keysOf (mergeGrantLines toUpperCase (splitLines pgddl)) :=
        List.mem_map.mpr ⟨g, hg, rfl⟩
      refine ⟨?_, fun p => ?_⟩
      · rwa [ha.keys, ← h.keys, ← hd.keys]
      · rw [ha.facts, ← h.facts, ← hd.facts, ← mem_privileges hd.nodup hg]
    · have hkey : a.key ∈ keysOf (mergeGrantLines toUpperCase lines) :=
        List.mem_map.mpr ⟨a, hmem, rfl⟩
      rwa [hd.keys, h.keys, ← ha.keys]

/-- A line that says again what others say does not show. -/
theorem GrantsMatch.also {desired lines : List String} (h : GrantsMatch toUpperCase desired lines)
    {line : String} {g : ParsedGrant} (hparse : parseGrantLine toUpperCase line = some g)
    (hkey : g.key ∈ keysOf (parsedGrants toUpperCase lines))
    (hfacts : ∀ p ∈ g.privileges, Facts (parsedGrants toUpperCase lines) g.key p) :
    GrantsMatch toUpperCase desired (line :: lines) := by
  have hcons : parsedGrants toUpperCase (line :: lines) = g :: parsedGrants toUpperCase lines :=
    List.filterMap_cons_some hparse
  refine ⟨?_, fun key => ?_, fun key p => ?_⟩
  · intro l hl
    rcases List.mem_cons.mp hl with rfl | hl
    · rw [hparse]
      rfl
    · exact h.parsed l hl
  · rw [h.keys, hcons, keysOf_cons, List.mem_cons]
    constructor
    · exact .inr
    · rintro (rfl | hmem)
      · exact hkey
      · exact hmem
  · rw [h.facts, hcons, facts_cons]
    constructor
    · exact .inr
    · rintro (⟨rfl, hp⟩ | hmem)
      · exact hfacts p hp
      · exact hmem

/-! ## The report -/

theorem silent_iff {desired : Artifacts} {roles : List String} {groups : GroupRecord}
    {lines : List String} : Silent toUpperCase desired roles groups lines ↔
      (∀ name, name ∈ desired.keycloak.realmRoles.map (·.name) ↔ name ∈ roles) ∧
        GroupsMatch desired.keycloak groups ∧
          GrantsMatch toUpperCase (splitLines desired.pgddl) lines := by
  rw [← diffKeycloakRoles_eq_nil, ← diffKeycloakGroups_eq_nil, ← diffPgGrants_eq_nil, Silent,
    diffState]
  simp only [category]
  cases diffKeycloakGroups desired.keycloak groups with
  | error e =>
      constructor
      · rintro ⟨report, h, _⟩
        cases h
      · rintro ⟨_, h, _⟩
        cases h
  | ok gs =>
      constructor
      · rintro ⟨report, h, hnil⟩
        cases h
        obtain ⟨hleft, hlines⟩ := List.append_eq_nil_iff.mp (sortItems_eq_nil.mp hnil)
        obtain ⟨hroles, hgroups⟩ := List.append_eq_nil_iff.mp hleft
        exact ⟨hroles, congrArg Except.ok hgroups, hlines⟩
      · rintro ⟨hroles, hgroups, hlines⟩
        cases hgroups
        refine ⟨_, rfl, sortItems_eq_nil.mpr ?_⟩
        rw [hroles, hlines]
        rfl

end Policy
