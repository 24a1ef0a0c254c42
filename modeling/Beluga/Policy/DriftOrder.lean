import Beluga.Policy.Drift

/-! # Reports in any order

What the systems report comes in any order, and a server may write the privileges
of a role on a table in one line or in several. The report is the same
(`diffState_alike`): the map of grants keeps per key the union of the privileges
(`mergeGrantLines_facts`), and the sort tells all items apart (`itemLe_antisymm`).
A line that is not understood has an item each time (`unparsed_twice`).
-/

namespace Policy

open Text Js

/-! ## The sort -/

theorem DriftItem.sortKey_inj {a b : DriftItem} (h : a.sortKey = b.sortKey) :
    a.kind = b.kind ∧ a.target = b.target := by
  have hlist := congrArg String.toList h
  simp only [sortKey, String.toList_append] at hlist
  cases ha : a.kind <;> cases hb : b.kind <;>
    simp [ha, hb, DriftKind.text, String.toList_inj] at hlist ⊢
  all_goals exact hlist

theorem itemLe_antisymm {a b : DriftItem} (hab : itemLe a b) (hba : itemLe b a) : a = b := by
  rcases hab with ⟨hkey, hdetail⟩ | hlt
  · rcases hba with ⟨-, hdetail'⟩ | hlt'
    · obtain ⟨hkind, htarget⟩ := DriftItem.sortKey_inj hkey
      have hd := utf16_inj (le_antisymm hdetail hdetail')
      cases a
      cases b
      simp_all
    · rw [hkey] at hlt'
      exact absurd (le_refl (utf16 b.sortKey)) hlt'
  · rcases hba with ⟨hkey, -⟩ | hlt'
    · rw [hkey] at hlt
      exact absurd (le_refl (utf16 a.sortKey)) hlt
    · exact absurd (le_of_not_ge hlt') hlt

instance : Std.Total itemLe where
  total a b := by
    rcases lt_trichotomy (utf16 a.sortKey) (utf16 b.sortKey) with h | h | h
    · exact .inl (.inr (not_le_of_gt h))
    · have hkey := utf16_inj h
      rcases le_total (utf16 a.detail) (utf16 b.detail) with hd | hd
      · exact .inl (.inl ⟨hkey, hd⟩)
      · exact .inr (.inl ⟨hkey.symm, hd⟩)
    · exact .inr (.inr (not_le_of_gt h))

instance : IsTrans DriftItem itemLe where
  trans a b c hab hbc := by
    rcases hab with ⟨hkey, hdetail⟩ | hlt
    · rcases hbc with ⟨hkey', hdetail'⟩ | hlt'
      · exact .inl ⟨hkey.trans hkey', le_trans (α := List Nat) hdetail hdetail'⟩
      · exact .inr (by rwa [hkey])
    · rcases hbc with ⟨hkey', -⟩ | hlt'
      · exact .inr (by rwa [← hkey'])
      · refine .inr (not_le_of_gt ?_)
        exact lt_trans (α := List Nat) (lt_of_not_ge hlt) (lt_of_not_ge hlt')

/-- The order of the items does not show. -/
theorem sortItems_congr {items items' : List DriftItem} (h : items.Perm items') :
    sortItems items = sortItems items' :=
  List.Perm.eq_of_pairwise (fun _ _ _ _ => itemLe_antisymm)
    (List.pairwise_insertionSort _ items) (List.pairwise_insertionSort _ items')
    ((List.perm_insertionSort _ items).trans (h.trans (List.perm_insertionSort _ items').symm))

/-! ## The map of grants -/

/-- The privileges that grants give under a key. -/
def Facts (gs : List ParsedGrant) (key p : String) : Prop :=
  ∃ g ∈ gs, g.key = key ∧ p ∈ g.privileges

def keysOf (gs : List ParsedGrant) : List String := gs.map (·.key)

@[simp] theorem keysOf_cons (e : ParsedGrant) (rest : List ParsedGrant) :
    keysOf (e :: rest) = e.key :: keysOf rest := rfl

@[simp] theorem key_addAll (g : ParsedGrant) (ps : List String) : (g.addAll ps).key = g.key := rfl

theorem keysOf_put (byKey : List ParsedGrant) (g : ParsedGrant) : keysOf (put byKey g) =
    if g.key ∈ keysOf byKey then keysOf byKey else keysOf byKey ++ [g.key] := by
  induction byKey with
  | nil => simp [put, keysOf]
  | cons e rest ih =>
      unfold put
      by_cases hkey : e.key = g.key
      · rw [if_pos hkey, if_pos (by simp [keysOf, hkey])]
        rfl
      · have hne : g.key ≠ e.key := fun h => hkey h.symm
        rw [if_neg hkey, keysOf_cons, keysOf_cons, ih]
        by_cases hmem : g.key ∈ keysOf rest
        · rw [if_pos hmem, if_pos (List.mem_cons_of_mem _ hmem)]
        · rw [if_neg hmem, if_neg (by simpa [hne] using hmem)]
          rfl

theorem facts_cons {e : ParsedGrant} {gs : List ParsedGrant} {key p : String} :
    Facts (e :: gs) key p ↔ (e.key = key ∧ p ∈ e.privileges) ∨ Facts gs key p := by
  simp [Facts]

theorem facts_put {byKey : List ParsedGrant} {g : ParsedGrant} {key p : String} :
    Facts (put byKey g) key p ↔ Facts byKey key p ∨ (g.key = key ∧ p ∈ g.privileges) := by
  induction byKey with
  | nil => simp [put, Facts]
  | cons e rest ih =>
      unfold put
      by_cases hkey : e.key = g.key
      · rw [if_pos hkey, facts_cons, facts_cons, key_addAll, ParsedGrant.addAll]
        simp only [mem_addAll, hkey]
        tauto
      · rw [if_neg hkey, facts_cons, facts_cons, ih, or_assoc]

/-- What a map that has taken up grants has: distinct keys, the keys of the grants, and their
privileges. -/
structure Gathered (gs byKey : List ParsedGrant) : Prop where
  nodup : (keysOf byKey).Nodup
  keys : ∀ key, key ∈ keysOf byKey ↔ key ∈ keysOf gs
  facts : ∀ key p, Facts byKey key p ↔ Facts gs key p

theorem gathered_foldl {gs byKey more : List ParsedGrant} (h : Gathered gs byKey) :
    Gathered (gs ++ more) (more.foldl put byKey) := by
  induction more generalizing gs byKey with
  | nil => simpa using h
  | cons g more ih =>
      have hput : Gathered (gs ++ [g]) (put byKey g) := by
        refine ⟨?_, ?_, ?_⟩
        · rw [keysOf_put]
          split
          · exact h.nodup
          · rename_i hnew
            refine List.nodup_append.mpr ⟨h.nodup, List.nodup_singleton _, ?_⟩
            intro a ha b hb heq
            rw [heq, List.mem_singleton.mp hb] at ha
            exact hnew ha
        · intro key
          rw [keysOf_put]
          have hgs : key ∈ keysOf (gs ++ [g]) ↔ key ∈ keysOf byKey ∨ key = g.key := by
            rw [h.keys]
            simp [keysOf]
          rw [hgs]
          split
          · rename_i hold
            constructor
            · exact .inl
            · rintro (hmem | rfl)
              · exact hmem
              · exact hold
          · simp
        · intro key p
          rw [facts_put, h.facts]
          simp only [Facts, List.mem_append, List.mem_singleton, or_and_right, exists_or,
            exists_eq_left]
      simpa using ih hput

variable {toUpperCase : String → String}

/-- The grants of the lines that are understood. -/
def parsedGrants (toUpperCase : String → String) (lines : List String) : List ParsedGrant :=
  lines.filterMap (parseGrantLine toUpperCase)

theorem gathered (lines : List String) :
    Gathered (parsedGrants toUpperCase lines) (mergeGrantLines toUpperCase lines) := by
  have hstart : Gathered [] [] := ⟨List.nodup_nil, fun _ => Iff.rfl, fun _ _ => Iff.rfl⟩
  exact gathered_foldl hstart

/-- Two maps with the same keys, and the same privileges under each. -/
structure SameGrants (byKey byKey' : List ParsedGrant) : Prop where
  nodup : (keysOf byKey).Nodup
  nodup' : (keysOf byKey').Nodup
  keys : ∀ key, key ∈ keysOf byKey ↔ key ∈ keysOf byKey'
  facts : ∀ key p, Facts byKey key p ↔ Facts byKey' key p

theorem SameGrants.symm {byKey byKey' : List ParsedGrant} (h : SameGrants byKey byKey') :
    SameGrants byKey' byKey :=
  ⟨h.nodup', h.nodup, fun key => (h.keys key).symm, fun key p => (h.facts key p).symm⟩

theorem grantAt_eq_some {byKey : List ParsedGrant} (hnodup : (keysOf byKey).Nodup) {key : String}
    {g : ParsedGrant} : grantAt byKey key = some g ↔ g ∈ byKey ∧ g.key = key := by
  induction byKey with
  | nil => simp [grantAt]
  | cons e rest ih =>
      obtain ⟨hnew, hrest⟩ := List.nodup_cons.mp hnodup
      by_cases hkey : e.key = key
      · simp only [grantAt, List.find?_cons, hkey, decide_true, Option.some.injEq, List.mem_cons]
        constructor
        · rintro rfl
          exact ⟨.inl rfl, hkey⟩
        · rintro ⟨rfl | hmem, hg⟩
          · rfl
          · exact absurd (List.mem_map.mpr ⟨g, hmem, hg.trans hkey.symm⟩) hnew
      · have hne : (decide (e.key = key)) = false := by simpa using hkey
        rw [grantAt, List.find?_cons, hne, ← grantAt, ih hrest, List.mem_cons]
        constructor
        · rintro ⟨hmem, hg⟩
          exact ⟨.inr hmem, hg⟩
        · rintro ⟨rfl | hmem, hg⟩
          · exact absurd hg hkey
          · exact ⟨hmem, hg⟩

theorem grantAt_eq_none {byKey : List ParsedGrant} {key : String} :
    grantAt byKey key = none ↔ key ∉ keysOf byKey := by
  simp [grantAt, keysOf]

/-- The privileges under a key of a map. -/
theorem mem_privileges {byKey : List ParsedGrant} (hnodup : (keysOf byKey).Nodup)
    {g : ParsedGrant} (hg : g ∈ byKey) {p : String} : p ∈ g.privileges ↔ Facts byKey g.key p := by
  constructor
  · exact fun hp => ⟨g, hg, rfl, hp⟩
  · rintro ⟨e, he, hkey, hp⟩
    have h := (grantAt_eq_some hnodup).mpr ⟨he, hkey⟩
    rw [(grantAt_eq_some hnodup).mpr ⟨hg, rfl⟩] at h
    cases h
    exact hp

theorem SameGrants.privileges {byKey byKey' : List ParsedGrant} (h : SameGrants byKey byKey')
    {g g' : ParsedGrant} (hg : g ∈ byKey) (hg' : g' ∈ byKey') (hkey : g.key = g'.key) :
    g.privileges.Perm g'.privileges := by
  rw [List.perm_ext_iff_of_nodup g.privileges_nodup g'.privileges_nodup]
  intro p
  rw [mem_privileges h.nodup hg, mem_privileges h.nodup' hg', hkey]
  exact h.facts _ p

/-- What is under a key of the other map. -/
theorem SameGrants.grantAt {byKey byKey' : List ParsedGrant} (h : SameGrants byKey byKey')
    (key : String) : (grantAt byKey key = none ∧ grantAt byKey' key = none) ∨
      ∃ g g', grantAt byKey key = some g ∧ grantAt byKey' key = some g' ∧ g.key = g'.key ∧
        g.privileges.Perm g'.privileges := by
  cases hg : Policy.grantAt byKey key with
  | none =>
      refine .inl ⟨rfl, ?_⟩
      rw [grantAt_eq_none, ← h.keys]
      exact grantAt_eq_none.mp hg
  | some g =>
      obtain ⟨hmem, hkey⟩ := (grantAt_eq_some h.nodup).mp hg
      have hkeys : key ∈ keysOf byKey' := (h.keys key).mp (List.mem_map.mpr ⟨g, hmem, hkey⟩)
      obtain ⟨g', hmem', hkey'⟩ := List.mem_map.mp hkeys
      exact .inr ⟨g, g', rfl, (grantAt_eq_some h.nodup').mpr ⟨hmem', hkey'⟩, hkey.trans hkey'.symm,
        h.privileges hmem hmem' (hkey.trans hkey'.symm)⟩

/-! ## Items -/

theorem formatPrivileges_congr {a b : List String} (h : a.Perm b) :
    formatPrivileges a = formatPrivileges b := by
  rw [formatPrivileges, formatPrivileges, sort_congr h]

theorem privilegesEqual_congr {a b c : List String} (h : a.Perm b) :
    privilegesEqual a c = privilegesEqual b c := by
  rw [privilegesEqual, privilegesEqual, h.length_eq, h.all_eq]

theorem desiredItem_congr {byKey byKey' : List ParsedGrant} (h : SameGrants byKey byKey')
    (g : ParsedGrant) : desiredItem byKey g = desiredItem byKey' g := by
  rcases h.grantAt g.key with ⟨hg, hg'⟩ | ⟨a, a', hg, hg', -, hperm⟩
  · rw [desiredItem, desiredItem, hg, hg']
  · simp only [desiredItem, hg, hg', privilegesEqual_congr hperm, formatPrivileges_congr hperm]

theorem actualItem_congr {desired : List ParsedGrant} {a a' : ParsedGrant} (hkey : a.key = a'.key)
    (h : a.privileges.Perm a'.privileges) : actualItem desired a = actualItem desired a' := by
  rw [actualItem, actualItem, hkey, formatPrivileges_congr h]

/-- What is emitted for the grants of a map, by their keys. -/
theorem flatMap_keysOf {β : Type} {byKey : List ParsedGrant} (hnodup : (keysOf byKey).Nodup)
    (f : ParsedGrant → List β) : byKey.flatMap f =
      (keysOf byKey).flatMap fun key => ((grantAt byKey key).map f).getD [] := by
  rw [keysOf, List.flatMap_map]
  refine List.flatMap_congr fun g hg => ?_
  rw [(grantAt_eq_some hnodup).mpr ⟨hg, rfl⟩]
  rfl

theorem actualItems_perm {byKey byKey' desired : List ParsedGrant} (h : SameGrants byKey byKey') :
    (byKey.flatMap (actualItem desired)).Perm (byKey'.flatMap (actualItem desired)) := by
  rw [flatMap_keysOf h.nodup, flatMap_keysOf h.nodup']
  have hkeys : (keysOf byKey).Perm (keysOf byKey') :=
    (List.perm_ext_iff_of_nodup h.nodup h.nodup').mpr h.keys
  refine (List.Perm.of_eq (List.flatMap_congr fun key _ => ?_)).trans (hkeys.flatMap_right _)
  rcases h.grantAt key with ⟨hg, hg'⟩ | ⟨a, a', hg, hg', hkey, hperm⟩
  · rw [hg, hg']
  · rw [hg, hg', Option.map_some, Option.map_some, Option.getD_some, Option.getD_some,
      actualItem_congr hkey hperm]

/-! ## The same lines -/

/-- Some lines have between them the table, the role and the privileges of one line. -/
structure SplitInto (toUpperCase : String → String) (line : String) (lines : List String) :
    Prop where
  nonempty : lines ≠ []
  parsed : ∃ g, parseGrantLine toUpperCase line = some g ∧
    (∀ l ∈ lines, ∃ g', parseGrantLine toUpperCase l = some g' ∧ g'.table = g.table ∧
      g'.role = g.role) ∧
    ∀ p, p ∈ g.privileges ↔ ∃ l ∈ lines, ∃ g', parseGrantLine toUpperCase l = some g' ∧
      p ∈ g'.privileges

/-- Lines in another order, or with a line split into several. A line that is repeated is split
into itself and itself. -/
inductive LinesAlike (toUpperCase : String → String) : List String → List String → Prop where
  | order {lines lines' : List String} (h : lines.Perm lines') :
      LinesAlike toUpperCase lines lines'
  | split (before : List String) (line : String) (lines after : List String)
      (h : SplitInto toUpperCase line lines) :
      LinesAlike toUpperCase (before ++ line :: after) (before ++ lines ++ after)
  | trans {a b c : List String} (hab : LinesAlike toUpperCase a b)
      (hbc : LinesAlike toUpperCase b c) : LinesAlike toUpperCase a c

/-- What the report reads of lines. -/
structure SaysSame (toUpperCase : String → String) (lines lines' : List String) : Prop where
  keys : ∀ key, key ∈ keysOf (parsedGrants toUpperCase lines) ↔
    key ∈ keysOf (parsedGrants toUpperCase lines')
  facts : ∀ key p, Facts (parsedGrants toUpperCase lines) key p ↔
    Facts (parsedGrants toUpperCase lines') key p
  unparsed : (unparsedLines toUpperCase lines).Perm (unparsedLines toUpperCase lines')

theorem facts_append {gs gs' : List ParsedGrant} {key p : String} :
    Facts (gs ++ gs') key p ↔ Facts gs key p ∨ Facts gs' key p := by
  simp only [Facts, List.mem_append, or_and_right, exists_or]

theorem parsedGrants_append (lines lines' : List String) :
    parsedGrants toUpperCase (lines ++ lines') =
      parsedGrants toUpperCase lines ++ parsedGrants toUpperCase lines' :=
  List.filterMap_append

theorem unparsedLines_append (lines lines' : List String) :
    unparsedLines toUpperCase (lines ++ lines') =
      unparsedLines toUpperCase lines ++ unparsedLines toUpperCase lines' :=
  List.filter_append _ _

theorem mem_parsedGrants {lines : List String} {g : ParsedGrant} :
    g ∈ parsedGrants toUpperCase lines ↔
      ∃ l ∈ lines, parseGrantLine toUpperCase l = some g := List.mem_filterMap

theorem saysSame_split {line : String} {lines : List String}
    (h : SplitInto toUpperCase line lines) : SaysSame toUpperCase [line] lines := by
  obtain ⟨hne, g, hg, hall, hunion⟩ := h
  have hone : parsedGrants toUpperCase [line] = [g] := by simp [parsedGrants, hg]
  have hkey : ∀ g' ∈ parsedGrants toUpperCase lines, g'.key = g.key := by
    intro g' hg'
    obtain ⟨l, hl, hparse⟩ := mem_parsedGrants.mp hg'
    obtain ⟨g'', hparse', htable, hrole⟩ := hall l hl
    rw [hparse] at hparse'
    cases hparse'
    rw [ParsedGrant.key, htable, hrole, ParsedGrant.key]
  refine ⟨?_, ?_, ?_⟩
  · intro key
    rw [hone]
    obtain ⟨l, hl⟩ := List.exists_mem_of_ne_nil lines hne
    obtain ⟨g', hparse, -, -⟩ := hall l hl
    have hmem := mem_parsedGrants.mpr ⟨l, hl, hparse⟩
    constructor
    · intro h
      rw [List.mem_singleton.mp (show key ∈ [g.key] from h)]
      exact List.mem_map.mpr ⟨g', hmem, hkey g' hmem⟩
    · intro h
      obtain ⟨g'', hg'', rfl⟩ := List.mem_map.mp h
      rw [hkey g'' hg'']
      exact List.mem_singleton_self _
  · intro key p
    rw [hone]
    constructor
    · rintro ⟨g', hg', hk, hp⟩
      rw [List.mem_singleton.mp hg'] at hk hp
      obtain ⟨l, hl, g'', hparse, hp'⟩ := (hunion p).mp hp
      have hmem := mem_parsedGrants.mpr ⟨l, hl, hparse⟩
      exact ⟨g'', hmem, (hkey g'' hmem).trans hk, hp'⟩
    · rintro ⟨g', hg', hk, hp⟩
      obtain ⟨l, hl, hparse⟩ := mem_parsedGrants.mp hg'
      exact ⟨g, List.mem_singleton_self g, (hkey g' hg').symm.trans hk,
        (hunion p).mpr ⟨l, hl, g', hparse, hp⟩⟩
  · have hnone : unparsedLines toUpperCase lines = [] := by
      rw [unparsedLines, List.filter_eq_nil_iff]
      intro l hl
      obtain ⟨g', hparse, -⟩ := hall l hl
      simp [hparse]
    rw [hnone]
    simp [unparsedLines, hg]

/-- Lines around do not change this. -/
theorem SaysSame.inside {lines lines' : List String} (h : SaysSame toUpperCase lines lines')
    (before after : List String) :
    SaysSame toUpperCase (before ++ lines ++ after) (before ++ lines' ++ after) := by
  refine ⟨?_, ?_, ?_⟩
  · intro key
    have hkey := h.keys key
    simp only [keysOf, parsedGrants_append, List.map_append, List.mem_append] at hkey ⊢
    rw [hkey]
  · intro key p
    simp only [parsedGrants_append, facts_append, h.facts key p]
  · simp only [unparsedLines_append]
    exact (h.unparsed.append_left _).append_right _

theorem saysSame_of_alike {lines lines' : List String} (h : LinesAlike toUpperCase lines lines') :
    SaysSame toUpperCase lines lines' := by
  induction h with
  | @order lines lines' hperm =>
      have hparsed : (parsedGrants toUpperCase lines).Perm (parsedGrants toUpperCase lines') :=
        hperm.filterMap _
      refine ⟨?_, ?_, hperm.filter _⟩
      · exact fun key => (hparsed.map _).mem_iff
      · intro key p
        simp only [Facts, hparsed.mem_iff]
  | split before line lines after hsplit =>
      have hone : before ++ line :: after = before ++ [line] ++ after := by simp
      rw [hone]
      exact (saysSame_split hsplit).inside before after
  | trans _ _ ihab ihbc =>
      exact ⟨fun key => (ihab.keys key).trans (ihbc.keys key),
        fun key p => (ihab.facts key p).trans (ihbc.facts key p),
        ihab.unparsed.trans ihbc.unparsed⟩

theorem sameGrants_of_saysSame {lines lines' : List String}
    (h : SaysSame toUpperCase lines lines') :
    SameGrants (mergeGrantLines toUpperCase lines) (mergeGrantLines toUpperCase lines') := by
  have hg := @gathered toUpperCase lines
  have hg' := @gathered toUpperCase lines'
  refine ⟨hg.nodup, hg'.nodup, ?_, ?_⟩
  · intro key
    rw [hg.keys, hg'.keys]
    exact h.keys key
  · intro key p
    rw [hg.facts, hg'.facts]
    exact h.facts key p

theorem diffPgGrants_perm {lines lines' : List String} (h : LinesAlike toUpperCase lines lines')
    (pgddl : String) :
    (diffPgGrants toUpperCase pgddl lines).Perm (diffPgGrants toUpperCase pgddl lines') := by
  have hsaid := saysSame_of_alike h
  have hsame := sameGrants_of_saysSame hsaid
  have hdesired : desiredItem (mergeGrantLines toUpperCase lines) =
      desiredItem (mergeGrantLines toUpperCase lines') := funext (desiredItem_congr hsame)
  rw [diffPgGrants, diffPgGrants, hdesired]
  exact ((hsaid.unparsed.map _).append_right _).append (actualItems_perm hsame)

/-! ## The same state -/

/-- The same groups with the same roles. -/
def GroupsAlike (actual actual' : GroupRecord) : Prop :=
  Shuffled (fun x y => x.1 = y.1 ∧ x.2.Perm y.2) actual.entries actual'.entries

/-- Actual states that differ in orders and in how privileges are spread over lines. -/
structure SameState (toUpperCase : String → String) (actual actual' : ActualState) : Prop where
  roles : Option.Rel List.Perm actual.keycloakRoles actual'.keycloakRoles
  groups : Option.Rel GroupsAlike actual.keycloakGroups actual'.keycloakGroups
  grants : Option.Rel (LinesAlike toUpperCase) actual.pgGrants actual'.pgGrants

/-- The same items in some order, or the same error. -/
inductive SameItems : Except TypeError (List DriftItem) → Except TypeError (List DriftItem) → Prop
  | ok {items items' : List DriftItem} (h : items.Perm items') : SameItems (.ok items) (.ok items')
  | error (e : TypeError) : SameItems (.error e) (.error e)

theorem diffKeycloakRoles_perm (desired : KeycloakSpec) {rs rs' : List String} (h : rs.Perm rs') :
    (diffKeycloakRoles desired rs).Perm (diffKeycloakRoles desired rs') := by
  have hmem : ∀ name, name ∈ rs ↔ name ∈ rs' := fun _ => h.mem_iff
  simp only [diffKeycloakRoles, hmem]
  exact ((h.filter _).map _).append_left _

theorem lookup_eq_some {entries : List (String × List String)}
    (hnodup : (entries.map Prod.fst).Nodup) {name : String} {roles : List String} :
    entries.lookup name = some roles ↔ (name, roles) ∈ entries := by
  induction entries with
  | nil => simp
  | cons e rest ih =>
      obtain ⟨hnew, hrest⟩ := List.nodup_cons.mp hnodup
      obtain ⟨key, value⟩ := e
      by_cases hkey : name = key
      · subst hkey
        rw [List.lookup_cons_self, Option.some.injEq, List.mem_cons, Prod.mk.injEq]
        constructor
        · rintro rfl
          exact .inl ⟨rfl, rfl⟩
        · rintro (⟨-, rfl⟩ | hmem)
          · rfl
          · exact absurd (List.mem_map.mpr ⟨_, hmem, rfl⟩) hnew
      · have hbeq : (name == key) = false := by simpa using hkey
        rw [List.lookup_cons, hbeq, List.mem_cons]
        simp only [ih hrest, Prod.mk.injEq, hkey, false_and, false_or]

/-- The roles of a group in two records alike. -/
theorem GroupRecord.get_alike {actual actual' : GroupRecord} (h : GroupsAlike actual actual')
    (name : String) : actual.get name = actual'.get name ∨ ∃ roles roles',
      actual.get name = .ok (some roles) ∧ actual'.get name = .ok (some roles') ∧
        roles.Perm roles' := by
  cases hlook : actual.entries.lookup name with
  | none =>
      have hlook' : actual'.entries.lookup name = none := by
        cases hl : actual'.entries.lookup name with
        | none => rfl
        | some roles' =>
            obtain ⟨⟨key, roles⟩, hmem, hname, -⟩ :=
              h.source ((lookup_eq_some actual'.keys_nodup).mp hl)
            cases hname
            rw [(lookup_eq_some actual.keys_nodup).mpr hmem] at hlook
            cases hlook
      left
      rw [GroupRecord.get, GroupRecord.get, hlook, hlook']
  | some roles =>
      right
      obtain ⟨⟨key, roles'⟩, hmem, hname, hperm⟩ :=
        h.target ((lookup_eq_some actual.keys_nodup).mp hlook)
      cases hname
      have hlook' := (lookup_eq_some actual'.keys_nodup).mpr hmem
      exact ⟨roles, roles', by rw [GroupRecord.get, hlook], by rw [GroupRecord.get, hlook'], hperm⟩

theorem diffGroup_alike {actual actual' : GroupRecord} (h : GroupsAlike actual actual')
    (g : KeycloakGroup) : diffGroup actual g = diffGroup actual' g := by
  rcases GroupRecord.get_alike h g.name with heq | ⟨roles, roles', hget, hget', hperm⟩
  · rw [diffGroup, diffGroup, heq]
  · rw [diffGroup, diffGroup, hget, hget']
    simp only [Except.map, sort_congr hperm]

theorem diffKeycloakGroups_same (desired : KeycloakSpec) {actual actual' : GroupRecord}
    (h : GroupsAlike actual actual') :
    SameItems (diffKeycloakGroups desired actual) (diffKeycloakGroups desired actual') := by
  have hdeclared : diffGroup actual = diffGroup actual' := funext (diffGroup_alike h)
  have hnames : (actual.entries.map Prod.fst).Perm (actual'.entries.map Prod.fst) :=
    h.map_perm fun x _ y hxy => hxy.1
  rw [diffKeycloakGroups, diffKeycloakGroups, hdeclared]
  cases desired.groups.mapM (diffGroup actual') with
  | error e => exact .error e
  | ok declared => exact .ok (((hnames.filter _).map _).append_left _)

theorem category_same {α : Type} {R : α → α → Prop} {read read' : Option α}
    {diff : α → Except TypeError (List DriftItem)} (h : Option.Rel R read read')
    (hdiff : ∀ a a', R a a' → SameItems (diff a) (diff a')) :
    SameItems (category read diff) (category read' diff) := by
  cases h with
  | some hR => exact hdiff _ _ hR
  | none => exact .ok (.refl _)

theorem isSome_of_rel {α : Type} {R : α → α → Prop} {a a' : Option α} (h : Option.Rel R a a') :
    a.isSome = a'.isSome := by
  cases h <;> rfl

/-- The same items of each category make the same report. -/
theorem report_congr {roles roles' groups groups' grants grants' :
    Except TypeError (List DriftItem)} {checked : List DriftCategory}
    (hroles : SameItems roles roles') (hgroups : SameItems groups groups')
    (hgrants : SameItems grants grants') :
    (do let rs ← roles; let gs ← groups; let ls ← grants
        return ⟨sortItems (rs ++ gs ++ ls), checked⟩ : Except TypeError DriftReport) =
      do let rs ← roles'; let gs ← groups'; let ls ← grants'
         return ⟨sortItems (rs ++ gs ++ ls), checked⟩ := by
  cases hroles with
  | error e => rfl
  | ok hroles =>
      cases hgroups with
      | error e => rfl
      | ok hgroups =>
          cases hgrants with
          | error e => rfl
          | ok hgrants =>
              have hsort := sortItems_congr ((hroles.append hgroups).append hgrants)
              show Except.ok _ = Except.ok _
              rw [hsort]

/-- The report of the same state is the same. -/
theorem diffState_alike (toUpperCase : String → String) (desired : Artifacts)
    {actual actual' : ActualState} (h : SameState toUpperCase actual actual') :
    diffState toUpperCase desired actual = diffState toUpperCase desired actual' := by
  have hroles := @category_same _ _ _ _ (fun rs => .ok (diffKeycloakRoles desired.keycloak rs))
    h.roles fun _ _ hr => .ok (diffKeycloakRoles_perm desired.keycloak hr)
  have hgroups := @category_same _ _ _ _ (diffKeycloakGroups desired.keycloak) h.groups
    fun _ _ => diffKeycloakGroups_same desired.keycloak
  have hgrants := @category_same _ _ _ _ (fun ls => .ok (diffPgGrants toUpperCase desired.pgddl ls))
    h.grants fun _ _ hl => .ok (diffPgGrants_perm hl desired.pgddl)
  have hchecked : checkedOf actual = checkedOf actual' := by
    rw [checkedOf, checkedOf, isSome_of_rel h.roles, isSome_of_rel h.groups,
      isSome_of_rel h.grants]
  rw [diffState, diffState, hchecked]
  exact report_congr hroles hgroups hgrants

/-! ## Runs -/

/-- One grant, to one role. -/
def oneGrant : Artifacts where
  keycloak := ⟨[], []⟩
  rego := ""
  pgddl := "GRANT SELECT, INSERT ON TABLE public.orders TO analyst;"

def selectInsertLine : String := "GRANT SELECT, INSERT ON TABLE public.orders TO analyst;"

def selectLine : String := "GRANT SELECT ON TABLE public.orders TO analyst;"

def insertLine : String := "grant insert on public.orders to \"analyst\""

theorem splitInto_sample : SplitInto upperAscii selectInsertLine [selectLine, insertLine] := by
  have hboth : (parseGrantLine upperAscii selectInsertLine).map
      (fun g => (g.table, g.role, g.privileges)) =
        some ("public.orders", "analyst", ["SELECT", "INSERT"]) := by
    decide +kernel
  have hselect : (parseGrantLine upperAscii selectLine).map
      (fun g => (g.table, g.role, g.privileges)) =
        some ("public.orders", "analyst", ["SELECT"]) := by
    decide +kernel
  have hinsert : (parseGrantLine upperAscii insertLine).map
      (fun g => (g.table, g.role, g.privileges)) =
        some ("public.orders", "analyst", ["INSERT"]) := by
    decide +kernel
  obtain ⟨g, hg, heq⟩ := Option.map_eq_some_iff.mp hboth
  obtain ⟨g₁, hg₁, heq₁⟩ := Option.map_eq_some_iff.mp hselect
  obtain ⟨g₂, hg₂, heq₂⟩ := Option.map_eq_some_iff.mp hinsert
  simp only [Prod.mk.injEq] at heq heq₁ heq₂
  refine ⟨by simp, g, hg, ?_, ?_⟩
  · intro l hl
    rcases List.mem_pair.mp hl with rfl | rfl
    · exact ⟨g₁, hg₁, heq₁.1.trans heq.1.symm, heq₁.2.1.trans heq.2.1.symm⟩
    · exact ⟨g₂, hg₂, heq₂.1.trans heq.1.symm, heq₂.2.1.trans heq.2.1.symm⟩
  · intro p
    simp only [List.mem_cons, List.not_mem_nil, or_false, exists_eq_or_imp, exists_eq_left, hg₁,
      hg₂, Option.some.injEq, exists_eq_left', heq.2.2, heq₁.2.2, heq₂.2.2]

/-- The state with the line, and one with both parts and the roles in another order. -/
theorem diffState_alike_sample :
    diffState upperAscii oneGrant
        { keycloakRoles := some ["a", "b"], pgGrants := some [selectInsertLine] } =
      diffState upperAscii oneGrant
        { keycloakRoles := some ["b", "a"], pgGrants := some [insertLine, selectLine] } := by
  refine diffState_alike upperAscii oneGrant ⟨.some (.swap "b" "a" []), .none, .some ?_⟩
  exact .trans (.split [] selectInsertLine _ [] splitInto_sample) (.order (.swap _ _ []))

/-- A line that is not understood is reported as often as it comes. -/
theorem unparsed_twice :
    diffState upperAscii oneGrant { pgGrants := some ["GRANT USAGE ON SCHEMA public TO ghost;"] } ≠
      diffState upperAscii oneGrant
        { pgGrants := some ["GRANT USAGE ON SCHEMA public TO ghost;",
          "GRANT USAGE ON SCHEMA public TO ghost;"] } := by
  intro h
  have hcount := congrArg (fun r => r.toOption.map fun report => report.items.length) h
  revert hcount
  decide +kernel

end Policy
