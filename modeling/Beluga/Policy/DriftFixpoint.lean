import Beluga.Policy.DriftDesired

/-! # Apply, then diff

After the artifacts were applied exactly, the systems report each role once, each
group with its set of roles, and a line for each role and privilege on a table, by
the names of the catalog. Whether this has no drift (`fixpoint_iff`): names of
tables are compared as they are declared, and a role that a group names twice
counts twice.
-/

namespace Policy

open Text Js

/-! ## What the systems report -/

/-- A line of one privilege of one role. Names are those of the catalog, with or without quotes. -/
structure CatalogLine where
  schema : Ident
  table : Ident
  role : Ident
  privilege : Privilege
  keyword : Bool
  semicolon : Bool

def CatalogLine.text (l : CatalogLine) : String :=
  "GRANT " ++ l.privilege.sql ++ " ON " ++ (if l.keyword then "TABLE " else "") ++ l.schema.text ++
    "." ++ l.table.text ++ " TO " ++ l.role.text ++ (if l.semicolon then ";" else "")

/-- The table, the role and the privilege of a line. -/
def CatalogLine.fact (l : CatalogLine) : String × String × Privilege :=
  (l.schema.raw ++ "." ++ l.table.raw, l.role.raw, l.privilege)

/-- What the catalog has after the script. -/
def CatalogFact (d : Declaration) (fact : String × String × Privilege) : Prop :=
  ∃ role table, TableDeclared d role table fact.2.2 ∧ fact.1 = fold table ∧ fact.2.1 = toPgRole role

/-- What the systems report after the artifacts of a declaration were applied exactly. -/
structure Applied (d : Declaration) (roles : List String) (groups : GroupRecord)
    (lines : List String) : Prop where
  roles_once : roles.Nodup
  roles_declared : ∀ name, name ∈ roles ↔ name ∈ d.roleNames
  groups_declared : ∀ name, name ∈ groups.entries.map Prod.fst ↔ name ∈ d.groups.map (·.name)
  group_once : ∀ e ∈ groups.entries, e.2.Nodup
  group_roles : ∀ e ∈ groups.entries, ∀ r, r ∈ e.2 ↔ ∃ g ∈ d.groups, g.name = e.1 ∧ r ∈ g.roles
  lines_declared : ∃ catalog : List CatalogLine, lines = catalog.map CatalogLine.text ∧
    (catalog.map CatalogLine.fact).Nodup ∧ ∀ fact, fact ∈ catalog.map CatalogLine.fact ↔
      CatalogFact d fact

/-- Groups name each of their roles once, and granted tables have small letters. -/
structure DriftStable (d : Declaration) : Prop where
  groups_once : ∀ g ∈ d.groups, g.roles.Nodup
  groups_same : ∀ g ∈ d.groups, ∀ g' ∈ d.groups, g'.name = g.name → g'.roles ⊆ g.roles
  tables : ∀ role table p, TableDeclared d role table p → fold table = table

/-! ## Keycloak -/

section Keycloak

variable {d : Declaration}

theorem mem_realmRoles {name : String} :
    name ∈ (compileKeycloak d).realmRoles.map (·.name) ↔ name ∈ d.roleNames := by
  simp [compileKeycloak, keycloakRole, Declaration.roleNames]

theorem plainRoles_of_declared (h : Sound d) {roles : List String}
    (hroles : ∀ r ∈ roles, r ∈ d.roleNames) : PlainRoles roles := by
  intro r hr
  obtain ⟨hsolid, hchars⟩ := solid_of_name (h.role_names r (hroles r hr))
  refine ⟨?_, fun hmem => (nameRest_ne (hchars _ hmem)).2.2.2.2 rfl⟩
  rintro rfl
  exact hsolid.1 rfl

/-- The groups of the specification are those of the declaration. -/
theorem forall_keycloakGroups {P : KeycloakGroup → Prop} :
    (∀ g ∈ (compileKeycloak d).groups, P g) ↔ ∀ g ∈ d.groups, P (keycloakGroup g) := by
  simp [compileKeycloak]

theorem mem_keycloakGroupNames {name : String} :
    name ∈ (compileKeycloak d).groups.map (·.name) ↔ name ∈ d.groups.map (·.name) := by
  simp [compileKeycloak, keycloakGroup]

theorem roleText_sort (roles : List String) : roleText (sort roles) = roleText roles := by
  have hperm : (sort roles).Perm roles := sortOn_perm id roles
  rw [roleText, roleText, sort_congr hperm]

/-- Groups match by their role lists. -/
theorem groupsMatch_iff (h : Sound d) {actual : GroupRecord}
    (hplain : ∀ e ∈ actual.entries, PlainRoles e.2) :
    GroupsMatch (compileKeycloak d) actual ↔
      (∀ g ∈ d.groups, ∃ roles, (g.name, roles) ∈ actual.entries ∧ g.roles.Perm roles) ∧
        ∀ e ∈ actual.entries, e.1 ∈ d.groups.map (·.name) := by
  have htext : ∀ g ∈ d.groups, ∀ roles, (g.name, roles) ∈ actual.entries →
      (roleText (sort g.roles) = roleText roles ↔ g.roles.Perm roles) := by
    intro g hg roles hmem
    rw [roleText_sort]
    exact roleText_eq_iff (plainRoles_of_declared h (h.group_roles g hg)) (hplain _ hmem)
  have hdeclared : (∀ g ∈ (compileKeycloak d).groups, ∃ roles, (g.name, roles) ∈ actual.entries ∧
      roleText g.realmRoles = roleText roles) ↔
        ∀ g ∈ d.groups, ∃ roles, (g.name, roles) ∈ actual.entries ∧ g.roles.Perm roles := by
    rw [forall_keycloakGroups]
    refine forall₂_congr fun g hg => exists_congr fun roles => and_congr_right fun hmem => ?_
    exact htext g hg roles hmem
  constructor
  · intro hmatch
    exact ⟨hdeclared.mp hmatch.declared, fun e he => mem_keycloakGroupNames.mp (hmatch.only e he)⟩
  · rintro ⟨hall, honly⟩
    exact ⟨hdeclared.mpr hall, fun e he => mem_keycloakGroupNames.mpr (honly e he)⟩

theorem Applied.groupsMatch_iff (h : Sound d) {roles : List String} {groups : GroupRecord}
    {lines : List String} (happlied : Applied d roles groups lines) :
    GroupsMatch (compileKeycloak d) groups ↔ (∀ g ∈ d.groups, g.roles.Nodup) ∧
      ∀ g ∈ d.groups, ∀ g' ∈ d.groups, g'.name = g.name → g'.roles ⊆ g.roles := by
  have hplain : ∀ e ∈ groups.entries, PlainRoles e.2 := by
    intro e he
    refine plainRoles_of_declared h fun r hr => ?_
    obtain ⟨g, hg, -, hmem⟩ := (happlied.group_roles e he r).mp hr
    exact h.group_roles g hg r hmem
  rw [Policy.groupsMatch_iff h hplain]
  constructor
  · rintro ⟨hall, _⟩
    refine ⟨fun g hg => ?_, fun g hg g' hg' hname r hr => ?_⟩
    · obtain ⟨roles, hmem, hperm⟩ := hall g hg
      exact hperm.nodup_iff.mpr (happlied.group_once _ hmem)
    · obtain ⟨roles, hmem, hperm⟩ := hall g hg
      exact hperm.mem_iff.mpr ((happlied.group_roles _ hmem r).mpr ⟨g', hg', hname, hr⟩)
  · rintro ⟨honce, hsame⟩
    refine ⟨fun g hg => ?_, fun e he => ?_⟩
    · have hname := (happlied.groups_declared g.name).mpr (List.mem_map_of_mem hg)
      obtain ⟨⟨name, roles⟩, hmem, rfl⟩ := List.mem_map.mp hname
      refine ⟨roles, hmem, (List.perm_ext_iff_of_nodup (honce g hg) (happlied.group_once _ hmem)).mpr
        fun r => ?_⟩
      rw [happlied.group_roles _ hmem r]
      exact ⟨fun hr => ⟨g, hg, rfl, hr⟩, fun ⟨g', hg', hname', hr⟩ => hsame g hg g' hg' hname' hr⟩
    · exact (happlied.groups_declared e.1).mp (List.mem_map_of_mem he)

end Keycloak

/-! ## PostgreSQL -/

section Lines

variable {d : Declaration} {toUpperCase : String → String}

theorem CatalogLine.toList_text (l : CatalogLine) : l.text.toList =
    (spaced [l.privilege] l.keyword (l.schema.text ++ "." ++ l.table.text).toList
      l.role.text.toList l.semicolon).text := by
  cases hk : l.keyword <;> cases hs : l.semicolon <;>
    simp [text, hk, hs, spaced, Cut.text, Cut.head, Cut.middle, Cut.target, privilegeText]

theorem mem_identText {i : Ident} {c : Char} (hc : c ∈ i.text.toList) :
    c ∈ i.raw.toList ∨ c = '"' := by
  cases i with
  | bare raw => exact .inl hc
  | quoted raw =>
      simp only [Ident.text, String.toList_append, show ("\"" : String).toList = ['"'] from rfl,
        List.mem_append, List.mem_singleton] at hc
      rcases hc with (rfl | hc) | rfl
      · exact .inr rfl
      · exact .inl hc
      · exact .inr rfl

theorem filter_identText {i : Ident} (h : '"' ∉ i.raw.toList) :
    i.text.toList.filter (· ≠ '"') = i.raw.toList := by
  have hraw : i.raw.toList.filter (· ≠ '"') = i.raw.toList := by
    rw [List.filter_eq_self]
    intro c hc
    have hne : c ≠ '"' := fun heq => h (heq ▸ hc)
    simpa using hne
  cases i with
  | bare raw => exact hraw
  | quoted raw =>
      have hraw' : raw.toList.filter (· ≠ '"') = raw.toList := hraw
      simp only [Ident.text, Ident.raw, String.toList_append,
        show ("\"" : String).toList = ['"'] from rfl, List.filter_append, hraw']
      simp

theorem solid_identText {i : Ident} (h : Solid i.raw.toList) : Solid i.text.toList := by
  refine ⟨?_, fun c hc => ?_⟩
  · cases i with
    | bare raw => exact h.1
    | quoted raw => simp [Ident.text]
  · rcases mem_identText hc with hc | rfl
    · exact h.2 c hc
    · decide

/-- The names of a table as the catalog has them. -/
theorem Sound.catalog_names (h : Sound d) {role table : String} {p : Privilege}
    (hdecl : TableDeclared d role table p) :
    (∀ c ∈ (fold table).toList, identRest c = true ∨ c = '.') ∧
      Solid (toPgRole role).toList ∧ ∀ c ∈ (toPgRole role).toList, identRest c = true := by
  obtain ⟨res, grant, hgrant, rfl, -⟩ := hdecl
  have hrole := (((h.resources _ hgrant.declared).grants _ hgrant.granted).roles _ hgrant.listed).2
  refine ⟨?_, identRest_toPgRole hrole⟩
  rw [fold, String.toList_ofList]
  intro c hc
  obtain ⟨x, hx, rfl⟩ := List.mem_map.mp hc
  rcases (h.resources _ hgrant.declared).chars.2.2 x hx with hx | rfl
  · exact .inl (identRest_toLower hx)
  · exact .inr rfl

/-- A line of the catalog is understood. -/
theorem CatalogLine.parse (h : Sound d) (hup : AsciiUpper toUpperCase) {l : CatalogLine}
    (hfact : CatalogFact d l.fact) : ∃ g, parseGrantLine toUpperCase l.text = some g ∧
      g.table = l.fact.1 ∧ g.role = l.fact.2.1 ∧ ∀ w, w ∈ g.privileges ↔ w = l.privilege.sql := by
  obtain ⟨role, table, hdecl, htable, hrole⟩ := hfact
  obtain ⟨htableChars, hsolid, hroleChars⟩ := h.catalog_names hdecl
  rw [← hrole] at hsolid hroleChars
  rw [← htable] at htableChars
  have hparts : ∀ c ∈ l.schema.raw.toList ++ '.' :: l.table.raw.toList,
      identRest c = true ∨ c = '.' := by
    intro c hc
    refine htableChars c ?_
    simpa [fact] using hc
  have hquote : '"' ∉ l.schema.raw.toList ++ '.' :: l.table.raw.toList := fun hmem =>
    (hparts _ hmem).elim (fun hc => (identRest_ne hc).2.2.1 rfl) fun hc => absurd hc (by decide)
  rw [List.mem_append, List.mem_cons, not_or, not_or] at hquote
  have hroleQuote : '"' ∉ l.role.raw.toList := fun hmem =>
    (identRest_ne (hroleChars _ hmem)).2.2.1 rfl
  have hsemi : ';' ∉ l.role.text.toList := by
    intro hmem
    rcases mem_identText hmem with hc | hc
    · exact (identRest_ne (hroleChars _ hc)).2.1 rfl
    · exact absurd hc (by decide)
  have htext : (l.schema.text ++ "." ++ l.table.text).toList =
      l.schema.text.toList ++ '.' :: l.table.text.toList := by simp
  have hword : Solid (l.schema.text ++ "." ++ l.table.text).toList := by
    rw [htext]
    refine ⟨by simp, fun c hc => ?_⟩
    have hcases : c ∈ l.schema.raw.toList ++ '.' :: l.table.raw.toList ∨ c = '"' := by
      rw [List.mem_append, List.mem_cons] at hc ⊢
      rcases hc with hc | rfl | hc
      · exact (mem_identText hc).imp .inl id
      · exact .inl (.inr (.inl rfl))
      · exact (mem_identText hc).imp (fun hc => .inr (.inr hc)) id
    rcases hcases with hc | rfl
    · rcases hparts c hc with hc | rfl
      · exact (identRest_ne hc).1
      · decide
    · decide
  obtain ⟨g, hparse, hg⟩ := spaced_some hup (List.cons_ne_nil l.privilege []) hword
    (solid_identText hsolid) hsemi l.toList_text
  refine ⟨g, hparse, ?_, ?_, fun w => ?_⟩
  · rw [hg.table, htext, stripQuotes, List.filter_append, List.filter_cons,
      filter_identText hquote.1, filter_identText hquote.2.2, ← String.toList_inj]
    simp [fact]
  · rw [hg.role, stripQuotes, filter_identText hroleQuote, String.ofList_toList]
    rfl
  · rw [hg.privileges]
    simp

/-- What the lines of the catalog say. -/
theorem Applied.facts (h : Sound d) (hup : AsciiUpper toUpperCase) {roles lines : List String}
    {groups : GroupRecord} (happlied : Applied d roles groups lines) :
    (∀ line ∈ lines, (parseGrantLine toUpperCase line).isSome) ∧
      (∀ key w, Facts (parsedGrants toUpperCase lines) key w ↔ ∃ role table p,
        TableDeclared d role table p ∧ key = fold table ++ "/" ++ toPgRole role ∧ w = p.sql) ∧
      ∀ key, key ∈ keysOf (parsedGrants toUpperCase lines) ↔
        ∃ w, Facts (parsedGrants toUpperCase lines) key w := by
  obtain ⟨catalog, rfl, -, hfacts⟩ := happlied.lines_declared
  have hline : ∀ l ∈ catalog, CatalogFact d l.fact := fun l hl =>
    (hfacts _).mp (List.mem_map_of_mem hl)
  refine ⟨?_, fun key w => ?_, fun key => ?_⟩
  · intro line hmem
    obtain ⟨l, hl, rfl⟩ := List.mem_map.mp hmem
    obtain ⟨g, hparse, -⟩ := CatalogLine.parse h hup (hline l hl)
    rw [hparse]
    rfl
  · constructor
    · rintro ⟨g, hg, hkey, hw⟩
      obtain ⟨line, hmem, hparse⟩ := mem_parsedGrants.mp hg
      obtain ⟨l, hl, rfl⟩ := List.mem_map.mp hmem
      obtain ⟨g', hparse', htable, hrole, hprivileges⟩ := CatalogLine.parse h hup (hline l hl)
      rw [hparse] at hparse'
      cases hparse'
      obtain ⟨role, table, hdecl, htable', hrole'⟩ := hline l hl
      refine ⟨role, table, l.privilege, hdecl, ?_, (hprivileges w).mp hw⟩
      rw [← hkey, ParsedGrant.key, htable, hrole, htable', hrole']
    · rintro ⟨role, table, p, hdecl, rfl, rfl⟩
      have hmem := (hfacts (fold table, toPgRole role, p)).mpr ⟨role, table, hdecl, rfl, rfl⟩
      obtain ⟨l, hl, heq⟩ := List.mem_map.mp hmem
      obtain ⟨g, hparse, htable, hrole, hprivileges⟩ := CatalogLine.parse h hup (hline l hl)
      have hp : l.privilege = p := congrArg (fun fact => fact.2.2) heq
      refine ⟨g, mem_parsedGrants.mpr ⟨l.text, List.mem_map_of_mem hl, hparse⟩, ?_, ?_⟩
      · rw [ParsedGrant.key, htable, hrole, heq]
      · rw [hprivileges, hp]
  · constructor
    · intro hkey
      obtain ⟨g, hg, rfl⟩ := List.mem_map.mp hkey
      obtain ⟨line, hmem, hparse⟩ := mem_parsedGrants.mp hg
      obtain ⟨l, hl, rfl⟩ := List.mem_map.mp hmem
      obtain ⟨g', hparse', -, -, hprivileges⟩ := CatalogLine.parse h hup (hline l hl)
      rw [hparse] at hparse'
      cases hparse'
      exact ⟨l.privilege.sql, g, hg, rfl, (hprivileges _).mpr rfl⟩
    · rintro ⟨w, g, hg, hkey, _⟩
      exact List.mem_map.mpr ⟨g, hg, hkey⟩

/-- Keys are read back at their slash. -/
theorem Sound.key_inj (h : Sound d) {table table' role role' : String}
    (hrole : ∃ t p, TableDeclared d role t p) (hrole' : ∃ t p, TableDeclared d role' t p)
    (heq : table ++ "/" ++ toPgRole role = table' ++ "/" ++ toPgRole role') :
    table = table' ∧ toPgRole role = toPgRole role' := by
  have hslash : ∀ {r : String}, (∃ t p, TableDeclared d r t p) → '/' ∉ (toPgRole r).toList := by
    intro r ⟨t, p, hdecl⟩ hmem
    exact (identRest_ne ((h.catalog_names hdecl).2.2 _ hmem)).2.2.2.2.1 rfl
  have hlist : table.toList ++ '/' :: (toPgRole role).toList =
      table'.toList ++ '/' :: (toPgRole role').toList := by
    simpa using congrArg String.toList heq
  obtain ⟨htable, hpg⟩ := append_cons_inj (hslash hrole) (hslash hrole') hlist
  exact ⟨String.toList_inj.mp htable, String.toList_inj.mp hpg⟩

theorem Applied.grantsMatch_iff (h : Sound d) (hup : AsciiUpper toUpperCase)
    {roles lines : List String} {groups : GroupRecord} (happlied : Applied d roles groups lines) :
    GrantsMatch toUpperCase (Policy.splitLines (compilePgDdl d)) lines ↔
      ∀ role table p, TableDeclared d role table p → fold table = table := by
  obtain ⟨hparsed, hfacts, hkeys⟩ := happlied.facts h hup
  constructor
  · intro hmatch role table p hdecl
    have hdesired := (h.desired_facts hup).mpr ⟨role, table, p, hdecl, rfl, rfl⟩
    obtain ⟨role', table', p', hdecl', hkey, -⟩ := (hfacts _ _).mp ((hmatch.facts _ _).mp hdesired)
    obtain ⟨rfl, -⟩ := h.key_inj ⟨_, _, hdecl⟩ ⟨_, _, hdecl'⟩ hkey
    exact fold_fold table'
  · intro hfold
    have hsame : ∀ key w, Facts (parsedGrants toUpperCase (Policy.splitLines (compilePgDdl d))) key w ↔
        Facts (parsedGrants toUpperCase lines) key w := by
      intro key w
      rw [h.desired_facts hup, hfacts]
      refine exists₃_congr fun role table p => and_congr_right fun hdecl => ?_
      rw [hfold role table p hdecl]
    refine ⟨hparsed, fun key => ?_, hsame⟩
    rw [h.desired_keys hup, hkeys]
    exact exists_congr fun w => hsame key w

end Lines

/-! ## No drift -/

/-- The artifacts exist. -/
theorem Sound.compileAll {d : Declaration} (h : Sound d) (hvalid : validateDeclaration d = []) :
    ∃ rego, Policy.compileAll d = .ok
      { keycloak := compileKeycloak d, rego, pgddl := compilePgDdl d } := by
  obtain ⟨rules, hrules⟩ := h.regoRules
  refine ⟨join "\n" (regoHeader ++ rules.flatMap Rule.lines), ?_⟩
  rw [Policy.compileAll, hvalid, compileRego, hrules]
  rfl

theorem Applied.silent_iff {d : Declaration} (h : Sound d) {toUpperCase : String → String}
    (hup : AsciiUpper toUpperCase) {roles lines : List String} {groups : GroupRecord}
    (happlied : Applied d roles groups lines) {rego : String} :
    Silent toUpperCase { keycloak := compileKeycloak d, rego, pgddl := compilePgDdl d } roles groups
      lines ↔ DriftStable d := by
  rw [Policy.silent_iff, happlied.groupsMatch_iff h, happlied.grantsMatch_iff h hup]
  constructor
  · rintro ⟨_, ⟨honce, hsame⟩, htables⟩
    exact ⟨honce, hsame, htables⟩
  · intro hstable
    refine ⟨fun name => ?_, ⟨hstable.groups_once, hstable.groups_same⟩, hstable.tables⟩
    rw [mem_realmRoles, happlied.roles_declared]

/-- What was applied exactly has no drift if and only if the declaration is stable. -/
theorem fixpoint_iff (toUpperCase : String → String) (hup : AsciiUpper toUpperCase)
    (d : Declaration) (hvalid : validateDeclaration d = []) {roles lines : List String}
    {groups : GroupRecord} (happlied : Applied d roles groups lines) :
    ∃ artifacts, compileAll d = .ok artifacts ∧
      (Silent toUpperCase artifacts roles groups lines ↔ DriftStable d) := by
  have h := (valid_of_validate hvalid).toSound
  obtain ⟨rego, hcompile⟩ := h.compileAll hvalid
  exact ⟨_, hcompile, happlied.silent_iff h hup⟩

/-! ## Runs -/

theorem asciiUpper_upperAscii : AsciiUpper upperAscii := fun _ _ => rfl

/-- The grants of the only PG resource of a declaration. -/
theorem tableDeclared_of_single {d : Declaration} {res : Resource}
    (hres : ∀ r ∈ d.resources, r.engine = some .postgres → r = res) {role table : String}
    {p : Privilege} (h : TableDeclared d role table p) :
    table = res.resource ∧ ∃ grant ∈ res.grants, role ∈ grant.roles ∧ p ∈ grant.privileges := by
  obtain ⟨r, grant, hgrant, rfl, hp⟩ := h
  obtain rfl := hres r hgrant.declared hgrant.postgres
  exact ⟨rfl, grant, hgrant.granted, hgrant.listed, hp⟩

def sampleGroups : GroupRecord := ⟨[("bi", ["engineers"])], List.nodup_singleton _⟩

/-- `GRANT SELECT ON app."events" TO analysts;` -/
def eventsLine : CatalogLine :=
  ⟨.bare "app", .quoted "events", .bare "analysts", .select, false, true⟩

theorem sample_declared {role table : String} {p : Privilege}
    (h : TableDeclared sample role table p) :
    table = "app.events" ∧ role = "analysts" ∧ p = .select := by
  obtain ⟨htable, grant, hgrant, hrole, hp⟩ := @tableDeclared_of_single
    sample sample.resources[2] (by decide +kernel) _ _ _ h
  have hone : grant = { roles := ["analysts"], privileges := [.select] } :=
    List.mem_singleton.mp hgrant
  rw [hone] at hrole hp
  exact ⟨htable, List.mem_singleton.mp hrole, List.mem_singleton.mp hp⟩

theorem sample_declares : TableDeclared sample "analysts" "app.events" .select :=
  ⟨sample.resources[2], sample.resources[2].grants[0], ⟨by decide +kernel, rfl,
    List.mem_singleton_self _, List.mem_singleton_self _⟩, rfl, List.mem_singleton_self _⟩

theorem sample_applied :
    Applied sample ["engineers", "analysts"] sampleGroups [eventsLine.text] where
  roles_once := by decide
  roles_declared name := by
    show name ∈ ["engineers", "analysts"] ↔ name ∈ ["analysts", "engineers"]
    rw [List.mem_pair, List.mem_pair, or_comm]
  groups_declared _ := Iff.rfl
  group_once := by decide
  group_roles e he r := by
    rw [List.mem_singleton.mp he]
    simp [sample]
  lines_declared := by
    refine ⟨[eventsLine], rfl, List.nodup_singleton _, fun fact => ?_⟩
    constructor
    · intro h
      rw [List.mem_singleton.mp h]
      exact ⟨"analysts", "app.events", sample_declares, rfl, rfl⟩
    · rintro ⟨role, table, hdecl, htable, hrole⟩
      obtain ⟨rfl, rfl, hp⟩ := sample_declared hdecl
      refine List.mem_singleton.mpr (Prod.ext htable (Prod.ext hrole hp))

theorem sample_stable : DriftStable sample where
  groups_once := by decide
  groups_same g hg g' hg' _ := by
    rw [List.mem_singleton.mp hg, List.mem_singleton.mp hg']
    exact List.Subset.refl _
  tables role table p h := by
    rw [(sample_declared h).1]
    decide

/-- The sample has no drift once it is applied. -/
theorem fixpoint_sample : ∃ artifacts, compileAll sample = .ok artifacts ∧
    Silent upperAscii artifacts ["engineers", "analysts"] sampleGroups [eventsLine.text] := by
  obtain ⟨artifacts, hcompile, hiff⟩ :=
    fixpoint_iff upperAscii asciiUpper_upperAscii sample validate_sample sample_applied
  exact ⟨artifacts, hcompile, hiff.mpr sample_stable⟩

/-- A table with capitals. -/
def upperTable : Declaration where
  roles := [{ name := "analyst" }]
  groups := []
  resources :=
    [{ resource := "Sales.Orders", classification := .internal, engine := some .postgres,
       grants := [{ roles := ["analyst"], privileges := [.select] }] }]

def noGroups : GroupRecord := ⟨[], .nil⟩

/-- `GRANT SELECT ON TABLE sales.orders TO analyst` -/
def ordersLine : CatalogLine :=
  ⟨.bare "sales", .bare "orders", .bare "analyst", .select, true, false⟩

theorem upperTable_declares : TableDeclared upperTable "analyst" "Sales.Orders" .select :=
  ⟨upperTable.resources[0], upperTable.resources[0].grants[0], ⟨List.mem_singleton_self _, rfl,
    List.mem_singleton_self _, List.mem_singleton_self _⟩, rfl, List.mem_singleton_self _⟩

/-- PostgreSQL has the table in small letters, so the grant is reported as missing and as one
of somebody else. -/
theorem upper_table_drifts : validateDeclaration upperTable = [] ∧
    Applied upperTable ["analyst"] noGroups [ordersLine.text] ∧
    ∃ artifacts, compileAll upperTable = .ok artifacts ∧
      ¬ Silent upperAscii artifacts ["analyst"] noGroups [ordersLine.text] := by
  have hvalid : validateDeclaration upperTable = [] := by decide +kernel
  have h := (valid_of_validate hvalid).toSound
  have happlied : Applied upperTable ["analyst"] noGroups [ordersLine.text] := by
    refine ⟨List.nodup_singleton _, fun _ => Iff.rfl, fun _ => Iff.rfl, ?_, ?_, ?_⟩
    · exact fun e he => absurd he List.not_mem_nil
    · exact fun e he => absurd he List.not_mem_nil
    · refine ⟨[ordersLine], rfl, List.nodup_singleton _, fun fact => ?_⟩
      constructor
      · intro hmem
        rw [List.mem_singleton.mp hmem]
        exact ⟨"analyst", "Sales.Orders", upperTable_declares, by decide, by decide⟩
      · rintro ⟨role, table, hdecl, htable, hrole⟩
        obtain ⟨rfl, grant, hgrant, hlisted, hp⟩ := @tableDeclared_of_single
          upperTable upperTable.resources[0] (fun r hr _ => List.mem_singleton.mp hr) _ _ _ hdecl
        have hone : grant = { roles := ["analyst"], privileges := [.select] } :=
          List.mem_singleton.mp hgrant
        rw [hone] at hlisted hp
        obtain rfl := List.mem_singleton.mp hlisted
        exact List.mem_singleton.mpr (Prod.ext (htable.trans (by decide))
          (Prod.ext (hrole.trans (by decide)) (List.mem_singleton.mp hp)))
  obtain ⟨rego, hcompile⟩ := h.compileAll hvalid
  refine ⟨hvalid, happlied, _, hcompile, fun hsilent => ?_⟩
  have hmatch := (silent_iff.mp hsilent).2.2
  have hfold := (happlied.grantsMatch_iff h asciiUpper_upperAscii).mp hmatch _ _ _
    upperTable_declares
  exact absurd hfold (by decide)

end Policy
