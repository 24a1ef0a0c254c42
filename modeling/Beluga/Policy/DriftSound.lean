import Beluga.Policy.DriftFixpoint

/-! # What an empty report hides

A report without items is right exactly when no name in the actual state has a
character that the comparison loses: a comma in the role list of a group, and in
GRANT lines a quoted name that is not its own folding or has dots, quotes or slashes
(`silent_iff_true`). Another role or table can hide behind such a name
(`quoted_role_hides`).
-/

namespace Policy

open Text Js

/-! ## Facts -/

/-- `ALL` is every privilege of a table. -/
def expand (w : String) : List String := if w = "ALL" then TABLE_PRIVILEGES else [w]

/-- The parts of the table, the grantee, and a privilege or the option to grant it. -/
structure WrittenGrant.Says (g : WrittenGrant) (table : List String) (role privilege : String) :
    Prop where
  table : table = g.table.map Ident.name
  role : role = g.grantee.name
  privilege : (∃ w ∈ g.privileges, privilege ∈ expand w) ∨
    (g.grantOption = true ∧ privilege = "GRANT OPTION")

/-- What the statements of the script say of tables. -/
def DdlSays (d : Declaration) (table : List String) (role privilege : String) : Prop :=
  ∃ ps name i, .grantTable ps name i ∈ ddl d ∧ table = (resourceParts name).map fold ∧
    role = i.name ∧ ∃ p ∈ ps, privilege = p.sql

/-- The actual state is what was declared. -/
structure AsDeclared (d : Declaration) (roles : List String) (groups : GroupRecord)
    (lines : List String) : Prop where
  same_roles : ∀ name, name ∈ roles ↔ name ∈ d.roleNames
  same_groups : ∀ g ∈ d.groups, ∃ rs, (g.name, rs) ∈ groups.entries ∧ ∀ r, r ∈ rs ↔ r ∈ g.roles
  no_other_group : ∀ e ∈ groups.entries, e.1 ∈ d.groups.map (·.name)
  same_grants : ∃ grants, List.Forall₂ Written lines grants ∧ ∀ table role privilege,
    (∃ g ∈ grants, g.Says table role privilege) ↔ DdlSays d table role privilege

/-- Names that the comparison keeps. -/
structure PlainState (groups : GroupRecord) (lines : List String) : Prop where
  roles : ∀ e ∈ groups.entries, PlainRoles e.2
  grants : ∃ grants, List.Forall₂ Written lines grants ∧ ∀ g ∈ grants, g.Plain

/-! ## Declared facts -/

section Declared

variable {d : Declaration}

theorem resourceParts_join {names : List String} (hne : names ≠ [])
    (hdot : ∀ n ∈ names, '.' ∉ n.toList) : resourceParts (join "." names) = names := by
  rw [resourceParts, join, String.toList_intercalate, show (".": String).toList = ['.'] from rfl,
    List.splitOn_intercalate '.' (by simpa using hdot) (by simpa using hne)]
  simp

theorem ddlSays_iff {table : List String} {role privilege : String} :
    DdlSays d table role privilege ↔ ∃ r t p, TableDeclared d r t p ∧
      table = (resourceParts t).map fold ∧ role = toPgRole r ∧ privilege = p.sql := by
  constructor
  · rintro ⟨ps, name, i, hstmt, htable, hrole, p, hp, hpriv⟩
    cases mem_ddl.mp hstmt with
    | table hgrant =>
        exact ⟨_, _, p, ⟨_, _, hgrant, rfl, mem_sortPrivileges.mp hp⟩, htable,
          hrole.trans (pgRole_name _), hpriv⟩
  · rintro ⟨r, t, p, ⟨res, grant, hgrant, rfl, hp⟩, htable, hrole, hpriv⟩
    exact ⟨_, _, _, mem_ddl.mpr (.table hgrant), htable, hrole.trans (pgRole_name r).symm, p,
      mem_sortPrivileges.mpr hp, hpriv⟩

/-- What is declared of tables is in names that are their own folding. -/
theorem Sound.ddlSays_names (h : Sound d) {table : List String} {role privilege : String}
    (hmeans : DdlSays d table role privilege) :
    ∀ n ∈ role :: table, (∀ c ∈ n.toList, identRest c = true) ∧ fold n = n := by
  obtain ⟨r, t, p, hdecl, rfl, rfl, -⟩ := ddlSays_iff.mp hmeans
  intro n hn
  rcases List.mem_cons.mp hn with rfl | hn
  · exact ⟨(h.catalog_names hdecl).2.2, fold_toPgRole r⟩
  · obtain ⟨part, hpart, rfl⟩ := List.mem_map.mp hn
    obtain ⟨res, grant, hgrant, rfl, -⟩ := hdecl
    obtain ⟨schema, tb, -, hname, hschema, htb⟩ := (h.resources _ hgrant.declared).split
    rw [hname, resourceParts_dot (no_dot_of_identifier hschema) (no_dot_of_identifier htb)] at hpart
    have hid : IDENTIFIER.test part = true := by
      rcases List.mem_pair.mp hpart with rfl | rfl
      · exact hschema
      · exact htb
    refine ⟨?_, fold_fold part⟩
    rw [fold, String.toList_ofList]
    intro c hc
    obtain ⟨x, hx, rfl⟩ := List.mem_map.mp hc
    exact identRest_toLower ((solid_of_identifier hid).2 x hx)

end Declared

/-! ## Plain names -/

theorem identRest_of_toLower {c : Char} (h : identRest c.toLower = true) : identRest c = true := by
  by_cases hc : c.val ≥ 'A'.val ∧ c.val ≤ 'Z'.val
  · have hcapital : 'A' ≤ c ∧ c ≤ 'Z' := ⟨hc.1, hc.2⟩
    simp [identRest, identStart, hcapital]
  · rwa [show c.toLower = c from dif_neg hc] at h

/-- An identifier that means such a name is plain. -/
theorem Ident.plain_of_name {i : Ident} (hchars : ∀ c ∈ i.name.toList, identRest c = true)
    (hfold : fold i.name = i.name) : i.Plain := by
  cases i with
  | bare raw =>
      refine ⟨fun c hc => identRest_of_toLower (hchars c.toLower ?_), rfl⟩
      rw [Ident.name, fold, String.toList_ofList]
      exact List.mem_map_of_mem hc
  | quoted raw => exact ⟨hchars, hfold.symm⟩

theorem PrivilegeText.privileges {ws : List String} {cs : List Char} (h : PrivilegeText ws cs) :
    ws ≠ [] ∧ ∀ w ∈ ws, w ∈ "ALL" :: TABLE_PRIVILEGES := by
  induction h with
  | one w text hw htext => exact ⟨List.cons_ne_nil _ _, by simpa using hw⟩
  | cons w text b b' ws rest hw htext hb hb' hrest ih =>
      exact ⟨List.cons_ne_nil _ _, List.forall_mem_cons.mpr ⟨hw, ih.2⟩⟩

theorem expand_ne_nil (w : String) : expand w ≠ [] := by
  unfold expand
  split
  · exact List.cons_ne_nil _ _
  · exact List.cons_ne_nil _ _

/-- A grant says something of its own names. -/
theorem Written.exists_privilege {line : String} {g : WrittenGrant} (h : Written line g) :
    ∃ privilege, g.Says (g.table.map Ident.name) g.grantee.name privilege := by
  obtain ⟨p, hreads, -⟩ := h
  obtain ⟨w, hw⟩ := List.exists_mem_of_ne_nil _ hreads.privileges.privileges.1
  obtain ⟨privilege, hpriv⟩ := List.exists_mem_of_ne_nil _ (expand_ne_nil w)
  exact ⟨privilege, rfl, rfl, .inl ⟨w, hw, hpriv⟩⟩

/-- Where the grants say what is declared, their names are plain. -/
theorem Sound.plain_of_says {d : Declaration} (h : Sound d) {line : String} {g : WrittenGrant}
    (hwritten : Written line g)
    (hmeans : ∀ table role privilege, g.Says table role privilege → DdlSays d table role privilege) :
    g.Plain := by
  obtain ⟨privilege, hg⟩ := hwritten.exists_privilege
  have hnames := h.ddlSays_names (hmeans _ _ _ hg)
  intro i hi
  have hmem : i.name ∈ g.grantee.name :: g.table.map Ident.name := by
    rw [← List.map_cons]
    exact List.mem_map_of_mem hi
  exact Ident.plain_of_name (hnames _ hmem).1 (hnames _ hmem).2

/-! ## Keycloak -/

section Keycloak

variable {d : Declaration} {groups : GroupRecord}

/-- Where the groups have the declared roles, their names are plain. -/
theorem Sound.plain_of_groups (h : Sound d)
    (hgroups : ∀ g ∈ d.groups, ∃ rs, (g.name, rs) ∈ groups.entries ∧ ∀ r, r ∈ rs ↔ r ∈ g.roles)
    (honly : ∀ e ∈ groups.entries, e.1 ∈ d.groups.map (·.name)) :
    ∀ e ∈ groups.entries, PlainRoles e.2 := by
  rintro ⟨name, roles⟩ he
  obtain ⟨g, hg, hname⟩ := List.mem_map.mp (honly _ he)
  have hname' : g.name = name := hname
  obtain ⟨rs, hmem, hrs⟩ := hgroups g hg
  rw [hname'] at hmem
  have hlook := (lookup_eq_some groups.keys_nodup).mpr hmem
  rw [(lookup_eq_some groups.keys_nodup).mpr he] at hlook
  cases hlook
  exact plainRoles_of_declared h fun r hr => h.group_roles g hg r ((hrs r).mp hr)

end Keycloak

/-! ## PostgreSQL -/

section Lines

variable {d : Declaration} {toUpperCase : String → String}

/-- What the lines say of plain names, by the keys that are compared. -/
theorem written_facts (hup : AsciiUpper toUpperCase) {lines : List String}
    {grants : List WrittenGrant} (hwritten : List.Forall₂ Written lines grants)
    (hplain : ∀ g ∈ grants, g.Plain)
    (hparsed : ∀ line ∈ lines, (parseGrantLine toUpperCase line).isSome) {key w : String} :
    Facts (parsedGrants toUpperCase lines) key w ↔ ∃ g ∈ grants,
      key = join "." (g.table.map (·.raw)) ++ "/" ++ g.grantee.raw ∧
        (w ∈ g.privileges ∨ (g.grantOption = true ∧ w = "GRANT OPTION")) := by
  induction hwritten with
  | nil => simp [Facts, parsedGrants]
  | @cons line g lines grants hline hrest ih =>
      obtain ⟨hone, hmore⟩ := List.forall_mem_cons.mp hparsed
      obtain ⟨pg, hpg⟩ := Option.isSome_iff_exists.mp hone
      have hunderstood := hline.understood hup (hplain g List.mem_cons_self) hpg
      have hcons : parsedGrants toUpperCase (line :: lines) =
          pg :: parsedGrants toUpperCase lines := List.filterMap_cons_some hpg
      have hrec := ih (fun g hg => hplain g (List.mem_cons_of_mem _ hg)) hmore
      rw [hcons, facts_cons, hrec, hunderstood.privileges, ParsedGrant.key, hunderstood.table,
        hunderstood.role]
      simp only [List.mem_cons, exists_eq_or_imp, eq_comm (a := key)]

theorem Ident.Plain.no_slash {i : Ident} (h : i.Plain) : '/' ∉ i.raw.toList :=
  fun hmem => (identRest_ne (h.chars _ hmem)).2.2.2.2.1 rfl

theorem Ident.Plain.no_dot {i : Ident} (h : i.Plain) : '.' ∉ i.raw.toList :=
  fun hmem => (identRest_ne (h.chars _ hmem)).2.2.2.1 rfl

theorem Privilege.sql_ne (p : Privilege) : p.sql ≠ "ALL" ∧ p.sql ≠ "GRANT OPTION" := by
  cases p <;> decide

/-- The key of a plain grant is that of a declared table only if its names are the declared ones. -/
theorem Sound.says_of_key (h : Sound d) {g : WrittenGrant} (hplain : g.Plain) (hne : g.table ≠ [])
    {role table : String} {p : Privilege} (hdecl : TableDeclared d role table p)
    (hkey : join "." (g.table.map (·.raw)) ++ "/" ++ g.grantee.raw =
      table ++ "/" ++ toPgRole role) :
    g.table.map Ident.name = (resourceParts table).map fold ∧ g.grantee.name = toPgRole role := by
  have hslash : '/' ∉ (toPgRole role).toList := fun hmem =>
    (identRest_ne ((h.catalog_names hdecl).2.2 _ hmem)).2.2.2.2.1 rfl
  have hlist : (join "." (g.table.map (·.raw))).toList ++ '/' :: g.grantee.raw.toList =
      table.toList ++ '/' :: (toPgRole role).toList := by
    simpa using congrArg String.toList hkey
  obtain ⟨htable, hrole⟩ := append_cons_inj (hplain _ List.mem_cons_self).no_slash hslash hlist
  have htable' : join "." (g.table.map (·.raw)) = table := String.toList_inj.mp htable
  have hrole' : g.grantee.raw = toPgRole role := String.toList_inj.mp hrole
  have hparts : resourceParts table = g.table.map (·.raw) := by
    rw [← htable']
    refine resourceParts_join (by simpa using hne) ?_
    rw [List.forall_mem_map]
    exact fun i hi => (hplain i (List.mem_cons_of_mem _ hi)).no_dot
  refine ⟨?_, ?_⟩
  · rw [hparts, List.map_map]
    exact List.map_congr_left fun i hi => (hplain i (List.mem_cons_of_mem _ hi)).name
  · rw [(hplain _ List.mem_cons_self).name, hrole', fold_toPgRole]

theorem Written.table_ne {line : String} {g : WrittenGrant} (h : Written line g) : g.table ≠ [] := by
  obtain ⟨p, hreads, -⟩ := h
  exact hreads.table_ne

theorem forall₂_right {lines : List String} {grants : List WrittenGrant}
    (h : List.Forall₂ Written lines grants) {g : WrittenGrant} (hg : g ∈ grants) :
    ∃ line ∈ lines, Written line g := by
  induction h with
  | nil => cases hg
  | cons hline _ ih =>
      rcases List.mem_cons.mp hg with rfl | hg
      · exact ⟨_, List.mem_cons_self, hline⟩
      · obtain ⟨line, hmem, hw⟩ := ih hg
        exact ⟨line, List.mem_cons_of_mem _ hmem, hw⟩

/-- Lines of plain names that match say what is declared. -/
theorem Sound.says_iff (h : Sound d) (hup : AsciiUpper toUpperCase) {lines : List String}
    {grants : List WrittenGrant} (hwritten : List.Forall₂ Written lines grants)
    (hplain : ∀ g ∈ grants, g.Plain)
    (hmatch : GrantsMatch toUpperCase (Policy.splitLines (compilePgDdl d)) lines)
    {table : List String} {role privilege : String} :
    (∃ g ∈ grants, g.Says table role privilege) ↔ DdlSays d table role privilege := by
  have hfacts : ∀ {key w : String}, (∃ r t p, TableDeclared d r t p ∧
      key = t ++ "/" ++ toPgRole r ∧ w = p.sql) ↔ ∃ g ∈ grants,
        key = join "." (g.table.map (·.raw)) ++ "/" ++ g.grantee.raw ∧
          (w ∈ g.privileges ∨ (g.grantOption = true ∧ w = "GRANT OPTION")) := by
    intro key w
    rw [← h.desired_facts hup, hmatch.facts, written_facts hup hwritten hplain hmatch.parsed]
  rw [ddlSays_iff]
  constructor
  · rintro ⟨g, hg, hmeans⟩
    -- the word of the line that gives the privilege is a declared one
    have hword : ∃ w, (w ∈ g.privileges ∨ (g.grantOption = true ∧ w = "GRANT OPTION")) ∧
        (privilege ∈ expand w ∨ privilege = w) := by
      rcases hmeans.privilege with ⟨w, hw, hpriv⟩ | ⟨hopt, hpriv⟩
      · exact ⟨w, .inl hw, .inl hpriv⟩
      · exact ⟨privilege, .inr ⟨hopt, hpriv⟩, .inr rfl⟩
    obtain ⟨w, hw, hpriv⟩ := hword
    obtain ⟨r, t, p, hdecl, hkey, rfl⟩ := hfacts.mpr ⟨g, hg, rfl, hw⟩
    obtain ⟨line, -, hline⟩ := forall₂_right hwritten hg
    obtain ⟨htable, hrole⟩ := h.says_of_key (hplain g hg) hline.table_ne hdecl hkey
    refine ⟨r, t, p, hdecl, hmeans.table.trans htable, hmeans.role.trans hrole, ?_⟩
    rw [expand, if_neg p.sql_ne.1, List.mem_singleton, or_self] at hpriv
    exact hpriv
  · rintro ⟨r, t, p, hdecl, rfl, rfl, rfl⟩
    obtain ⟨g, hg, hkey, hw⟩ := hfacts.mp ⟨r, t, p, hdecl, rfl, rfl⟩
    obtain ⟨line, -, hline⟩ := forall₂_right hwritten hg
    obtain ⟨htable, hrole⟩ := h.says_of_key (hplain g hg) hline.table_ne hdecl hkey.symm
    refine ⟨g, hg, htable.symm, hrole.symm, .inl ⟨p.sql, ?_, ?_⟩⟩
    · exact hw.resolve_right fun hopt => p.sql_ne.2 hopt.2
    · rw [expand, if_neg p.sql_ne.1]
      exact List.mem_singleton_self _

end Lines

/-! ## Silence -/

/-- A report without items is right if and only if the names are such that the comparison keeps
them. -/
theorem silent_iff_true (toUpperCase : String → String) (hup : AsciiUpper toUpperCase)
    (d : Declaration) {artifacts : Artifacts} (hcompile : compileAll d = .ok artifacts)
    {roles lines : List String} {groups : GroupRecord}
    (hsilent : Silent toUpperCase artifacts roles groups lines) :
    AsDeclared d roles groups lines ↔ PlainState groups lines := by
  have hvalid : validateDeclaration d = [] := by
    by_contra hne
    have hpos := List.length_pos_iff.mpr hne
    rw [compileAll, if_pos hpos] at hcompile
    cases hcompile
  have h := (valid_of_validate hvalid).toSound
  obtain ⟨rego, hartifacts⟩ := h.compileAll hvalid
  rw [hcompile] at hartifacts
  cases hartifacts
  obtain ⟨hroles, hgroups, hgrants⟩ := silent_iff.mp hsilent
  constructor
  · intro hsame
    obtain ⟨grants, hwritten, hmeans⟩ := hsame.same_grants
    refine ⟨h.plain_of_groups hsame.same_groups hsame.no_other_group, grants, hwritten, ?_⟩
    intro g hg
    obtain ⟨line, -, hline⟩ := forall₂_right hwritten hg
    exact h.plain_of_says hline fun table role privilege hone =>
      (hmeans table role privilege).mp ⟨g, hg, hone⟩
  · intro hplain
    obtain ⟨grants, hwritten, hnames⟩ := hplain.grants
    obtain ⟨hall, honly⟩ := (groupsMatch_iff h hplain.roles).mp hgroups
    refine ⟨fun name => ?_, fun g hg => ?_, honly, grants, hwritten, fun table role privilege => ?_⟩
    · rw [← hroles, mem_realmRoles]
    · obtain ⟨rs, hmem, hperm⟩ := hall g hg
      exact ⟨rs, hmem, fun r => hperm.symm.mem_iff⟩
    · exact h.says_iff hup hwritten hnames hgrants

/-! ## Runs -/

/-- `app."events"` to `analysts`. -/
def eventsGrant : WrittenGrant where
  table := [.bare "app", .quoted "events"]
  grantee := .bare "analysts"
  privileges := ["SELECT"]
  grantOption := false

def eventsPieces : Pieces where
  toCut := spaced [.select] false (tableText eventsGrant.table) "analysts".toList true
  lead := []
  option := []
  finish := [';']
  trail := []

theorem events_written : Written eventsLine.text eventsGrant := by
  refine ⟨eventsPieces, ?_, by decide +kernel⟩
  have hnames : ∀ i ∈ eventsGrant.grantee :: eventsGrant.table, i.WellFormed := by
    intro i hi
    simp only [eventsGrant, List.mem_cons, List.not_mem_nil, or_false] at hi
    rcases hi with rfl | rfl | rfl
    · exact ⟨⟨'a', "nalysts".toList, rfl, by decide, by decide⟩, by decide⟩
    · exact ⟨⟨'a', "pp".toList, rfl, by decide, by decide⟩, by decide⟩
    · exact fun h => absurd h (by decide)
  exact
    { grant := rfl
      gap₁ := gap_space
      privileges := @privilegeText_reads [.select] (List.cons_ne_nil _ _)
      gap₂ := gap_space
      on := rfl
      gap₃ := gap_space
      keyword := .inl rfl
      table := rfl
      table_ne := List.cons_ne_nil _ _
      names := hnames
      gap₄ := gap_space
      to_ := rfl
      gap₅ := gap_space
      rest := rfl
      option := .inr ⟨rfl, rfl⟩
      finish := .inr ⟨[], by simp [Blank], rfl⟩
      lead := by simp [Blank, eventsPieces]
      trail := by simp [Blank, eventsPieces]
      sql := by decide +kernel }

theorem events_plain : eventsGrant.Plain := by
  intro i hi
  simp only [eventsGrant, List.mem_cons, List.not_mem_nil, or_false] at hi
  rcases hi with rfl | rfl | rfl
  · exact ⟨by decide, rfl⟩
  · exact ⟨by decide, rfl⟩
  · exact ⟨by decide, by decide⟩

/-- The empty report of the sample is right. -/
theorem silent_iff_true_sample :
    AsDeclared sample ["engineers", "analysts"] sampleGroups [eventsLine.text] := by
  have h := (valid_of_validate validate_sample).toSound
  obtain ⟨rego, hcompile⟩ := h.compileAll validate_sample
  have hsilent := (@Applied.silent_iff _ h _ asciiUpper_upperAscii _ _ _ sample_applied rego).mpr
    sample_stable
  refine (silent_iff_true upperAscii asciiUpper_upperAscii sample hcompile hsilent).mpr ⟨?_, ?_⟩
  · intro e he
    rw [List.mem_singleton.mp he]
    intro r hr
    rw [List.mem_singleton.mp hr]
    decide
  · refine ⟨[eventsGrant], .cons events_written .nil, fun g hg => ?_⟩
    rw [List.mem_singleton.mp hg]
    exact events_plain

/-- A role with a quote in its name, as it is written. -/
def quotedRole : List Char := "\"analysts\"\"\"".toList

/-- `GRANT SELECT ON TABLE app.events TO "analysts""";` -/
def hiddenLine : String :=
  String.ofList (spaced [.select] true "app.events".toList quotedRole true).text

theorem hidden_parse : ∃ m g, GRANT_LINE_RE.exec (trim hiddenLine.toList) = some m ∧
    m.rawRole = quotedRole ∧ parseGrantLine upperAscii hiddenLine = some g ∧
      g.key = "app.events" ++ "/" ++ toPgRole "analysts" ∧ ∀ w, w ∈ g.privileges ↔ w = "SELECT" := by
  have htable : Solid "app.events".toList := ⟨by simp, by decide⟩
  have hrole : Solid quotedRole := ⟨by decide +kernel, by decide +kernel⟩
  have hsemi : ';' ∉ quotedRole := by decide +kernel
  have htext : hiddenLine.toList =
      (spaced [.select] true "app.events".toList quotedRole true).text := String.toList_ofList
  obtain ⟨g, hparse, hg⟩ := spaced_some asciiUpper_upperAscii (List.cons_ne_nil _ _) htable hrole
    hsemi htext
  obtain ⟨m, hexec, -⟩ := parseGrantLine_eq_some hparse
  have hexec' := hexec
  rw [htext, spaced_trim htable hrole] at hexec'
  refine ⟨m, g, hexec, (spaced_exec htable hrole hsemi hexec').2.1, hparse, ?_, fun w => ?_⟩
  · rw [ParsedGrant.key, hg.table, hg.role]
    decide
  · rw [hg.privileges]
    simp [Privilege.sql]

/-- The grant to another role is not reported. -/
theorem quoted_role_hides : ∃ artifacts, compileAll sample = .ok artifacts ∧
    Silent upperAscii artifacts ["engineers", "analysts"] sampleGroups
      [hiddenLine, eventsLine.text] ∧
    ¬ AsDeclared sample ["engineers", "analysts"] sampleGroups [hiddenLine, eventsLine.text] := by
  have h := (valid_of_validate validate_sample).toSound
  obtain ⟨rego, hcompile⟩ := h.compileAll validate_sample
  obtain ⟨m, g, hexec, hrole, hparse, hkey, hpriv⟩ := hidden_parse
  refine ⟨_, hcompile, ?_, ?_⟩
  · obtain ⟨hroles, hgroups, hgrants⟩ := silent_iff.mp
      ((@Applied.silent_iff _ h _ asciiUpper_upperAscii _ _ _ sample_applied rego).mpr sample_stable)
    obtain ⟨-, hfacts, hkeys⟩ := sample_applied.facts h asciiUpper_upperAscii
    have hfact : Facts (parsedGrants upperAscii [eventsLine.text]) g.key "SELECT" := by
      refine (hfacts _ _).mpr ⟨"analysts", "app.events", .select, sample_declares, ?_, rfl⟩
      rw [hkey]
      decide
    refine silent_iff.mpr ⟨hroles, hgroups, hgrants.also hparse ?_ fun p hp => ?_⟩
    · exact (hkeys _).mpr ⟨_, hfact⟩
    · rw [(hpriv p).mp hp]
      exact hfact
  · intro hsame
    obtain ⟨grants, hwritten, hmeans⟩ := hsame.same_grants
    cases hwritten with
    | @cons _ hidden _ rest hline hrest =>
        have hplain := h.plain_of_says hline fun table role privilege hone =>
          (hmeans table role privilege).mp ⟨hidden, List.mem_cons_self, hone⟩
        -- but the text of a plain role has quotes around it only
        have hwritten := (hline.exec hplain hexec).2
        rw [hrole] at hwritten
        have hchars := (hplain hidden.grantee List.mem_cons_self).chars
        have hquote : '"' ∉ hidden.grantee.raw.toList := fun hmem =>
          absurd (hchars _ hmem) (by decide)
        rcases (hplain hidden.grantee List.mem_cons_self).written with heq | heq
        · rw [← heq, ← hwritten] at hquote
          exact hquote (by decide)
        · rw [heq] at hwritten
          have hinner : hidden.grantee.raw.toList = "analysts\"\"".toList := by
            have htail := (List.cons.inj hwritten).2
            exact ((List.append_inj' (show "analysts\"\"".toList ++ ['"'] =
              hidden.grantee.raw.toList ++ ['"'] from htail) rfl).1).symm
          rw [hinner] at hquote
          exact hquote (by decide)

end Policy
