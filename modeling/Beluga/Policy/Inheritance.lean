import Beluga.Policy.Allow
import Beluga.Policy.Keycloak
import Beluga.Policy.PgRules

/-! # One inheritance

Role inheritance is computed four times: for tokens, for the holders of a grant,
as composites in Keycloak and as memberships in PostgreSQL.

* `inheritance_agrees`: all four are the same relation on the declared roles, and
  one grant list gives `select` to the same roles in both engines;
* `browse_grant_diverges`: but for the schema that every catalog lets its holders
  browse.
-/

namespace Policy

open Graph

variable {d : Declaration}

/-! ## Keycloak -/

theorem Sound.mem_compositesOf (h : Sound d) {r s : String} :
    s ∈ (compileKeycloak d).compositesOf r ↔ s ∈ includesOf d r := by
  simp only [h.includes_iff, KeycloakSpec.compositesOf, compileKeycloak, List.mem_flatMap,
    List.mem_filter, Js.mem_sortOn, List.mem_map, decide_eq_true_eq]
  constructor
  · rintro ⟨_, ⟨⟨role, hrole, rfl⟩, hname⟩, hs⟩
    exact ⟨role, hrole, hname, by simpa [keycloakRole] using hs⟩
  · rintro ⟨role, hrole, hname, hs⟩
    exact ⟨keycloakRole role, ⟨⟨role, hrole, rfl⟩, hname⟩, by simpa [keycloakRole] using hs⟩

theorem Sound.reach_composites (h : Sound d) {r s : String} :
    Reach (compileKeycloak d).compositesOf r s ↔ Inherits d r s := by
  have hedge : Edge (compileKeycloak d).compositesOf = Edge (includesOf d) := by
    funext x y
    exact propext h.mem_compositesOf
  rw [Inherits, Reach, hedge]

/-! ## Select in both engines -/

/-- The PG role of `r` reaches a role that the script grants `SELECT` on the
resource, names as the script spells them. -/
def SelectsInPg (d : Declaration) (res : Resource) (r : String) : Prop :=
  ∃ privileges role, .grantTable privileges res.resource role ∈ ddl d ∧ .select ∈ privileges ∧
    Reach (ddlEdges d) (toPgRole r) role.name

theorem mem_sortPrivileges {p : Privilege} {privileges : List Privilege} :
    p ∈ sortPrivileges privileges ↔ p ∈ privileges := List.mem_mergeSort

/-- A PG resource is the only one of its name. -/
theorem Sound.pgGrant_unique (h : Sound d) {res res' : Resource} {grant : Grant} {role : String}
    (hgrant : PgGrant d res' grant role) (hres : res ∈ d.resources)
    (hengine : res.engine = some .postgres) (hname : res'.resource = res.resource) : res' = res := by
  refine List.inj_on_of_nodup_map h.resource_keys hgrant.declared hres ?_
  simp only [resourceKey, Resource.engineOrTrino, hgrant.postgres, hengine, hname]

theorem Sound.selectsInPg_iff (h : Sound d) {res : Resource} (hres : res ∈ d.resources)
    (hengine : res.engine = some .postgres) {r : String} (hr : r ∈ d.roleNames) :
    SelectsInPg d res r ↔ ∃ grant ∈ res.grants, .select ∈ grant.privileges ∧
      ∃ role ∈ grant.roles, Inherits d r role := by
  constructor
  · rintro ⟨privileges, role, hmem, hselect, hreach⟩
    generalize hstmt : Stmt.grantTable privileges res.resource role = s at hmem
    cases mem_ddl.mp hmem with
    | @table res' grant role' hgrant =>
        rw [Stmt.grantTable.injEq] at hstmt
        obtain ⟨rfl, hname, rfl⟩ := hstmt
        have hsame := h.pgGrant_unique hgrant hres hengine hname.symm
        subst hsame
        rw [pgRole_name] at hreach
        obtain ⟨s, hinherits, heq⟩ := (h.reach_role hr).mp hreach
        have hrole' := h.toPgRole_inj (h.granted_declared hgrant)
          (h.inherits_declared hr hinherits) heq
        exact ⟨grant, hgrant.granted, mem_sortPrivileges.mp hselect, role', hgrant.listed,
          hrole' ▸ hinherits⟩
    | _ => cases hstmt
  · rintro ⟨grant, hgrant, hselect, role, hrole, hinherits⟩
    refine ⟨_, _, mem_ddl.mpr (.table ⟨hres, hengine, hgrant, hrole⟩),
      mem_sortPrivileges.mpr hselect, ?_⟩
    rw [pgRole_name]
    exact (h.reach_role hr).mpr ⟨role, hinherits, rfl⟩

/-- Outside of the schema that catalog grants open, `select` comes from the grants
of the resource alone. -/
theorem Sound.permitted_select (h : Sound d) {res : Resource} (hres : res ∈ d.resources)
    (hengine : res.engineOrTrino = .trino) {schema table : String}
    (hname : res.resource = schema ++ "." ++ table) (hschema : schema ≠ "information_schema")
    {token : List String} :
    Permitted d ⟨"SelectFromColumns", .table DEPLOYED_CATALOG schema table, token⟩ ↔
      ∃ grant ∈ res.grants, .select ∈ grant.privileges ∧ ∃ role ∈ grant.roles, role ∈ token := by
  constructor
  · rintro (⟨res', hres', hengine', s, t, hname', htable, grant, hgrant, hhas, p, hp, hop⟩ |
      ⟨cg, -, ⟨-, op, -, htext, -⟩ | ⟨-, -, t, htable⟩ | ⟨-, -, hbrowse⟩⟩)
    · simp only [TrinoResource.table.injEq, true_and] at htable
      obtain ⟨rfl, rfl⟩ := htable
      have hsame : res' = res := List.inj_on_of_nodup_map h.resource_keys hres' hres (by
        rw [resourceKey, resourceKey, hengine, hengine', hname, hname'])
      subst hsame
      have hselect : .select = p := operationOf_inj hop
      exact ⟨grant, hgrant, hselect ▸ hp, hhas⟩
    · change "SelectFromColumns" = op.text at htext
      cases op <;> exact absurd htext (by decide)
    · simp only [TrinoResource.table.injEq] at htable
      exact absurd htable.2.1 hschema
    · exact absurd hbrowse.of_table.1 (by decide)
  · rintro ⟨grant, hgrant, hselect, hhas⟩
    exact .inl ⟨res, hres, hengine, schema, table, hname, rfl, grant, hgrant, hhas, .select,
      hselect, rfl⟩

/-- Tokens, holders, composites and memberships compute one relation; and where a
Trino table and a PG table have the same grants, the same roles may select. -/
theorem inheritance_agrees (d : Declaration) (hvalid : validateDeclaration d = []) :
    (∀ r ∈ d.roleNames, ∀ s ∈ d.roleNames, (toPgRole r = toPgRole s → r = s) ∧
      (r ∈ holdersOf d s ↔ s ∈ expandRoles d r) ∧
      (Reach (compileKeycloak d).compositesOf r s ↔ s ∈ expandRoles d r) ∧
      (Reach (ddlEdges d) (toPgRole r) (toPgRole s) ↔ s ∈ expandRoles d r)) ∧
    ∃ rules, regoRules d = .ok rules ∧
      ∀ res ∈ d.resources, res.engineOrTrino = .trino → ∀ schema table,
        res.resource = schema ++ "." ++ table → schema ≠ "information_schema" →
        ∀ pg ∈ d.resources, pg.engine = some .postgres → pg.grants = res.grants →
        ∀ r ∈ d.roleNames, ∀ token : List String,
          (∀ s, s ∈ token ↔ Reach (compileKeycloak d).compositesOf r s) →
          (Allows rules ⟨"SelectFromColumns", .table DEPLOYED_CATALOG schema table, token⟩ ↔
            SelectsInPg d pg r) := by
  have h := (valid_of_validate hvalid).toSound
  obtain ⟨rules, hrules⟩ := h.regoRules
  refine ⟨fun r hr s hs => ⟨h.toPgRole_inj hr hs, ?_, ?_, ?_⟩, rules, hrules, ?_⟩
  · rw [mem_holdersOf, mem_expandRoles]
    exact ⟨And.right, fun hinherits => ⟨hr, hinherits⟩⟩
  · rw [h.reach_composites, mem_expandRoles]
  · rw [h.reach_role hr, mem_expandRoles]
    constructor
    · rintro ⟨t, hinherits, heq⟩
      rwa [h.toPgRole_inj hs (h.inherits_declared hr hinherits) heq]
    · exact fun hinherits => ⟨s, hinherits, rfl⟩
  · intro res hres hengine schema table hname hschema pg hpg hpostgres hgrants r hr token htoken
    have hinherits : ∀ s, s ∈ token ↔ Inherits d r s := fun s => by
      rw [htoken, h.reach_composites]
    have hclosed : Closed d token := fun g hg role hrole =>
      (hinherits role).mpr (((hinherits g).mp hg).trans (mem_expandRoles.mp hrole))
    rw [allows_iff_permitted h hrules hclosed, h.permitted_select hres hengine hname hschema,
      h.selectsInPg_iff hpg hpostgres hr, hgrants]
    simp only [hinherits]

/-- Engineers select the events in both engines, through what they include. -/
theorem inheritance_agrees_sample :
    SelectsInPg sample sample.resources[2] "engineers" ∧
      Reach (ddlEdges sample) "engineers" "analysts" := by
  obtain ⟨hall, rules, hrules, h⟩ := inheritance_agrees sample validate_sample
  have hsound := (valid_of_validate validate_sample).toSound
  have htoken : ∀ s, s ∈ ["analysts", "engineers"] ↔
      Reach (compileKeycloak sample).compositesOf "engineers" s := by
    intro s
    rw [hsound.reach_composites, ← mem_expandRoles]
    exact Iff.of_eq (congrArg (s ∈ ·) (by decide +kernel))
  have hpermitted : Allows rules ⟨"SelectFromColumns",
      .table "iceberg" "lake" "events_enriched", ["analysts", "engineers"]⟩ :=
    (allows_iff_permitted hsound hrules (by decide +kernel)).mpr ((hsound.permitted_select
      List.mem_cons_self rfl rfl (by decide)).mpr (by decide +kernel))
  refine ⟨(h sample.resources[0] List.mem_cons_self rfl "lake" "events_enriched" rfl (by decide)
    sample.resources[2] (List.getElem_mem _) rfl rfl "engineers" (by decide) _ htoken).mp
      hpermitted, ?_⟩
  exact (hall "engineers" (by decide) "analysts" (by decide)).2.2.2.mpr (by decide +kernel)

/-- A table of `information_schema` declared for both engines, and a catalog grant. -/
def browsed : Declaration where
  roles := [{ name := "analysts" }, { name := "interns" }]
  groups := []
  resources :=
    [{ resource := "information_schema.tables", classification := .internal,
       grants := [{ roles := ["analysts"], privileges := [.select] }] },
     { resource := "information_schema.tables", classification := .internal,
       engine := some .postgres,
       grants := [{ roles := ["analysts"], privileges := [.select] }] }]
  catalogGrants := some
    [{ catalog := "iceberg", roles := ["interns"], operations := [.ExecuteQuery] }]

/-- Interns may select from the Trino table, by their catalog grant, and not from the
PG table with the same grants. -/
theorem browse_grant_diverges : validateDeclaration browsed = [] ∧
    browsed.resources[0].engineOrTrino = .trino ∧ browsed.resources[1].engine = some .postgres ∧
    browsed.resources[1].grants = browsed.resources[0].grants ∧
    "interns" ∈ browsed.roleNames ∧
    (∀ s, s ∈ ["interns"] ↔ Reach (compileKeycloak browsed).compositesOf "interns" s) ∧
    (∃ rules, regoRules browsed = .ok rules ∧ Allows rules ⟨"SelectFromColumns",
      .table DEPLOYED_CATALOG "information_schema" "tables", ["interns"]⟩) ∧
    ¬ SelectsInPg browsed browsed.resources[1] "interns" := by
  have hvalid : validateDeclaration browsed = [] := by decide +kernel
  have h := (valid_of_validate hvalid).toSound
  have hexpand : expandRoles browsed "interns" = ["interns"] := by decide +kernel
  refine ⟨hvalid, rfl, rfl, rfl, by decide, fun s => ?_, ?_, ?_⟩
  · rw [h.reach_composites, ← mem_expandRoles, hexpand]
  · exact ⟨_, ok_getD (by decide +kernel), by decide +kernel⟩
  · rw [h.selectsInPg_iff (by simp [browsed]) rfl (by decide)]
    simp only [← mem_expandRoles, hexpand]
    decide

end Policy
