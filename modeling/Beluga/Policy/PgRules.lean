import Beluga.Policy.PgDdl

/-! # What the script says

* `mem_ddl`: the statements of the script, by where they come from;
* `Sound.reach_role`, `Sound.reach_login`: its memberships are inheritance;
* `ddl_ready`: no statement names a role before it is created.
-/

namespace Policy

open Graph

variable {d : Declaration}

/-! ## Statements -/

/-- A role in a grant of a PG resource. -/
structure PgGrant (d : Declaration) (res : Resource) (grant : Grant) (role : String) : Prop where
  declared : res ∈ d.resources
  postgres : res.engine = some .postgres
  granted : grant ∈ res.grants
  listed : role ∈ grant.roles

/-- A login that reaches a role by inheritance. -/
def LoginReaches (d : Declaration) (login : PgLogin) (role : String) : Prop :=
  ∃ m ∈ login.memberOf, Inherits d m role

/-- The statements that a declaration leads to. -/
inductive Emitted (d : Declaration) : Stmt → Prop where
  | role {r : Role} (hr : r ∈ d.roles) : Emitted d (.createRole (pgRole r.name) false)
  | parent {r : Role} {p : String} (hr : r ∈ d.roles) (hp : p ∈ r.parents) :
      Emitted d (.grantRole (pgRole p) (pgRole r.name))
  | usage {res : Resource} {grant : Grant} {role : String} (h : PgGrant d res grant role) :
      Emitted d (.grantUsage (schemaOf res.resource) (pgRole role))
  | table {res : Resource} {grant : Grant} {role : String} (h : PgGrant d res grant role) :
      Emitted d (.grantTable (sortPrivileges grant.privileges) res.resource (pgRole role))
  | sequences {res : Resource} {grant : Grant} {role : String} (h : PgGrant d res grant role)
      (hinsert : .insert ∈ grant.privileges) :
      Emitted d (.grantSequences (schemaOf res.resource) (pgRole role))
  | login {login : PgLogin} (hlogin : login ∈ d.loginList) :
      Emitted d (.createRole (toPgLoginIdentifier login.name) true)
  | member {login : PgLogin} {m : String} (hlogin : login ∈ d.loginList)
      (hm : m ∈ login.memberOf) :
      Emitted d (.grantRole (pgRole m) (toPgLoginIdentifier login.name))
  | connect {res : Resource} {grant : Grant} {role : String} {login : PgLogin}
      (h : PgGrant d res grant role) (hlogin : login ∈ d.loginList)
      (hreaches : LoginReaches d login role) :
      Emitted d (.grantConnect login.database (pgRole role))

/-- The statements of the first section. -/
def roleStmts (d : Declaration) : List Stmt :=
  (sortedRoles d).map fun r => .createRole (pgRole r.name) false

@[simp] theorem mem_pgResources {res : Resource} :
    res ∈ pgResources d ↔ res ∈ d.resources ∧ res.engine = some .postgres := by
  simp [pgResources]

theorem mem_rolesIn {passes : Grant → Bool} {schema role : String} :
    role ∈ rolesIn d passes schema ↔ ∃ res grant, PgGrant d res grant role ∧
      schemaOf res.resource = schema ∧ passes grant = true := by
  simp only [rolesIn, Js.mem_sort, List.mem_eraseDups, List.mem_flatMap, List.mem_filter,
    mem_pgResources, decide_eq_true_eq]
  constructor
  · rintro ⟨res, ⟨⟨hres, hengine⟩, hschema⟩, grant, ⟨hgrant, hpasses⟩, hrole⟩
    exact ⟨res, grant, ⟨hres, hengine, hgrant, hrole⟩, hschema, hpasses⟩
  · rintro ⟨res, grant, ⟨hres, hengine, hgrant, hrole⟩, hschema, hpasses⟩
    exact ⟨res, ⟨⟨hres, hengine⟩, hschema⟩, grant, ⟨hgrant, hpasses⟩, hrole⟩

theorem mem_postgresGrantRoles {role : String} :
    role ∈ postgresGrantRoles d ↔ ∃ res grant, PgGrant d res grant role := by
  simp only [postgresGrantRoles, List.mem_eraseDups, List.mem_flatMap, mem_pgResources]
  constructor
  · rintro ⟨res, ⟨hres, hengine⟩, grant, hgrant, hrole⟩
    exact ⟨res, grant, hres, hengine, hgrant, hrole⟩
  · rintro ⟨res, grant, hres, hengine, hgrant, hrole⟩
    exact ⟨res, ⟨hres, hengine⟩, grant, hgrant, hrole⟩

theorem mem_rolesByDatabase {database role : String} :
    role ∈ rolesByDatabase d database ↔
      ∃ login ∈ d.loginList, login.database = database ∧ LoginReaches d login role := by
  simp only [rolesByDatabase, sortedLogins, List.mem_flatMap, List.mem_filter, Js.mem_sortOn,
    decide_eq_true_eq, mem_expandRoles, LoginReaches, and_assoc]

/-- The script without its comments. Sections that have no statements do not count. -/
theorem ddl_eq (d : Declaration) : ddl d = roleStmts d ++ (inheritanceStmts d ++ (usageStmts d ++
    (allTableStmts d ++ sequenceStmts d))) ++ loginStmts d ++ (memberStmts d ++ connectStmts d) := by
  have hstmts : ∀ ss : List Stmt, (ss.map DdlItem.stmt).flatMap DdlItem.stmts = ss := by
    intro ss
    induction ss with
    | nil => rfl
    | cons s ss ih => simp [DdlItem.stmts, ih]
  have hroles : (roleItems d).flatMap DdlItem.stmts = roleStmts d := by
    simp only [roleItems, roleStmts]
    induction sortedRoles d with
    | nil => rfl
    | cons r rs ih => simp [DdlItem.stmts, ih]
  have hconnect : (connectItems d).flatMap DdlItem.stmts = connectStmts d := by
    unfold connectItems
    split_ifs with h
    · rw [List.flatMap_append, hstmts]
      rfl
    · -- no roles or no databases, so nothing to connect
      rcases Nat.eq_zero_or_pos (postgresGrantRoles d).length with hzero | hpos
      · simp [connectStmts, List.length_eq_zero_iff.mp hzero]
      · have hzero : (databases d).length = 0 := by omega
        simp [connectStmts, List.length_eq_zero_iff.mp hzero]
  have hlogins : (loginItems d).flatMap DdlItem.stmts =
      loginStmts d ++ (memberStmts d ++ connectStmts d) := by
    unfold loginItems
    split_ifs with h
    · rw [List.flatMap_append, List.flatMap_append, hstmts, hconnect, List.append_assoc]
      simp [DdlItem.stmts]
    · have hzero : sortedLogins d = [] := List.length_eq_zero_iff.mp (by omega)
      simp [loginStmts, memberStmts, connectStmts, databases, hzero]
  unfold ddl pgItems
  simp only [List.flatMap_append, hstmts, hroles, hlogins, List.append_assoc]
  simp [DdlItem.stmts]

theorem mem_ddl {s : Stmt} : s ∈ ddl d ↔ Emitted d s := by
  rw [ddl_eq]
  simp only [List.mem_append]
  constructor
  · rintro (((hs | hs | hs | hs | hs) | hs) | hs | hs)
    · simp only [roleStmts, sortedRoles, List.mem_map, Js.mem_sortOn] at hs
      obtain ⟨r, hr, rfl⟩ := hs
      exact .role hr
    · simp only [inheritanceStmts, sortedRoles, List.mem_flatMap, List.mem_map, Js.mem_sortOn,
        Js.mem_sort] at hs
      obtain ⟨r, hr, p, hp, rfl⟩ := hs
      exact .parent hr hp
    · simp only [usageStmts, schemaRoles, List.mem_flatMap, List.mem_map, mem_rolesIn] at hs
      obtain ⟨schema, -, role, ⟨res, grant, h, rfl, -⟩, rfl⟩ := hs
      exact .usage h
    · simp only [allTableStmts, tableStmts, List.mem_flatMap, List.mem_map, Js.mem_sortOn,
        Js.mem_sort, mem_pgResources] at hs
      obtain ⟨res, ⟨hres, hengine⟩, grant, hgrant, role, hrole, rfl⟩ := hs
      exact .table ⟨hres, hengine, hgrant, hrole⟩
    · simp only [sequenceStmts, sequenceRoles, List.mem_flatMap, List.mem_map, mem_rolesIn,
        decide_eq_true_eq] at hs
      obtain ⟨schema, -, role, ⟨res, grant, h, rfl, hinsert⟩, rfl⟩ := hs
      exact .sequences h hinsert
    · simp only [loginStmts, sortedLogins, List.mem_map, Js.mem_sortOn] at hs
      obtain ⟨login, hlogin, rfl⟩ := hs
      exact .login hlogin
    · simp only [memberStmts, sortedLogins, List.mem_flatMap, List.mem_map, Js.mem_sortOn,
        Js.mem_sort] at hs
      obtain ⟨login, hlogin, m, hm, rfl⟩ := hs
      exact .member hlogin hm
    · simp only [connectStmts, List.mem_flatMap, List.mem_map, Js.mem_sort, List.mem_filter,
        mem_postgresGrantRoles, decide_eq_true_eq, mem_rolesByDatabase] at hs
      obtain ⟨_, -, role, ⟨⟨res, grant, h⟩, login, hlogin, rfl, hreaches⟩, rfl⟩ := hs
      exact .connect h hlogin hreaches
  · intro hs
    cases hs with
    | role hr => exact .inl (.inl (.inl (by simpa [roleStmts, sortedRoles] using ⟨_, hr, rfl⟩)))
    | parent hr hp =>
        refine .inl (.inl (.inr (.inl ?_)))
        simp only [inheritanceStmts, sortedRoles, List.mem_flatMap, List.mem_map, Js.mem_sortOn,
          Js.mem_sort]
        exact ⟨_, hr, _, hp, rfl⟩
    | usage h =>
        refine .inl (.inl (.inr (.inr (.inl ?_))))
        simp only [usageStmts, schemaRoles, List.mem_flatMap, List.mem_map, mem_rolesIn, pgSchemas,
          Js.mem_sort, List.mem_eraseDups, mem_pgResources]
        exact ⟨_, ⟨_, ⟨h.declared, h.postgres⟩, rfl⟩, _, ⟨_, _, h, rfl, trivial⟩, rfl⟩
    | table h =>
        refine .inl (.inl (.inr (.inr (.inr (.inl ?_)))))
        simp only [allTableStmts, tableStmts, List.mem_flatMap, List.mem_map, Js.mem_sortOn,
          Js.mem_sort, mem_pgResources]
        exact ⟨_, ⟨h.declared, h.postgres⟩, _, h.granted, _, h.listed, rfl⟩
    | sequences h hinsert =>
        refine .inl (.inl (.inr (.inr (.inr (.inr ?_)))))
        simp only [sequenceStmts, sequenceRoles, List.mem_flatMap, List.mem_map, mem_rolesIn,
          pgSchemas, Js.mem_sort, List.mem_eraseDups, mem_pgResources]
        exact ⟨_, ⟨_, ⟨h.declared, h.postgres⟩, rfl⟩, _,
          ⟨_, _, h, rfl, decide_eq_true hinsert⟩, rfl⟩
    | login hlogin =>
        refine .inl (.inr ?_)
        simp only [loginStmts, sortedLogins, List.mem_map, Js.mem_sortOn]
        exact ⟨_, hlogin, rfl⟩
    | member hlogin hm =>
        refine .inr (.inl ?_)
        simp only [memberStmts, sortedLogins, List.mem_flatMap, List.mem_map, Js.mem_sortOn,
          Js.mem_sort]
        exact ⟨_, hlogin, _, hm, rfl⟩
    | connect h hlogin hreaches =>
        refine .inr (.inr ?_)
        simp only [connectStmts, databases, sortedLogins, List.mem_flatMap, List.mem_map,
          Js.mem_sort, List.mem_eraseDups, Js.mem_sortOn, List.mem_filter, mem_postgresGrantRoles,
          decide_eq_true_eq, mem_rolesByDatabase]
        exact ⟨_, ⟨_, hlogin, rfl⟩, _, ⟨⟨_, _, h⟩, _, hlogin, rfl, hreaches⟩, rfl⟩

/-! ## Names -/

@[simp] theorem toLower_toLower (c : Char) : c.toLower.toLower = c.toLower := by
  by_cases h : c.val ≥ 'A'.val ∧ c.val ≤ 'Z'.val
  · -- a capital moves past the capitals
    have hlower : c.toLower.val = c.val + ('a'.val - 'A'.val) :=
      congrArg Char.val (dif_pos h)
    have hnot : ¬ (c.toLower.val ≥ 'A'.val ∧ c.toLower.val ≤ 'Z'.val) := by
      rw [hlower]
      simp only [ge_iff_le, UInt32.le_iff_toNat_le, UInt32.toNat_add] at h ⊢
      simp at h ⊢
      omega
    exact dif_neg hnot
  · have hlower : c.toLower = c := dif_neg h
    rw [hlower, hlower]

@[simp] theorem fold_fold (s : String) : fold (fold s) = fold s := by
  simp [fold, Function.comp_def]

@[simp] theorem fold_toPgRole (name : String) : fold (toPgRole name) = toPgRole name := by
  rw [fold, toPgRole, String.toList_ofList, List.map_map]
  congr 1
  refine List.map_congr_left fun c _ => ?_
  by_cases hc : c = '-' <;> simp [hc]

@[simp] theorem pgRole_name (name : String) : (pgRole name).name = toPgRole name :=
  fold_toPgRole name

@[simp] theorem toPgLoginIdentifier_name (name : String) :
    (toPgLoginIdentifier name).name = name := rfl

theorem Sound.role_names_nodup (h : Sound d) : d.roleNames.Nodup := h.pg_roles.of_map

theorem Sound.toPgRole_inj (h : Sound d) {r s : String} (hr : r ∈ d.roleNames)
    (hs : s ∈ d.roleNames) (heq : toPgRole r = toPgRole s) : r = s :=
  List.inj_on_of_nodup_map h.pg_roles hr hs heq

theorem Sound.includes_iff (h : Sound d) {r s : String} :
    s ∈ includesOf d r ↔ ∃ role ∈ d.roles, role.name = r ∧ s ∈ role.parents := by
  constructor
  · intro hs
    unfold includesOf at hs
    cases hfind : d.roles.reverse.find? fun role => role.name = r with
    | none => simp [hfind] at hs
    | some role =>
        rw [hfind] at hs
        exact ⟨role, List.mem_reverse.mp (List.mem_of_find?_eq_some hfind),
          by simpa using List.find?_some hfind, hs⟩
  · rintro ⟨role, hrole, rfl, hs⟩
    rwa [includesOf_eq h.role_names_nodup hrole]

theorem Sound.inherits_declared (h : Sound d) {r s : String} (hr : r ∈ d.roleNames)
    (hinherits : Inherits d r s) : s ∈ d.roleNames :=
  hinherits.declared (fun r hr p hp => (h.parents r hr p hp).1) hr

/-! ## Memberships -/

theorem mem_edges {x y : String} : (x, y) ∈ (ddl d).flatMap Stmt.edges ↔
    (∃ r ∈ d.roles, ∃ p ∈ r.parents, x = toPgRole r.name ∧ y = toPgRole p) ∨
    ∃ login ∈ d.loginList, ∃ m ∈ login.memberOf, x = login.name ∧ y = toPgRole m := by
  simp only [List.mem_flatMap, mem_ddl]
  constructor
  · rintro ⟨s, hs, he⟩
    cases hs with
    | parent hr hp =>
        simp only [Stmt.edges, pgRole_name, List.mem_singleton, Prod.mk.injEq] at he
        exact .inl ⟨_, hr, _, hp, he⟩
    | member hlogin hm =>
        simp only [Stmt.edges, pgRole_name, toPgLoginIdentifier_name, List.mem_singleton,
          Prod.mk.injEq] at he
        exact .inr ⟨_, hlogin, _, hm, he⟩
    | _ => cases he
  · rintro (⟨r, hr, p, hp, rfl, rfl⟩ | ⟨login, hlogin, m, hm, rfl, rfl⟩)
    · exact ⟨_, .parent hr hp, by simp [Stmt.edges]⟩
    · exact ⟨_, .member hlogin hm, by simp [Stmt.edges]⟩

theorem mem_creates {name : String} : name ∈ (ddl d).flatMap Stmt.creates ↔
    (∃ r ∈ d.roleNames, name = toPgRole r) ∨ ∃ login ∈ d.loginList, name = login.name := by
  simp only [List.mem_flatMap, mem_ddl]
  constructor
  · rintro ⟨s, hs, he⟩
    cases hs with
    | role hr => exact .inl ⟨_, List.mem_map_of_mem hr, by simpa [Stmt.creates] using he⟩
    | login hlogin => exact .inr ⟨_, hlogin, by simpa [Stmt.creates] using he⟩
    | _ => cases he
  · rintro (⟨r, hr, rfl⟩ | ⟨login, hlogin, rfl⟩)
    · obtain ⟨role, hrole, rfl⟩ := List.mem_map.mp hr
      exact ⟨_, .role hrole, by simp [Stmt.creates]⟩
    · exact ⟨_, .login hlogin, by simp [Stmt.creates]⟩

/-- The memberships of a script, as a graph. -/
abbrev ddlEdges (d : Declaration) : String → List String :=
  directRoles ((ddl d).flatMap Stmt.edges)

/-- No login has the PG name of a role. -/
theorem Sound.login_apart (h : Sound d) {login : PgLogin} (hlogin : login ∈ d.loginList)
    {r : String} (hr : r ∈ d.roleNames) : login.name ≠ toPgRole r :=
  fun heq => (h.logins login hlogin).apart (heq ▸ List.mem_map_of_mem hr)

theorem Sound.edge_role (h : Sound d) {r y : String} (hr : r ∈ d.roleNames) :
    y ∈ ddlEdges d (toPgRole r) ↔ ∃ s ∈ includesOf d r, y = toPgRole s := by
  rw [mem_directRoles, mem_edges]
  constructor
  · rintro (⟨role, hrole, p, hp, hname, rfl⟩ | ⟨login, hlogin, m, hm, hname, rfl⟩)
    · have heq := h.toPgRole_inj hr (List.mem_map_of_mem hrole) hname
      exact ⟨p, h.includes_iff.mpr ⟨role, hrole, heq.symm, hp⟩, rfl⟩
    · exact absurd hname.symm (h.login_apart hlogin hr)
  · rintro ⟨s, hs, rfl⟩
    obtain ⟨role, hrole, hname, hp⟩ := h.includes_iff.mp hs
    exact .inl ⟨role, hrole, s, hp, by rw [hname], rfl⟩

/-- From a policy role, memberships lead to the roles that it inherits. -/
theorem Sound.reach_role (h : Sound d) {r y : String} (hr : r ∈ d.roleNames) :
    Reach (ddlEdges d) (toPgRole r) y ↔ ∃ s, Inherits d r s ∧ y = toPgRole s := by
  constructor
  · intro hreach
    induction hreach with
    | refl => exact ⟨r, .refl, rfl⟩
    | tail _ hedge ih =>
        obtain ⟨s, hinherits, rfl⟩ := ih
        obtain ⟨t, ht, rfl⟩ := (h.edge_role (h.inherits_declared hr hinherits)).mp hedge
        exact ⟨t, hinherits.tail ht, rfl⟩
  · rintro ⟨s, hinherits, rfl⟩
    induction hinherits with
    | refl => exact .refl
    | tail hinherits hedge ih =>
        exact ih.tail ((h.edge_role (h.inherits_declared hr hinherits)).mpr ⟨_, hedge, rfl⟩)

/-- From a login, they lead to the roles that its entries reach. -/
theorem Sound.reach_login (h : Sound d) {login : PgLogin} (hlogin : login ∈ d.loginList)
    {y : String} : Reach (ddlEdges d) login.name y ↔ y = login.name ∨
      ∃ entry ∈ d.loginList, entry.name = login.name ∧
        ∃ s, LoginReaches d entry s ∧ y = toPgRole s := by
  have hedge : ∀ {y}, y ∈ ddlEdges d login.name ↔
      ∃ entry ∈ d.loginList, entry.name = login.name ∧ ∃ m ∈ entry.memberOf, y = toPgRole m := by
    intro y
    rw [mem_directRoles, mem_edges]
    constructor
    · rintro (⟨r, hr, p, hp, hname, -⟩ | ⟨entry, hentry, m, hm, hname, rfl⟩)
      · exact absurd hname (h.login_apart hlogin (List.mem_map_of_mem hr))
      · exact ⟨entry, hentry, hname.symm, m, hm, rfl⟩
    · rintro ⟨entry, hentry, hname, m, hm, rfl⟩
      exact .inr ⟨entry, hentry, m, hm, hname.symm, rfl⟩
  constructor
  · intro hreach
    rcases Relation.ReflTransGen.cases_head hreach with heq | ⟨z, hz, hreach⟩
    · exact .inl heq.symm
    · obtain ⟨entry, hentry, hname, m, hm, rfl⟩ := hedge.mp hz
      have hdeclared := (h.logins entry hentry).memberOf m hm
      obtain ⟨s, hinherits, rfl⟩ := (h.reach_role hdeclared).mp hreach
      exact .inr ⟨entry, hentry, hname, s, ⟨m, hm, hinherits⟩, rfl⟩
  · rintro (rfl | ⟨entry, hentry, hname, s, ⟨m, hm, hinherits⟩, rfl⟩)
    · exact .refl
    · have hdeclared := (h.logins entry hentry).memberOf m hm
      exact .head (hedge.mpr ⟨entry, hentry, hname, m, hm, rfl⟩)
        ((h.reach_role hdeclared).mpr ⟨s, hinherits, rfl⟩)

/-! ## Execution -/

/-- Every statement names roles that earlier statements created. -/
def Ordered (stmts : List Stmt) : Prop :=
  ∀ pre s post, stmts = pre ++ s :: post →
    ∀ role ∈ s.refs, role.name ∈ pre.flatMap Stmt.creates

theorem Ordered.append {stmts more : List Stmt} (h : Ordered stmts)
    (hmore : ∀ s ∈ more, ∀ role ∈ s.refs, role.name ∈ stmts.flatMap Stmt.creates) :
    Ordered (stmts ++ more) := by
  intro pre s post heq role hrole
  rcases List.append_eq_append_iff.mp heq with ⟨mid, rfl, hmid⟩ | ⟨mid, rfl, hmid⟩
  · -- among the later ones
    have hmem := hmore s (hmid ▸ by simp) role hrole
    rw [List.flatMap_append]
    exact List.mem_append_left _ hmem
  · cases mid with
    | nil =>
        rw [List.nil_append] at hmid
        simpa using hmore s (hmid ▸ by simp) role hrole
    | cons s' mid =>
        obtain ⟨rfl, -⟩ := List.cons_eq_cons.mp hmid
        exact h pre s mid rfl role hrole

/-- All roles that grants name are declared. -/
theorem Sound.granted_declared (h : Sound d) {res : Resource} {grant : Grant} {role : String}
    (hgrant : PgGrant d res grant role) : role ∈ d.roleNames :=
  (((h.resources res hgrant.declared).grants grant hgrant.granted).roles role hgrant.listed).1

theorem mem_creates_roleStmts {r : String} (hr : r ∈ d.roleNames) :
    toPgRole r ∈ (roleStmts d).flatMap Stmt.creates := by
  obtain ⟨role, hrole, rfl⟩ := List.mem_map.mp hr
  refine List.mem_flatMap.mpr ⟨.createRole (pgRole role.name) false, ?_, by simp [Stmt.creates]⟩
  exact List.mem_map_of_mem (Js.mem_sortOn.mpr hrole)

/-- The roles that a statement names are declared, or logins. -/
theorem Sound.refs_cases (h : Sound d) {s : Stmt} (hs : Emitted d s) {role : Ident}
    (hrole : role ∈ s.refs) : (∃ r ∈ d.roleNames, role = pgRole r) ∨
      ∃ login ∈ d.loginList, role = toPgLoginIdentifier login.name := by
  cases hs with
  | role hr => cases hrole
  | login hlogin => cases hrole
  | parent hr hp =>
      simp only [Stmt.refs, List.mem_cons, List.not_mem_nil, or_false] at hrole
      rcases hrole with rfl | rfl
      · exact .inl ⟨_, (h.parents _ hr _ hp).1, rfl⟩
      · exact .inl ⟨_, List.mem_map_of_mem hr, rfl⟩
  | member hlogin hm =>
      simp only [Stmt.refs, List.mem_cons, List.not_mem_nil, or_false] at hrole
      rcases hrole with rfl | rfl
      · exact .inl ⟨_, (h.logins _ hlogin).memberOf _ hm, rfl⟩
      · exact .inr ⟨_, hlogin, rfl⟩
  | usage hgrant => exact .inl ⟨_, h.granted_declared hgrant, List.mem_singleton.mp hrole⟩
  | table hgrant => exact .inl ⟨_, h.granted_declared hgrant, List.mem_singleton.mp hrole⟩
  | sequences hgrant _ => exact .inl ⟨_, h.granted_declared hgrant, List.mem_singleton.mp hrole⟩
  | connect hgrant _ _ => exact .inl ⟨_, h.granted_declared hgrant, List.mem_singleton.mp hrole⟩

/-- Before the logins, statements name policy roles only. -/
theorem bare_refs {s : Stmt} (hs : s ∈ inheritanceStmts d ++ (usageStmts d ++
    (allTableStmts d ++ sequenceStmts d))) {role : Ident} (hrole : role ∈ s.refs) :
    ∃ r, role = pgRole r := by
  simp only [inheritanceStmts, usageStmts, allTableStmts, tableStmts, sequenceStmts,
    List.mem_append, List.mem_flatMap, List.mem_map] at hs
  rcases hs with ⟨r, -, p, -, rfl⟩ | ⟨_, -, r, -, rfl⟩ | ⟨_, -, _, -, r, -, rfl⟩ | ⟨_, -, r, -, rfl⟩
  · simp only [Stmt.refs, List.mem_cons, List.not_mem_nil, or_false] at hrole
    exact hrole.elim (fun h => ⟨_, h⟩) fun h => ⟨_, h⟩
  all_goals exact ⟨r, List.mem_singleton.mp hrole⟩

theorem ddl_ordered (h : Sound d) : Ordered (ddl d) := by
  have hemitted : ∀ {s}, s ∈ ddl d → ∀ role ∈ s.refs, (∃ r ∈ d.roleNames, role = pgRole r) ∨
      ∃ login ∈ d.loginList, role = toPgLoginIdentifier login.name :=
    fun hs role hrole => h.refs_cases (mem_ddl.mp hs) hrole
  have hnil : Ordered [] := fun pre s post heq => by simp at heq
  rw [ddl_eq] at hemitted ⊢
  simp only [List.mem_append] at hemitted
  have hroles : Ordered ([] ++ roleStmts d) := by
    refine hnil.append fun s hs role hrole => ?_
    obtain ⟨r, -, rfl⟩ := List.mem_map.mp hs
    cases hrole
  refine Ordered.append (Ordered.append (Ordered.append hroles ?_) ?_) ?_
  -- inheritance and the rights on tables name policy roles
  · intro s hs role hrole
    rcases hemitted (.inl (.inl (.inr (by simpa using hs)))) role hrole with
      ⟨r, hr, rfl⟩ | ⟨login, -, rfl⟩
    · rw [pgRole_name]
      exact mem_creates_roleStmts hr
    · obtain ⟨r, heq⟩ := bare_refs hs hrole
      cases heq
  · intro s hs role hrole
    obtain ⟨login, -, rfl⟩ := List.mem_map.mp hs
    cases hrole
  -- the rest names policy roles and logins
  · intro s hs role hrole
    rw [List.flatMap_append, List.flatMap_append, List.mem_append, List.mem_append]
    rcases hemitted (.inr (List.mem_append.mp hs)) role hrole with ⟨r, hr, rfl⟩ | ⟨login, hl, rfl⟩
    · rw [pgRole_name]
      exact .inl (.inl (mem_creates_roleStmts hr))
    · refine .inr (List.mem_flatMap.mpr ⟨.createRole (toPgLoginIdentifier login.name) true, ?_,
        by simp [Stmt.creates]⟩)
      exact List.mem_map_of_mem (Js.mem_sortOn.mpr hl)

/-- Memberships have no circle: inheritance has none, and nothing leads to a login. -/
theorem Sound.acyclic_edges (h : Sound d) {r : String} (hr : r ∈ d.roleNames) :
    ¬ Relation.TransGen (Edge (ddlEdges d)) (toPgRole r) (toPgRole r) := by
  intro hcircle
  obtain ⟨y, hedge, hreach⟩ := Relation.TransGen.head'_iff.mp hcircle
  obtain ⟨p, hp, rfl⟩ := (h.edge_role hr).mp hedge
  have hpdeclared := h.inherits_declared hr (.single hp)
  obtain ⟨s, hinherits, heq⟩ := (h.reach_role hpdeclared).mp hreach
  have hsame := h.toPgRole_inj hr (h.inherits_declared hpdeclared hinherits) heq
  subst hsame
  exact acyclic_of_findCycle h.acyclic hr .refl (Relation.TransGen.head' hp hinherits)

theorem Sound.edges_created (h : Sound d) :
    ∀ e ∈ (ddl d).flatMap Stmt.edges, e.2 ∈ (ddl d).flatMap Stmt.creates := by
  rintro ⟨x, y⟩ he
  rw [mem_creates]
  rcases mem_edges.mp he with ⟨r, hr, p, hp, -, rfl⟩ | ⟨login, hlogin, m, hm, -, rfl⟩
  · exact .inl ⟨p, (h.parents r hr p hp).1, rfl⟩
  · exact .inl ⟨m, (h.logins login hlogin).memberOf m hm, rfl⟩

/-- On a server without the names, with unreserved names, the script runs through. -/
theorem Sound.ddl_ready (h : Sound d) {st₀ : PgState}
    (hfresh : Fresh st₀ ((ddl d).flatMap Stmt.creates))
    (hunreserved : ∀ name ∈ (ddl d).flatMap Stmt.creates, reserved name = false) :
    ∀ pre s post, ddl d = pre ++ s :: post → Ready st₀ pre s := by
  intro pre s post heq
  have hmem : s ∈ ddl d := heq ▸ by simp
  refine ⟨ddl_ordered h pre s post heq, ?_⟩
  have hcreates : ∀ name ∈ s.creates, reserved name = false := fun name hname =>
    hunreserved name (List.mem_flatMap.mpr ⟨s, hmem, hname⟩)
  have hedges : pre.flatMap Stmt.edges ⊆ (ddl d).flatMap Stmt.edges := by
    rw [heq, List.flatMap_append]
    exact List.subset_append_left _ _
  cases s with
  | createRole role login =>
      refine ⟨?_, hcreates _ (by simp [Stmt.creates])⟩
      cases mem_ddl.mp hmem with
      | role hr => exact (pgRole_name _).symm
      | login hlogin => rfl
  | grantRole role member =>
      -- a path back would close a circle with this membership
      intro hpath
      have hrole : ∃ r ∈ d.roleNames, role.name = toPgRole r := by
        cases mem_ddl.mp hmem with
        | parent hr hp => exact ⟨_, (h.parents _ hr _ hp).1, pgRole_name _⟩
        | member hlogin hm => exact ⟨_, (h.logins _ hlogin).memberOf _ hm, pgRole_name _⟩
      obtain ⟨r, hr, hname⟩ := hrole
      have hcreated : role.name ∈ (ddl d).flatMap Stmt.creates :=
        mem_creates.mpr (.inl ⟨r, hr, hname⟩)
      have hback := (hfresh.reach (fun e he => h.edges_created e (hedges he)) hcreated hpath).1
      have hedge : (member.name, role.name) ∈ (ddl d).flatMap Stmt.edges :=
        List.mem_flatMap.mpr ⟨_, hmem, by simp [Stmt.edges]⟩
      refine h.acyclic_edges hr (hname ▸ ?_)
      exact Relation.TransGen.tail' (reach_mono hedges hback) (mem_directRoles.mpr hedge)
  | _ => trivial

end Policy
