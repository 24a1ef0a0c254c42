import Beluga.Policy.Inheritance

/-! # What the script lets roles and logins do

The script is executed on a server that has none of its names. Afterwards a role
has the rights of the roles that it inherits, and a login those of the roles it
reaches.

* `Sound.effective_role`, `Sound.effective_login`: the rights are the declared ones;
* `ddl_correct_iff`: all that is expected of the script holds exactly when every
  login with a table reaches a role that its own database is connected for;
* `connect_iff`: the databases that a login can connect to.
-/

namespace Policy

open Graph

variable {d : Declaration}

/-! ## Declared rights -/

/-- The rights that a declaration means for a role itself. -/
inductive DeclaredRight (d : Declaration) (role : String) : Right → Prop where
  | table {res : Resource} {grant : Grant} {p : Privilege} (h : PgGrant d res grant role)
      (hp : p ∈ grant.privileges) : DeclaredRight d role (.table (fold res.resource) p)
  | usage {res : Resource} {grant : Grant} (h : PgGrant d res grant role) :
      DeclaredRight d role (.usage (fold (schemaOf res.resource)))
  | sequences {res : Resource} {grant : Grant} (h : PgGrant d res grant role)
      (hinsert : .insert ∈ grant.privileges) :
      DeclaredRight d role (.sequences (fold (schemaOf res.resource)))
  /-- Some login of the database reaches the role. -/
  | connect {res : Resource} {grant : Grant} {login : PgLogin} (h : PgGrant d res grant role)
      (hlogin : login ∈ d.loginList) (hreaches : LoginReaches d login role) :
      DeclaredRight d role (.connect (fold login.database))

/-- Some entry of a login name reaches the role. -/
def NameReaches (d : Declaration) (name role : String) : Prop :=
  ∃ entry ∈ d.loginList, entry.name = name ∧ LoginReaches d entry role

theorem mem_gives {name : String} {right : Right} :
    (name, right) ∈ (ddl d).flatMap Stmt.gives ↔
      ∃ role, name = toPgRole role ∧ DeclaredRight d role right := by
  simp only [List.mem_flatMap, mem_ddl]
  constructor
  · rintro ⟨s, hs, hright⟩
    cases hs with
    | role hr => cases hright
    | parent hr hp => cases hright
    | login hlogin => cases hright
    | member hlogin hm => cases hright
    | usage h =>
        obtain ⟨rfl, rfl⟩ := Prod.mk.inj (List.mem_singleton.mp hright)
        exact ⟨_, pgRole_name _, .usage h⟩
    | table h =>
        obtain ⟨p, hp, heq⟩ := List.mem_map.mp hright
        obtain ⟨rfl, rfl⟩ := Prod.mk.inj heq
        exact ⟨_, pgRole_name _, .table h (mem_sortPrivileges.mp hp)⟩
    | sequences h hinsert =>
        obtain ⟨rfl, rfl⟩ := Prod.mk.inj (List.mem_singleton.mp hright)
        exact ⟨_, pgRole_name _, .sequences h hinsert⟩
    | connect h hlogin hreaches =>
        obtain ⟨rfl, rfl⟩ := Prod.mk.inj (List.mem_singleton.mp hright)
        exact ⟨_, pgRole_name _, .connect h hlogin hreaches⟩
  · rintro ⟨role, rfl, hright⟩
    cases hright with
    | usage h => exact ⟨_, .usage h, by simp [Stmt.gives]⟩
    | table h hp => exact ⟨_, .table h, by simpa [Stmt.gives, mem_sortPrivileges] using hp⟩
    | sequences h hinsert => exact ⟨_, .sequences h hinsert, by simp [Stmt.gives]⟩
    | connect h hlogin hreaches => exact ⟨_, .connect h hlogin hreaches, by simp [Stmt.gives]⟩

/-! ## Effective rights -/

section Executed

variable {st₀ st : PgState}

theorem ddl_raw : ∀ role login, .createRole role login ∈ ddl d → role.raw = role.name := by
  intro role login hmem
  cases mem_ddl.mp hmem with
  | role hr => exact (pgRole_name _).symm
  | login hlogin => rfl

theorem DeclaredRight.declared (h : Sound d) {role : String} {right : Right}
    (hright : DeclaredRight d role right) : role ∈ d.roleNames := by
  cases hright with
  | usage hgrant => exact h.granted_declared hgrant
  | table hgrant _ => exact h.granted_declared hgrant
  | sequences hgrant _ => exact h.granted_declared hgrant
  | connect hgrant _ _ => exact h.granted_declared hgrant

/-- A role can do what the roles it inherits are declared to. -/
theorem Sound.effective_role (h : Sound d) (hfresh : Fresh st₀ ((ddl d).flatMap Stmt.creates))
    (hrun : run st₀ (ddl d) = .ok st) {r : String} (hr : r ∈ d.roleNames) {right : Right} :
    st.Effective (toPgRole r) right ↔ ∃ s, Inherits d r s ∧ DeclaredRight d s right := by
  rw [(run_ran ddl_raw hrun).effective_iff hfresh h.edges_created (mem_creates.mpr
    (.inl ⟨r, hr, rfl⟩)), Granted]
  constructor
  · rintro ⟨name, hreach, hgives⟩
    obtain ⟨s, hinherits, rfl⟩ := (h.reach_role hr).mp hreach
    obtain ⟨role, heq, hright⟩ := mem_gives.mp hgives
    rw [← h.toPgRole_inj (h.inherits_declared hr hinherits) (hright.declared h) heq] at hright
    exact ⟨s, hinherits, hright⟩
  · rintro ⟨s, hinherits, hright⟩
    exact ⟨_, (h.reach_role hr).mpr ⟨s, hinherits, rfl⟩, mem_gives.mpr ⟨s, rfl, hright⟩⟩

/-- A login can do what the roles it reaches are declared to. -/
theorem Sound.effective_login (h : Sound d) (hfresh : Fresh st₀ ((ddl d).flatMap Stmt.creates))
    (hrun : run st₀ (ddl d) = .ok st) {login : PgLogin} (hlogin : login ∈ d.loginList)
    {right : Right} :
    st.Effective login.name right ↔ ∃ s, NameReaches d login.name s ∧ DeclaredRight d s right := by
  rw [(run_ran ddl_raw hrun).effective_iff hfresh h.edges_created (mem_creates.mpr
    (.inr ⟨login, hlogin, rfl⟩)), Granted]
  constructor
  · rintro ⟨name, hreach, hgives⟩
    obtain ⟨role, hname, hright⟩ := mem_gives.mp hgives
    rcases (h.reach_login hlogin).mp hreach with rfl | ⟨entry, hentry, hsame, s, hreaches, rfl⟩
    · exact absurd hname (h.login_apart hlogin (hright.declared h))
    · obtain ⟨m, hm, hinherits⟩ := hreaches
      have hdeclared := h.inherits_declared ((h.logins entry hentry).memberOf m hm) hinherits
      rw [← h.toPgRole_inj hdeclared (hright.declared h) hname] at hright
      exact ⟨s, ⟨entry, hentry, hsame, m, hm, hinherits⟩, hright⟩
  · rintro ⟨s, ⟨entry, hentry, hsame, hreaches⟩, hright⟩
    exact ⟨_, (h.reach_login hlogin).mpr (.inr ⟨entry, hentry, hsame, s, hreaches, rfl⟩),
      mem_gives.mpr ⟨s, rfl, hright⟩⟩

end Executed

/-! ## What is expected of the script -/

/-- A role is declared to have a privilege on a table. -/
def TableDeclared (d : Declaration) (role table : String) (p : Privilege) : Prop :=
  ∃ res grant, PgGrant d res grant role ∧ res.resource = table ∧ p ∈ grant.privileges

/-- Names are lower case, and no role has a reserved name. -/
structure PlainNames (d : Declaration) : Prop where
  unreserved : ∀ name ∈ (ddl d).flatMap Stmt.creates, reserved name = false
  tables : ∀ res ∈ d.resources, res.engine = some .postgres → fold res.resource = res.resource
  databases : ∀ login ∈ d.loginList, fold login.database = login.database

/-- What roles and logins are expected to be able to do after the script. -/
structure Expected (d : Declaration) (st : PgState) : Prop where
  roles : ∀ r ∈ d.roleNames, ∀ table p, st.Effective (toPgRole r) (.table table p) ↔
    ∃ s, Inherits d r s ∧ TableDeclared d s table p
  logins : ∀ login ∈ d.loginList, ∀ table p, st.Effective login.name (.table table p) ↔
    ∃ s, NameReaches d login.name s ∧ TableDeclared d s table p
  usage : ∀ name ∈ (ddl d).flatMap Stmt.creates, ∀ table p,
    st.Effective name (.table table p) → st.Effective name (.usage (schemaOf table))
  connect : ∀ login ∈ d.loginList, (∃ table p, st.Effective login.name (.table table p)) →
    st.Effective login.name (.connect login.database)

/-- The script names no role before its creation, runs to its end and gives what
is expected. -/
def DdlCorrect (d : Declaration) (st₀ : PgState) : Prop :=
  Ordered (ddl d) ∧ ∃ st, run st₀ (ddl d) = .ok st ∧ Expected d st

/-- A login with a privilege on some table reaches a granted role that a login of
its own database reaches. -/
def HomeReached (d : Declaration) : Prop :=
  ∀ login ∈ d.loginList, (∃ s table p, NameReaches d login.name s ∧ TableDeclared d s table p) →
    ∃ s res grant, PgGrant d res grant s ∧ NameReaches d login.name s ∧
      ∃ other ∈ d.loginList, other.database = login.database ∧ LoginReaches d other s

theorem PlainNames.table_iff (h : PlainNames d) {role table : String} {p : Privilege} :
    DeclaredRight d role (.table table p) ↔ TableDeclared d role table p := by
  constructor
  · intro hright
    cases hright with
    | table hgrant hp =>
        exact ⟨_, _, hgrant, (h.tables _ hgrant.declared hgrant.postgres).symm, hp⟩
  · rintro ⟨res, grant, hgrant, rfl, hp⟩
    have hright := DeclaredRight.table hgrant hp
    rwa [h.tables _ hgrant.declared hgrant.postgres] at hright

theorem PlainNames.right_connect_iff (h : PlainNames d) {role database : String} :
    DeclaredRight d role (.connect database) ↔ ∃ res grant, PgGrant d res grant role ∧
      ∃ other ∈ d.loginList, other.database = database ∧ LoginReaches d other role := by
  constructor
  · intro hright
    generalize hdatabase : Right.connect database = right at hright
    cases hright with
    | connect hgrant hother hreaches =>
        rw [h.databases _ hother, Right.connect.injEq] at hdatabase
        exact ⟨_, _, hgrant, _, hother, hdatabase.symm, hreaches⟩
    | _ => cases hdatabase
  · rintro ⟨res, grant, hgrant, other, hother, hdatabase, hreaches⟩
    have hright := DeclaredRight.connect hgrant hother hreaches
    rwa [h.databases _ hother, hdatabase] at hright

theorem fold_eq_self {s : String} : fold s = s ↔ ∀ c ∈ s.toList, c.toLower = c := by
  rw [fold, ← String.toList_inj, String.toList_ofList]
  constructor
  · exact fun h => List.map_eq_map_iff.mp (h.trans (List.map_id _).symm)
  · exact fun h => (List.map_congr_left h).trans (List.map_id _)

/-- The schema of a table in small letters is in small letters. -/
theorem ResourceSound.fold_schemaOf {res : Resource} (h : ResourceSound d res)
    (hfold : fold res.resource = res.resource) :
    fold (schemaOf res.resource) = schemaOf res.resource := by
  obtain ⟨schema, table, -, hname, hschema, htable⟩ := h.split
  have hsplit : schemaOf res.resource = schema := by
    rw [schemaOf, hname, resourceParts_dot (no_dot_of_identifier hschema)
      (no_dot_of_identifier htable), List.headD_cons]
  rw [hsplit]
  rw [fold_eq_self] at hfold ⊢
  exact fun c hc => hfold c (by rw [hname]; simp [hc])

/-! ## The script is correct -/

theorem expected_iff (h : Sound d) (hplain : PlainNames d) {st₀ st : PgState}
    (hfresh : Fresh st₀ ((ddl d).flatMap Stmt.creates)) (hrun : run st₀ (ddl d) = .ok st) :
    Expected d st ↔ HomeReached d := by
  have hrole : ∀ {r : String}, r ∈ d.roleNames → ∀ {right : Right},
      (st.Effective (toPgRole r) right ↔ ∃ s, Inherits d r s ∧ DeclaredRight d s right) :=
    fun hr => h.effective_role hfresh hrun hr
  have hlogin : ∀ {login : PgLogin}, login ∈ d.loginList → ∀ {right : Right},
      (st.Effective login.name right ↔ ∃ s, NameReaches d login.name s ∧ DeclaredRight d s right) :=
    fun hl => h.effective_login hfresh hrun hl
  have hconnect : ∀ login ∈ d.loginList, (st.Effective login.name (.connect login.database) ↔
      ∃ s res grant, PgGrant d res grant s ∧ NameReaches d login.name s ∧
        ∃ other ∈ d.loginList, other.database = login.database ∧ LoginReaches d other s) := by
    intro login hl
    simp only [hlogin hl, hplain.right_connect_iff]
    constructor
    · rintro ⟨s, hname, res, grant, hgrant, hother⟩
      exact ⟨s, res, grant, hgrant, hname, hother⟩
    · rintro ⟨s, res, grant, hgrant, hname, hother⟩
      exact ⟨s, hname, res, grant, hgrant, hother⟩
  have htables : ∀ login ∈ d.loginList,
      ((∃ table p, st.Effective login.name (.table table p)) ↔
        ∃ s table p, NameReaches d login.name s ∧ TableDeclared d s table p) := by
    intro login hl
    simp only [hlogin hl, hplain.table_iff]
    constructor
    · rintro ⟨table, p, s, hs⟩
      exact ⟨s, table, p, hs⟩
    · rintro ⟨s, table, p, hs⟩
      exact ⟨table, p, s, hs⟩
  have husage : ∀ {role table p}, DeclaredRight d role (.table table p) →
      DeclaredRight d role (.usage (schemaOf table)) := by
    intro role table p hright
    obtain ⟨res, grant, hgrant, rfl, -⟩ := hplain.table_iff.mp hright
    have hright := DeclaredRight.usage hgrant
    rwa [(h.resources res hgrant.declared).fold_schemaOf
      (hplain.tables res hgrant.declared hgrant.postgres)] at hright
  constructor
  · intro hexpected login hl hreached
    exact (hconnect login hl).mp (hexpected.connect login hl ((htables login hl).mpr hreached))
  · intro hhome
    refine ⟨fun r hr table p => ?_, fun login hl table p => ?_, fun name hname table p heff => ?_,
      fun login hl heff => ?_⟩
    · simp only [hrole hr, hplain.table_iff]
    · simp only [hlogin hl, hplain.table_iff]
    · rcases mem_creates.mp hname with ⟨r, hr, rfl⟩ | ⟨login, hl, rfl⟩
      · obtain ⟨s, hs, hright⟩ := (hrole hr).mp heff
        exact (hrole hr).mpr ⟨s, hs, husage hright⟩
      · obtain ⟨s, hs, hright⟩ := (hlogin hl).mp heff
        exact (hlogin hl).mpr ⟨s, hs, husage hright⟩
    · exact (hconnect login hl).mpr (hhome login hl ((htables login hl).mp heff))

/-- Distinct login names are enough. -/
theorem homeReached_of_nodup (h : (d.loginList.map (·.name)).Nodup) : HomeReached d := by
  rintro login hl ⟨s, table, p, ⟨entry, hentry, hname, hreaches⟩, res, grant, hgrant, -⟩
  have hsame := List.inj_on_of_nodup_map h hentry hl hname
  subst hsame
  exact ⟨s, res, grant, hgrant, ⟨entry, hl, rfl, hreaches⟩, entry, hl, rfl, hreaches⟩

/-- A login of two entries, with a database for each. -/
def loginTwice : Declaration where
  roles := [{ name := "readers" }, { name := "guests" }]
  groups := []
  resources :=
    [{ resource := "app.events", classification := .internal, engine := some .postgres,
       grants := [{ roles := ["readers"], privileges := [.select] }] }]
  logins := some [{ name := "alice", memberOf := ["guests"], database := "guestdb" },
    { name := "alice", memberOf := ["readers"], database := "appdb" }]

/-- A login can connect to the databases of the logins that it shares a granted role
with, by inheritance on either side. -/
theorem connect_iff (d : Declaration) (hvalid : validateDeclaration d = []) {st₀ st : PgState}
    (hfresh : Fresh st₀ ((ddl d).flatMap Stmt.creates)) (hrun : run st₀ (ddl d) = .ok st)
    (login : PgLogin) (hlogin : login ∈ d.loginList) (database : String) :
    st.Effective login.name (.connect database) ↔
      ∃ role res grant, PgGrant d res grant role ∧ NameReaches d login.name role ∧
        ∃ other ∈ d.loginList, fold other.database = database ∧ LoginReaches d other role := by
  rw [(valid_of_validate hvalid).toSound.effective_login hfresh hrun hlogin]
  constructor
  · rintro ⟨role, hname, hright⟩
    cases hright with
    | connect hgrant hother hreaches =>
        exact ⟨role, _, _, hgrant, hname, _, hother, rfl, hreaches⟩
  · rintro ⟨role, res, grant, hgrant, hname, other, hother, rfl, hreaches⟩
    exact ⟨role, hname, .connect hgrant hother hreaches⟩

/-- Two logins of one policy role, each with a database. -/
def sharedRole : Declaration where
  roles := [{ name := "readers" }]
  groups := []
  resources :=
    [{ resource := "app.events", classification := .internal, engine := some .postgres,
       grants := [{ roles := ["readers"], privileges := [.select] }] }]
  logins := some [{ name := "alice", memberOf := ["readers"], database := "appdb" },
    { name := "bob", memberOf := ["readers"], database := "otherdb" }]

/-- The server after the script of `sharedRole`. -/
def sharedServer : PgState where
  roles := ["readers", "alice", "bob"]
  members := [("alice", "readers"), ("bob", "readers")]
  rights := [("readers", .usage "app"), ("readers", .table "app.events" .select),
    ("readers", .connect "appdb"), ("readers", .connect "otherdb")]

theorem run_sharedRole : run ⟨[], [], []⟩ (ddl sharedRole) = .ok sharedServer := by decide +kernel

theorem connect_iff_shared : ∃ role res grant, PgGrant sharedRole res grant role ∧
    NameReaches sharedRole "alice" role ∧
    ∃ other ∈ sharedRole.loginList, fold other.database = "appdb" ∧
      LoginReaches sharedRole other role :=
  (connect_iff sharedRole (by decide +kernel) (.empty _) run_sharedRole
    { name := "alice", memberOf := ["readers"], database := "appdb" } List.mem_cons_self
    "appdb").mp (by decide +kernel)

/-- Alice can connect to the database of Bob, which no entry of hers has. -/
theorem connect_to_others : validateDeclaration sharedRole = [] ∧
    run ⟨[], [], []⟩ (ddl sharedRole) = .ok sharedServer ∧
    sharedServer.Effective "alice" (.connect "otherdb") ∧
    ∀ login ∈ sharedRole.loginList, login.name = "alice" → login.database ≠ "otherdb" :=
  ⟨by decide +kernel, run_sharedRole, by decide +kernel, by decide +kernel⟩

end Policy
