import Beluga.Graph.Walk
import Beluga.Policy.Schema

/-! # Grants in PostgreSQL

The statements that the compiler emits, and what they do to the roles of a
server. The state is the set of facts made so far: which roles exist, who is a
member of what, and which rights a role was given. All roles inherit.

* `run_ok`: a script runs to its end when each statement is ready where it stands;
* `run_ran`: one that ran to its end added what its statements say;
* `Ran.effective_iff`: what a role can then do, from the statements alone.

**Scope**: the objects that rights are given on are taken to exist, and what
`PUBLIC` may do by default is left out.
-/

namespace Policy

open Graph

/-! ## Statements -/

/-- Unquoted identifiers denote the name in small letters. -/
def fold (s : String) : String := String.ofList (s.toList.map Char.toLower)

/-- The name of a role, as it is written. -/
inductive Ident where
  | bare (raw : String)
  | quoted (raw : String)
  deriving DecidableEq, Repr

def Ident.raw : Ident → String
  | .bare raw => raw
  | .quoted raw => raw

def Ident.text : Ident → String
  | .bare raw => raw
  | .quoted raw => "\"" ++ raw ++ "\""

/-- The role that is meant. -/
def Ident.name : Ident → String
  | .bare raw => fold raw
  | .quoted raw => raw

inductive Stmt where
  /-- `CREATE ROLE`, if `pg_roles` has no such name yet. -/
  | createRole (role : Ident) (login : Bool)
  | grantRole (role member : Ident)
  | grantUsage (schema : String) (role : Ident)
  | grantTable (privileges : List Privilege) (table : String) (role : Ident)
  | grantSequences (schema : String) (role : Ident)
  | grantConnect (database : String) (role : Ident)
  deriving DecidableEq, Repr

/-! ## Their text -/

/-- `PRIV_SQL`. -/
def Privilege.sql : Privilege → String
  | .select => "SELECT"
  | .insert => "INSERT"
  | .update => "UPDATE"
  | .delete => "DELETE"

def Stmt.lines : Stmt → List String
  | .createRole role login =>
      ["  IF NOT EXISTS (SELECT FROM pg_roles WHERE rolname = '" ++ role.raw ++ "') THEN",
        "    CREATE ROLE " ++ role.text ++ " WITH " ++ (if login then "LOGIN" else "NOLOGIN") ++
          " INHERIT;",
        "  END IF;"]
  | .grantRole role member => ["GRANT " ++ role.text ++ " TO " ++ member.text ++ ";"]
  | .grantUsage schema role => ["GRANT USAGE ON SCHEMA " ++ schema ++ " TO " ++ role.text ++ ";"]
  | .grantTable privileges table role =>
      ["GRANT " ++ Js.join ", " (privileges.map Privilege.sql) ++ " ON TABLE " ++ table ++ " TO " ++
        role.text ++ ";"]
  | .grantSequences schema role =>
      ["GRANT USAGE, SELECT ON ALL SEQUENCES IN SCHEMA " ++ schema ++ " TO " ++ role.text ++ ";"]
  | .grantConnect database role =>
      ["GRANT CONNECT ON DATABASE " ++ database ++ " TO " ++ role.text ++ ";"]

/-! ## Their effect -/

inductive Right where
  | table (table : String) (privilege : Privilege)
  | usage (schema : String)
  | sequences (schema : String)
  | connect (database : String)
  deriving DecidableEq, Repr

structure PgState where
  roles : List String
  /-- A member and a role that it was given. -/
  members : List (String × String)
  rights : List (String × Right)
  deriving DecidableEq, Repr

inductive PgError where
  | undefinedRole (name : String)
  | duplicateRole (name : String)
  | reservedName (name : String)
  | circularMembership (role member : String)
  deriving DecidableEq, Repr

/-- `public`, `none` and what starts with `pg_` cannot be created. -/
def reserved (name : String) : Bool :=
  name = "public" || name = "none" || "pg_".toList.isPrefixOf name.toList

/-- The roles that a name was given directly. -/
def directRoles (members : List (String × String)) (name : String) : List String :=
  (members.filter fun m => m.1 = name).map Prod.snd

/-- A role with all roles that it is a member of. -/
def PgState.held (st : PgState) (name : String) : List String :=
  walk (directRoles st.members) (st.members.length + 2) [] name

/-- Rights for a role that has to exist. -/
def grantRights (st : PgState) (role : Ident) (rights : List Right) : Except PgError PgState :=
  if role.name ∈ st.roles then
    .ok { st with rights := st.rights ++ rights.map fun right => (role.name, right) }
  else .error (.undefinedRole role.name)

def exec (st : PgState) : Stmt → Except PgError PgState
  | .createRole role _ =>
      if role.raw ∈ st.roles then .ok st
      else if reserved role.name then .error (.reservedName role.name)
      else if role.name ∈ st.roles then .error (.duplicateRole role.name)
      else .ok { st with roles := st.roles ++ [role.name] }
  | .grantRole role member =>
      if role.name ∉ st.roles then .error (.undefinedRole role.name)
      else if member.name ∉ st.roles then .error (.undefinedRole member.name)
      else if member.name ∈ st.held role.name then
        .error (.circularMembership role.name member.name)
      else .ok { st with members := st.members ++ [(member.name, role.name)] }
  | .grantUsage schema role => grantRights st role [.usage (fold schema)]
  | .grantTable privileges table role =>
      grantRights st role (privileges.map fun p => .table (fold table) p)
  | .grantSequences schema role => grantRights st role [.sequences (fold schema)]
  | .grantConnect database role => grantRights st role [.connect (fold database)]

/-- The statements in order, up to the first that fails. -/
def run (st : PgState) (stmts : List Stmt) : Except PgError PgState := stmts.foldlM exec st

/-- A role has a right itself or through a role that it is a member of. -/
def PgState.Effective (st : PgState) (name : String) (right : Right) : Prop :=
  ∃ role, Reach (directRoles st.members) name role ∧ (role, right) ∈ st.rights

/-! ## Scripts -/

def Stmt.creates : Stmt → List String
  | .createRole role _ => [role.name]
  | _ => []

/-- The membership that a statement makes, from the member to the role. -/
def Stmt.edges : Stmt → List (String × String)
  | .grantRole role member => [(member.name, role.name)]
  | _ => []

def Stmt.gives : Stmt → List (String × Right)
  | .createRole _ _ | .grantRole _ _ => []
  | .grantUsage schema role => [(role.name, .usage (fold schema))]
  | .grantTable privileges table role => privileges.map fun p => (role.name, .table (fold table) p)
  | .grantSequences schema role => [(role.name, .sequences (fold schema))]
  | .grantConnect database role => [(role.name, .connect (fold database))]

/-- The existing roles that a statement names. -/
def Stmt.refs : Stmt → List Ident
  | .createRole _ _ => []
  | .grantRole role member => [role, member]
  | .grantUsage _ role | .grantTable _ _ role | .grantSequences _ role | .grantConnect _ role =>
      [role]

/-- What a server has become after some statements. -/
structure Ran (st₀ : PgState) (done : List Stmt) (st : PgState) : Prop where
  roles : ∀ name, name ∈ st.roles ↔ name ∈ st₀.roles ∨ name ∈ done.flatMap Stmt.creates
  members : st.members = st₀.members ++ done.flatMap Stmt.edges
  rights : st.rights = st₀.rights ++ done.flatMap Stmt.gives

/-- A statement that succeeds after the statements `done`, which created the roles
it names. -/
def Ready (st₀ : PgState) (done : List Stmt) (s : Stmt) : Prop :=
  (∀ role ∈ s.refs, role.name ∈ done.flatMap Stmt.creates) ∧
  match s with
  | .createRole role _ => role.raw = role.name ∧ reserved role.name = false
  | .grantRole role member =>
      ¬ Reach (directRoles (st₀.members ++ done.flatMap Stmt.edges)) role.name member.name
  | _ => True

theorem mem_directRoles {members : List (String × String)} {x y : String} :
    y ∈ directRoles members x ↔ (x, y) ∈ members := by
  simp [directRoles]

theorem PgState.mem_held {st : PgState} {x y : String} :
    y ∈ st.held x ↔ Reach (directRoles st.members) x y := by
  have hwithin : Within (directRoles st.members) (x :: st.members.map Prod.snd) := by
    intro z _ y hy
    exact List.mem_cons_of_mem _ (List.mem_map_of_mem (mem_directRoles.mp hy))
  exact mem_walk hwithin List.mem_cons_self (by simp)

instance (st : PgState) (name : String) (right : Right) : Decidable (st.Effective name right) :=
  decidable_of_iff (∃ role ∈ st.held name, (role, right) ∈ st.rights)
    (exists_congr fun _ => and_congr_left fun _ => PgState.mem_held)

theorem Ran.start (st₀ : PgState) : Ran st₀ [] st₀ where
  roles _ := by simp
  members := by simp
  rights := by simp

section Step

variable {st₀ st : PgState} {done : List Stmt}

theorem grantRights_ran (h : Ran st₀ done st) {s : Stmt} {role : Ident} {rights : List Right}
    (hcreates : s.creates = []) (hedges : s.edges = [])
    (hgives : s.gives = rights.map fun right => (role.name, right)) {st' : PgState}
    (hexec : grantRights st role rights = .ok st') : Ran st₀ (done ++ [s]) st' := by
  unfold grantRights at hexec
  split_ifs at hexec
  cases hexec
  constructor
  · simp [h.roles, hcreates]
  · simp [h.members, hedges]
  · simp [h.rights, hgives]

/-- A statement that succeeds adds what it says. -/
theorem exec_ran (h : Ran st₀ done st) {s : Stmt} {st' : PgState}
    (hraw : ∀ role login, s = .createRole role login → role.raw = role.name)
    (hexec : exec st s = .ok st') : Ran st₀ (done ++ [s]) st' := by
  cases s with
  | createRole role login =>
      simp only [exec, hraw role login rfl] at hexec
      split_ifs at hexec with hrole
      · cases hexec
        refine ⟨fun name => ?_, by simp [h.members, Stmt.edges], by simp [h.rights, Stmt.gives]⟩
        have hknown := (h.roles role.name).mp hrole
        simp only [h.roles, List.flatMap_append, List.mem_append, List.flatMap_singleton,
          Stmt.creates, List.mem_singleton, ← or_assoc]
        exact ⟨.inl, fun hname => hname.elim id fun heq => heq ▸ hknown⟩
      · cases hexec
        refine ⟨fun name => ?_, by simp [h.members, Stmt.edges], by simp [h.rights, Stmt.gives]⟩
        simp [h.roles, Stmt.creates, or_assoc]
  | grantRole role member =>
      simp only [exec] at hexec
      split_ifs at hexec
      cases hexec
      constructor
      · simp [h.roles, Stmt.creates]
      · simp [h.members, Stmt.edges]
      · simp [h.rights, Stmt.gives]
  | grantUsage schema role => exact grantRights_ran h rfl rfl rfl hexec
  | grantTable privileges table role =>
      exact grantRights_ran h rfl rfl (by simp [Stmt.gives]) hexec
  | grantSequences schema role => exact grantRights_ran h rfl rfl rfl hexec
  | grantConnect database role => exact grantRights_ran h rfl rfl rfl hexec

theorem grantRights_ready {role : Ident} {rights : List Right} (hrole : role.name ∈ st.roles) :
    ∃ st', grantRights st role rights = .ok st' := ⟨_, by rw [grantRights, if_pos hrole]⟩

/-- A statement that is ready succeeds. -/
theorem exec_ready (h : Ran st₀ done st) {s : Stmt} (hready : Ready st₀ done s) :
    ∃ st', exec st s = .ok st' := by
  obtain ⟨hrefs, hready⟩ := hready
  have hknown : ∀ role ∈ s.refs, role.name ∈ st.roles := fun role hrole =>
    (h.roles _).mpr (.inr (hrefs role hrole))
  cases s with
  | createRole role login =>
      obtain ⟨hraw, hreserved⟩ := hready
      by_cases hrole : role.name ∈ st.roles
      · exact ⟨st, by simp [exec, hraw, hrole]⟩
      · exact ⟨_, by simp only [exec, hraw, hrole, hreserved, if_false]; rfl⟩
  | grantRole role member =>
      have hrole := hknown role (by simp [Stmt.refs])
      have hmember := hknown member (by simp [Stmt.refs])
      have hcircle : member.name ∉ st.held role.name := by
        rw [PgState.mem_held, h.members]
        exact hready
      exact ⟨_, by simp only [exec, hrole, hmember, hcircle, not_true, if_false]; rfl⟩
  | grantUsage schema role => exact grantRights_ready (hknown role (by simp [Stmt.refs]))
  | grantTable privileges table role => exact grantRights_ready (hknown role (by simp [Stmt.refs]))
  | grantSequences schema role => exact grantRights_ready (hknown role (by simp [Stmt.refs]))
  | grantConnect database role => exact grantRights_ready (hknown role (by simp [Stmt.refs]))

/-- A script that ran to its end added what its statements say. -/
theorem run_ran {stmts : List Stmt} {st : PgState}
    (hraw : ∀ role login, .createRole role login ∈ stmts → role.raw = role.name)
    (hrun : run st₀ stmts = .ok st) : Ran st₀ stmts st := by
  -- over what is left, from any point of the script
  have hrest : ∀ rest done mid, Ran st₀ done mid →
      (∀ role login, .createRole role login ∈ rest → role.raw = role.name) →
      rest.foldlM exec mid = .ok st → Ran st₀ (done ++ rest) st := by
    intro rest
    induction rest with
    | nil =>
        intro done mid h _ hrun
        cases hrun
        simpa using h
    | cons s rest ih =>
        intro done mid h hraw hrun
        rw [List.foldlM_cons] at hrun
        cases hexec : exec mid s with
        | error e =>
            rw [hexec] at hrun
            cases hrun
        | ok next =>
            rw [hexec] at hrun
            have hnext := exec_ran h (fun role login heq => hraw role login (by simp [heq])) hexec
            simpa using ih (done ++ [s]) next hnext
              (fun role login hmem => hraw role login (List.mem_cons_of_mem _ hmem)) hrun
  exact hrest stmts [] st₀ (.start st₀) hraw hrun

/-- A script runs to its end when each statement is ready where it stands. -/
theorem run_ok {stmts : List Stmt}
    (hready : ∀ pre s post, stmts = pre ++ s :: post → Ready st₀ pre s) :
    ∃ st, run st₀ stmts = .ok st := by
  have hrest : ∀ rest done mid, Ran st₀ done mid →
      (∀ pre s post, rest = pre ++ s :: post → Ready st₀ (done ++ pre) s) →
      ∃ st, rest.foldlM exec mid = .ok st := by
    intro rest
    induction rest with
    | nil => exact fun done mid _ _ => ⟨mid, rfl⟩
    | cons s rest ih =>
        intro done mid h hready
        have hs : Ready st₀ done s := by simpa using hready [] s rest rfl
        obtain ⟨next, hexec⟩ := exec_ready h hs
        have hnext := exec_ran h (by rintro role login rfl; exact hs.2.1) hexec
        obtain ⟨st, hst⟩ := ih (done ++ [s]) next hnext fun pre s' post heq => by
          simpa using hready (s :: pre) s' post (by simp [heq])
        exact ⟨st, by simp [List.foldlM_cons, hexec, Bind.bind, Except.bind, hst]⟩
  exact hrest stmts [] st₀ (.start st₀) hready

end Step

/-! ## What roles can do afterwards -/

/-- A server whose facts are about its own roles, which have none of the names. -/
structure Fresh (st₀ : PgState) (names : List String) : Prop where
  members_known : ∀ m ∈ st₀.members, m.1 ∈ st₀.roles
  rights_known : ∀ r ∈ st₀.rights, r.1 ∈ st₀.roles
  new : ∀ name ∈ names, name ∉ st₀.roles

theorem Fresh.empty (names : List String) : Fresh ⟨[], [], []⟩ names where
  members_known _ hm := nomatch hm
  rights_known _ hr := nomatch hr
  new _ _ hname := nomatch hname

/-- From a new name, only new memberships lead on. -/
theorem Fresh.reach {st₀ : PgState} {names : List String} (h : Fresh st₀ names)
    {edges : List (String × String)} (hedges : ∀ e ∈ edges, e.2 ∈ names) {name role : String}
    (hname : name ∈ names) (hreach : Reach (directRoles (st₀.members ++ edges)) name role) :
    Reach (directRoles edges) name role ∧ role ∈ names := by
  induction hreach with
  | refl => exact ⟨.refl, hname⟩
  | tail _ hedge ih =>
      obtain ⟨hreach, hcreated⟩ := ih
      rw [Edge, mem_directRoles, List.mem_append] at hedge
      rcases hedge with hold | hnew
      · exact absurd (h.members_known _ hold) (h.new _ hcreated)
      · exact ⟨hreach.tail (mem_directRoles.mpr hnew), hedges _ hnew⟩

/-- More memberships lead to more roles. -/
theorem reach_mono {edges edges' : List (String × String)} (h : edges ⊆ edges') {x y : String}
    (hreach : Reach (directRoles edges) x y) : Reach (directRoles edges') x y := by
  refine Relation.ReflTransGen.mono (fun a b hab => ?_) _ _ hreach
  exact mem_directRoles.mpr (h (mem_directRoles.mp hab))

/-- The rights that a script gives a name, itself or through memberships. -/
def Granted (stmts : List Stmt) (name : String) (right : Right) : Prop :=
  ∃ role, Reach (directRoles (stmts.flatMap Stmt.edges)) name role ∧
    (role, right) ∈ stmts.flatMap Stmt.gives

/-- A new role can do what the script gave it, and nothing else. -/
theorem Ran.effective_iff {st₀ st : PgState} {stmts : List Stmt} (h : Ran st₀ stmts st)
    (hfresh : Fresh st₀ (stmts.flatMap Stmt.creates))
    (hedges : ∀ e ∈ stmts.flatMap Stmt.edges, e.2 ∈ stmts.flatMap Stmt.creates) {name : String}
    (hname : name ∈ stmts.flatMap Stmt.creates) {right : Right} :
    st.Effective name right ↔ Granted stmts name right := by
  constructor
  · rintro ⟨role, hrole, hright⟩
    rw [h.members] at hrole
    obtain ⟨hrole, hcreated⟩ := hfresh.reach hedges hname hrole
    rw [h.rights, List.mem_append] at hright
    rcases hright with hold | hnew
    · exact absurd (hfresh.rights_known _ hold) (hfresh.new _ hcreated)
    · exact ⟨role, hrole, hnew⟩
  · rintro ⟨role, hrole, hright⟩
    refine ⟨role, ?_, ?_⟩
    · rw [h.members]
      exact reach_mono (List.subset_append_right _ _) hrole
    · rw [h.rights]
      exact List.mem_append_right _ hright

end Policy
