import Beluga.Policy.PgSql
import Beluga.Policy.Valid

/-! # The PostgreSQL script

`compilePgDdl` of `compiler/pgddl.ts`: the script as items, comments and
statements in the source's order. The text and the statements that are executed
are two readings of the same items.
-/

namespace Policy

/-! ## Items -/

inductive DdlItem where
  /-- A comment or an empty line. -/
  | line (text : String)
  | stmt (s : Stmt)
  /-- Statements inside of `DO $$ … $$`. -/
  | block (ss : List Stmt)
  deriving DecidableEq, Repr

def DdlItem.lines : DdlItem → List String
  | .line text => [text]
  | .stmt s => s.lines
  | .block ss => ["DO $$", "BEGIN"] ++ ss.flatMap Stmt.lines ++ ["END $$;"]

def DdlItem.stmts : DdlItem → List Stmt
  | .line _ => []
  | .stmt s => [s]
  | .block ss => ss

/-! ## Compilation -/

/-- A policy role, which is not quoted. -/
def pgRole (name : String) : Ident := .bare (toPgRole name)

/-- A login keeps its hyphens and capitals. -/
def toPgLoginIdentifier (name : String) : Ident := .quoted name

def sortedRoles (d : Declaration) : List Role := Js.sortOn Role.name d.roles

def inheritanceStmts (d : Declaration) : List Stmt :=
  (sortedRoles d).flatMap fun r =>
    (Js.sort r.parents).map fun parent => .grantRole (pgRole parent) (pgRole r.name)

def pgResources (d : Declaration) : List Resource :=
  Js.sortOn Resource.resource (d.resources.filter fun r => r.engine = some .postgres)

/-- `res.resource.split(".")[0] ?? ""`. -/
def schemaOf (resource : String) : String := (resourceParts resource).headD ""

def pgSchemas (d : Declaration) : List String :=
  Js.sort ((pgResources d).map fun res => schemaOf res.resource).eraseDups

/-- The roles of the grants that pass, in the resources of a schema. -/
def rolesIn (d : Declaration) (passes : Grant → Bool) (schema : String) : List String :=
  Js.sort (((pgResources d).filter fun res => schemaOf res.resource = schema).flatMap fun res =>
    (res.grants.filter passes).flatMap (·.roles)).eraseDups

def schemaRoles (d : Declaration) (schema : String) : List String := rolesIn d (fun _ => true) schema

def sequenceRoles (d : Declaration) (schema : String) : List String :=
  rolesIn d (fun grant => .insert ∈ grant.privileges) schema

def usageStmts (d : Declaration) : List Stmt :=
  (pgSchemas d).flatMap fun schema =>
    (schemaRoles d schema).map fun role => .grantUsage schema (pgRole role)

/-- The keys of `PRIV_SQL`. -/
def PRIVILEGE_ORDER : List Privilege := [.select, .insert, .update, .delete]

def sortPrivileges (privileges : List Privilege) : List Privilege :=
  privileges.mergeSort fun a b => PRIVILEGE_ORDER.idxOf a ≤ PRIVILEGE_ORDER.idxOf b

def tableStmts (res : Resource) (grant : Grant) : List Stmt :=
  (Js.sort grant.roles).map fun role =>
    .grantTable (sortPrivileges grant.privileges) res.resource (pgRole role)

def allTableStmts (d : Declaration) : List Stmt :=
  (pgResources d).flatMap fun res => (Js.sortOn grantKey res.grants).flatMap (tableStmts res)

def sequenceStmts (d : Declaration) : List Stmt :=
  (pgSchemas d).flatMap fun schema =>
    (sequenceRoles d schema).map fun role => .grantSequences schema (pgRole role)

def sortedLogins (d : Declaration) : List PgLogin := Js.sortOn PgLogin.name d.loginList

def loginStmts (d : Declaration) : List Stmt :=
  (sortedLogins d).map fun login => .createRole (toPgLoginIdentifier login.name) true

def memberStmts (d : Declaration) : List Stmt :=
  (sortedLogins d).flatMap fun login =>
    (Js.sort login.memberOf).map fun role =>
      .grantRole (pgRole role) (toPgLoginIdentifier login.name)

/-- The roles that some table is granted to. -/
def postgresGrantRoles (d : Declaration) : List String :=
  ((pgResources d).flatMap fun res => res.grants.flatMap (·.roles)).eraseDups

/-- The roles that the logins of a database reach. -/
def rolesByDatabase (d : Declaration) (database : String) : List String :=
  ((sortedLogins d).filter fun login => login.database = database).flatMap fun login =>
    login.memberOf.flatMap (expandRoles d)

def databases (d : Declaration) : List String :=
  Js.sort ((sortedLogins d).map (·.database)).eraseDups

def connectStmts (d : Declaration) : List Stmt :=
  (databases d).flatMap fun database =>
    (Js.sort ((postgresGrantRoles d).filter fun role => role ∈ rolesByDatabase d database)).map
      fun role => .grantConnect database (pgRole role)

def roleItems (d : Declaration) : List DdlItem :=
  (sortedRoles d).map fun r => .block [.createRole (pgRole r.name) false]

def connectItems (d : Declaration) : List DdlItem :=
  if 0 < (postgresGrantRoles d).length ∧ 0 < (databases d).length then
    [.line "", .line "-- 6. CONNECT 권한 (테이블 그랜트 + 해당 DB의 LOGIN memberOf 교집합에서 유도)"] ++
      (connectStmts d).map .stmt
  else []

def loginItems (d : Declaration) : List DdlItem :=
  if 0 < (sortedLogins d).length then
    [.line "", .line "-- 4. LOGIN 계정 (D20, LDAP uid — 하이픈 보존, toPgRole() 미적용)",
      .block (loginStmts d), .line "", .line "-- 5. LOGIN 계정을 정책 롤에 바인딩"] ++
      (memberStmts d).map .stmt ++ connectItems d
  else []

def pgItems (d : Declaration) : List DdlItem :=
  [.line "-- 자동 생성 — 직접 수정하지 말 것. 원천: policies/*.yaml", .line "",
    .line "-- 1. 권한 롤 (NOLOGIN, 상속 가능)"] ++ roleItems d ++
    [.line "", .line "-- 2. 롤 상속 (D19)"] ++ (inheritanceStmts d).map .stmt ++
    [.line "", .line "-- 3. 스키마 및 테이블 권한 (allow-by-role, 명시적 GRANT만)"] ++
    (usageStmts d).map .stmt ++ (allTableStmts d).map .stmt ++ (sequenceStmts d).map .stmt ++
    loginItems d ++ [.line ""]

def compilePgDdl (d : Declaration) : String := Js.join "\n" ((pgItems d).flatMap DdlItem.lines)

/-- The statements of the script, in the order of their execution. -/
def ddl (d : Declaration) : List Stmt := (pgItems d).flatMap DdlItem.stmts

end Policy
