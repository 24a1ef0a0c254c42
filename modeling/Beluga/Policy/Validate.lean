import Beluga.Policy.Roles
import Beluga.Text.Regex

/-! # Validation

`validateDeclaration` of `validate.ts`: the checks in their order, each with the
error it reports. An error keeps what it is about as data; `code` and `message`
are what the code puts into the object.
-/

namespace Policy

open Text

/-! ## Names and row filters -/

def identStart (c : Char) : Bool :=
  ('A' ≤ c && c ≤ 'Z') || ('a' ≤ c && c ≤ 'z') || c = '_'

def identRest (c : Char) : Bool := identStart c || Regex.digit c

def nameRest (c : Char) : Bool := identRest c || c = '-'

/-- `^[A-Za-z_][A-Za-z0-9_]*$`. -/
def IDENTIFIER : Regex := .seq (.char identStart) (.star (.char identRest))

/-- `^[A-Za-z_][A-Za-z0-9_-]*$`. -/
def ROLE_NAME : Regex := .seq (.char identStart) (.star (.char nameRest))

/-- The same expression for the names of accounts. -/
def LOGIN_NAME : Regex := .seq (.char identStart) (.star (.char nameRest))

section RowFilter

open Regex

def SPACES : Regex := star (char space)

def SPACES1 : Regex := plus (char space)

def IDENT : Regex := cat [IDENTIFIER, opt (cat [lit ".", IDENTIFIER])]

def NUMBER : Regex :=
  cat [opt (lit "-"), plus (char digit), opt (cat [lit ".", plus (char digit)])]

def STRING : Regex := cat [lit "'", star (char fun c => c ≠ '\'' && c ≠ '\\'), lit "'"]

def SESSION : Regex := lit "current_user"

def VALUE : Regex := any [NUMBER, STRING, SESSION]

def IN_LIST : Regex :=
  cat [lit "(", SPACES, VALUE, star (cat [SPACES, lit ",", SPACES, VALUE]), SPACES, lit ")"]

def COMPARISON : Regex := any (["<>", "!=", "<=", ">=", "=", "<", ">"].map lit)

def TERM : Regex :=
  any [cat [IDENT, SPACES, COMPARISON, SPACES, VALUE], cat [IDENT, SPACES1, lit "IN", SPACES, IN_LIST]]

/-- Terms joined by one connective only. -/
def chain (connective : String) : Regex :=
  (cat [SPACES, TERM, star (cat [SPACES1, lit connective, SPACES1, TERM]), SPACES]).caseless

def AND_CHAIN : Regex := chain "AND"

def OR_CHAIN : Regex := chain "OR"

end RowFilter

def ROW_FILTER_MAX_LENGTH : Nat := 200

def rowFilterValid (filter : String) : Bool :=
  (AND_CHAIN.test filter || OR_CHAIN.test filter) && decide (Js.length filter ≤ ROW_FILTER_MAX_LENGTH)

/-- A role name as a PG role name: hyphens become underscores, capitals small letters. -/
def toPgRole (name : String) : String :=
  String.ofList (name.toList.map fun c => if c = '-' then '_' else c.toLower)

/-! ## Errors -/

inductive ErrorCode where
  | CYCLIC_INHERITANCE | INVALID_IDENTIFIER | UNKNOWN_ROLE | ROLE_NAME_COLLISION
  | DUPLICATE_RESOURCE | PII_NO_SENSITIVE_COLUMNS | POSTGRES_UNSUPPORTED_MASK
  | POSTGRES_UNSUPPORTED_ROW_FILTER | ROW_FILTER_REJECTED | PII_UNMASKED | CONFLICTING_MASK
  | UNSUPPORTED_CATALOG | DUPLICATE_CATALOG_GRANT | LOGIN_NAME_COLLISION
  deriving DecidableEq, Repr

/-- Where a role is named, for the two checks that every such place has. -/
inductive RolePlace where
  | parent (role : String)
  | group (group : String)
  | grant (resource : String)
  | catalogGrant (catalog : String)
  | login (login : String)
  deriving DecidableEq, Repr

inductive ValidationError where
  | cyclicInheritance (cycle : List String)
  | invalidRoleName (name : String)
  | unknownRole (place : RolePlace) (role : String)
  | invalidRole (place : RolePlace) (role : String)
  | roleNameCollision (pg : String) (offenders : List String)
  | invalidGroupName (name : String)
  | duplicateResource (name : String) (count : Nat)
  | invalidResource (resource : String)
  | invalidSensitiveColumn (resource col : String)
  | piiNoSensitiveColumns (resource : String)
  | postgresUnsupportedMask (resource : String)
  | postgresUnsupportedRowFilter (resource : String)
  | invalidMaskKey (resource col : String)
  | rowFilterRejected (resource filter : String)
  | piiUnmasked (resource : String) (uncovered roles : List String)
  | conflictingMask (resource col : String) (roles roles' : List String) (kind kind' : MaskKind)
      (overlap : List String)
  | unsupportedCatalog (catalog : String)
  | duplicateCatalogGrant (catalog op : String) (count : Nat)
  | invalidLoginName (name : String)
  | invalidDatabase (login database : String)
  | loginNameCollision (name : String)
  deriving DecidableEq, Repr

namespace ValidationError

def code : ValidationError → ErrorCode
  | cyclicInheritance _ => .CYCLIC_INHERITANCE
  | unknownRole _ _ => .UNKNOWN_ROLE
  | roleNameCollision _ _ => .ROLE_NAME_COLLISION
  | duplicateResource _ _ => .DUPLICATE_RESOURCE
  | piiNoSensitiveColumns _ => .PII_NO_SENSITIVE_COLUMNS
  | postgresUnsupportedMask _ => .POSTGRES_UNSUPPORTED_MASK
  | postgresUnsupportedRowFilter _ => .POSTGRES_UNSUPPORTED_ROW_FILTER
  | rowFilterRejected _ _ => .ROW_FILTER_REJECTED
  | piiUnmasked _ _ _ => .PII_UNMASKED
  | conflictingMask _ _ _ _ _ _ _ => .CONFLICTING_MASK
  | unsupportedCatalog _ => .UNSUPPORTED_CATALOG
  | duplicateCatalogGrant _ _ _ => .DUPLICATE_CATALOG_GRANT
  | loginNameCollision _ => .LOGIN_NAME_COLLISION
  | invalidRoleName _ | invalidRole _ _ | invalidGroupName _ | invalidResource _
  | invalidSensitiveColumn _ _ | invalidMaskKey _ _ | invalidLoginName _ | invalidDatabase _ _ =>
      .INVALID_IDENTIFIER

/-- `xs.join(", ")`. -/
def list (xs : List String) : String := Js.join ", " xs

def unknownRoleMessage (role : String) : RolePlace → String
  | .parent r => "롤 '" ++ r ++ "'이 없는 롤 '" ++ role ++ "'을 상속한다"
  | .group g => "그룹 '" ++ g ++ "'이 없는 롤 '" ++ role ++ "'을 참조한다"
  | .grant res => "리소스 '" ++ res ++ "'가 없는 롤 '" ++ role ++ "'을 참조한다"
  | .catalogGrant c => "카탈로그 그랜트 '" ++ c ++ "'가 없는 롤 '" ++ role ++ "'을 참조한다"
  | .login l => "LOGIN 계정 '" ++ l ++ "'이 없는 롤 '" ++ role ++ "'을 참조한다(memberOf)"

/-- The code makes this check in every place but `memberOf`. -/
def invalidRoleMessage (role : String) : RolePlace → String
  | .parent r => "롤 '" ++ r ++ "'의 includes 항목 '" ++ role ++ "'이 올바른 형식이 아니다"
  | .group g => "그룹 '" ++ g ++ "'의 롤 항목 '" ++ role ++ "'이 올바른 형식이 아니다"
  | .grant res => "리소스 '" ++ res ++ "'의 그랜트 롤 '" ++ role ++ "'이 올바른 형식이 아니다"
  | .catalogGrant c => "카탈로그 그랜트 '" ++ c ++ "'의 롤 '" ++ role ++ "'이 올바른 형식이 아니다"
  | .login _ => ""

def message : ValidationError → String
  | cyclicInheritance cycle => "롤 상속에 순환이 있다: " ++ Js.join " -> " cycle
  | invalidRoleName name =>
      "롤 이름 '" ++ name ++ "'이 올바른 형식이 아니다([A-Za-z_][A-Za-z0-9_-]*)"
  | unknownRole place role => unknownRoleMessage role place
  | invalidRole place role => invalidRoleMessage role place
  | roleNameCollision pg offenders =>
      "롤 이름 " ++ list (offenders.map fun n => "'" ++ n ++ "'") ++ "이(가) 모두 PG 롤 '" ++ pg ++
        "'로 정규화된다 — 하나를 다른 이름으로 바꿔야 한다"
  | invalidGroupName name =>
      "그룹 이름 '" ++ name ++ "'이 올바른 형식이 아니다([A-Za-z_][A-Za-z0-9_-]*)"
  | duplicateResource name count =>
      "리소스 '" ++ name ++ "'이 선언에서 " ++ toString count ++
        "번 나온다 — 그랜트를 한 엔트리로 합쳐야 한다(엔트리를 나누면 서로의 그랜트가 비교되지 않아 마스킹 충돌 검사를 우회한다)"
  | invalidResource resource =>
      "리소스 '" ++ resource ++
        "'는 'schema.table' 형식이어야 하며 두 부분 모두 식별자([A-Za-z_][A-Za-z0-9_]*)여야 한다"
  | invalidSensitiveColumn resource col =>
      "리소스 '" ++ resource ++ "'의 sensitiveColumns 항목 '" ++ col ++ "'이 식별자가 아니다"
  | piiNoSensitiveColumns resource =>
      "PII 리소스 '" ++ resource ++
        "'에 sensitiveColumns가 없다 — 무엇을 가려야 하는지 선언하지 않으면 마스킹을 강제할 수 없다"
  | postgresUnsupportedMask resource =>
      "PostgreSQL 리소스 '" ++ resource ++
        "'는 columnMask를 지원하지 않는다 — 표준 테이블 GRANT만 컴파일한다"
  | postgresUnsupportedRowFilter resource =>
      "PostgreSQL 리소스 '" ++ resource ++
        "'는 rowFilter를 지원하지 않는다 — 표준 테이블 GRANT만 컴파일한다"
  | invalidMaskKey resource col =>
      "리소스 '" ++ resource ++ "'의 columnMask 키 '" ++ col ++ "'이 식별자가 아니다"
  | rowFilterRejected resource filter =>
      "리소스 '" ++ resource ++
        "'의 rowFilter가 허용 문법이 아니다. AND와 OR을 섞을 수 없으며, 괄호는 미지원된다: " ++ filter
  | piiUnmasked resource uncovered roles =>
      "PII 리소스 '" ++ resource ++ "'의 민감 컬럼 " ++ list uncovered ++
        "이(가) 마스킹되지 않은 채 select에 노출된다 (롤: " ++ list roles ++ ")"
  | conflictingMask resource col roles roles' kind kind' overlap =>
      "리소스 '" ++ resource ++ "'의 컬럼 '" ++ col ++ "'을 롤 [" ++ list roles ++ "] 그랜트와 롤 [" ++
        list roles' ++ "] 그랜트가 서로 다른 방식(" ++ kind.text ++ "/" ++ kind'.text ++
        ")으로 마스킹하며, 그 보유자가 겹친다(" ++
        list ((Js.sort overlap.eraseDups).map describeHolder) ++
        ") — OPA가 평가 시 eval_conflict_error를 낸다"
  | unsupportedCatalog catalog =>
      "카탈로그 그랜트가 '" ++ catalog ++ "'를 참조하지만 이 프로젝트는 '" ++ DEPLOYED_CATALOG ++
        "' 카탈로그 하나만 배포한다(src/schema.ts의 DEPLOYED_CATALOG). 두 번째 카탈로그가 실제로 배포되면 그 상수를 먼저 바꿀 것"
  | duplicateCatalogGrant catalog op count =>
      "카탈로그 '" ++ catalog ++ "'의 오퍼레이션 '" ++ op ++ "'이 catalogGrants에서 " ++ toString count ++
        "번 선언된다 — 같은 (카탈로그, 오퍼레이션) 조합을 여러 엔트리로 나누면 동일하거나 겹치는 allow 규칙이 중복 방출된다. 한 엔트리로 합칠 것"
  | invalidLoginName name =>
      "LOGIN 계정 이름 '" ++ name ++ "'이 올바른 형식이 아니다([A-Za-z_][A-Za-z0-9_-]*)"
  | invalidDatabase login database =>
      "LOGIN 계정 '" ++ login ++ "'의 database '" ++ database ++
        "'이 올바른 형식이 아니다([A-Za-z_][A-Za-z0-9_]*)"
  | loginNameCollision name =>
      "LOGIN 계정 이름 '" ++ name ++ "'이 선언된 롤의 PG 롤 이름과 같다 — 레거시 특권 롤 별칭과 충돌한다"

end ValidationError

/-! ## The checks -/

open ValidationError

/-- The error of a check that failed. -/
def require (ok : Bool) (e : ValidationError) : List ValidationError := if ok then [] else [e]

/-- A role that is named somewhere is declared. -/
def knownRole (d : Declaration) (place : RolePlace) (role : String) : List ValidationError :=
  require (decide (role ∈ d.roleNames)) (.unknownRole place role)

/-- A role that is named somewhere is declared and has the form of a role name. -/
def roleReference (d : Declaration) (place : RolePlace) (role : String) : List ValidationError :=
  knownRole d place role ++ require (ROLE_NAME.test role) (.invalidRole place role)

def cycleErrors (d : Declaration) : List ValidationError :=
  match findCycle d with
  | none => []
  | some cycle => [.cyclicInheritance cycle]

def roleErrors (d : Declaration) (r : Role) : List ValidationError :=
  require (ROLE_NAME.test r.name) (.invalidRoleName r.name) ++
    r.parents.flatMap (roleReference d (.parent r.name))

/-- The roles that become one PG role. -/
def byPgRole (d : Declaration) (pg : String) : List String :=
  d.roleNames.filter fun name => toPgRole name = pg

def collisionErrors (d : Declaration) : List ValidationError :=
  (Js.sort (d.roleNames.map toPgRole).eraseDups).flatMap fun pg =>
    require (decide ((byPgRole d pg).length ≤ 1)) (.roleNameCollision pg (Js.sort (byPgRole d pg)))

def groupErrors (d : Declaration) (g : Group) : List ValidationError :=
  require (ROLE_NAME.test g.name) (.invalidGroupName g.name) ++
    g.roles.flatMap (roleReference d (.group g.name))

def resourceKey (res : Resource) : String := res.engineOrTrino.text ++ ":" ++ res.resource

/-- `key.split(":", 2)[1]`. -/
def keyName (key : String) : String := String.ofList ((key.toList.splitOn ':')[1]?.getD [])

def duplicateResourceErrors (d : Declaration) : List ValidationError :=
  (Js.sort (d.resources.map resourceKey).eraseDups).flatMap fun key =>
    require (decide ((d.resources.map resourceKey).count key ≤ 1))
      (.duplicateResource (keyName key) ((d.resources.map resourceKey).count key))

/-- `res.resource.split(".")`. -/
def resourceParts (resource : String) : List String :=
  (resource.toList.splitOn '.').map String.ofList

def resourceValid (resource : String) : Bool :=
  (resourceParts resource).length = 2 && (resourceParts resource).all IDENTIFIER.test

/-- The sensitive columns that a grant leaves as they are. -/
def uncovered (res : Resource) (grant : Grant) : List String :=
  res.sensitive.filter fun c => decide (c ∉ grant.masks.map Prod.fst)

def grantErrors (d : Declaration) (res : Resource) (grant : Grant) : List ValidationError :=
  require (!(res.engine = some .postgres && grant.columnMask.isSome))
      (.postgresUnsupportedMask res.resource) ++
    require (!(res.engine = some .postgres && grant.rowFilter.isSome))
      (.postgresUnsupportedRowFilter res.resource) ++
    grant.roles.flatMap (roleReference d (.grant res.resource)) ++
    (grant.masks.map Prod.fst).flatMap (fun col =>
      require (IDENTIFIER.test col) (.invalidMaskKey res.resource col)) ++
    (match grant.rowFilter with
      | none => []
      | some filter => require (rowFilterValid filter) (.rowFilterRejected res.resource filter)) ++
    require (!(res.classification = .pii && .select ∈ grant.privileges && !grant.optedOut &&
        0 < (uncovered res grant).length))
      (.piiUnmasked res.resource (uncovered res grant) grant.roles)

/-- All who hold a grant, roles and tagged groups. -/
def grantHolders (d : Declaration) (grant : Grant) : List String :=
  (grant.roles.flatMap (holdersOfIncludingGroups d)).eraseDups

/-- All who hold a grant of the resource with `allowUnmasked: true`. -/
def resourceUnmasked (d : Declaration) (res : Resource) : List String :=
  ((res.grants.filter Grant.optedOut).flatMap fun g =>
    g.roles.flatMap (holdersOfIncludingGroups d)).eraseDups

/-- The grants that mask a column, each with its kind. -/
def maskedBy (res : Resource) (col : String) : List (Grant × MaskKind) :=
  res.grants.flatMap fun grant =>
    (grant.masks.filter fun mask => mask.1 = col).map fun mask => (grant, mask.2)

/-- Every two elements, in order. -/
def pairs {α : Type} : List α → List (α × α)
  | [] => []
  | x :: xs => xs.map (fun y => (x, y)) ++ pairs xs

/-- The holders for whom two masks of one column would both apply. -/
def overlap (d : Declaration) (res : Resource) (a b : Grant) : List String :=
  let both := (grantHolders d a).filter fun h => decide (h ∈ grantHolders d b)
  if a.optedOut then both else both.filter fun h => decide (h ∉ resourceUnmasked d res)

def conflictErrors (d : Declaration) (res : Resource) : List ValidationError :=
  (Js.sort (res.grants.flatMap fun g => g.masks.map Prod.fst).eraseDups).flatMap fun col =>
    (pairs (maskedBy res col)).flatMap fun (a, b) =>
      require (a.2 = b.2 || a.1.optedOut != b.1.optedOut || (overlap d res a.1 b.1).isEmpty)
        (.conflictingMask res.resource col a.1.roles b.1.roles a.2 b.2 (overlap d res a.1 b.1))

def resourceErrors (d : Declaration) (res : Resource) : List ValidationError :=
  require (resourceValid res.resource) (.invalidResource res.resource) ++
    res.sensitive.flatMap (fun col =>
      require (IDENTIFIER.test col) (.invalidSensitiveColumn res.resource col)) ++
    require (!(res.classification = .pii && res.sensitive.isEmpty))
      (.piiNoSensitiveColumns res.resource) ++
    res.grants.flatMap (grantErrors d res) ++
    conflictErrors d res

def catalogGrantErrors (d : Declaration) (cg : CatalogGrant) : List ValidationError :=
  require (decide (cg.catalog = DEPLOYED_CATALOG)) (.unsupportedCatalog cg.catalog) ++
    cg.roles.flatMap (roleReference d (.catalogGrant cg.catalog))

/-- Every operation of every catalog grant, with its catalog. -/
def catalogOperations (d : Declaration) : List (String × String) :=
  d.catalogGrantList.flatMap fun cg => cg.operations.map fun op => (cg.catalog, op.text)

/-- `JSON.stringify([catalog, op])`, which tells all pairs apart. -/
def operationKey (pair : String × String) : String :=
  "[" ++ Js.stringify pair.1 ++ "," ++ Js.stringify pair.2 ++ "]"

def duplicateCatalogGrantErrors (d : Declaration) : List ValidationError :=
  (Js.sortOn operationKey (catalogOperations d).eraseDups).flatMap fun pair =>
    require (decide ((catalogOperations d).count pair ≤ 1))
      (.duplicateCatalogGrant pair.1 pair.2 ((catalogOperations d).count pair))

def loginErrors (d : Declaration) (login : PgLogin) : List ValidationError :=
  require (LOGIN_NAME.test login.name) (.invalidLoginName login.name) ++
    require (IDENTIFIER.test login.database) (.invalidDatabase login.name login.database) ++
    require (decide (login.name ∉ d.roleNames.map toPgRole)) (.loginNameCollision login.name) ++
    login.memberOf.flatMap (knownRole d (.login login.name))

def validateDeclaration (d : Declaration) : List ValidationError :=
  cycleErrors d ++ d.roles.flatMap (roleErrors d) ++ collisionErrors d ++
    d.groups.flatMap (groupErrors d) ++ duplicateResourceErrors d ++
    d.resources.flatMap (resourceErrors d) ++ d.catalogGrantList.flatMap (catalogGrantErrors d) ++
    duplicateCatalogGrantErrors d ++ d.loginList.flatMap (loginErrors d)

end Policy
