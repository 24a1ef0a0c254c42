import Beluga.Policy.Validate

/-! # The Rego policy

`compileRego` of `compiler/rego.ts`, in two steps: the rules it emits, as data,
and the text it writes for them. The order of rules, conditions and literals is
the source's; `Rule.Fires` is what a rule means to the policy engine, on the
requests that Trino sends.
-/

namespace Policy

/-! ## Rules -/

/-- The places of a request that a rule looks at. -/
inductive Path where
  | operation
  | catalogName
  | schemaCatalogName | schemaName
  | tableCatalogName | tableSchemaName | tableName
  | columnCatalogName | columnSchemaName | columnTableName | columnName
  | sessionPropertyCatalogName
  deriving DecidableEq, Repr

def Path.text : Path → String
  | .operation => "input.action.operation"
  | .catalogName => "input.action.resource.catalog.name"
  | .schemaCatalogName => "input.action.resource.schema.catalogName"
  | .schemaName => "input.action.resource.schema.schemaName"
  | .tableCatalogName => "input.action.resource.table.catalogName"
  | .tableSchemaName => "input.action.resource.table.schemaName"
  | .tableName => "input.action.resource.table.tableName"
  | .columnCatalogName => "input.action.resource.column.catalogName"
  | .columnSchemaName => "input.action.resource.column.schemaName"
  | .columnTableName => "input.action.resource.column.tableName"
  | .columnName => "input.action.resource.column.columnName"
  | .sessionPropertyCatalogName => "input.action.resource.catalogSessionProperty.catalogName"

inductive Condition where
  | eq (path : Path) (value : String)
  | oneOf (path : Path) (values : List String)
  /-- `some g in groups` and `g in {...}`. -/
  | someGroup (groups : List String)
  /-- `every ug in groups { not ug in {...} }`. -/
  | noGroup (groups : List String)
  deriving DecidableEq, Repr

inductive Head where
  | allow
  | rowFilters (expression : String)
  | columnMask (expression : String)
  deriving DecidableEq, Repr

structure Rule where
  comment : String
  head : Head
  body : List Condition
  deriving DecidableEq, Repr

/-! ## The text of a rule -/

/-- `values.map((v) => JSON.stringify(v)).join(", ")`. -/
def literals (values : List String) : String := Js.join ", " (values.map Js.stringify)

/-- A set of literals. -/
def setOf (values : List String) : String := "\x7b" ++ literals values ++ "\x7d"

def Condition.lines : Condition → List String
  | .eq path value => ["\t" ++ path.text ++ " == " ++ Js.stringify value]
  | .oneOf path values => ["\t" ++ path.text ++ " in " ++ setOf values]
  | .someGroup groups => ["\tsome g in groups", "\tg in " ++ setOf groups]
  | .noGroup groups => ["\tevery ug in groups \x7b not ug in " ++ setOf groups ++ " \x7d"]

def Head.text : Head → String
  | .allow => "allow if \x7b"
  | .rowFilters e => "rowFilters contains \x7b\"expression\": " ++ Js.stringify e ++ "\x7d if \x7b"
  | .columnMask e => "columnMask := \x7b\"expression\": " ++ Js.stringify e ++ "\x7d if \x7b"

def Rule.lines (r : Rule) : List String :=
  ("# " ++ r.comment) :: r.head.text :: r.body.flatMap Condition.lines ++ ["\x7d", ""]

/-! ## Compilation -/

/-- `MASK_EXPR[kind](col)`. -/
def maskExpr : MaskKind → String → String
  | .hash, col => "to_hex(sha256(cast(" ++ col ++ " as varbinary)))"
  | .partly, col => "concat(substr(" ++ col ++ ", 1, 2), '***')"
  | .null, _ => "null"

inductive ResourceShape where
  | none | catalog | schema | table | catalogSessionProperty
  deriving DecidableEq, Repr

/-- `OPERATION_RESOURCE_SHAPE`. -/
def QueryOperation.shape : QueryOperation → ResourceShape
  | .ExecuteQuery => .none
  | .AccessCatalog => .catalog
  | .ShowSchemas => .catalog
  | .FilterCatalogs => .catalog
  | .ShowTables => .schema
  | .FilterSchemas => .schema
  | .ShowFunctions => .schema
  | .ShowColumns => .table
  | .ShowCreateTable => .table
  | .FilterTables => .table
  | .FilterColumns => .table
  | .SetCatalogSessionProperty => .catalogSessionProperty

/-- `CATALOG_GUARD_PATH`, which has no entry for `none`. -/
def ResourceShape.catalogGuardPath : ResourceShape → Option Path
  | .none => Option.none
  | .catalog => some .catalogName
  | .schema => some .schemaCatalogName
  | .table => some .tableCatalogName
  | .catalogSessionProperty => some .sessionPropertyCatalogName

/-- The condition that the catalog of the resource is `catalog`. -/
def catalogGuard (shape : ResourceShape) (catalog : String) : List Condition :=
  (shape.catalogGuardPath.map fun path => .eq path catalog).toList

def sanitizeComment (value : String) : String := String.ofList (Js.flatten false value.toList)

/-- The resource name at its last dot. -/
def splitResource (resource : String) : Except String (String × String) :=
  let reversed := resource.toList.reverse
  if '.' ∈ resource.toList then
    .ok (String.ofList (reversed.dropWhile (· ≠ '.')).tail.reverse,
      String.ofList (reversed.takeWhile (· ≠ '.')).reverse)
  else .error ("리소스는 'schema.table' 형식이어야 한다: " ++ resource)

def operationOf : Privilege → String
  | .select => "SelectFromColumns"
  | .insert => "InsertIntoTable"
  | .update => "UpdateTableColumns"
  | .delete => "DeleteFromTable"

/-- The roles that effectively have one of `roles`. -/
def effective (d : Declaration) (roles : List String) : List String :=
  Js.sort (roles.flatMap (holdersOf d)).eraseDups

/-- The effective holders of the grants with `allowUnmasked: true`. -/
def unmaskedGroups (d : Declaration) (res : Resource) : List String :=
  effective d ((res.grants.filter Grant.optedOut).flatMap (·.roles))

/-- A grant without the opt-out does not mask or filter for those who opted out. -/
def unmaskedGuard (d : Declaration) (res : Resource) (grant : Grant) : List Condition :=
  if !grant.optedOut && !(unmaskedGroups d res).isEmpty then [.noGroup (unmaskedGroups d res)]
  else []

def tableGuard (schema table : String) : List Condition :=
  [.eq .tableCatalogName DEPLOYED_CATALOG, .eq .tableSchemaName schema, .eq .tableName table]

def columnGuard (schema table col : String) : List Condition :=
  [.eq .columnCatalogName DEPLOYED_CATALOG, .eq .columnSchemaName schema,
    .eq .columnTableName table, .eq .columnName col]

def allowRule (d : Declaration) (res : Resource) (schema table : String) (grant : Grant)
    (priv : Privilege) : Rule where
  comment := sanitizeComment res.resource ++ " — " ++ priv.text ++ " (" ++
    Js.join ", " ((effective d grant.roles).map sanitizeComment) ++ ")"
  head := .allow
  body := .eq .operation (operationOf priv) :: tableGuard schema table ++
    [.someGroup (effective d grant.roles)]

def rowFilterRule (d : Declaration) (res : Resource) (schema table : String) (grant : Grant)
    (filter : String) : Rule where
  comment := sanitizeComment res.resource ++ " — 행 필터"
  head := .rowFilters filter
  body := tableGuard schema table ++ [.someGroup grant.roles] ++ unmaskedGuard d res grant

def columnMaskRule (d : Declaration) (res : Resource) (schema table : String) (grant : Grant)
    (col : String) (kind : MaskKind) : Rule where
  comment := sanitizeComment res.resource ++ "." ++ sanitizeComment col ++ " — 마스킹(" ++
    kind.text ++ ")"
  head := .columnMask (maskExpr kind col)
  body := columnGuard schema table col ++ [.someGroup grant.roles] ++ unmaskedGuard d res grant

/-- An entry of a mask record as the default `sort` compares it. -/
def maskKey (mask : String × MaskKind) : String := mask.1 ++ "," ++ mask.2.text

/-- `if (grant.rowFilter)`: an empty filter is no filter. -/
def activeFilter (grant : Grant) : Option String := grant.rowFilter.filter (· ≠ "")

def grantRules (d : Declaration) (res : Resource) (schema table : String) (grant : Grant) :
    List Rule :=
  (Js.sortOn Privilege.text grant.privileges).map (allowRule d res schema table grant) ++
    (activeFilter grant).toList.map (rowFilterRule d res schema table grant) ++
    (Js.sortOn maskKey grant.masks).map fun mask =>
      columnMaskRule d res schema table grant mask.1 mask.2

def resourceRules (d : Declaration) (res : Resource) : Except String (List Rule) :=
  (splitResource res.resource).map fun parts =>
    (Js.sortOn grantKey res.grants).flatMap (grantRules d res parts.1 parts.2)

def trinoResources (d : Declaration) : List Resource :=
  Js.sortOn Resource.resource (d.resources.filter fun r => r.engineOrTrino = .trino)

/-- What the comments of a catalog grant say of its holders. -/
def effectiveComment (roles : List String) : String :=
  if 0 < roles.length then Js.join ", " (roles.map sanitizeComment) else "알 수 없는 롤 — 검증 우회"

def operationRule (cg : CatalogGrant) (roles : List String) (op : QueryOperation) : Rule where
  comment := "카탈로그 " ++ sanitizeComment cg.catalog ++ " — " ++ op.text ++ " (" ++
    effectiveComment roles ++ ")"
  head := .allow
  body := .eq .operation op.text :: catalogGuard op.shape cg.catalog ++ [.someGroup roles]

def informationSchemaRule (cg : CatalogGrant) (roles : List String) : Rule where
  comment := "카탈로그 " ++ sanitizeComment cg.catalog ++ " — information_schema SELECT (" ++
    effectiveComment roles ++ ", SHOW TABLES/COLUMNS 등이 내부적으로 요구)"
  head := .allow
  body := [.eq .operation "SelectFromColumns", .eq .tableCatalogName cg.catalog,
    .eq .tableSchemaName "information_schema", .someGroup roles]

def systemCatalogOperations : List (QueryOperation × ResourceShape) :=
  [(.AccessCatalog, .catalog), (.FilterCatalogs, .catalog), (.ShowSchemas, .catalog),
    (.FilterSchemas, .schema)]

def systemCatalogRule (roles : List String) (op : QueryOperation × ResourceShape) : Rule where
  comment := "Trino 내장 system 카탈로그 — " ++ op.1.text ++ " (" ++ effectiveComment roles ++
    ", Superset 메타데이터 검증용)"
  head := .allow
  body := .eq .operation op.1.text :: catalogGuard op.2 "system" ++ [.someGroup roles]

/-- `SYSTEM_METADATA_SCHEMA_GUARD_PATH` of the shapes it has. -/
def metadataSchemaPath : ResourceShape → Path
  | .schema => .schemaName
  | _ => .tableSchemaName

def systemMetadataOperations : List (String × ResourceShape) :=
  [("ShowTables", .schema), ("FilterTables", .table), ("ShowColumns", .table),
    ("FilterColumns", .table), ("SelectFromColumns", .table)]

def systemMetadataRule (roles : List String) (op : String × ResourceShape) : Rule where
  comment := "Trino 내장 system 메타데이터 — " ++ op.1 ++ " (" ++ effectiveComment roles ++
    ", metadata/jdbc만; runtime 제외)"
  head := .allow
  body := .eq .operation op.1 :: catalogGuard op.2 "system" ++
    [.oneOf (metadataSchemaPath op.2) ["jdbc", "metadata"], .someGroup roles]

def catalogRules (d : Declaration) (cg : CatalogGrant) : List Rule :=
  (Js.sortOn QueryOperation.text cg.operations).map (operationRule cg (effective d cg.roles)) ++
    [informationSchemaRule cg (effective d cg.roles)] ++
    if .AccessCatalog ∈ cg.operations then
      systemCatalogOperations.map (systemCatalogRule (effective d cg.roles)) ++
        systemMetadataOperations.map (systemMetadataRule (effective d cg.roles))
    else []

/-- The rules, or the error that a resource name without a dot throws. -/
def regoRules (d : Declaration) : Except String (List Rule) :=
  ((trinoResources d).mapM (resourceRules d)).map fun tables =>
    tables.flatten ++ (Js.sortOn CatalogGrant.catalog d.catalogGrantList).flatMap (catalogRules d)

def regoHeader : List String :=
  ["# 자동 생성 — 직접 수정하지 말 것. 원천: policies/*.yaml", "package trino", "", "import rego.v1", "",
    "default allow := false", "",
    "# 요청자의 그룹 (Trino OPA 입력의 실제 경로 — 라이브 실측: identity 키는 groups/user 뿐)",
    "groups := object.get(input, [\"context\", \"identity\", \"groups\"], [])", ""]

def compileRego (d : Declaration) : Except String String :=
  (regoRules d).map fun rules => Js.join "\n" (regoHeader ++ rules.flatMap Rule.lines)

/-! ## What the rules mean -/

/-- The resource of a request. -/
inductive TrinoResource where
  | none
  | catalog (name : String)
  | schema (catalogName schemaName : String)
  | table (catalogName schemaName tableName : String)
  | column (catalogName schemaName tableName columnName : String)
  | catalogSessionProperty (catalogName propertyName : String)
  /-- Any other kind. -/
  | other
  deriving DecidableEq, Repr

/-- A request with the groups of the token. -/
structure Input where
  operation : String
  resource : TrinoResource
  groups : List String
  deriving DecidableEq, Repr

def Input.get (i : Input) : Path → Option String
  | .operation => some i.operation
  | .catalogName => match i.resource with | .catalog c => some c | _ => Option.none
  | .schemaCatalogName => match i.resource with | .schema c _ => some c | _ => Option.none
  | .schemaName => match i.resource with | .schema _ s => some s | _ => Option.none
  | .tableCatalogName => match i.resource with | .table c _ _ => some c | _ => Option.none
  | .tableSchemaName => match i.resource with | .table _ s _ => some s | _ => Option.none
  | .tableName => match i.resource with | .table _ _ t => some t | _ => Option.none
  | .columnCatalogName => match i.resource with | .column c _ _ _ => some c | _ => Option.none
  | .columnSchemaName => match i.resource with | .column _ s _ _ => some s | _ => Option.none
  | .columnTableName => match i.resource with | .column _ _ t _ => some t | _ => Option.none
  | .columnName => match i.resource with | .column _ _ _ c => some c | _ => Option.none
  | .sessionPropertyCatalogName =>
      match i.resource with | .catalogSessionProperty c _ => some c | _ => Option.none

def Condition.Holds (i : Input) : Condition → Prop
  | .eq path value => i.get path = some value
  | .oneOf path values => ∃ value ∈ values, i.get path = some value
  | .someGroup groups => ∃ g ∈ i.groups, g ∈ groups
  | .noGroup groups => ∀ g ∈ i.groups, g ∉ groups

instance (i : Input) (c : Condition) : Decidable (c.Holds i) := by
  cases c <;> unfold Condition.Holds <;> infer_instance

def Rule.Fires (i : Input) (r : Rule) : Prop := ∀ c ∈ r.body, c.Holds i

instance (i : Input) (r : Rule) : Decidable (r.Fires i) :=
  inferInstanceAs (Decidable (∀ c ∈ r.body, c.Holds i))

/-- `allow` is false unless an `allow` rule fires. -/
def Allows (rules : List Rule) (i : Input) : Prop := ∃ r ∈ rules, r.head = .allow ∧ r.Fires i

instance (rules : List Rule) (i : Input) : Decidable (Allows rules i) :=
  inferInstanceAs (Decidable (∃ r ∈ rules, _))

end Policy
