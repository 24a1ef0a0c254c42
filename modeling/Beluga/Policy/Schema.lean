import Beluga.Js.Strings

/-! # Policy declarations

The types of `schema.ts`. A declaration may be built by any caller, so the
fields that only the YAML schema bounds (a list with at least one element, a
non-empty name) are plain here; what a declaration must satisfy is in
`Beluga.Policy.Validate`.
-/

namespace Policy

/-! ## Enumerations -/

inductive Privilege where
  | select | insert | update | delete
  deriving DecidableEq, Repr

def Privilege.text : Privilege → String
  | .select => "select"
  | .insert => "insert"
  | .update => "update"
  | .delete => "delete"

inductive MaskKind where
  | hash
  /-- `"partial"`. -/
  | partly
  | null
  deriving DecidableEq, Repr

def MaskKind.text : MaskKind → String
  | .hash => "hash"
  | .partly => "partial"
  | .null => "null"

inductive Engine where
  | trino | postgres
  deriving DecidableEq, Repr

def Engine.text : Engine → String
  | .trino => "trino"
  | .postgres => "postgres"

inductive Classification where
  | «public» | internal | pii
  deriving DecidableEq, Repr

/-- The operations that need no table grant. -/
inductive QueryOperation where
  | ExecuteQuery | AccessCatalog | ShowSchemas | ShowTables | ShowColumns | ShowCreateTable
  | ShowFunctions | SetCatalogSessionProperty | FilterCatalogs | FilterSchemas | FilterTables
  | FilterColumns
  deriving DecidableEq, Repr

def QueryOperation.text : QueryOperation → String
  | .ExecuteQuery => "ExecuteQuery"
  | .AccessCatalog => "AccessCatalog"
  | .ShowSchemas => "ShowSchemas"
  | .ShowTables => "ShowTables"
  | .ShowColumns => "ShowColumns"
  | .ShowCreateTable => "ShowCreateTable"
  | .ShowFunctions => "ShowFunctions"
  | .SetCatalogSessionProperty => "SetCatalogSessionProperty"
  | .FilterCatalogs => "FilterCatalogs"
  | .FilterSchemas => "FilterSchemas"
  | .FilterTables => "FilterTables"
  | .FilterColumns => "FilterColumns"

/-- The one catalog that is deployed. -/
def DEPLOYED_CATALOG : String := "iceberg"

/-! ## Declarations -/

/-- A `columnMask` object: its entries in enumeration order, one for each column. -/
structure MaskRecord where
  entries : List (String × MaskKind)
  keys_nodup : (entries.map Prod.fst).Nodup
  deriving DecidableEq

/-- A mask of one column. -/
def MaskRecord.single (column : String) (mask : MaskKind) : MaskRecord where
  entries := [(column, mask)]
  keys_nodup := List.nodup_singleton _

structure Grant where
  roles : List String
  privileges : List Privilege
  columnMask : Option MaskRecord := none
  rowFilter : Option String := none
  allowUnmasked : Option Bool := none
  deriving DecidableEq

/-- `Object.entries(grant.columnMask ?? {})`. -/
def Grant.masks (grant : Grant) : List (String × MaskKind) :=
  (grant.columnMask.map (·.entries)).getD []

/-- `grant.allowUnmasked === true`. -/
def Grant.optedOut (grant : Grant) : Bool := grant.allowUnmasked = some true

/-- `grant.roles.join()`. -/
def grantKey (grant : Grant) : String := Js.join "," grant.roles

theorem Grant.masks_nodup (grant : Grant) : (grant.masks.map Prod.fst).Nodup := by
  cases h : grant.columnMask with
  | none => simp [masks, h]
  | some record => simpa [masks, h] using record.keys_nodup

structure Resource where
  resource : String
  classification : Classification
  grants : List Grant
  sensitiveColumns : Option (List String) := none
  engine : Option Engine := none
  deriving DecidableEq

/-- `res.engine ?? "trino"`. -/
def Resource.engineOrTrino (res : Resource) : Engine := res.engine.getD .trino

/-- `res.sensitiveColumns ?? []`. -/
def Resource.sensitive (res : Resource) : List String := res.sensitiveColumns.getD []

structure Role where
  name : String
  includes : Option (List String) := none
  deriving DecidableEq

/-- `r.includes ?? []`. -/
def Role.parents (r : Role) : List String := r.includes.getD []

structure Group where
  name : String
  roles : List String
  deriving DecidableEq

structure CatalogGrant where
  catalog : String
  roles : List String
  operations : List QueryOperation
  deriving DecidableEq

structure PgLogin where
  name : String
  memberOf : List String
  database : String
  deriving DecidableEq

structure Declaration where
  roles : List Role
  groups : List Group
  resources : List Resource
  catalogGrants : Option (List CatalogGrant) := none
  logins : Option (List PgLogin) := none
  deriving DecidableEq

/-- `d.catalogGrants ?? []`. -/
def Declaration.catalogGrantList (d : Declaration) : List CatalogGrant := d.catalogGrants.getD []

/-- `d.logins ?? []`. -/
def Declaration.loginList (d : Declaration) : List PgLogin := d.logins.getD []

/-- The names of the declared roles. -/
def Declaration.roleNames (d : Declaration) : List String := d.roles.map (·.name)

end Policy
