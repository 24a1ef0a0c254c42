import Beluga.Interact.Pages
import Beluga.Upstream.AssetIdRules
import Beluga.Upstream.MemoServe

/-! # The Lakekeeper listings

`lakekeeperCatalog.ts`: the children of a node in the hierarchy of data assets, read
from an Iceberg REST catalog. Below a catalog there are namespaces, below a schema
namespaces and tables. What the client answers is a parameter, per call and token;
`prefixFor` is one too. A listing that the memo already has is the one of its load.
-/

namespace Upstream

open Interact Js

namespace LakekeeperCatalog

def PAGE_SIZE : Nat := 100

def MAX_PAGES : Nat := 10

def SERVICE_ID : String := "svc-iceberg"

structure ListWarning where
  code : String
  message : String
  serviceId : String
  deriving DecidableEq, Repr

def NODE_AUTHZ_WARNING : ListWarning where
  code := "NODE_AUTHZ_NOT_ENFORCED"
  message := "Visibility reflects Manager's service credential at the catalog, not the end user; " ++
    "node-level OPA filtering is not implemented (ADR-0004 D7)"
  serviceId := SERVICE_ID

def LISTING_TRUNCATED : ListWarning where
  code := "LISTING_TRUNCATED"
  message := "Upstream listing exceeded " ++ toString (MAX_PAGES * PAGE_SIZE) ++
    " items and was truncated"
  serviceId := SERVICE_ID

structure CatalogMapping where
  name : String
  warehouse : String
  deriving DecidableEq, Repr

/-- An entry of a page of tables. -/
structure Identifier where
  namespaces : List String
  name : String
  deriving DecidableEq, Repr

/-- What the client answers: the prefix of a warehouse, the namespaces below a parent and the
tables in a namespace. -/
structure Catalog where
  prefixFor : CatalogMapping → Except LoadError String
  namespaces : String → List String → Source LoadError (List String)
  tables : String → List String → Source LoadError Identifier

/-! ## Assets -/

structure DataAsset where
  id : String
  name : String
  kind : DataAssetKind
  serviceId : String
  status : String
  catalog : String
  namespaces : List String
  parentId : Option String
  path : List String
  deriving DecidableEq, Repr

/-- `dataAssetSchema`. -/
def DataAsset.valid (a : DataAsset) : Bool :=
  a.id ≠ "" && a.name ≠ "" && a.serviceId ≠ "" && a.catalog ≠ "" && a.namespaces.all (· ≠ "") &&
    a.parentId ≠ some "" && a.path.all (· ≠ "")

/-- `dataAssetSchema.parse(asset)`. -/
def parse (a : DataAsset) : Except LoadError DataAsset :=
  if a.valid then .ok a else .error .other

def catalogId (catalog : String) : String := deriveAssetId .catalog [catalog]

def schemaId (catalog : String) (ns : List String) : String := deriveAssetId .schema (catalog :: ns)

def catalogAsset (catalog : String) : DataAsset where
  id := catalogId catalog
  name := catalog
  kind := .catalog
  serviceId := SERVICE_ID
  status := "unknown"
  catalog := catalog
  namespaces := []
  parentId := none
  path := []

def schemaAsset (catalog : String) (ns : List String) : DataAsset where
  id := schemaId catalog ns
  name := join "." ns
  kind := .schema
  serviceId := SERVICE_ID
  status := "unknown"
  catalog := catalog
  namespaces := ns
  parentId := some (if ns.length = 1 then catalogId catalog else schemaId catalog ns.dropLast)
  path := catalog :: ns.dropLast

def tableAsset (catalog : String) (ns : List String) (table : String) : DataAsset where
  id := deriveAssetId .table (catalog :: ns ++ [table])
  name := join "." ns ++ "." ++ table
  kind := .table
  serviceId := SERVICE_ID
  status := "unknown"
  catalog := catalog
  namespaces := ns
  parentId := some (schemaId catalog ns)
  path := catalog :: ns

/-! ## Listings -/

def malformed : LoadError := .upstream .malformed

/-- A page of namespaces: each is one level below the parent, or the page is malformed; those that
cannot be addressed are left out. -/
def checkNamespaces (parent : List String) (p : Page (List String)) :
    Except LoadError (Page (List String)) :=
  if !p.items.all (fun ns => ns ≠ [] && ns.all (· ≠ "")) then .error malformed
  else if p.items.any fun ns =>
      ns.length ≠ parent.length + 1 || parent.zipIdx.any fun seg => ns[seg.2]? ≠ some seg.1 then
    .error malformed
  else .ok { p with items := p.items.filter (·.all isSafeUpstreamSegment) }

/-- A page of tables. -/
def checkTables (p : Page Identifier) : Except LoadError (Page Identifier) :=
  if !p.items.all (·.name ≠ "") then .error malformed
  else .ok { p with items := p.items.filter (isSafeUpstreamSegment ·.name) }

def warn (truncated : Bool) : List ListWarning := if truncated then [LISTING_TRUNCATED] else []

def listNamespaces (c : Catalog) (base : String) (parent : List String) :
    Except LoadError (List (List String) × Bool) :=
  drain MAX_PAGES (checked (c.namespaces base parent) (checkNamespaces parent))

/-- `nsPath` refuses a namespace that cannot be addressed. -/
def listTables (c : Catalog) (base : String) (ns : List String) :
    Except LoadError (List Identifier × Bool) :=
  if ns.all isSafeUpstreamSegment then
    drain MAX_PAGES (checked (c.tables base ns) checkTables)
  else .error malformed

/-- `byName.get(name)`: of mappings with one name the last. -/
def byName (catalogs : List CatalogMapping) (name : String) : Option CatalogMapping :=
  catalogs.reverse.find? (·.name = name)

structure DataAssetListResult where
  assets : List DataAsset
  warnings : List ListWarning
  deriving DecidableEq, Repr

/-- The children of a catalog or of a schema. -/
def listChildren (c : Catalog) (catalog base : String) (kind : DataAssetKind) (ns : List String) :
    Except LoadError DataAssetListResult := do
  let (children, truncated) ← listNamespaces c base ns
  let schemas ← children.mapM fun child => parse (schemaAsset catalog child)
  if kind = .schema then
    let (identifiers, truncated') ← listTables c base ns
    let tables ← identifiers.mapM fun id => parse (tableAsset catalog ns id.name)
    return ⟨schemas ++ tables, NODE_AUTHZ_WARNING :: warn truncated ++ warn truncated'⟩
  return ⟨schemas, NODE_AUTHZ_WARNING :: warn truncated⟩

def listUncached (catalogs : List CatalogMapping) (c : Catalog) (parentId : Option String) :
    Except LoadError DataAssetListResult :=
  match parentId with
  | none => do
      for mapping in catalogs do
        let _ ← c.prefixFor mapping
      let assets ← catalogs.mapM fun mapping => parse (catalogAsset mapping.name)
      return ⟨assets, [NODE_AUTHZ_WARNING]⟩
  | some parentId =>
      match parseAssetId parentId with
      | some ⟨kind, catalog :: ns⟩ =>
          if kind = .table then .ok ⟨[], [NODE_AUTHZ_WARNING]⟩
          else
            match byName catalogs catalog with
            | none => .ok ⟨[], [NODE_AUTHZ_WARNING]⟩
            | some mapping => do
                let base ← c.prefixFor mapping
                listChildren c mapping.name base kind ns
      | _ => .ok ⟨[], [NODE_AUTHZ_WARNING]⟩

/-- `list({ parentId })`: what cannot be listed is answered before the memo. -/
def list (catalogs : List CatalogMapping) (c : Catalog) (parentId : Option String) :
    Except LoadError DataAssetListResult :=
  match parentId with
  | none => listUncached catalogs c none
  | some id =>
      match parseAssetId id with
      | some ⟨kind, catalog :: _⟩ =>
          if kind = .table ∨ byName catalogs catalog = none then .ok ⟨[], [NODE_AUTHZ_WARNING]⟩
          else listUncached catalogs c (some id)
      | _ => .ok ⟨[], [NODE_AUTHZ_WARNING]⟩

end LakekeeperCatalog

end Upstream
