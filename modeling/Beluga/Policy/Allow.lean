import Beluga.Policy.RegoRules

/-! # What the Rego policy allows

The declarative meaning of a declaration on the requests of Trino, next to the
`allow` rules that are compiled from it, family by family:

* `TableGrant`: a privilege on a declared table;
* `CatalogOperation`: an operation that a catalog grant lists;
* `InformationSchema`: reading the schema that every catalog brings along;
* `SystemBrowse`: the fixed requests on the built-in catalog `system`.

`allows_iff` is the agreement of the two, and what it says of `system.runtime`.
-/

namespace Policy

variable {d : Declaration} {i : Input}

/-! ## The meaning -/

/-- A role of the token is among `roles`. -/
def Input.Has (i : Input) (roles : List String) : Prop := ∃ role ∈ roles, role ∈ i.groups

instance (i : Input) (roles : List String) : Decidable (i.Has roles) :=
  inferInstanceAs (Decidable (∃ role ∈ roles, _))

/-- The operation of a privilege on a declared table, for a role that is granted it. -/
def TableGrant (d : Declaration) (i : Input) : Prop :=
  ∃ res ∈ d.resources, res.engineOrTrino = .trino ∧ ∃ schema table,
    res.resource = schema ++ "." ++ table ∧ i.resource = .table DEPLOYED_CATALOG schema table ∧
    ∃ grant ∈ res.grants, i.Has grant.roles ∧ ∃ p ∈ grant.privileges, i.operation = operationOf p

/-- The resource has the shape and lies in the catalog; an operation without a
resource lies in every catalog. -/
def InCatalog (catalog : String) : ResourceShape → TrinoResource → Prop
  | .none, _ => True
  | .catalog, .catalog c => c = catalog
  | .schema, .schema c _ => c = catalog
  | .table, .table c _ _ => c = catalog
  | .catalogSessionProperty, .catalogSessionProperty c _ => c = catalog
  | _, _ => False

def CatalogOperation (cg : CatalogGrant) (i : Input) : Prop :=
  i.Has cg.roles ∧ ∃ op ∈ cg.operations, i.operation = op.text ∧
    InCatalog cg.catalog op.shape i.resource

def InformationSchema (cg : CatalogGrant) (i : Input) : Prop :=
  i.Has cg.roles ∧ i.operation = "SelectFromColumns" ∧
    ∃ table, i.resource = .table cg.catalog "information_schema" table

/-- The schemas of `system` that may be browsed. -/
def metadataSchemas : List String := ["jdbc", "metadata"]

/-- The fixed requests on the catalog `system`. -/
inductive SystemBrowse : String → TrinoResource → Prop where
  | accessCatalog : SystemBrowse "AccessCatalog" (.catalog "system")
  | filterCatalogs : SystemBrowse "FilterCatalogs" (.catalog "system")
  | showSchemas : SystemBrowse "ShowSchemas" (.catalog "system")
  | filterSchemas (schema : String) : SystemBrowse "FilterSchemas" (.schema "system" schema)
  | showTables {schema : String} (h : schema ∈ metadataSchemas) :
      SystemBrowse "ShowTables" (.schema "system" schema)
  | table {op schema : String} (table : String)
      (hop : op ∈ ["FilterTables", "ShowColumns", "FilterColumns", "SelectFromColumns"])
      (h : schema ∈ metadataSchemas) : SystemBrowse op (.table "system" schema table)

/-- The declared meaning of a policy. -/
def Permitted (d : Declaration) (i : Input) : Prop :=
  TableGrant d i ∨ ∃ cg ∈ d.catalogGrantList, CatalogOperation cg i ∨ InformationSchema cg i ∨
    (.AccessCatalog ∈ cg.operations ∧ i.Has cg.roles ∧ SystemBrowse i.operation i.resource)

/-! ## One rule -/

theorem operationOf_inj {p q : Privilege} (h : operationOf p = operationOf q) : p = q := by
  cases p <;> cases q <;> first | rfl | exact absurd h (by decide)

theorem holds_tableGuard {schema table : String} :
    (∀ c ∈ tableGuard schema table, c.Holds i) ↔
      i.resource = .table DEPLOYED_CATALOG schema table := by
  simp only [tableGuard, List.forall_mem_cons, Condition.Holds, Input.get]
  cases i.resource <;> simp

theorem holds_catalogGuard {shape : ResourceShape} {catalog : String} :
    (∀ c ∈ catalogGuard shape catalog, c.Holds i) ↔ InCatalog catalog shape i.resource := by
  cases shape
  -- an operation without a resource has no guard
  · simp [catalogGuard, ResourceShape.catalogGuardPath, InCatalog]
  all_goals
    simp only [catalogGuard, ResourceShape.catalogGuardPath, Option.map_some, Option.toList_some,
      List.forall_mem_singleton, Condition.Holds, Input.get]
    cases i.resource <;> simp [InCatalog]

/-- A rule on one operation, for the holders in `roles`. -/
theorem fires_guarded {r : Rule} {op : String} {guard : List Condition} {roles : List String}
    (h : r.body = .eq .operation op :: guard ++ [.someGroup roles]) :
    r.Fires i ↔ i.operation = op ∧ (∀ c ∈ guard, c.Holds i) ∧ ∃ g ∈ i.groups, g ∈ roles := by
  rw [Rule.Fires, h, List.cons_append, List.forall_mem_cons, List.forall_mem_append,
    List.forall_mem_singleton]
  simp only [Condition.Holds, Input.get, Option.some.injEq]

theorem allowRule_fires {res : Resource} {schema table : String} {grant : Grant}
    {priv : Privilege} : (allowRule d res schema table grant priv).Fires i ↔
      i.operation = operationOf priv ∧ i.resource = .table DEPLOYED_CATALOG schema table ∧
        ∃ g ∈ i.groups, g ∈ effective d grant.roles := by
  rw [fires_guarded rfl, holds_tableGuard]

theorem operationRule_fires {cg : CatalogGrant} {roles : List String} {op : QueryOperation} :
    (operationRule cg roles op).Fires i ↔ i.operation = op.text ∧
      InCatalog cg.catalog op.shape i.resource ∧ ∃ g ∈ i.groups, g ∈ roles := by
  rw [fires_guarded rfl, holds_catalogGuard]

theorem systemCatalogRule_fires {roles : List String} {op : QueryOperation × ResourceShape} :
    (systemCatalogRule roles op).Fires i ↔ i.operation = op.1.text ∧
      InCatalog "system" op.2 i.resource ∧ ∃ g ∈ i.groups, g ∈ roles := by
  rw [fires_guarded rfl, holds_catalogGuard]

theorem systemMetadataRule_fires {roles : List String} {op : String × ResourceShape} :
    (systemMetadataRule roles op).Fires i ↔ i.operation = op.1 ∧
      (InCatalog "system" op.2 i.resource ∧
        ∃ schema ∈ metadataSchemas, i.get (metadataSchemaPath op.2) = some schema) ∧
      ∃ g ∈ i.groups, g ∈ roles := by
  have hbody : (systemMetadataRule roles op).body = .eq .operation op.1 ::
      (catalogGuard op.2 "system" ++ [.oneOf (metadataSchemaPath op.2) metadataSchemas]) ++
        [.someGroup roles] := by
    rw [List.cons_append, List.append_assoc]
    rfl
  rw [fires_guarded hbody, List.forall_mem_append, holds_catalogGuard, List.forall_mem_singleton,
    Condition.Holds]

theorem informationSchemaRule_fires {cg : CatalogGrant} {roles : List String} :
    (informationSchemaRule cg roles).Fires i ↔ i.operation = "SelectFromColumns" ∧
      (∃ table, i.resource = .table cg.catalog "information_schema" table) ∧
      ∃ g ∈ i.groups, g ∈ roles := by
  have hbody : (informationSchemaRule cg roles).body = .eq .operation "SelectFromColumns" ::
      [.eq .tableCatalogName cg.catalog, .eq .tableSchemaName "information_schema"] ++
        [.someGroup roles] := rfl
  rw [fires_guarded hbody]
  simp only [List.forall_mem_cons, Condition.Holds, Input.get]
  cases i.resource <;> simp

/-! ## The families -/

theorem SystemBrowse.of_table {op catalog schema table : String}
    (h : SystemBrowse op (.table catalog schema table)) :
    catalog = "system" ∧ schema ∈ metadataSchemas := by
  cases h with
  | table _ _ h => exact ⟨rfl, h⟩

/-- The fixed requests are those of the two tables of operations. -/
theorem systemBrowse_iff : SystemBrowse i.operation i.resource ↔
    (∃ op ∈ systemCatalogOperations, i.operation = op.1.text ∧
      InCatalog "system" op.2 i.resource) ∨
    (∃ op ∈ systemMetadataOperations, i.operation = op.1 ∧ InCatalog "system" op.2 i.resource ∧
      ∃ schema ∈ metadataSchemas, i.get (metadataSchemaPath op.2) = some schema) := by
  obtain ⟨op, res, groups⟩ := i
  simp only [systemCatalogOperations, systemMetadataOperations, List.exists_mem_cons_iff,
    List.not_mem_nil, false_and, exists_false, or_false, metadataSchemaPath, Input.get,
    QueryOperation.text]
  constructor
  · intro h
    cases h with
    | accessCatalog => simp [InCatalog]
    | filterCatalogs => simp [InCatalog]
    | showSchemas => simp [InCatalog]
    | filterSchemas schema => simp [InCatalog]
    | showTables h => exact .inr (.inl ⟨rfl, rfl, _, h, rfl⟩)
    | table t hop h =>
        refine .inr (.inr ?_)
        simp only [List.mem_cons, List.not_mem_nil, or_false] at hop
        rcases hop with rfl | rfl | rfl | rfl <;> simp [InCatalog, h]
  · cases res <;> simp only [InCatalog, and_false, false_and, or_false, false_or, false_imp_iff]
    case catalog name =>
      rintro (⟨rfl, rfl⟩ | ⟨rfl, rfl⟩ | ⟨rfl, rfl⟩)
      · exact .accessCatalog
      · exact .filterCatalogs
      · exact .showSchemas
    case schema c s =>
      rintro (⟨rfl, rfl⟩ | ⟨rfl, rfl, schema, h, hs⟩)
      · exact .filterSchemas s
      · cases hs
        exact .showTables h
    case table c s t =>
      rintro (⟨rfl, rfl, schema, h, hs⟩ | ⟨rfl, rfl, schema, h, hs⟩ | ⟨rfl, rfl, schema, h, hs⟩ |
        ⟨rfl, rfl, schema, h, hs⟩) <;> cases hs <;> exact .table t (by simp) h

/-- The `allow` rules of the resources. -/
theorem tableRule_allows (h : Sound d) (hclosed : Closed d i.groups) :
    (∃ r, TableRule d r ∧ r.head = .allow ∧ r.Fires i) ↔ TableGrant d i := by
  constructor
  · rintro ⟨r, ⟨res, hres, hengine, schema, table, hsplit, grant, hgrant, hr⟩, hhead, hfires⟩
    simp only [grantRules, List.mem_append, List.mem_map, Js.mem_sortOn] at hr
    rcases hr with (⟨p, hp, rfl⟩ | ⟨filter, -, rfl⟩) | ⟨mask, -, rfl⟩
    · obtain ⟨hop, hresource, hholder⟩ := allowRule_fires.mp hfires
      have hroles := ((h.resources res hres).grants grant hgrant).roles
      have hhas := (hclosed.holds_effective fun role hrole => (hroles role hrole).1).mp hholder
      exact ⟨res, hres, hengine, schema, table, splitResource_ok hsplit, hresource, grant, hgrant,
        hhas, p, hp, hop⟩
    · cases hhead
    · cases hhead
  · rintro ⟨res, hres, hengine, schema, table, hname, hresource, grant, hgrant, hhas, p, hp, hop⟩
    have hsplit := (h.resources res hres).split_iff.mpr hname
    have hroles := ((h.resources res hres).grants grant hgrant).roles
    have hholder := (hclosed.holds_effective fun role hrole => (hroles role hrole).1).mpr hhas
    refine ⟨allowRule d res schema table grant p,
      ⟨res, hres, hengine, schema, table, hsplit, grant, hgrant, ?_⟩, rfl,
      allowRule_fires.mpr ⟨hop, hresource, hholder⟩⟩
    simp only [grantRules, List.mem_append, List.mem_map, Js.mem_sortOn]
    exact .inl (.inl ⟨p, hp, rfl⟩)

theorem mem_catalogRules {cg : CatalogGrant} {r : Rule} : r ∈ catalogRules d cg ↔
    (∃ op ∈ cg.operations, operationRule cg (effective d cg.roles) op = r) ∨
    r = informationSchemaRule cg (effective d cg.roles) ∨
    (.AccessCatalog ∈ cg.operations ∧
      ((∃ op ∈ systemCatalogOperations, systemCatalogRule (effective d cg.roles) op = r) ∨
        ∃ op ∈ systemMetadataOperations, systemMetadataRule (effective d cg.roles) op = r)) := by
  unfold catalogRules
  split
  · rename_i haccess
    simp only [List.mem_append, List.mem_map, Js.mem_sortOn, List.mem_singleton, haccess,
      true_and, or_assoc]
  · rename_i haccess
    simp only [List.mem_append, List.mem_map, Js.mem_sortOn, List.mem_singleton, haccess,
      List.not_mem_nil, false_and, or_false]

/-- The `allow` rules of a catalog grant. -/
theorem catalogRules_allows (h : Sound d) (hclosed : Closed d i.groups) {cg : CatalogGrant}
    (hcg : cg ∈ d.catalogGrantList) :
    (∃ r ∈ catalogRules d cg, r.head = .allow ∧ r.Fires i) ↔
      CatalogOperation cg i ∨ InformationSchema cg i ∨
        (.AccessCatalog ∈ cg.operations ∧ i.Has cg.roles ∧
          SystemBrowse i.operation i.resource) := by
  have hhas : (∃ g ∈ i.groups, g ∈ effective d cg.roles) ↔ i.Has cg.roles :=
    hclosed.holds_effective (h.catalog_roles cg hcg)
  rw [systemBrowse_iff]
  constructor
  · rintro ⟨r, hr, -, hfires⟩
    rcases mem_catalogRules.mp hr with ⟨op, hop, rfl⟩ | rfl | ⟨haccess, hsystem⟩
    · obtain ⟨htext, hin, hholder⟩ := operationRule_fires.mp hfires
      exact .inl ⟨hhas.mp hholder, op, hop, htext, hin⟩
    · obtain ⟨htext, hin, hholder⟩ := informationSchemaRule_fires.mp hfires
      exact .inr (.inl ⟨hhas.mp hholder, htext, hin⟩)
    · rcases hsystem with ⟨op, hop, rfl⟩ | ⟨op, hop, rfl⟩
      · obtain ⟨htext, hin, hholder⟩ := systemCatalogRule_fires.mp hfires
        exact .inr (.inr ⟨haccess, hhas.mp hholder, .inl ⟨op, hop, htext, hin⟩⟩)
      · obtain ⟨htext, ⟨hin, hschema⟩, hholder⟩ := systemMetadataRule_fires.mp hfires
        exact .inr (.inr ⟨haccess, hhas.mp hholder, .inr ⟨op, hop, htext, hin, hschema⟩⟩)
  · rintro (⟨hrole, op, hop, htext, hin⟩ | ⟨hrole, htext, hin⟩ |
      ⟨haccess, hrole, ⟨op, hop, htext, hin⟩ | ⟨op, hop, htext, hin, hschema⟩⟩)
    · exact ⟨_, mem_catalogRules.mpr (.inl ⟨op, hop, rfl⟩), rfl,
        operationRule_fires.mpr ⟨htext, hin, hhas.mpr hrole⟩⟩
    · exact ⟨_, mem_catalogRules.mpr (.inr (.inl rfl)), rfl,
        informationSchemaRule_fires.mpr ⟨htext, hin, hhas.mpr hrole⟩⟩
    · exact ⟨_, mem_catalogRules.mpr (.inr (.inr ⟨haccess, .inl ⟨op, hop, rfl⟩⟩)), rfl,
        systemCatalogRule_fires.mpr ⟨htext, hin, hhas.mpr hrole⟩⟩
    · exact ⟨_, mem_catalogRules.mpr (.inr (.inr ⟨haccess, .inr ⟨op, hop, rfl⟩⟩)), rfl,
        systemMetadataRule_fires.mpr ⟨htext, ⟨hin, hschema⟩, hhas.mpr hrole⟩⟩

/-! ## The whole -/

theorem allows_iff_permitted (h : Sound d) {rules : List Rule} (hrules : regoRules d = .ok rules)
    (hclosed : Closed d i.groups) : Allows rules i ↔ Permitted d i := by
  have hsplit : Allows rules i ↔ (∃ r, TableRule d r ∧ r.head = .allow ∧ r.Fires i) ∨
      ∃ cg ∈ d.catalogGrantList, ∃ r ∈ catalogRules d cg, r.head = .allow ∧ r.Fires i := by
    simp only [Allows, mem_regoRules hrules]
    constructor
    · rintro ⟨r, hr | ⟨cg, hcg, hr⟩, hallow⟩
      · exact .inl ⟨r, hr, hallow⟩
      · exact .inr ⟨cg, hcg, r, hr, hallow⟩
    · rintro (⟨r, hr, hallow⟩ | ⟨cg, hcg, r, hr, hallow⟩)
      · exact ⟨r, .inl hr, hallow⟩
      · exact ⟨r, .inr ⟨cg, hcg, hr⟩, hallow⟩
  rw [hsplit, tableRule_allows h hclosed, Permitted]
  refine or_congr Iff.rfl (exists_congr fun cg => and_congr_right fun hcg => ?_)
  exact catalogRules_allows h hclosed hcg

/-- Tables of `system` outside of the metadata schemas are out of reach of every
operation that a table belongs to. -/
theorem not_permitted_system (h : Sound d) {schema table : String}
    (hresource : i.resource = .table "system" schema table) (hschema : schema ∉ metadataSchemas)
    (hop : i.operation ≠ QueryOperation.ExecuteQuery.text) : ¬ Permitted d i := by
  rintro (⟨res, -, -, s, t, -, hres, -⟩ | ⟨cg, hcg, hcatalog⟩)
  · rw [hresource, TrinoResource.table.injEq] at hres
    exact absurd hres.1 (by decide)
  have hdeployed : cg.catalog ≠ "system" := by
    rw [h.catalogs cg hcg]
    decide
  rcases hcatalog with ⟨-, op, -, htext, hin⟩ | ⟨-, -, t, hres⟩ | ⟨-, -, hbrowse⟩
  · rw [hresource] at hin
    cases op <;> first
      | exact hop htext
      | exact hin
      | exact hdeployed hin.symm
  · rw [hresource, TrinoResource.table.injEq] at hres
    exact hdeployed hres.1.symm
  · rw [hresource] at hbrowse
    exact hschema hbrowse.of_table.2

/-- The compiled policy of a validated declaration allows what the declaration
means, and no operation on the other tables of `system`. -/
theorem allows_iff (d : Declaration) (hvalid : validateDeclaration d = []) :
    ∃ rules, regoRules d = .ok rules ∧
      compileRego d = .ok (Js.join "\n" (regoHeader ++ rules.flatMap Rule.lines)) ∧
      ∀ i : Input, Closed d i.groups → (Allows rules i ↔ Permitted d i) ∧
        ∀ schema table, i.resource = .table "system" schema table → schema ∉ metadataSchemas →
          i.operation ≠ QueryOperation.ExecuteQuery.text → ¬ Allows rules i := by
  have hsound := (valid_of_validate hvalid).toSound
  obtain ⟨rules, hrules⟩ := hsound.regoRules
  refine ⟨rules, hrules, by rw [compileRego, hrules]; rfl, fun i hclosed => ?_⟩
  have hiff := allows_iff_permitted hsound hrules hclosed
  refine ⟨hiff, fun schema table hresource hschema hop hallows => ?_⟩
  exact not_permitted_system hsound hresource hschema hop (hiff.mp hallows)

/-- An engineer selects from the customers, and nobody looks into `system.runtime`. -/
theorem allows_iff_sample : ∃ rules, regoRules sample = .ok rules ∧
    Allows rules ⟨"SelectFromColumns", .table "iceberg" "lake" "customers",
      ["engineers", "analysts"]⟩ ∧
    ¬ Allows rules ⟨"SelectFromColumns", .table "system" "runtime" "queries",
      ["engineers", "analysts"]⟩ := by
  obtain ⟨rules, hrules, -, h⟩ := allows_iff sample validate_sample
  have hclosed : Closed sample ["engineers", "analysts"] := by decide +kernel
  refine ⟨rules, hrules, ?_, ?_⟩
  · refine (h _ hclosed).1.mpr (.inl ?_)
    exact ⟨_, List.mem_cons_of_mem _ List.mem_cons_self, rfl, "lake", "customers", rfl, rfl, _,
      List.mem_cons_self, ⟨"engineers", by decide, by decide⟩, .select, by decide, rfl⟩
  · exact (h _ hclosed).2 "runtime" "queries" rfl (by decide) (by decide)

end Policy
