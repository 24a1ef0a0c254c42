import Beluga.Policy.Masks
import Beluga.Policy.Privileges

/-! # Case folding

Both engines read unquoted names in small letters, and Trino asks about them so.
The declaration is compared and compiled as it is spelled.

* `folds_iff`: names survive the folding exactly when no two entries of an engine
  differ in case alone, masked sensitive columns of readable PII tables are in
  small letters, and so are the PG names that are emitted.
-/

namespace Policy

variable {d : Declaration}

/-! ## What folding should not change -/

/-- The names of schemas, tables and databases in a statement. -/
def Stmt.objects : Stmt → List String
  | .createRole _ _ | .grantRole _ _ => []
  | .grantUsage schema _ | .grantSequences schema _ => [schema]
  | .grantTable _ table _ => [table]
  | .grantConnect database _ => [database]

/-- Some `allow` rule matches a request on a table, whose names are in small letters. -/
def CanRead (own : List Rule) : Prop :=
  ∃ r ∈ own, r.head = .allow ∧ ∃ op schema table token,
    r.Fires ⟨op, .table DEPLOYED_CATALOG (fold schema) (fold table), token⟩

structure Folds (d : Declaration) : Prop where
  /-- No two entries of one engine denote one table. -/
  apart : (d.resources.map fun res => (res.engineOrTrino, fold res.resource)).Nodup
  /-- The mask rules of a sensitive column match its folded name. -/
  masks : ∀ res ∈ d.resources, res.engineOrTrino = .trino → res.classification = .pii →
    ∀ own, resourceRules d res = .ok own → CanRead own → ∀ c ∈ res.sensitive, ∀ r ∈ own,
      (∃ e, r.head = .columnMask e) → .eq .columnName c ∈ r.body → .eq .columnName (fold c) ∈ r.body
  names : ∀ s ∈ ddl d, ∀ name ∈ s.objects, fold name = name

/-! ## What it takes -/

/-- A resource with a grant for somebody. -/
def Resource.Granted (res : Resource) : Prop := ∃ grant ∈ res.grants, grant.roles ≠ []

/-- A resource with a grant of something for somebody. -/
def Resource.Readable (res : Resource) : Prop :=
  ∃ grant ∈ res.grants, grant.privileges ≠ [] ∧ grant.roles ≠ []

structure SmallLetters (d : Declaration) : Prop where
  apart : (d.resources.map fun res => (res.engineOrTrino, fold res.resource)).Nodup
  columns : ∀ res ∈ d.resources, res.engineOrTrino = .trino → res.classification = .pii →
    fold res.resource = res.resource → res.Readable → ∀ c ∈ res.sensitive,
      (∃ grant ∈ res.grants, c ∈ grant.masks.map Prod.fst) → fold c = c
  tables : ∀ res ∈ d.resources, res.engine = some .postgres → res.Granted →
    fold res.resource = res.resource
  databases : ∀ login ∈ d.loginList, (∃ res grant role, PgGrant d res grant role ∧
    LoginReaches d login role) → fold login.database = login.database

theorem mem_columnMask_body {res : Resource} {schema table : String} {grant : Grant}
    {col c : String} {kind : MaskKind} :
    .eq .columnName c ∈ (columnMaskRule d res schema table grant col kind).body ↔ c = col := by
  have hguard : .eq .columnName c ∉ unmaskedGuard d res grant := by
    unfold unmaskedGuard
    split <;> simp
  have hbody : (columnMaskRule d res schema table grant col kind).body =
      columnGuard schema table col ++ [.someGroup grant.roles] ++ unmaskedGuard d res grant := rfl
  rw [hbody]
  simp [columnGuard, hguard]

theorem fold_dot_iff {schema table : String} :
    fold (schema ++ "." ++ table) = schema ++ "." ++ table ↔
      fold schema = schema ∧ fold table = table := by
  have hdot : ∀ c ∈ ".".toList, c.toLower = c := by
    intro c hc
    rw [List.mem_singleton.mp hc]
    rfl
  simp only [fold_eq_self, String.toList_append, List.forall_mem_append]
  exact ⟨fun h => ⟨h.1.1, h.2⟩, fun h => ⟨⟨h.1, hdot⟩, h.2⟩⟩

theorem canRead_iff (h : Sound d) {res : Resource} (hres : res ∈ d.resources) {own : List Rule}
    (hown : resourceRules d res = .ok own) :
    CanRead own ↔ fold res.resource = res.resource ∧ res.Readable := by
  have hs := h.resources res hres
  constructor
  · rintro ⟨r, hr, hhead, op, schema, table, token, hfires⟩
    obtain ⟨s, t, hsplit, grant, hgrant, hr⟩ := (mem_resourceRules hown).mp hr
    simp only [grantRules, List.mem_append, List.mem_map, Js.mem_sortOn] at hr
    rcases hr with (⟨p, hp, rfl⟩ | ⟨filter, -, rfl⟩) | ⟨mask, -, rfl⟩
    · obtain ⟨-, htable, g, -, hg⟩ := allowRule_fires.mp hfires
      simp only [TrinoResource.table.injEq, true_and] at htable
      obtain ⟨rfl, rfl⟩ := htable
      obtain ⟨role, hrole, -⟩ := mem_effective.mp hg
      refine ⟨?_, grant, hgrant, List.ne_nil_of_mem hp, List.ne_nil_of_mem hrole⟩
      rw [splitResource_ok hsplit, fold_dot_iff]
      exact ⟨fold_fold schema, fold_fold table⟩
    · cases hhead
    · cases hhead
  · rintro ⟨hfold, grant, hgrant, hprivileges, hroles⟩
    obtain ⟨schema, table, hsplit, hname, -⟩ := hs.split
    obtain ⟨p, hp⟩ := List.exists_mem_of_ne_nil _ hprivileges
    obtain ⟨role, hrole⟩ := List.exists_mem_of_ne_nil _ hroles
    have hdeclared := ((hs.grants grant hgrant).roles role hrole).1
    refine ⟨allowRule d res schema table grant p, (mem_resourceRules hown).mpr
      ⟨schema, table, hsplit, grant, hgrant, ?_⟩, rfl, operationOf p, schema, table, [role], ?_⟩
    · simp only [grantRules, List.mem_append, List.mem_map, Js.mem_sortOn]
      exact .inl (.inl ⟨p, hp, rfl⟩)
    · rw [hname, fold_dot_iff] at hfold
      refine allowRule_fires.mpr ⟨rfl, by rw [hfold.1, hfold.2], role, by simp, ?_⟩
      exact mem_effective.mpr ⟨role, hrole, hdeclared, .refl⟩

theorem folds_masks_iff (h : Sound d) {res : Resource} (hres : res ∈ d.resources) {c : String}
    {own : List Rule} (hown : resourceRules d res = .ok own) :
    (∀ r ∈ own, (∃ e, r.head = .columnMask e) → .eq .columnName c ∈ r.body →
      .eq .columnName (fold c) ∈ r.body) ↔
    ((∃ grant ∈ res.grants, c ∈ grant.masks.map Prod.fst) → fold c = c) := by
  constructor
  · rintro hall ⟨grant, hgrant, hc⟩
    obtain ⟨mask, hmask, rfl⟩ := List.mem_map.mp hc
    obtain ⟨schema, table, hsplit, -⟩ := (h.resources res hres).split
    refine mem_columnMask_body.mp (hall (columnMaskRule d res schema table grant mask.1 mask.2) ?_
      ⟨_, rfl⟩ (mem_columnMask_body.mpr rfl))
    refine (mem_resourceRules hown).mpr ⟨schema, table, hsplit, grant, hgrant, ?_⟩
    simp only [grantRules, List.mem_append, List.mem_map, Js.mem_sortOn]
    exact .inr ⟨mask, hmask, rfl⟩
  · rintro hfold r hr ⟨e, hhead⟩ hc
    obtain ⟨schema, table, -, grant, hgrant, hmem⟩ := (mem_resourceRules hown).mp hr
    simp only [grantRules, List.mem_append, List.mem_map, Js.mem_sortOn] at hmem
    rcases hmem with (⟨p, -, rfl⟩ | ⟨filter, -, rfl⟩) | ⟨mask, hmask, rfl⟩
    · cases hhead
    · cases hhead
    · have hcol := mem_columnMask_body.mp hc
      rwa [hfold ⟨grant, hgrant, hcol ▸ List.mem_map_of_mem hmask⟩]

theorem folds_names_iff (h : Sound d) : (∀ s ∈ ddl d, ∀ name ∈ s.objects, fold name = name) ↔
    (∀ res ∈ d.resources, res.engine = some .postgres → res.Granted →
      fold res.resource = res.resource) ∧
    ∀ login ∈ d.loginList, (∃ res grant role, PgGrant d res grant role ∧
      LoginReaches d login role) → fold login.database = login.database := by
  constructor
  · refine fun hnames => ⟨fun res hres hengine hgranted => ?_, fun login hlogin hreached => ?_⟩
    · obtain ⟨grant, hgrant, hroles⟩ := hgranted
      obtain ⟨role, hrole⟩ := List.exists_mem_of_ne_nil _ hroles
      exact hnames _ (mem_ddl.mpr (.table ⟨hres, hengine, hgrant, hrole⟩)) _
        (by simp [Stmt.objects])
    · obtain ⟨res, grant, role, hgrant, hreaches⟩ := hreached
      exact hnames _ (mem_ddl.mpr (.connect hgrant hlogin hreaches)) _ (by simp [Stmt.objects])
  · rintro ⟨htables, hdatabases⟩ s hs name hname
    have htable : ∀ {res grant role}, PgGrant d res grant role → fold res.resource = res.resource :=
      fun hg => htables _ hg.declared hg.postgres ⟨_, hg.granted, List.ne_nil_of_mem hg.listed⟩
    have hschema : ∀ {res grant role}, PgGrant d res grant role →
        fold (schemaOf res.resource) = schemaOf res.resource :=
      fun hg => (h.resources _ hg.declared).fold_schemaOf (htable hg)
    cases mem_ddl.mp hs with
    | role _ => cases hname
    | login _ => cases hname
    | parent _ _ => cases hname
    | member _ _ => cases hname
    | usage hg => exact List.mem_singleton.mp hname ▸ hschema hg
    | sequences hg _ => exact List.mem_singleton.mp hname ▸ hschema hg
    | table hg => exact List.mem_singleton.mp hname ▸ htable hg
    | connect hg hlogin hreaches =>
        exact List.mem_singleton.mp hname ▸ hdatabases _ hlogin ⟨_, _, _, hg, hreaches⟩

/-- Names survive the folding exactly when these names are in small letters. -/
theorem folds_iff (d : Declaration) (hvalid : validateDeclaration d = []) :
    Folds d ↔ SmallLetters d := by
  have h := (valid_of_validate hvalid).toSound
  have hown : ∀ res ∈ d.resources, ∃ own, resourceRules d res = .ok own := by
    intro res hres
    obtain ⟨schema, table, hsplit, -⟩ := (h.resources res hres).split
    simp [resourceRules, hsplit, Except.map]
  constructor
  · intro hfolds
    obtain ⟨htables, hdatabases⟩ := (folds_names_iff h).mp hfolds.names
    refine ⟨hfolds.apart, fun res hres hengine hpii hfold hreadable c hc => ?_, htables, hdatabases⟩
    obtain ⟨own, hown⟩ := hown res hres
    exact (folds_masks_iff h hres hown).mp (hfolds.masks res hres hengine hpii own hown
      ((canRead_iff h hres hown).mpr ⟨hfold, hreadable⟩) c hc)
  · intro hsmall
    refine ⟨hsmall.apart, fun res hres hengine hpii own hown hread c hc => ?_,
      (folds_names_iff h).mpr ⟨hsmall.tables, hsmall.databases⟩⟩
    obtain ⟨hfold, hreadable⟩ := (canRead_iff h hres hown).mp hread
    exact (folds_masks_iff h hres hown).mpr (hsmall.columns res hres hengine hpii hfold hreadable c hc)

/-- `sample` is in small letters throughout. -/
theorem folds_sample : Folds sample := by
  have hresources : ∀ res ∈ sample.resources, fold res.resource = res.resource ∧
      ∀ c ∈ res.sensitive, fold c = c := by decide +kernel
  exact (folds_iff sample validate_sample).mpr ⟨by decide +kernel,
    fun res hres _ _ _ _ c hc _ => (hresources res hres).2 c hc,
    fun res hres _ _ => (hresources res hres).1,
    fun login hlogin _ => (by decide +kernel : ∀ login ∈ sample.loginList,
      fold login.database = login.database) login hlogin⟩

/-- Capitals in the names of tables, of a sensitive column and of a database. -/
def mixedCase : Declaration where
  roles := [{ name := "analysts" }]
  groups := []
  resources :=
    [{ resource := "lake.Events", classification := .internal, grants := [] },
     { resource := "lake.events", classification := .internal, grants := [] },
     { resource := "lake.customers", classification := .pii, sensitiveColumns := some ["Email"],
       grants := [{ roles := ["analysts"], privileges := [.select],
                    columnMask := some ⟨[("Email", .hash)], List.nodup_singleton _⟩ }] },
     { resource := "App.Orders", classification := .internal, engine := some .postgres,
       grants := [{ roles := ["analysts"], privileges := [.select] }] }]
  logins := some [{ name := "alice", memberOf := ["analysts"], database := "Shop" }]

/-- Nothing is reported of it, and no part of the folding holds. -/
theorem mixed_case_folds_apart : validateDeclaration mixedCase = [] ∧
    ¬ (mixedCase.resources.map fun res => (res.engineOrTrino, fold res.resource)).Nodup ∧
    (∃ own, resourceRules mixedCase mixedCase.resources[2] = .ok own ∧ CanRead own ∧
      ∃ r ∈ own, (∃ e, r.head = .columnMask e) ∧ .eq .columnName "Email" ∈ r.body ∧
        .eq .columnName (fold "Email") ∉ r.body) ∧
    .grantConnect "Shop" (pgRole "analysts") ∈ ddl mixedCase ∧ fold "Shop" ≠ "Shop" ∧
    ¬ Folds mixedCase := by
  have hvalid : validateDeclaration mixedCase = [] := by decide +kernel
  have h := (valid_of_validate hvalid).toSound
  have happart : ¬ (mixedCase.resources.map fun res =>
      (res.engineOrTrino, fold res.resource)).Nodup := by decide +kernel
  have hres : mixedCase.resources[2] ∈ mixedCase.resources := List.getElem_mem _
  have hown : ∃ own, resourceRules mixedCase mixedCase.resources[2] = .ok own ∧
      ∃ r ∈ own, (∃ e, r.head = .columnMask e) ∧ .eq .columnName "Email" ∈ r.body ∧
        .eq .columnName (fold "Email") ∉ r.body :=
    ⟨_, rfl, columnMaskRule mixedCase mixedCase.resources[2] "lake" "customers"
      mixedCase.resources[2].grants[0] "Email" .hash, by decide +kernel, ⟨_, rfl⟩,
      by decide +kernel, by decide +kernel⟩
  obtain ⟨own, hown, hmask⟩ := hown
  refine ⟨hvalid, happart, ⟨own, hown, ?_, hmask⟩, by decide +kernel, by decide +kernel,
    fun hfolds => happart hfolds.apart⟩
  exact (canRead_iff h hres hown).mpr ⟨by decide +kernel, _, List.mem_cons_self, by decide,
    by decide⟩

end Policy
