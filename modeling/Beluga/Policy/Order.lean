import Beluga.Policy.Keycloak
import Beluga.Policy.Reorder

/-! # Artifacts in any order

`compileAll` of `compiler/index.ts`. The compilers sort what they emit, but not
every sort tells its elements apart, and some keys and some conditions have roles
in the order of the declaration. `OrderFree` says of a declaration that none of
this can show.

* `order_free`: the artifacts of such a declaration are the same in every order;
* `role_order_shows`: the order of the roles of one grant with a mask does show.
-/

namespace Policy

open Graph Js

/-! ## Compilation -/

def ErrorCode.text : ErrorCode → String
  | .CYCLIC_INHERITANCE => "CYCLIC_INHERITANCE"
  | .INVALID_IDENTIFIER => "INVALID_IDENTIFIER"
  | .UNKNOWN_ROLE => "UNKNOWN_ROLE"
  | .ROLE_NAME_COLLISION => "ROLE_NAME_COLLISION"
  | .DUPLICATE_RESOURCE => "DUPLICATE_RESOURCE"
  | .PII_NO_SENSITIVE_COLUMNS => "PII_NO_SENSITIVE_COLUMNS"
  | .POSTGRES_UNSUPPORTED_MASK => "POSTGRES_UNSUPPORTED_MASK"
  | .POSTGRES_UNSUPPORTED_ROW_FILTER => "POSTGRES_UNSUPPORTED_ROW_FILTER"
  | .ROW_FILTER_REJECTED => "ROW_FILTER_REJECTED"
  | .PII_UNMASKED => "PII_UNMASKED"
  | .CONFLICTING_MASK => "CONFLICTING_MASK"
  | .UNSUPPORTED_CATALOG => "UNSUPPORTED_CATALOG"
  | .DUPLICATE_CATALOG_GRANT => "DUPLICATE_CATALOG_GRANT"
  | .LOGIN_NAME_COLLISION => "LOGIN_NAME_COLLISION"

structure Artifacts where
  keycloak : KeycloakSpec
  rego : String
  pgddl : String
  deriving DecidableEq, Repr

def compileAll (d : Declaration) : Except String Artifacts :=
  if 0 < (validateDeclaration d).length then
    .error ("선언 검증 실패:\n" ++ Js.join "\n" ((validateDeclaration d).map fun e =>
      "  [" ++ e.code.text ++ "] " ++ e.message))
  else
    (compileRego d).map fun rego =>
      { keycloak := compileKeycloak d, rego, pgddl := compilePgDdl d }

/-! ## What would show an order -/

/-- Every permutation of the lists has the same artifacts. -/
def OrderIndependent (d : Declaration) : Prop :=
  ∀ d', d.Reordered d' → compileAll d' = compileAll d

/-- The grant emits rules that name its roles in the order of the declaration. -/
def Grant.Hides (grant : Grant) : Prop := activeFilter grant ≠ none ∨ grant.masks ≠ []

/-- Some order of the roles of the two sorts `a` first. -/
def Grant.MayPrecede (a b : Grant) : Prop := Precedes Grant.Reordered grantKey a b

/-- The same roles hold one of `roles` as hold one of `roles'`. -/
def SameHolders (d : Declaration) (roles roles' : List String) : Prop :=
  ∀ r ∈ d.roleNames, (∃ s ∈ roles, Inherits d r s) ↔ ∃ s ∈ roles', Inherits d r s

/-- Two grants of a Trino resource that emit the same rules. -/
structure Grant.Alike (d : Declaration) (a b : Grant) : Prop where
  holders : SameHolders d a.roles b.roles
  privileges : a.privileges.Perm b.privileges
  filter : activeFilter a = activeFilter b
  masks : a.masks.Perm b.masks
  hidden : a.Hides → a.roles = b.roles ∧ a.optedOut = b.optedOut

/-- Where the compilers cannot tell two elements apart, or name roles as they are
declared, there is nothing to see. -/
structure OrderFree (d : Declaration) : Prop where
  groups : ∀ g ∈ d.groups, ∀ g' ∈ d.groups, g.name = g'.name → g.roles.Perm g'.roles
  /-- A grant that masks or filters names one role. -/
  single_role : ∀ res ∈ d.resources, res.engineOrTrino = .trino → ∀ grant ∈ res.grants,
    grant.Hides → ∀ r ∈ grant.roles, ∀ s ∈ grant.roles, r = s
  trino : ∀ res ∈ d.resources, res.engineOrTrino = .trino → ∀ a ∈ res.grants, ∀ b ∈ res.grants,
    a.MayPrecede b → b.MayPrecede a → a.Alike d b
  catalogs : ∀ cg ∈ d.catalogGrantList, ∀ cg' ∈ d.catalogGrantList,
    SameHolders d cg.roles cg'.roles ∧ cg.operations.Perm cg'.operations
  postgres : ∀ res ∈ d.resources, res.engine = some .postgres → ∀ a ∈ res.grants,
    ∀ b ∈ res.grants, a.MayPrecede b → b.MayPrecede a →
      a.roles.Perm b.roles ∧ a.privileges.Perm b.privileges
  logins : ∀ login ∈ d.loginList, ∀ login' ∈ d.loginList, login.name = login'.name →
    login.memberOf.Perm login'.memberOf

/-! ## Keys -/

theorem Privilege.text_inj {p q : Privilege} (h : p.text = q.text) : p = q := by
  cases p <;> cases q <;> first | rfl | exact absurd h (by decide)

theorem QueryOperation.text_inj {p q : QueryOperation} (h : p.text = q.text) : p = q := by
  cases p <;> cases q <;> first | rfl | exact absurd h (by decide)

/-- What a text has at its last `c`. -/
theorem append_cons_inj {c : Char} {s t s' t' : List Char} (ht : c ∉ t) (ht' : c ∉ t')
    (h : s ++ c :: t = s' ++ c :: t') : s = s' ∧ t = t' := by
  rcases List.append_eq_append_iff.mp h with ⟨m, rfl, hm⟩ | ⟨m, rfl, hm⟩
  · cases m with
    | nil => exact ⟨(List.append_nil s).symm, (List.cons.inj hm).2⟩
    | cons x m =>
        rw [(List.cons.inj hm).2] at ht
        exact absurd (List.mem_append_right m List.mem_cons_self) ht
  · cases m with
    | nil => exact ⟨List.append_nil s', (List.cons.inj hm).2.symm⟩
    | cons x m =>
        rw [(List.cons.inj hm).2] at ht'
        exact absurd (List.mem_append_right m List.mem_cons_self) ht'

theorem maskKey_inj {a b : String × MaskKind} (h : maskKey a = maskKey b) : a = b := by
  have hcomma : ∀ kind : MaskKind, ',' ∉ kind.text.toList := by
    intro kind
    cases kind <;> decide
  have htext : ∀ kind kind' : MaskKind, kind.text = kind'.text → kind = kind' := by
    intro kind kind' heq
    cases kind <;> cases kind' <;> first | rfl | exact absurd heq (by decide)
  have hlist : a.1.toList ++ ',' :: a.2.text.toList = b.1.toList ++ ',' :: b.2.text.toList := by
    simpa [maskKey] using congrArg String.toList h
  obtain ⟨hcol, hkind⟩ := append_cons_inj (hcomma a.2) (hcomma b.2) hlist
  exact Prod.ext (String.toList_inj.mp hcol) (htext _ _ (String.toList_inj.mp hkind))

theorem eq_of_perm {α : Type} {xs ys : List α} (h : xs.Perm ys)
    (hconst : ∀ x ∈ xs, ∀ y ∈ xs, x = y) : xs = ys := by
  have htrue : ∀ zs : List α, zs.Pairwise fun _ _ => True :=
    fun zs => List.pairwise_of_forall fun _ _ => trivial
  exact List.Perm.eq_of_pairwise (fun a b ha hb _ _ => hconst a ha b (h.symm.subset hb))
    (htrue xs) (htrue ys) h

/-! ## Alike elements -/

variable {d d' : Declaration}

theorem SameHolders.effective_eq {roles roles' : List String} (h : SameHolders d roles roles') :
    effective d roles = effective d roles' := by
  refine sort_eraseDups_congr fun r => ?_
  simp only [List.mem_flatMap, mem_holdersOf]
  constructor
  · rintro ⟨s, hs, hr, hinherits⟩
    obtain ⟨s', hs', hinherits'⟩ := (h r hr).mp ⟨s, hs, hinherits⟩
    exact ⟨s', hs', hr, hinherits'⟩
  · rintro ⟨s, hs, hr, hinherits⟩
    obtain ⟨s', hs', hinherits'⟩ := (h r hr).mpr ⟨s, hs, hinherits⟩
    exact ⟨s', hs', hr, hinherits'⟩

theorem Grant.Alike.grantRules_eq {a b : Grant} (h : a.Alike d b) (res : Resource)
    (schema table : String) : grantRules d res schema table a = grantRules d res schema table b := by
  have heffective := h.holders.effective_eq
  have hallow : allowRule d res schema table a = allowRule d res schema table b := by
    funext priv
    rw [allowRule, allowRule, heffective]
  have hprivileges : Js.sortOn Privilege.text a.privileges =
      Js.sortOn Privilege.text b.privileges :=
    sortOn_congr h.privileges fun _ _ _ _ => Privilege.text_inj
  have hmasks : Js.sortOn maskKey a.masks = Js.sortOn maskKey b.masks :=
    sortOn_congr h.masks fun _ _ _ _ => maskKey_inj
  rw [grantRules, grantRules, hallow, hprivileges, ← h.filter, ← hmasks]
  congr 1
  · congr 1
    refine List.map_congr_left fun filter hmem => ?_
    obtain ⟨hroles, hopted⟩ := h.hidden (.inl fun hnone => by simp [hnone] at hmem)
    rw [rowFilterRule, rowFilterRule, unmaskedGuard, unmaskedGuard, hroles, hopted]
  · refine List.map_congr_left fun mask hmem => ?_
    obtain ⟨hroles, hopted⟩ := h.hidden (.inr fun hnil => by simp [hnil] at hmem)
    rw [columnMaskRule, columnMaskRule, unmaskedGuard, unmaskedGuard, hroles, hopted]

theorem catalogRules_congr {cg cg' : CatalogGrant} (hcatalog : cg.catalog = cg'.catalog)
    (heffective : effective d cg.roles = effective d' cg'.roles)
    (hops : cg.operations.Perm cg'.operations) : catalogRules d cg = catalogRules d' cg' := by
  obtain ⟨catalog, roles, operations⟩ := cg
  obtain ⟨catalog', roles', operations'⟩ := cg'
  obtain rfl : catalog = catalog' := hcatalog
  -- the rules read nothing but the catalog of the grant
  have hoperation : operationRule ⟨catalog, roles, operations⟩ =
      operationRule ⟨catalog, roles', operations'⟩ := rfl
  have hschema : informationSchemaRule ⟨catalog, roles, operations⟩ =
      informationSchemaRule ⟨catalog, roles', operations'⟩ := rfl
  have hsorted : Js.sortOn QueryOperation.text operations =
      Js.sortOn QueryOperation.text operations' :=
    sortOn_congr hops fun _ _ _ _ => QueryOperation.text_inj
  simp only [catalogRules, heffective, hsorted, hoperation, hschema, hops.mem_iff]

theorem sortPrivileges_congr {ps qs : List Privilege} (h : ps.Perm qs) :
    sortPrivileges ps = sortPrivileges qs := by
  have hidx : ∀ p q : Privilege, PRIVILEGE_ORDER.idxOf p = PRIVILEGE_ORDER.idxOf q → p = q := by
    intro p q heq
    cases p <;> cases q <;> first | rfl | exact absurd heq (by decide)
  let before (p q : Privilege) : Bool := PRIVILEGE_ORDER.idxOf p ≤ PRIVILEGE_ORDER.idxOf q
  have htrans : ∀ p q r, before p q = true → before q r = true → before p r = true := by
    intro p q r hpq hqr
    simp only [before, decide_eq_true_eq] at hpq hqr ⊢
    omega
  have htotal : ∀ p q, (before p q || before q p) = true := by
    intro p q
    simp only [before, Bool.or_eq_true, decide_eq_true_eq]
    omega
  have hsorted : ∀ ps : List Privilege, (sortPrivileges ps).Pairwise fun p q => before p q = true :=
    List.pairwise_mergeSort htrans htotal
  refine List.Perm.eq_of_pairwise (fun p q _ _ hpq hqp => hidx p q (Nat.le_antisymm
    (of_decide_eq_true hpq) (of_decide_eq_true hqp))) (hsorted ps) (hsorted qs) ?_
  exact (List.mergeSort_perm ps _).trans (h.trans (List.mergeSort_perm qs _).symm)

theorem tableStmts_congr {res res' : Resource} (hres : res.resource = res'.resource) {a b : Grant}
    (hroles : a.roles.Perm b.roles) (hprivileges : a.privileges.Perm b.privileges) :
    tableStmts res a = tableStmts res' b := by
  rw [tableStmts, tableStmts, sort_congr hroles, sortPrivileges_congr hprivileges, hres]

/-- With the same output, two elements commute. -/
theorem commute_of_eq {α : Type} {xs ys : List α} (h : xs = ys) : xs ++ ys = ys ++ xs := by
  rw [h]

namespace Declaration.Reordered

variable (h : d.Reordered d') (hs : Sound d) (hfree : OrderFree d)

include h hs

/-! ## Keycloak -/

include hfree in
theorem compileKeycloak_eq : compileKeycloak d' = compileKeycloak d := by
  have hroles : (compileKeycloak d').realmRoles = (compileKeycloak d).realmRoles := by
    refine (sortOn_congr (h.roles.map_perm fun r _ r' hr => ?_) ?_).symm
    · rw [keycloakRole, keycloakRole, hr.name, sort_congr hr.parents, hr.parents.length_eq]
    · intro a ha b hb hname
      obtain ⟨r, hr, rfl⟩ := List.mem_map.mp ha
      obtain ⟨s, hs', rfl⟩ := List.mem_map.mp hb
      rw [List.inj_on_of_nodup_map hs.role_names_nodup hr hs' hname]
  have hgroups : (compileKeycloak d').groups = (compileKeycloak d).groups := by
    refine (sortOn_congr (h.groups.map_perm fun g _ g' hg => ?_) ?_).symm
    · rw [keycloakGroup, keycloakGroup, hg.name, sort_congr hg.roles]
    · intro a ha b hb hname
      obtain ⟨g, hg, rfl⟩ := List.mem_map.mp ha
      obtain ⟨g', hg', rfl⟩ := List.mem_map.mp hb
      have hperm := hfree.groups g hg g' hg' hname
      rw [keycloakGroup, keycloakGroup, sort_congr hperm, show g.name = g'.name from hname]
  exact KeycloakSpec.mk.injEq .. ▸ ⟨hroles, hgroups⟩

/-! ## Rego -/

theorem unmaskedGroups_eq {res res' : Resource} (hres : res.Reordered res') :
    unmaskedGroups d' res' = unmaskedGroups d res :=
  h.effective_eq hs.role_names_nodup (mem_unmaskedRoles hres)

theorem grantRules_eq {res res' : Resource} (hres : res.Reordered res') {grant grant' : Grant}
    (hgrant : grant.Reordered grant')
    (hone : grant.Hides → ∀ r ∈ grant.roles, ∀ s ∈ grant.roles, r = s) (schema table : String) :
    grantRules d' res' schema table grant' = grantRules d res schema table grant := by
  have heffective : effective d' grant'.roles = effective d grant.roles :=
    h.effective_eq hs.role_names_nodup fun _ => hgrant.roles.mem_iff
  have hguard : unmaskedGuard d' res' grant' = unmaskedGuard d res grant := by
    rw [unmaskedGuard, unmaskedGuard, h.unmaskedGroups_eq hs hres, hgrant.optedOut]
  have hallow : allowRule d' res' schema table grant' = allowRule d res schema table grant := by
    funext priv
    rw [allowRule, allowRule, heffective, hres.resource]
  have hprivileges : Js.sortOn Privilege.text grant'.privileges =
      Js.sortOn Privilege.text grant.privileges :=
    (sortOn_congr hgrant.privileges fun _ _ _ _ => Privilege.text_inj).symm
  have hfilter : activeFilter grant' = activeFilter grant := by
    rw [activeFilter, activeFilter, hgrant.rowFilter]
  have hroles : grant.Hides → grant'.roles = grant.roles :=
    fun hhides => (eq_of_perm hgrant.roles (hone hhides)).symm
  rw [grantRules, grantRules, hallow, hprivileges, hfilter, hgrant.masks]
  congr 1
  · congr 1
    refine List.map_congr_left fun filter hmem => ?_
    have hhides : grant.Hides := .inl fun hnone => by simp [hnone] at hmem
    rw [rowFilterRule, rowFilterRule, hguard, hroles hhides, hres.resource]
  · refine List.map_congr_left fun mask hmem => ?_
    have hhides : grant.Hides := .inr fun hnil => by simp [hnil] at hmem
    rw [columnMaskRule, columnMaskRule, hguard, hroles hhides, hres.resource]

section Compilers

include hfree

theorem resourceRules_eq {res res' : Resource} (hmem : res ∈ d.resources)
    (hengine : res.engineOrTrino = .trino) (hres : res.Reordered res') :
    resourceRules d' res' = resourceRules d res := by
  have hgrants : ∀ schema table, (Js.sortOn grantKey res'.grants).flatMap
      (grantRules d' res' schema table) =
        (Js.sortOn grantKey res.grants).flatMap (grantRules d res schema table) := by
    intro schema table
    refine (hres.grants.flatMap_sortOn Grant.Reordered.refl ?_ ?_).symm
    · intro grant hgrant grant' hreorder
      exact (h.grantRules_eq hs hres hreorder (hfree.single_role res hmem hengine grant hgrant)
        schema table).symm
    · intro a ha b hb hab hba
      exact commute_of_eq ((hfree.trino res hmem hengine a ha b hb hab hba).grantRules_eq res
        schema table)
  rw [resourceRules, resourceRules, ← hres.resource]
  simp only [hgrants]

omit hfree in
/-- The resources of an engine, in the order of their names. -/
theorem sorted_resources (engine : Engine) {p : Resource → Bool}
    (hp : ∀ res res', res.Reordered res' → (p res ↔ p res')) (hengine : ∀ res, p res → res.engineOrTrino = engine) :
    List.Forall₂ Resource.Reordered (Js.sortOn Resource.resource (d.resources.filter p))
      (Js.sortOn Resource.resource (d'.resources.filter p)) := by
  refine (h.resources.filter hp).sortOn (fun _ _ hres => hres.resource) ?_
  intro a ha b hb hname
  obtain ⟨ha, hpa⟩ := List.mem_filter.mp ha
  obtain ⟨hb, hpb⟩ := List.mem_filter.mp hb
  refine List.inj_on_of_nodup_map hs.resource_keys ha hb ?_
  rw [resourceKey, resourceKey, hengine a hpa, hengine b hpb, hname]

theorem regoRules_eq : regoRules d' = regoRules d := by
  have htables : (trinoResources d).map (resourceRules d) =
      (trinoResources d').map (resourceRules d') := by
    refine map_of_forall₂ (h.sorted_resources hs .trino ?_ ?_) ?_
    · intro res res' hres
      rw [Resource.engineOrTrino, Resource.engineOrTrino, hres.engine]
    · exact fun res hres => of_decide_eq_true hres
    · intro res hmem res' hres
      obtain ⟨hmem, hengine⟩ := List.mem_filter.mp (mem_sortOn.mp hmem)
      exact (h.resourceRules_eq hs hfree hmem (of_decide_eq_true hengine) hres).symm
  have hcatalogs : (Js.sortOn CatalogGrant.catalog d.catalogGrantList).flatMap (catalogRules d) =
      (Js.sortOn CatalogGrant.catalog d'.catalogGrantList).flatMap (catalogRules d') := by
    refine h.catalogGrantList.flatMap_sortOn CatalogGrant.Reordered.refl ?_ ?_
    · intro cg _ cg' hcg
      refine catalogRules_congr hcg.catalog ?_ hcg.operations
      exact (h.effective_eq hs.role_names_nodup fun _ => hcg.roles.mem_iff).symm
    · intro a ha b hb _ _
      have hcatalog : a.catalog = b.catalog := (hs.catalogs a ha).trans (hs.catalogs b hb).symm
      obtain ⟨hholders, hops⟩ := hfree.catalogs a ha b hb
      exact commute_of_eq (catalogRules_congr hcatalog hholders.effective_eq hops)
  have hmapM : ∀ (d : Declaration), (trinoResources d).mapM (resourceRules d) =
      ((trinoResources d).map (resourceRules d)).mapM id := by
    intro d
    rw [List.mapM_map]
    rfl
  rw [regoRules, regoRules, ← hcatalogs, hmapM, hmapM, htables]

theorem compileRego_eq : compileRego d' = compileRego d := by
  rw [compileRego, compileRego, h.regoRules_eq hs hfree]

/-! ## PostgreSQL -/

omit hfree in
theorem sorted_roles : List.Forall₂ Role.Reordered (sortedRoles d) (sortedRoles d') :=
  h.roles.sortOn (fun _ _ hr => hr.name) fun _ ha _ hb hname =>
    List.inj_on_of_nodup_map hs.role_names_nodup ha hb hname

omit hfree in
theorem pg_resources : List.Forall₂ Resource.Reordered (pgResources d) (pgResources d') := by
  refine h.sorted_resources hs .postgres (fun res res' hres => by rw [hres.engine]) ?_
  intro res hres
  rw [Resource.engineOrTrino, of_decide_eq_true hres]
  rfl

omit hfree in
theorem roleItems_eq : roleItems d' = roleItems d :=
  (map_of_forall₂ (h.sorted_roles hs) fun _ _ _ hr => by rw [hr.name]).symm

omit hfree in
theorem inheritanceStmts_eq : inheritanceStmts d' = inheritanceStmts d := by
  rw [inheritanceStmts, inheritanceStmts, List.flatMap_def, List.flatMap_def]
  refine congrArg List.flatten (map_of_forall₂ (h.sorted_roles hs) fun r _ r' hr => ?_).symm
  rw [sort_congr hr.parents, hr.name]

omit hfree in
theorem pgSchemas_eq : pgSchemas d' = pgSchemas d := by
  rw [pgSchemas, pgSchemas, ← map_of_forall₂ (h.pg_resources hs)]
  exact fun _ _ _ hres => by rw [hres.resource]

omit hfree in
theorem rolesIn_eq {passes : Grant → Bool} (hpasses : ∀ a b, a.Reordered b → (passes a ↔ passes b))
    (schema : String) : rolesIn d' passes schema = rolesIn d passes schema := by
  refine sort_eraseDups_congr fun role => (List.Perm.mem_iff ?_).symm
  refine ((Shuffled.of_forall₂ (h.pg_resources hs)).filter ?_).flatMap_perm ?_
  · exact fun res res' hres => by rw [hres.resource]
  · intro res res' hres
    exact (hres.grants.filter hpasses).flatMap_perm fun _ _ hgrant => hgrant.roles

omit hfree in
theorem usageStmts_eq : usageStmts d' = usageStmts d := by
  have hroles : schemaRoles d' = schemaRoles d := funext (h.rolesIn_eq hs fun _ _ _ => Iff.rfl)
  rw [usageStmts, usageStmts, h.pgSchemas_eq hs, hroles]

omit hfree in
theorem sequenceStmts_eq : sequenceStmts d' = sequenceStmts d := by
  have hroles : sequenceRoles d' = sequenceRoles d := by
    refine funext (h.rolesIn_eq hs fun a b hgrant => ?_)
    simp only [hgrant.privileges.mem_iff]
  rw [sequenceStmts, sequenceStmts, h.pgSchemas_eq hs, hroles]

theorem allTableStmts_eq : allTableStmts d' = allTableStmts d := by
  rw [allTableStmts, allTableStmts, List.flatMap_def, List.flatMap_def]
  refine congrArg List.flatten (map_of_forall₂ (h.pg_resources hs) fun res hmem res' hres => ?_).symm
  obtain ⟨hmem, hengine⟩ := List.mem_filter.mp (mem_sortOn.mp hmem)
  refine hres.grants.flatMap_sortOn Grant.Reordered.refl ?_ ?_
  · exact fun grant _ grant' hgrant =>
      tableStmts_congr hres.resource hgrant.roles hgrant.privileges
  · intro a ha b hb hab hba
    obtain ⟨hroles, hprivileges⟩ :=
      hfree.postgres res hmem (of_decide_eq_true hengine) a ha b hb hab hba
    exact commute_of_eq (tableStmts_congr rfl hroles hprivileges)

/-! ## Logins -/

omit hs hfree in
theorem sorted_logins : Shuffled PgLogin.Reordered (sortedLogins d) (sortedLogins d') :=
  h.loginList.perm (sortOn_perm _ _) (sortOn_perm _ _)

omit hs hfree in
/-- What is emitted for the logins, if two of one name commute. -/
theorem logins_eq {f : PgLogin → List Stmt} (hf : ∀ login login', login.Reordered login' →
    f login = f login') (hname : ∀ a ∈ d.loginList, ∀ b ∈ d.loginList, a.name = b.name →
      f a = f b) : (sortedLogins d').flatMap f = (sortedLogins d).flatMap f := by
  refine (h.loginList.flatMap_sortOn PgLogin.Reordered.refl (fun a _ b => hf a b) ?_).symm
  rintro a ha b hb ⟨a₁, b₁, ha₁, hb₁, hab⟩ ⟨b₂, a₂, hb₂, ha₂, hba⟩
  rw [← ha₁.name, ← hb₁.name] at hab
  rw [← ha₂.name, ← hb₂.name] at hba
  exact commute_of_eq (hname a ha b hb (utf16_inj (le_antisymm hab hba)))

omit hs hfree in
theorem loginStmts_eq : loginStmts d' = loginStmts d := by
  have hflat : ∀ d : Declaration, loginStmts d = (sortedLogins d).flatMap fun login =>
      [.createRole (toPgLoginIdentifier login.name) true] :=
    fun _ => List.map_eq_flatMap
  rw [hflat, hflat]
  exact h.logins_eq (fun a b hlogin => by rw [hlogin.name]) fun a _ b _ hname => by rw [hname]

omit hs in
theorem memberStmts_eq : memberStmts d' = memberStmts d := by
  refine h.logins_eq (fun a b hlogin => ?_) fun a ha b hb hname => ?_
  · rw [sort_congr hlogin.memberOf, hlogin.name]
  · rw [sort_congr (hfree.logins a ha b hb hname), hname]

omit hs hfree in
theorem databases_eq : databases d' = databases d :=
  sort_eraseDups_congr fun _ => (h.sorted_logins.map_perm fun _ _ _ hlogin =>
    hlogin.database).mem_iff.symm

omit hfree in
theorem mem_rolesByDatabase_iff (database role : String) :
    role ∈ rolesByDatabase d' database ↔ role ∈ rolesByDatabase d database := by
  refine (List.Perm.mem_iff ?_).symm
  refine (h.sorted_logins.filter fun a b hlogin => by rw [hlogin.database]).flatMap_perm ?_
  intro a b hlogin
  have hexpand : expandRoles d' = expandRoles d := funext (h.expandRoles_eq hs.role_names_nodup)
  rw [hexpand]
  exact hlogin.memberOf.flatMap_right _

omit hfree in
theorem postgresGrantRoles_perm : (postgresGrantRoles d).Perm (postgresGrantRoles d') := by
  refine (List.perm_ext_iff_of_nodup (nodup_eraseDups _) (nodup_eraseDups _)).mpr fun role => ?_
  rw [List.mem_eraseDups, List.mem_eraseDups]
  refine List.Perm.mem_iff ((Shuffled.of_forall₂ (h.pg_resources hs)).flatMap_perm ?_)
  exact fun _ _ hres => hres.grants.flatMap_perm fun _ _ hgrant => hgrant.roles

omit hfree in
theorem connectStmts_eq : connectStmts d' = connectStmts d := by
  rw [connectStmts, connectStmts, h.databases_eq]
  refine List.flatMap_congr fun database _ => congrArg (List.map _) ?_
  simp only [h.mem_rolesByDatabase_iff hs]
  exact sort_congr ((h.postgresGrantRoles_perm hs).symm.filter _)

theorem loginItems_eq : loginItems d' = loginItems d := by
  have hlength : (sortedLogins d').length = (sortedLogins d).length := h.sorted_logins.length_eq.symm
  rw [loginItems, loginItems, connectItems, connectItems, hlength, h.loginStmts_eq,
    h.memberStmts_eq hfree, h.connectStmts_eq hs, h.databases_eq,
    (h.postgresGrantRoles_perm hs).length_eq]

theorem compilePgDdl_eq : compilePgDdl d' = compilePgDdl d := by
  rw [compilePgDdl, compilePgDdl, pgItems, pgItems, h.roleItems_eq hs, h.inheritanceStmts_eq hs,
    h.usageStmts_eq hs, h.allTableStmts_eq hs hfree, h.sequenceStmts_eq hs, h.loginItems_eq hs hfree]

end Compilers

end Declaration.Reordered

/-! ## The artifacts -/

/-- Where no order can show, the artifacts are the same in every order. -/
theorem order_free (d : Declaration) (hvalid : validateDeclaration d = []) (hfree : OrderFree d) :
    OrderIndependent d := by
  intro d' h
  have hs := (valid_of_validate hvalid).toSound
  have hvalid' : validateDeclaration d' = [] := h.validate hvalid
  rw [compileAll, compileAll, hvalid, hvalid', h.compileRego_eq hs hfree,
    h.compileKeycloak_eq hs hfree, h.compilePgDdl_eq hs hfree]

theorem Grant.Alike.refl (d : Declaration) (grant : Grant) : grant.Alike d grant :=
  ⟨fun _ _ => Iff.rfl, .refl _, rfl, .refl _, fun _ => ⟨rfl, rfl⟩⟩

/-- Grants with one role each have one place in the order, unless their roles are the same. -/
theorem grantKey_eq_of_mayPrecede {a b : Grant} (ha : ∀ r ∈ a.roles, ∀ s ∈ a.roles, r = s)
    (hb : ∀ r ∈ b.roles, ∀ s ∈ b.roles, r = s) (hab : a.MayPrecede b) (hba : b.MayPrecede a) :
    grantKey a = grantKey b := by
  have hkey : ∀ {grant grant' : Grant}, (∀ r ∈ grant.roles, ∀ s ∈ grant.roles, r = s) →
      grant.Reordered grant' → grantKey grant' = grantKey grant := by
    intro grant grant' hone hgrant
    rw [grantKey, grantKey, eq_of_perm hgrant.roles hone]
  obtain ⟨a₁, b₁, ha₁, hb₁, hle⟩ := hab
  obtain ⟨b₂, a₂, hb₂, ha₂, hge⟩ := hba
  rw [hkey ha ha₁, hkey hb hb₁] at hle
  rw [hkey ha ha₂, hkey hb hb₂] at hge
  exact utf16_inj (le_antisymm hle hge)

/-- Names that are distinct and grants of one role each leave no order to show. -/
theorem orderFree_of_single (hgroups : (d.groups.map (·.name)).Nodup)
    (hlogins : (d.loginList.map (·.name)).Nodup) (hcatalogs : d.catalogGrantList.length ≤ 1)
    (hroles : ∀ res ∈ d.resources, ∀ grant ∈ res.grants, ∀ r ∈ grant.roles, ∀ s ∈ grant.roles,
      r = s) (hkeys : ∀ res ∈ d.resources, (res.grants.map grantKey).Nodup) : OrderFree d := by
  have hsame : ∀ res ∈ d.resources, ∀ a ∈ res.grants, ∀ b ∈ res.grants, a.MayPrecede b →
      b.MayPrecede a → a = b := by
    intro res hres a ha b hb hab hba
    exact List.inj_on_of_nodup_map (hkeys res hres) ha hb
      (grantKey_eq_of_mayPrecede (hroles res hres a ha) (hroles res hres b hb) hab hba)
  refine ⟨fun g hg g' hg' hname => ?_, fun res hres _ grant hgrant _ => hroles res hres grant hgrant,
    fun res hres _ a ha b hb hab hba => ?_, fun cg hcg cg' hcg' => ?_,
    fun res hres _ a ha b hb hab hba => ?_, fun login hlogin login' hlogin' hname => ?_⟩
  · rw [List.inj_on_of_nodup_map hgroups hg hg' hname]
  · rw [hsame res hres a ha b hb hab hba]
    exact .refl d b
  · obtain ⟨only, hall⟩ | hnil : (∃ only, d.catalogGrantList = [only]) ∨ d.catalogGrantList = [] := by
      match d.catalogGrantList, hcatalogs with
      | [], _ => exact .inr rfl
      | [only], _ => exact .inl ⟨only, rfl⟩
    · rw [hall, List.mem_singleton] at hcg hcg'
      rw [hcg, hcg']
      exact ⟨fun _ _ => Iff.rfl, .refl _⟩
    · rw [hnil] at hcg
      cases hcg
  · rw [hsame res hres a ha b hb hab hba]
    exact ⟨.refl _, .refl _⟩
  · rw [List.inj_on_of_nodup_map hlogins hlogin hlogin' hname]

theorem order_free_sample : validateDeclaration sample = [] ∧ OrderFree sample ∧
    OrderIndependent sample := by
  have hfree : OrderFree sample := orderFree_of_single (by decide +kernel) (by decide +kernel)
    (by decide +kernel) (by decide +kernel) (by decide +kernel)
  exact ⟨validate_sample, hfree, order_free sample validate_sample hfree⟩

/-! ## An order that shows -/

/-- A table with one grant to two roles, in a given order, with a mask. -/
def maskedFor (roles : List String) : Declaration where
  roles := [{ name := "analysts" }, { name := "engineers" }]
  groups := []
  resources :=
    [{ resource := "lake.customers", classification := .pii, sensitiveColumns := some ["email"],
       grants := [{ roles, privileges := [.select],
                    columnMask := some (.single "email" .hash) }] }]

/-- The mask of a grant names the roles in the order in which the grant does. -/
theorem role_order_shows : validateDeclaration (maskedFor ["analysts", "engineers"]) = [] ∧
    (maskedFor ["analysts", "engineers"]).Reordered (maskedFor ["engineers", "analysts"]) ∧
    ¬ OrderIndependent (maskedFor ["analysts", "engineers"]) := by
  have hvalid : validateDeclaration (maskedFor ["analysts", "engineers"]) = [] := by decide +kernel
  have hreordered :
      (maskedFor ["analysts", "engineers"]).Reordered (maskedFor ["engineers", "analysts"]) := by
    refine ⟨.of_forall₂ ?_, .of_forall₂ .nil, .of_forall₂ (.cons ?_ .nil), .none, .none⟩
    · exact List.forall₂_same.mpr fun r _ => ⟨rfl, by cases r.includes <;> constructor; rfl⟩
    · refine ⟨rfl, rfl, .of_forall₂ (.cons ?_ .nil), rfl, rfl⟩
      exact ⟨.swap _ _ _, .refl _, rfl, rfl, rfl⟩
  refine ⟨hvalid, hreordered, fun hsame => ?_⟩
  exact absurd (hsame _ hreordered) (by decide +kernel)

end Policy
