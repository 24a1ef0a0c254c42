import Beluga.Js.Shuffle
import Beluga.Policy.Conflicts
import Beluga.Policy.PgRules

/-! # Declarations in another order

What stays when the lists of a declaration are permuted: who holds a role, and
whether the declaration is valid.

* `Reordered.inherits_iff`, `Reordered.effective_eq`: inheritance and holders;
* `Reordered.validate`: a valid declaration is valid in every order.
-/

namespace Policy

open Graph Js

/-! ## Permutations of a declaration -/

structure Role.Reordered (r r' : Role) : Prop where
  name : r.name = r'.name
  includes : Option.Rel List.Perm r.includes r'.includes

structure Group.Reordered (g g' : Group) : Prop where
  name : g.name = g'.name
  roles : g.roles.Perm g'.roles

/-- The mask record, an object, has no order. -/
structure Grant.Reordered (grant grant' : Grant) : Prop where
  roles : grant.roles.Perm grant'.roles
  privileges : grant.privileges.Perm grant'.privileges
  columnMask : grant.columnMask = grant'.columnMask
  rowFilter : grant.rowFilter = grant'.rowFilter
  allowUnmasked : grant.allowUnmasked = grant'.allowUnmasked

structure Resource.Reordered (res res' : Resource) : Prop where
  resource : res.resource = res'.resource
  classification : res.classification = res'.classification
  grants : Shuffled Grant.Reordered res.grants res'.grants
  sensitiveColumns : res.sensitiveColumns = res'.sensitiveColumns
  engine : res.engine = res'.engine

structure CatalogGrant.Reordered (cg cg' : CatalogGrant) : Prop where
  catalog : cg.catalog = cg'.catalog
  roles : cg.roles.Perm cg'.roles
  operations : cg.operations.Perm cg'.operations

structure PgLogin.Reordered (login login' : PgLogin) : Prop where
  name : login.name = login'.name
  memberOf : login.memberOf.Perm login'.memberOf
  database : login.database = login'.database

/-- `d'` is `d` with every list in some order. -/
structure Declaration.Reordered (d d' : Declaration) : Prop where
  roles : Shuffled Role.Reordered d.roles d'.roles
  groups : Shuffled Group.Reordered d.groups d'.groups
  resources : Shuffled Resource.Reordered d.resources d'.resources
  catalogGrants : Option.Rel (Shuffled CatalogGrant.Reordered) d.catalogGrants d'.catalogGrants
  logins : Option.Rel (Shuffled PgLogin.Reordered) d.logins d'.logins

theorem Grant.Reordered.refl (grant : Grant) : grant.Reordered grant :=
  ⟨.refl _, .refl _, rfl, rfl, rfl⟩

theorem Grant.Reordered.masks {grant grant' : Grant} (h : grant.Reordered grant') :
    grant'.masks = grant.masks := by
  rw [Grant.masks, Grant.masks, h.columnMask]

theorem Grant.Reordered.optedOut {grant grant' : Grant} (h : grant.Reordered grant') :
    grant'.optedOut = grant.optedOut := by
  rw [Grant.optedOut, Grant.optedOut, h.allowUnmasked]

theorem CatalogGrant.Reordered.refl (cg : CatalogGrant) : cg.Reordered cg :=
  ⟨rfl, .refl _, .refl _⟩

theorem PgLogin.Reordered.refl (login : PgLogin) : login.Reordered login := ⟨rfl, .refl _, rfl⟩

theorem rel_getD {α β : Type} {S : α → β → Prop} {x : Option α} {y : Option β}
    (h : Option.Rel S x y) {a : α} {b : β} (hab : S a b) : S (x.getD a) (y.getD b) := by
  cases h with
  | some hxy => exact hxy
  | none => exact hab

theorem Role.Reordered.parents {r r' : Role} (h : r.Reordered r') :
    r.parents.Perm r'.parents := rel_getD h.includes (.refl _)

namespace Declaration.Reordered

variable {d d' : Declaration}

theorem catalogGrantList (h : d.Reordered d') :
    Shuffled CatalogGrant.Reordered d.catalogGrantList d'.catalogGrantList :=
  rel_getD h.catalogGrants (.of_forall₂ .nil)

theorem loginList (h : d.Reordered d') :
    Shuffled PgLogin.Reordered d.loginList d'.loginList := rel_getD h.logins (.of_forall₂ .nil)

theorem roleNames (h : d.Reordered d') : d.roleNames.Perm d'.roleNames :=
  h.roles.map_perm fun _ _ _ hr => hr.name

/-! ## Inheritance -/

theorem mem_includesOf (h : d.Reordered d') (hnodup : d.roleNames.Nodup) {name s : String} :
    s ∈ includesOf d' name ↔ s ∈ includesOf d name := by
  by_cases hname : name ∈ d.roleNames
  · obtain ⟨r, hr, rfl⟩ := List.mem_map.mp hname
    obtain ⟨r', hr', hreorder⟩ := h.roles.target hr
    rw [includesOf_eq hnodup hr, hreorder.name, includesOf_eq (h.roleNames.nodup hnodup) hr']
    exact hreorder.parents.symm.mem_iff
  · -- no role has the name
    have hnil : includesOf d name = [] := includesOf_undeclared hname
    have hnil' : includesOf d' name = [] :=
      includesOf_undeclared fun hmem => hname (h.roleNames.mem_iff.mpr hmem)
    rw [hnil, hnil']

theorem edge_eq (h : d.Reordered d') (hnodup : d.roleNames.Nodup) :
    Edge (includesOf d') = Edge (includesOf d) := by
  funext x y
  exact propext (h.mem_includesOf hnodup)

theorem inherits_iff (h : d.Reordered d') (hnodup : d.roleNames.Nodup) {r s : String} :
    Inherits d' r s ↔ Inherits d r s := by
  unfold Inherits Reach
  rw [h.edge_eq hnodup]

theorem expandRoles_eq (h : d.Reordered d') (hnodup : d.roleNames.Nodup) (r : String) :
    expandRoles d' r = expandRoles d r := by
  refine sort_congr ((List.perm_ext_iff_of_nodup (nodup_expand d' r) (nodup_expand d r)).mpr ?_)
  intro s
  rw [mem_walk (within_names d' r) List.mem_cons_self (by simp [Declaration.depth]),
    mem_walk (within_names d r) List.mem_cons_self (by simp [Declaration.depth])]
  exact h.inherits_iff hnodup

theorem mem_holdersOf_iff (h : d.Reordered d') (hnodup : d.roleNames.Nodup) {r s : String} :
    r ∈ holdersOf d' s ↔ r ∈ holdersOf d s := by
  rw [mem_holdersOf, mem_holdersOf, h.roleNames.mem_iff, h.inherits_iff hnodup]

/-- The holders of some roles, in any order. -/
theorem effective_eq (h : d.Reordered d') (hnodup : d.roleNames.Nodup) {roles roles' : List String}
    (hroles : ∀ role, role ∈ roles ↔ role ∈ roles') :
    effective d' roles' = effective d roles := by
  refine sort_eraseDups_congr fun r => ?_
  simp only [List.mem_flatMap, h.mem_holdersOf_iff hnodup, hroles]

theorem mem_holdersOfIncludingGroups_iff (h : d.Reordered d') (hnodup : d.roleNames.Nodup)
    {holder s : String} :
    holder ∈ holdersOfIncludingGroups d' s ↔ holder ∈ holdersOfIncludingGroups d s := by
  simp only [mem_holdersOfIncludingGroups, h.mem_holdersOf_iff hnodup, mem_taggedGroupHolders,
    h.inherits_iff hnodup]
  refine or_congr_right ⟨?_, ?_⟩
  · rintro ⟨g', hg', ⟨r, hr, hinherits⟩, rfl⟩
    obtain ⟨g, hg, hreorder⟩ := h.groups.source hg'
    exact ⟨g, hg, ⟨r, hreorder.roles.mem_iff.mpr hr, hinherits⟩, by rw [hreorder.name]⟩
  · rintro ⟨g, hg, ⟨r, hr, hinherits⟩, rfl⟩
    obtain ⟨g', hg', hreorder⟩ := h.groups.target hg
    exact ⟨g', hg', ⟨r, hreorder.roles.mem_iff.mp hr, hinherits⟩, by rw [hreorder.name]⟩

end Declaration.Reordered

/-! ## What is reported -/

variable {d d' : Declaration}

@[simp] theorem require_eq_nil {ok : Bool} {e : ValidationError} :
    require ok e = [] ↔ ok = true := by
  cases ok <;> simp [require]

@[simp] theorem knownRole_eq_nil {place : RolePlace} {role : String} :
    knownRole d place role = [] ↔ role ∈ d.roleNames := by
  simp [knownRole]

@[simp] theorem roleReference_eq_nil {place : RolePlace} {role : String} :
    roleReference d place role = [] ↔ role ∈ d.roleNames ∧ ROLE_NAME.test role := by
  simp [roleReference]

theorem collisionErrors_of_nodup (h : (d.roleNames.map toPgRole).Nodup) :
    collisionErrors d = [] := by
  simp only [collisionErrors, List.flatMap_eq_nil_iff, require_eq_nil, decide_eq_true_eq]
  intro pg _
  have hone := List.nodup_iff_count_le_one.mp h pg
  rwa [List.count, List.countP_map, List.countP_eq_length_filter] at hone

theorem duplicateResourceErrors_of_nodup (h : (d.resources.map resourceKey).Nodup) :
    duplicateResourceErrors d = [] := by
  simp only [duplicateResourceErrors, List.flatMap_eq_nil_iff, require_eq_nil, decide_eq_true_eq]
  exact fun key _ => List.nodup_iff_count_le_one.mp h key

theorem duplicateCatalogGrantErrors_of_nodup (h : (catalogOperations d).Nodup) :
    duplicateCatalogGrantErrors d = [] := by
  simp only [duplicateCatalogGrantErrors, List.flatMap_eq_nil_iff, require_eq_nil,
    decide_eq_true_eq]
  exact fun pair _ => List.nodup_iff_count_le_one.mp h pair

/-- No conflict is reported of a resource, as a fact about all its masks. -/
theorem conflictErrors_eq_nil {res : Resource} :
    conflictErrors d res = [] ↔ ∀ col, ∀ a ∈ maskedBy res col, ∀ b ∈ maskedBy res col,
      a.2 ≠ b.2 → a.1.optedOut = b.1.optedOut → ∀ holder, holder ∉ overlap d res a.1 b.1 := by
  simp only [conflictErrors, List.flatMap_eq_nil_iff, require_eq_nil, mem_sort,
    List.mem_eraseDups, Bool.or_eq_true, decide_eq_true_eq, bne_iff_ne, List.isEmpty_iff]
  simp only [List.eq_nil_iff_forall_not_mem]
  constructor
  · intro h col a ha b hb hne hopted holder hholder
    obtain ⟨hgrant, hmask⟩ := mem_maskedBy.mp ha
    have hcol : col ∈ res.grants.flatMap fun g => g.masks.map Prod.fst :=
      List.mem_flatMap.mpr ⟨a.1, hgrant, List.mem_map_of_mem hmask⟩
    -- the pair was compared in one of its orders
    rcases mem_pairs ha hb (fun heq => hne (by rw [heq])) with hpair | hpair
    · exact ((h col hcol (a, b) hpair).resolve_left (by simp [hne, hopted])) holder hholder
    · refine ((h col hcol (b, a) hpair).resolve_left (by simp [hne.symm, hopted])) holder ?_
      rw [mem_overlap] at hholder ⊢
      exact ⟨hholder.2.1, hholder.1, hopted ▸ hholder.2.2⟩
  · rintro h col - ⟨a, b⟩ hpair
    obtain ⟨ha, hb⟩ := mem_of_mem_pairs hpair
    by_cases hne : a.2 = b.2
    · exact .inl (.inl hne)
    · by_cases hopted : a.1.optedOut = b.1.optedOut
      · exact .inr (h col a ha b hb hne hopted)
      · exact .inl (.inr hopted)

namespace Declaration.Reordered

section Elements

variable (h : d.Reordered d')

include h

theorem roleErrors_nil {r r' : Role} (hr : r.Reordered r') (hnil : roleErrors d r = []) :
    roleErrors d' r' = [] := by
  simp only [roleErrors, List.append_eq_nil_iff, List.flatMap_eq_nil_iff, require_eq_nil,
    roleReference_eq_nil, h.roleNames.mem_iff] at hnil ⊢
  rw [← hr.name]
  exact ⟨hnil.1, fun p hp => hnil.2 p (hr.parents.mem_iff.mpr hp)⟩

theorem groupErrors_nil {g g' : Group} (hg : g.Reordered g') (hnil : groupErrors d g = []) :
    groupErrors d' g' = [] := by
  simp only [groupErrors, List.append_eq_nil_iff, List.flatMap_eq_nil_iff, require_eq_nil,
    roleReference_eq_nil, h.roleNames.mem_iff] at hnil ⊢
  rw [← hg.name]
  exact ⟨hnil.1, fun role hrole => hnil.2 role (hg.roles.mem_iff.mpr hrole)⟩

theorem catalogGrantErrors_nil {cg cg' : CatalogGrant} (hcg : cg.Reordered cg')
    (hnil : catalogGrantErrors d cg = []) : catalogGrantErrors d' cg' = [] := by
  simp only [catalogGrantErrors, List.append_eq_nil_iff, List.flatMap_eq_nil_iff, require_eq_nil,
    roleReference_eq_nil, h.roleNames.mem_iff] at hnil ⊢
  rw [← hcg.catalog]
  exact ⟨hnil.1, fun role hrole => hnil.2 role (hcg.roles.mem_iff.mpr hrole)⟩

theorem loginErrors_nil {login login' : PgLogin} (hlogin : login.Reordered login')
    (hnil : loginErrors d login = []) : loginErrors d' login' = [] := by
  simp only [loginErrors, List.append_eq_nil_iff, List.flatMap_eq_nil_iff, require_eq_nil,
    knownRole_eq_nil, h.roleNames.mem_iff, decide_eq_true_eq] at hnil ⊢
  rw [← hlogin.name, ← hlogin.database, (h.roleNames.map toPgRole).mem_iff.not.symm]
  exact ⟨hnil.1, fun role hrole => hnil.2 role (hlogin.memberOf.mem_iff.mpr hrole)⟩

theorem grantErrors_nil {res res' : Resource} (hres : res.Reordered res') {grant grant' : Grant}
    (hgrant : grant.Reordered grant') (hnil : grantErrors d res grant = []) :
    grantErrors d' res' grant' = [] := by
  have huncovered : uncovered res' grant' = uncovered res grant := by
    rw [uncovered, uncovered, hgrant.masks, Resource.sensitive, Resource.sensitive,
      hres.sensitiveColumns]
  simp only [grantErrors, List.append_eq_nil_iff, List.flatMap_eq_nil_iff, require_eq_nil,
    roleReference_eq_nil, h.roleNames.mem_iff, hgrant.masks, hgrant.optedOut, huncovered,
    ← hgrant.columnMask, ← hgrant.rowFilter, ← hres.engine, ← hres.classification,
    ← hgrant.privileges.mem_iff] at hnil ⊢
  obtain ⟨⟨⟨⟨hpostgres, hroles⟩, hkeys⟩, hfilter⟩, hpii⟩ := hnil
  refine ⟨⟨⟨⟨hpostgres, fun role hrole => ?_⟩, hkeys⟩, ?_⟩, hpii⟩
  · exact hroles role (hgrant.roles.mem_iff.mpr hrole)
  · cases hrow : grant.rowFilter with
    | none => rfl
    | some filter =>
        rw [hrow] at hfilter
        exact require_eq_nil.mpr (require_eq_nil.mp hfilter)

theorem mem_flatMap_holders (hnodup : d.roleNames.Nodup) {roles roles' : List String}
    (hroles : ∀ role, role ∈ roles ↔ role ∈ roles') {holder : String} :
    holder ∈ roles'.flatMap (holdersOfIncludingGroups d') ↔
      holder ∈ roles.flatMap (holdersOfIncludingGroups d) := by
  simp only [List.mem_flatMap, h.mem_holdersOfIncludingGroups_iff hnodup, hroles]

omit h in
theorem mem_unmaskedRoles {res res' : Resource} (hres : res.Reordered res') (role : String) :
    role ∈ unmaskedRoles res ↔ role ∈ unmaskedRoles res' := by
  refine List.Perm.mem_iff (Shuffled.flatMap_perm (R := Grant.Reordered) ?_ fun _ _ h => h.roles)
  exact hres.grants.filter fun _ _ hgrant => by rw [hgrant.optedOut]

omit h in
/-- A mask of a column comes from the same mask, in a grant with the same roles. -/
theorem maskedBy_source {res res' : Resource} (hres : res.Reordered res') {col : String}
    {a' : Grant × MaskKind} (ha : a' ∈ maskedBy res' col) :
    ∃ a ∈ maskedBy res col, a.1.Reordered a'.1 ∧ a.2 = a'.2 := by
  obtain ⟨hgrant', hmask⟩ := mem_maskedBy.mp ha
  obtain ⟨grant, hgrant, hreorder⟩ := hres.grants.source hgrant'
  rw [hreorder.masks] at hmask
  exact ⟨(grant, a'.2), mem_maskedBy.mpr ⟨hgrant, hmask⟩, hreorder, rfl⟩

theorem conflictErrors_nil (hnodup : d.roleNames.Nodup) {res res' : Resource}
    (hres : res.Reordered res') (hnil : conflictErrors d res = []) :
    conflictErrors d' res' = [] := by
  rw [conflictErrors_eq_nil] at hnil ⊢
  intro col a' ha' b' hb' hne hopted holder hholder
  obtain ⟨a, ha, haa, hka⟩ := maskedBy_source hres ha'
  obtain ⟨b, hb, hbb, hkb⟩ := maskedBy_source hres hb'
  rw [mem_overlap, h.mem_flatMap_holders hnodup fun _ => haa.roles.mem_iff,
    h.mem_flatMap_holders hnodup fun _ => hbb.roles.mem_iff,
    h.mem_flatMap_holders hnodup (mem_unmaskedRoles hres), haa.optedOut, ← mem_overlap] at hholder
  refine hnil col a ha b hb (by rwa [hka, hkb]) ?_ holder hholder
  rwa [haa.optedOut, hbb.optedOut] at hopted

theorem resourceErrors_nil (hnodup : d.roleNames.Nodup) {res res' : Resource}
    (hres : res.Reordered res') (hnil : resourceErrors d res = []) :
    resourceErrors d' res' = [] := by
  have hsensitive : res'.sensitive = res.sensitive := by
    rw [Resource.sensitive, Resource.sensitive, hres.sensitiveColumns]
  simp only [resourceErrors, List.append_eq_nil_iff, List.flatMap_eq_nil_iff, require_eq_nil,
    ← hres.resource, ← hres.classification, hsensitive] at hnil ⊢
  obtain ⟨⟨⟨hname, hcols⟩, hgrants⟩, hconflicts⟩ := hnil
  refine ⟨⟨⟨hname, hcols⟩, fun grant' hgrant' => ?_⟩, h.conflictErrors_nil hnodup hres hconflicts⟩
  obtain ⟨grant, hgrant, hreorder⟩ := hres.grants.source hgrant'
  exact h.grantErrors_nil hres hreorder (hgrants grant hgrant)

theorem findCycle_none (hnodup : d.roleNames.Nodup) (hnone : findCycle d = none) :
    findCycle d' = none := by
  refine findCycle_of_acyclic fun y hcycle => ?_
  rw [h.edge_eq hnodup] at hcycle
  -- a node of a cycle includes something, so it is a role
  have hy : y ∈ d.roleNames := by
    obtain ⟨s, hs, -⟩ := Relation.TransGen.head'_iff.mp hcycle
    by_contra hundeclared
    rw [Edge, includesOf_undeclared hundeclared] at hs
    cases hs
  exact acyclic_of_findCycle hnone hy .refl hcycle

/-- A valid declaration is valid in every order. -/
theorem validate (hvalid : validateDeclaration d = []) : validateDeclaration d' = [] := by
  have hs := (valid_of_validate hvalid).toSound
  have hnodup := hs.role_names_nodup
  have hcycle : cycleErrors d' = [] := by
    rw [cycleErrors, h.findCycle_none hnodup hs.acyclic]
  have hcollisions : collisionErrors d' = [] :=
    collisionErrors_of_nodup ((h.roleNames.map toPgRole).nodup hs.pg_roles)
  have hkeys : duplicateResourceErrors d' = [] := by
    refine duplicateResourceErrors_of_nodup (List.Perm.nodup ?_ hs.resource_keys)
    refine h.resources.map_perm fun res _ res' hres => ?_
    rw [resourceKey, resourceKey, Resource.engineOrTrino, Resource.engineOrTrino, hres.engine,
      hres.resource]
  have hops : duplicateCatalogGrantErrors d' = [] := by
    refine duplicateCatalogGrantErrors_of_nodup (List.Perm.nodup ?_ hs.catalog_operations)
    refine h.catalogGrantList.flatMap_perm fun cg cg' hcg => ?_
    rw [hcg.catalog]
    exact hcg.operations.map _
  simp only [validateDeclaration, List.append_eq_nil_iff, List.flatMap_eq_nil_iff] at hvalid ⊢
  obtain ⟨⟨⟨⟨⟨⟨⟨⟨-, hroles⟩, -⟩, hgroups⟩, -⟩, hresources⟩, hcatalogs⟩, -⟩, hlogins⟩ := hvalid
  refine ⟨⟨⟨⟨⟨⟨⟨⟨hcycle, fun r' hr' => ?_⟩, hcollisions⟩, fun g' hg' => ?_⟩, hkeys⟩,
    fun res' hres' => ?_⟩, fun cg' hcg' => ?_⟩, hops⟩, fun login' hlogin' => ?_⟩
  · obtain ⟨r, hr, hreorder⟩ := h.roles.source hr'
    exact h.roleErrors_nil hreorder (hroles r hr)
  · obtain ⟨g, hg, hreorder⟩ := h.groups.source hg'
    exact h.groupErrors_nil hreorder (hgroups g hg)
  · obtain ⟨res, hres, hreorder⟩ := h.resources.source hres'
    exact h.resourceErrors_nil hnodup hreorder (hresources res hres)
  · obtain ⟨cg, hcg, hreorder⟩ := h.catalogGrantList.source hcg'
    exact h.catalogGrantErrors_nil hreorder (hcatalogs cg hcg)
  · obtain ⟨login, hlogin, hreorder⟩ := h.loginList.source hlogin'
    exact h.loginErrors_nil hreorder (hlogins login hlogin)

end Elements

end Declaration.Reordered

end Policy
