import Beluga.Policy.Validate

/-! # What validation establishes

The checks of `validateDeclaration` as properties of the declaration. `Sound`
holds when nothing but mask conflicts is reported, `Valid` when nothing is;
everything that is proved of validated declarations uses these fields only.

* `sound_of_onlyConflicts`, `valid_of_validate`: validation establishes them;
* `Sound.split`: a resource name is a schema and a table.
-/

namespace Policy

open Text

/-! ## The fields -/

/-- A grant of a resource that passed its checks. -/
structure GrantSound (d : Declaration) (res : Resource) (grant : Grant) : Prop where
  postgres_mask : res.engine = some .postgres → grant.columnMask = none
  postgres_filter : res.engine = some .postgres → grant.rowFilter = none
  roles : ∀ role ∈ grant.roles, role ∈ d.roleNames ∧ ROLE_NAME.test role
  mask_keys : ∀ mask ∈ grant.masks, IDENTIFIER.test mask.1
  row_filter : ∀ filter, grant.rowFilter = some filter → rowFilterValid filter
  pii : res.classification = .pii → .select ∈ grant.privileges → grant.optedOut = false →
    ∀ c ∈ res.sensitive, c ∈ grant.masks.map Prod.fst

structure ResourceSound (d : Declaration) (res : Resource) : Prop where
  name : resourceValid res.resource
  sensitive : ∀ c ∈ res.sensitive, IDENTIFIER.test c
  pii : res.classification = .pii → res.sensitive ≠ []
  grants : ∀ grant ∈ res.grants, GrantSound d res grant

structure LoginSound (d : Declaration) (login : PgLogin) : Prop where
  name : LOGIN_NAME.test login.name
  database : IDENTIFIER.test login.database
  apart : login.name ∉ d.roleNames.map toPgRole
  memberOf : ∀ role ∈ login.memberOf, role ∈ d.roleNames

structure Sound (d : Declaration) : Prop where
  acyclic : findCycle d = none
  role_names : ∀ role ∈ d.roleNames, ROLE_NAME.test role
  parents : ∀ r ∈ d.roles, ∀ p ∈ r.parents, p ∈ d.roleNames ∧ ROLE_NAME.test p
  /-- No two roles become one PG role. -/
  pg_roles : (d.roleNames.map toPgRole).Nodup
  group_roles : ∀ g ∈ d.groups, ∀ role ∈ g.roles, role ∈ d.roleNames
  resource_keys : (d.resources.map resourceKey).Nodup
  resources : ∀ res ∈ d.resources, ResourceSound d res
  catalogs : ∀ cg ∈ d.catalogGrantList, cg.catalog = DEPLOYED_CATALOG
  catalog_roles : ∀ cg ∈ d.catalogGrantList, ∀ role ∈ cg.roles, role ∈ d.roleNames
  catalog_operations : (catalogOperations d).Nodup
  logins : ∀ login ∈ d.loginList, LoginSound d login

structure Valid (d : Declaration) : Prop extends Sound d where
  no_conflict : ∀ res ∈ d.resources, conflictErrors d res = []

/-! ## From the checks -/

/-- Nothing but mask conflicts is reported. -/
def OnlyConflicts (errors : List ValidationError) : Prop :=
  ∀ e ∈ errors, e.code = .CONFLICTING_MASK

theorem onlyConflicts_append {es es' : List ValidationError} :
    OnlyConflicts (es ++ es') ↔ OnlyConflicts es ∧ OnlyConflicts es' := List.forall_mem_append

theorem onlyConflicts_flatMap {α : Type} {xs : List α} {f : α → List ValidationError} :
    OnlyConflicts (xs.flatMap f) ↔ ∀ x ∈ xs, OnlyConflicts (f x) := by
  simp only [OnlyConflicts, List.mem_flatMap]
  exact ⟨fun h x hx e he => h e ⟨x, hx, he⟩, fun h e ⟨x, hx, he⟩ => h x hx e he⟩

theorem onlyConflicts_require {ok : Bool} {e : ValidationError} (he : e.code ≠ .CONFLICTING_MASK) :
    OnlyConflicts (require ok e) ↔ ok = true := by
  cases ok <;> simp [OnlyConflicts, require, he]

theorem onlyConflicts_roleReference {d : Declaration} {place : RolePlace} {role : String} :
    OnlyConflicts (roleReference d place role) ↔ role ∈ d.roleNames ∧ ROLE_NAME.test role := by
  rw [roleReference, knownRole, onlyConflicts_append, onlyConflicts_require (by simp [ValidationError.code]),
    onlyConflicts_require (by simp [ValidationError.code]), decide_eq_true_eq]

variable {d : Declaration}

theorem grantSound_of_onlyConflicts {res : Resource} {grant : Grant}
    (h : OnlyConflicts (grantErrors d res grant)) : GrantSound d res grant := by
  simp only [grantErrors, onlyConflicts_append, onlyConflicts_flatMap,
    onlyConflicts_roleReference] at h
  obtain ⟨⟨⟨⟨⟨hmask, hfilter⟩, hroles⟩, hkeys⟩, hrow⟩, hpii⟩ := h
  rw [onlyConflicts_require (by simp [ValidationError.code])] at hmask hfilter hpii
  refine ⟨fun hengine => ?_, fun hengine => ?_, hroles, fun mask hmem => ?_, fun filter hsome => ?_,
    fun hclass hselect hopted c hc => ?_⟩
  · simpa [hengine] using hmask
  · simpa [hengine] using hfilter
  · have hkey := hkeys mask.1 (List.mem_map_of_mem hmem)
    rwa [onlyConflicts_require (by simp [ValidationError.code])] at hkey
  · rw [hsome, onlyConflicts_require (by simp [ValidationError.code])] at hrow
    exact hrow
  · by_contra hne
    have hmem : c ∈ uncovered res grant := by
      simp only [uncovered, List.mem_filter, decide_eq_true_eq]
      exact ⟨hc, hne⟩
    have hpos := List.length_pos_of_mem hmem
    simp [hclass, hselect, hopted, hpos] at hpii

theorem resourceSound_of_onlyConflicts {res : Resource}
    (h : OnlyConflicts (resourceErrors d res)) : ResourceSound d res := by
  simp only [resourceErrors, onlyConflicts_append, onlyConflicts_flatMap] at h
  obtain ⟨⟨⟨⟨hname, hsensitive⟩, hpii⟩, hgrants⟩, -⟩ := h
  rw [onlyConflicts_require (by simp [ValidationError.code])] at hname hpii
  refine ⟨hname, fun c hc => ?_, fun hclass hnil => ?_,
    fun grant hgrant => grantSound_of_onlyConflicts (hgrants grant hgrant)⟩
  · have hcol := hsensitive c hc
    rwa [onlyConflicts_require (by simp [ValidationError.code])] at hcol
  · simp [hclass, hnil] at hpii

theorem loginSound_of_onlyConflicts {login : PgLogin}
    (h : OnlyConflicts (loginErrors d login)) : LoginSound d login := by
  simp only [loginErrors, knownRole, onlyConflicts_append, onlyConflicts_flatMap] at h
  obtain ⟨⟨⟨hname, hdatabase⟩, happart⟩, hmember⟩ := h
  rw [onlyConflicts_require (by simp [ValidationError.code])] at hname hdatabase happart
  refine ⟨hname, hdatabase, by simpa using happart, fun role hrole => ?_⟩
  have hknown := hmember role hrole
  rw [onlyConflicts_require (by simp [ValidationError.code])] at hknown
  simpa using hknown

theorem nodup_of_collisionErrors (h : OnlyConflicts (collisionErrors d)) :
    (d.roleNames.map toPgRole).Nodup := by
  simp only [collisionErrors, onlyConflicts_flatMap, Js.mem_sort, List.mem_eraseDups] at h
  rw [List.nodup_iff_count_le_one]
  intro pg
  by_cases hpg : pg ∈ d.roleNames.map toPgRole
  · have hone := h pg hpg
    rw [onlyConflicts_require (by simp [ValidationError.code]), decide_eq_true_eq] at hone
    rwa [List.count, List.countP_map, List.countP_eq_length_filter]
  · rw [List.count_eq_zero_of_not_mem hpg]
    omega

theorem nodup_of_duplicateResourceErrors (h : OnlyConflicts (duplicateResourceErrors d)) :
    (d.resources.map resourceKey).Nodup := by
  simp only [duplicateResourceErrors, onlyConflicts_flatMap, Js.mem_sort, List.mem_eraseDups] at h
  rw [List.nodup_iff_count_le_one]
  intro key
  by_cases hkey : key ∈ d.resources.map resourceKey
  · have hone := h key hkey
    rwa [onlyConflicts_require (by simp [ValidationError.code]), decide_eq_true_eq] at hone
  · rw [List.count_eq_zero_of_not_mem hkey]
    omega

theorem nodup_of_duplicateCatalogGrantErrors (h : OnlyConflicts (duplicateCatalogGrantErrors d)) :
    (catalogOperations d).Nodup := by
  simp only [duplicateCatalogGrantErrors, onlyConflicts_flatMap, Js.mem_sortOn,
    List.mem_eraseDups] at h
  rw [List.nodup_iff_count_le_one]
  intro pair
  by_cases hpair : pair ∈ catalogOperations d
  · have hone := h pair hpair
    rwa [onlyConflicts_require (by simp [ValidationError.code]), decide_eq_true_eq] at hone
  · rw [List.count_eq_zero_of_not_mem hpair]
    omega

/-- A declaration with mask conflicts at most passed every other check. -/
theorem sound_of_onlyConflicts (h : OnlyConflicts (validateDeclaration d)) : Sound d := by
  simp only [validateDeclaration, roleErrors, groupErrors, catalogGrantErrors,
    onlyConflicts_append, onlyConflicts_flatMap, onlyConflicts_roleReference] at h
  obtain ⟨⟨⟨⟨⟨⟨⟨⟨hcycle, hroles⟩, hpg⟩, hgroups⟩, hkeys⟩, hresources⟩, hcatalogs⟩, hops⟩, hlogins⟩ := h
  refine ⟨?_, ?_, fun r hr => (hroles r hr).2, nodup_of_collisionErrors hpg,
    fun g hg role hrole => ((hgroups g hg).2 role hrole).1, nodup_of_duplicateResourceErrors hkeys,
    fun res hres => resourceSound_of_onlyConflicts (hresources res hres), fun cg hcg => ?_,
    fun cg hcg role hrole => ((hcatalogs cg hcg).2 role hrole).1,
    nodup_of_duplicateCatalogGrantErrors hops,
    fun login hlogin => loginSound_of_onlyConflicts (hlogins login hlogin)⟩
  · cases hfind : findCycle d with
    | none => rfl
    | some cycle => simp [cycleErrors, hfind, OnlyConflicts, ValidationError.code] at hcycle
  · intro role hrole
    obtain ⟨r, hr, rfl⟩ := List.mem_map.mp hrole
    have hname := (hroles r hr).1
    rwa [onlyConflicts_require (by simp [ValidationError.code])] at hname
  · have hcatalog := (hcatalogs cg hcg).1
    rw [onlyConflicts_require (by simp [ValidationError.code])] at hcatalog
    simpa using hcatalog

theorem valid_of_validate (h : validateDeclaration d = []) : Valid d where
  toSound := sound_of_onlyConflicts (by simp [h, OnlyConflicts])
  no_conflict res hres := by
    have hnil : ∀ res ∈ d.resources, resourceErrors d res = [] := by
      simp only [validateDeclaration, List.append_eq_nil_iff, List.flatMap_eq_nil_iff] at h
      exact h.1.1.1.2
    have hres := hnil res hres
    simp only [resourceErrors, List.append_eq_nil_iff] at hres
    exact hres.2

/-- The fixture of the compiler tests, with a group, a PG table, a catalog grant and a login. -/
def sample : Declaration where
  roles := [{ name := "analysts" }, { name := "engineers", includes := some ["analysts"] }]
  groups := [{ name := "bi", roles := ["engineers"] }]
  resources :=
    [{ resource := "lake.events_enriched", classification := .internal,
       grants := [{ roles := ["analysts"], privileges := [.select] }] },
     { resource := "lake.customers", classification := .pii,
       sensitiveColumns := some ["email"],
       grants :=
        [{ roles := ["engineers"], privileges := [.select, .insert], allowUnmasked := some true },
         { roles := ["analysts"], privileges := [.select],
           columnMask := some ⟨[("email", .hash)], List.nodup_singleton _⟩,
           rowFilter := some "region = 'KR'" }] },
     { resource := "app.events", classification := .internal, engine := some .postgres,
       grants := [{ roles := ["analysts"], privileges := [.select] }] }]
  catalogGrants := some
    [{ catalog := "iceberg", roles := ["analysts"], operations := [.ExecuteQuery, .AccessCatalog] }]
  logins := some [{ name := "alice", memberOf := ["engineers"], database := "appdb" }]

theorem validate_sample : validateDeclaration sample = [] := by decide +kernel

end Policy
