import Beluga.Policy.Allow

/-! # What masks and row filters hide

The rules that are not `allow` rules: when they fire, and for whom an opt-out
turns them off.

* `pii_masked`: whoever may select from a PII table gets every sensitive column
  masked, or holds a role with the opt-out;
* `write_grant_keeps_reads`: what one more grant without reads changes.
-/

namespace Policy

variable {d : Declaration} {i : Input}

/-! ## Who opted out -/

/-- The roles of the grants with `allowUnmasked: true`. -/
def unmaskedRoles (res : Resource) : List String :=
  (res.grants.filter Grant.optedOut).flatMap (·.roles)

theorem has_unmaskedRoles {res : Resource} : i.Has (unmaskedRoles res) ↔
    ∃ grant ∈ res.grants, grant.optedOut = true ∧ i.Has grant.roles := by
  simp only [Input.Has, unmaskedRoles, List.mem_flatMap, List.mem_filter]
  constructor
  · rintro ⟨role, ⟨grant, ⟨hgrant, hopted⟩, hrole⟩, htoken⟩
    exact ⟨grant, hgrant, hopted, role, hrole, htoken⟩
  · rintro ⟨grant, hgrant, hopted, role, hrole, htoken⟩
    exact ⟨role, ⟨grant, ⟨hgrant, hopted⟩, hrole⟩, htoken⟩

theorem ResourceSound.unmaskedRoles_declared {res : Resource} (h : ResourceSound d res) :
    ∀ role ∈ unmaskedRoles res, role ∈ d.roleNames := by
  intro role hrole
  obtain ⟨grant, hgrant, hrole⟩ := List.mem_flatMap.mp hrole
  exact (((h.grants grant (List.mem_filter.mp hgrant).1).roles role hrole)).1

/-! ## One rule -/

theorem holds_columnGuard {schema table col : String} :
    (∀ c ∈ columnGuard schema table col, c.Holds i) ↔
      i.resource = .column DEPLOYED_CATALOG schema table col := by
  simp only [columnGuard, List.forall_mem_cons, Condition.Holds, Input.get]
  cases i.resource <;> simp

/-- The guard lets through a grant's own opt-out and tokens that nobody opted out. -/
theorem holds_unmaskedGuard {res : Resource} {grant : Grant} (h : ResourceSound d res)
    (hclosed : Closed d i.groups) : (∀ c ∈ unmaskedGuard d res grant, c.Holds i) ↔
      grant.optedOut = true ∨ ¬ i.Has (unmaskedRoles res) := by
  have hholds : i.Has (unmaskedRoles res) ↔ ∃ g ∈ i.groups, g ∈ unmaskedGroups d res :=
    (hclosed.holds_effective h.unmaskedRoles_declared).symm
  unfold unmaskedGuard
  split
  · rename_i hguard
    have hopted : grant.optedOut = false := by
      cases hopt : grant.optedOut with
      | false => rfl
      | true => simp [hopt] at hguard
    rw [List.forall_mem_singleton, Condition.Holds, hholds, hopted]
    simp
  · rename_i hguard
    refine iff_of_true (List.forall_mem_nil _) ?_
    rw [hholds]
    cases hopt : grant.optedOut with
    | true => exact .inl rfl
    | false =>
        have hempty : unmaskedGroups d res = [] := by simpa [hopt] using hguard
        simp [hempty]

/-- A rule of a grant that hides something in a place. -/
theorem fires_hiding {r : Rule} {res : Resource} {grant : Grant} {place : List Condition}
    (h : ResourceSound d res) (hclosed : Closed d i.groups)
    (hbody : r.body = place ++ [.someGroup grant.roles] ++ unmaskedGuard d res grant) :
    r.Fires i ↔ (∀ c ∈ place, c.Holds i) ∧ i.Has grant.roles ∧
      (grant.optedOut = true ∨ ¬ i.Has (unmaskedRoles res)) := by
  have hgroups : (Condition.someGroup grant.roles).Holds i ↔ i.Has grant.roles :=
    ⟨fun ⟨g, hg, hrole⟩ => ⟨g, hrole, hg⟩, fun ⟨g, hrole, hg⟩ => ⟨g, hg, hrole⟩⟩
  rw [Rule.Fires, hbody, List.forall_mem_append, List.forall_mem_append,
    List.forall_mem_singleton, holds_unmaskedGuard h hclosed, hgroups, and_assoc]

/-! ## Personal data -/

theorem grant_of_allows {res : Resource} (h : ResourceSound d res) {schema table : String}
    {own : List Rule} (hown : resourceRules d res = .ok own) {p : Privilege} {token : List String}
    (hclosed : Closed d token)
    (hallows : Allows own ⟨operationOf p, .table DEPLOYED_CATALOG schema table, token⟩) :
    ∃ grant ∈ res.grants, p ∈ grant.privileges ∧ ∃ role ∈ grant.roles, role ∈ token := by
  obtain ⟨r, hr, hhead, hfires⟩ := hallows
  obtain ⟨s, t, -, grant, hgrant, hr⟩ := (mem_resourceRules hown).mp hr
  simp only [grantRules, List.mem_append, List.mem_map, Js.mem_sortOn] at hr
  rcases hr with (⟨q, hq, rfl⟩ | ⟨filter, -, rfl⟩) | ⟨mask, -, rfl⟩
  · obtain ⟨hop, -, hholder⟩ := allowRule_fires.mp hfires
    rw [← operationOf_inj hop] at hq
    refine ⟨grant, hgrant, hq, ?_⟩
    exact (hclosed.holds_effective fun role hrole =>
      ((h.grants grant hgrant).roles role hrole).1).mp hholder
  · cases hhead
  · cases hhead

/-- Every sensitive column of a PII table is masked for those who may select from
the table, but for holders of an opt-out. -/
theorem pii_masked (d : Declaration) (hvalid : validateDeclaration d = []) :
    ∃ rules, regoRules d = .ok rules ∧ ∀ res ∈ d.resources, res.engineOrTrino = .trino →
      res.classification = .pii → ∃ own schema table, resourceRules d res = .ok own ∧
        own ⊆ rules ∧ res.resource = schema ++ "." ++ table ∧
        ∀ c ∈ res.sensitive, ∀ token, Closed d token →
          Allows own ⟨"SelectFromColumns", .table DEPLOYED_CATALOG schema table, token⟩ →
          (∃ r ∈ own, ∃ kind, r.head = .columnMask (maskExpr kind c) ∧
            ∀ op, r.Fires ⟨op, .column DEPLOYED_CATALOG schema table c, token⟩) ∨
          ∃ grant ∈ res.grants, grant.optedOut = true ∧ ∃ role ∈ grant.roles, role ∈ token := by
  have hsound := (valid_of_validate hvalid).toSound
  obtain ⟨rules, hrules⟩ := hsound.regoRules
  refine ⟨rules, hrules, fun res hres hengine hpii => ?_⟩
  have hsres := hsound.resources res hres
  obtain ⟨schema, table, hsplit, hname, -⟩ := hsres.split
  have hown : ∃ own, resourceRules d res = .ok own := by simp [resourceRules, hsplit, Except.map]
  obtain ⟨own, hown⟩ := hown
  refine ⟨own, schema, table, hown, fun r hr => ?_, hname, fun c hc token hclosed hallows => ?_⟩
  · obtain ⟨s, t, hsplit, grant, hgrant, hr⟩ := (mem_resourceRules hown).mp hr
    exact (mem_regoRules hrules).mpr (.inl ⟨res, hres, hengine, s, t, hsplit, grant, hgrant, hr⟩)
  obtain ⟨grant, hgrant, hselect, hholds⟩ := grant_of_allows (p := .select) hsres hown hclosed hallows
  by_cases hunmasked : ∃ grant ∈ res.grants, grant.optedOut = true ∧ ∃ role ∈ grant.roles,
      role ∈ token
  · exact .inr hunmasked
  -- nobody opted out, so the grant that allows has to mask the column
  have hopted : grant.optedOut = false := by
    by_contra hne
    exact hunmasked ⟨grant, hgrant, by simpa using hne, hholds⟩
  obtain ⟨mask, hmask, rfl⟩ :=
    List.mem_map.mp ((hsres.grants grant hgrant).pii hpii hselect hopted c hc)
  refine .inl ⟨columnMaskRule d res schema table grant mask.1 mask.2, ?_, mask.2, rfl, fun op => ?_⟩
  · refine (mem_resourceRules hown).mpr ⟨schema, table, hsplit, grant, hgrant, ?_⟩
    simp only [grantRules, List.mem_append, List.mem_map, Js.mem_sortOn]
    exact .inr ⟨mask, hmask, rfl⟩
  · refine (fires_hiding hsres hclosed rfl).mpr ⟨holds_columnGuard.mpr rfl, hholds, .inr ?_⟩
    rw [has_unmaskedRoles]
    exact hunmasked

/-- An analyst sees hashed addresses of customers. -/
theorem pii_masked_sample : ∃ rules, regoRules sample = .ok rules ∧
    ∃ r ∈ rules, ∃ kind, r.head = .columnMask (maskExpr kind "email") ∧
      r.Fires ⟨"GetColumnMask", .column "iceberg" "lake" "customers" "email", ["analysts"]⟩ := by
  obtain ⟨rules, hrules, h⟩ := pii_masked sample validate_sample
  obtain ⟨own, schema, table, hown, hsub, hname, h⟩ := h _
    (List.mem_cons_of_mem _ List.mem_cons_self) rfl rfl
  have hown' : ∃ own, resourceRules sample sample.resources[1] = .ok own ∧
      Allows own ⟨"SelectFromColumns", .table "iceberg" "lake" "customers", ["analysts"]⟩ ∧
      splitResource "lake.customers" = .ok ("lake", "customers") :=
    ⟨_, rfl, by decide +kernel, by decide +kernel⟩
  obtain ⟨own', hown', hallows, hsplit⟩ := hown'
  cases hown.symm.trans hown'
  have hparts := ((valid_of_validate validate_sample).resources _
    (List.mem_cons_of_mem _ List.mem_cons_self)).split_iff.mpr hname
  cases hsplit.symm.trans hparts
  rcases h "email" (by decide) ["analysts"] (by decide +kernel) hallows with
    ⟨r, hr, kind, hhead, hfires⟩ | hunmasked
  · exact ⟨rules, hrules, r, hsub hr, kind, hhead, hfires _⟩
  · exact absurd hunmasked (by decide +kernel)

/-! ## One more grant -/

/-- A resource with one grant inserted. -/
inductive AddsGrant (new : Grant) : Resource → Resource → Prop where
  | mk {res : Resource} (before after : List Grant) (h : res.grants = before ++ after) :
      AddsGrant new res { res with grants := before ++ new :: after }

/-- A declaration with one grant inserted in a resource. -/
inductive AddsGrantTo (new : Grant) (res res' : Resource) : Declaration → Declaration → Prop where
  | mk {d : Declaration} (before after : List Resource) (h : d.resources = before ++ res :: after)
      (hres : AddsGrant new res res') :
      AddsGrantTo new res res' d { d with resources := before ++ res' :: after }

def Condition.isGuard : Condition → Bool
  | .noGroup _ => true
  | _ => false

/-- A rule without the guard for those who opted out. -/
def Rule.unguarded (r : Rule) : List Condition := r.body.filter fun c => !c.isGuard

theorem unguarded_hiding {r : Rule} {res : Resource} {grant : Grant} {place : List Condition}
    (hbody : r.body = place ++ [.someGroup grant.roles] ++ unmaskedGuard d res grant) :
    r.unguarded = place.filter (fun c => !c.isGuard) ++ [.someGroup grant.roles] := by
  have hguard : (unmaskedGuard d res grant).filter (fun c => !c.isGuard) = [] := by
    unfold unmaskedGuard
    split <;> simp [Condition.isGuard]
  rw [Rule.unguarded, hbody, List.filter_append, List.filter_append, hguard, List.append_nil]
  rfl

/-- A rule that hides something comes from a mask or a filter of a grant. -/
theorem hiding_cases {rules : List Rule} (hrules : regoRules d = .ok rules) {r : Rule}
    (hr : r ∈ rules) (hhead : r.head ≠ .allow) :
    ∃ res ∈ d.resources, res.engineOrTrino = .trino ∧ ∃ schema table,
      splitResource res.resource = .ok (schema, table) ∧ ∃ grant ∈ res.grants,
        (∃ filter ∈ activeFilter grant, r = rowFilterRule d res schema table grant filter) ∨
        ∃ mask ∈ grant.masks, r = columnMaskRule d res schema table grant mask.1 mask.2 := by
  rcases (mem_regoRules hrules).mp hr with
    ⟨res, hres, hengine, schema, table, hsplit, grant, hgrant, hr⟩ | ⟨cg, -, hr⟩
  · refine ⟨res, hres, hengine, schema, table, hsplit, grant, hgrant, ?_⟩
    simp only [grantRules, List.mem_append, List.mem_map, Js.mem_sortOn, Option.mem_toList] at hr
    rcases hr with (⟨p, -, rfl⟩ | ⟨filter, hfilter, rfl⟩) | ⟨mask, hmask, rfl⟩
    · exact absurd rfl hhead
    · exact .inl ⟨filter, hfilter, rfl⟩
    · exact .inr ⟨mask, hmask, rfl⟩
  · rcases mem_catalogRules.mp hr with ⟨op, -, rfl⟩ | rfl | ⟨-, ⟨op, -, rfl⟩ | ⟨op, -, rfl⟩⟩ <;>
      exact absurd rfl hhead

theorem hiding_mem {rules : List Rule} (hrules : regoRules d = .ok rules) {res : Resource}
    (hres : res ∈ d.resources) (hengine : res.engineOrTrino = .trino) {schema table : String}
    (hsplit : splitResource res.resource = .ok (schema, table)) {grant : Grant}
    (hgrant : grant ∈ res.grants) :
    (∀ filter ∈ activeFilter grant, rowFilterRule d res schema table grant filter ∈ rules) ∧
      ∀ mask ∈ grant.masks, columnMaskRule d res schema table grant mask.1 mask.2 ∈ rules := by
  have hmem : ∀ r ∈ grantRules d res schema table grant, r ∈ rules := fun r hr =>
    (mem_regoRules hrules).mpr (.inl ⟨res, hres, hengine, schema, table, hsplit, grant, hgrant, hr⟩)
  constructor
  · intro filter hfilter
    refine hmem _ ?_
    simp only [grantRules, List.mem_append, List.mem_map, Js.mem_sortOn, Option.mem_toList]
    exact .inl (.inr ⟨filter, hfilter, rfl⟩)
  · intro mask hmask
    refine hmem _ ?_
    simp only [grantRules, List.mem_append, List.mem_map, Js.mem_sortOn, Option.mem_toList]
    exact .inr ⟨mask, hmask, rfl⟩

/-- The opt-outs of a resource with one more grant. -/
theorem AddsGrant.has_unmaskedRoles {new : Grant} {res res' : Resource}
    (h : AddsGrant new res res') : i.Has (unmaskedRoles res') ↔
      i.Has (unmaskedRoles res) ∨ (new.optedOut = true ∧ i.Has new.roles) := by
  obtain ⟨before, after, hgrants⟩ := h
  simp only [Policy.has_unmaskedRoles, hgrants, List.mem_append, List.mem_cons, or_and_right,
    exists_or, exists_eq_left]
  rw [or_assoc]
  exact or_congr Iff.rfl or_comm

/-- The entry of a resource after the change. -/
theorem AddsGrantTo.entry {new : Grant} {res res' : Resource} {d d' : Declaration}
    (h : AddsGrantTo new res res' d d') {entry : Resource} (hentry : entry ∈ d.resources) :
    ∃ entry' ∈ d'.resources, entry'.resource = entry.resource ∧ entry'.engine = entry.engine ∧
      entry.grants ⊆ entry'.grants ∧ ∀ i : Input, i.Has (unmaskedRoles entry') ↔
        i.Has (unmaskedRoles entry) ∨ (entry = res ∧ new.optedOut = true ∧ i.Has new.roles) := by
  obtain ⟨before, after, hresources, hres⟩ := h
  rw [hresources, List.mem_append, List.mem_cons] at hentry
  by_cases heq : entry = res
  · subst heq
    refine ⟨res', by simp, ?_, ?_, ?_, fun i => by simp [hres.has_unmaskedRoles]⟩ <;>
      obtain ⟨before, after, hgrants⟩ := hres
    · rfl
    · rfl
    · rw [hgrants]
      exact List.append_subset.mpr ⟨by simp, fun g hg => by simp [hg]⟩
  · refine ⟨entry, ?_, rfl, rfl, List.Subset.refl _, fun i => by simp [heq]⟩
    rcases hentry with hentry | hentry | hentry
    · simp [hentry]
    · exact absurd hentry heq
    · simp [hentry]

/-- A guard that let a token through, after one more opt-out. -/
theorem guard_widened {own before here opted holds : Prop} (h : own ∨ ¬ before) :
    (own ∨ ¬ (before ∨ (here ∧ opted ∧ holds))) ↔ (¬ here ∨ ¬ opted ∨ own ∨ ¬ holds) := by
  tauto

/-- With one more grant in a resource, every rule that hides something is still
there, up to the guard. A rule that fired still fires, unless the new grant opts
out a role of the token and the rule's own grant is one of that resource without
an opt-out. -/
theorem write_grant_keeps_reads {new : Grant} {res res' : Resource} {d d' : Declaration}
    (hadds : AddsGrantTo new res res' d d') (hvalid : validateDeclaration d = [])
    (hvalid' : validateDeclaration d' = []) :
    ∃ rules rules', regoRules d = .ok rules ∧ regoRules d' = .ok rules' ∧
      ∀ r ∈ rules, r.head ≠ .allow → ∃ entry ∈ d.resources, ∃ grant ∈ entry.grants,
        (∃ schema table, r ∈ grantRules d entry schema table grant) ∧
        ∃ r' ∈ rules', r'.head = r.head ∧ r'.comment = r.comment ∧ r'.unguarded = r.unguarded ∧
          ∀ i : Input, Closed d i.groups → r.Fires i →
            (r'.Fires i ↔ entry ≠ res ∨ new.optedOut = false ∨ grant.optedOut = true ∨
              ¬ i.Has new.roles) := by
  have hsound := (valid_of_validate hvalid).toSound
  have hsound' := (valid_of_validate hvalid').toSound
  obtain ⟨rules, hrules⟩ := hsound.regoRules
  obtain ⟨rules', hrules'⟩ := hsound'.regoRules
  have hclosed' : ∀ {i : Input}, Closed d i.groups → Closed d' i.groups := by
    obtain ⟨before, after, hresources, -⟩ := hadds
    exact id
  refine ⟨rules, rules', hrules, hrules', fun r hr hhead => ?_⟩
  obtain ⟨entry, hentry, hengine, schema, table, hsplit, grant, hgrant, hcase⟩ :=
    hiding_cases hrules hr hhead
  obtain ⟨entry', hentry', hname, hengine', hgrants, hunmasked⟩ := hadds.entry hentry
  have hs := hsound.resources entry hentry
  have hs' := hsound'.resources entry' hentry'
  obtain ⟨hfilters, hmasks⟩ := hiding_mem hrules' hentry'
    (by rw [Resource.engineOrTrino, hengine']; exact hengine) (hname ▸ hsplit) (hgrants hgrant)
  -- both rules look at the same place and roles, and differ in the opt-outs alone
  have hfires : ∀ {r r' : Rule} {place : List Condition},
      r.body = place ++ [.someGroup grant.roles] ++ unmaskedGuard d entry grant →
      r'.body = place ++ [.someGroup grant.roles] ++ unmaskedGuard d' entry' grant →
      r'.unguarded = r.unguarded ∧ ∀ i : Input, Closed d i.groups → r.Fires i →
        (r'.Fires i ↔ entry ≠ res ∨ new.optedOut = false ∨ grant.optedOut = true ∨
          ¬ i.Has new.roles) := by
    intro r r' place hbody hbody'
    refine ⟨?_, fun i hclosed hfires => ?_⟩
    · rw [unguarded_hiding hbody, unguarded_hiding hbody']
    · obtain ⟨hplace, hroles, hopted⟩ := (fires_hiding hs hclosed hbody).mp hfires
      rw [fires_hiding hs' (hclosed' hclosed) hbody', hunmasked i, ← Bool.not_eq_true,
        ← guard_widened hopted]
      exact ⟨fun h => h.2.2, fun h => ⟨hplace, hroles, h⟩⟩
  rcases hcase with ⟨filter, hfilter, rfl⟩ | ⟨mask, hmask, rfl⟩
  · refine ⟨entry, hentry, grant, hgrant, ⟨schema, table, ?_⟩, _, hfilters filter hfilter, rfl, ?_,
      hfires rfl rfl⟩
    · simp only [grantRules, List.mem_append, List.mem_map, Js.mem_sortOn, Option.mem_toList]
      exact .inl (.inr ⟨filter, hfilter, rfl⟩)
    · simp only [rowFilterRule, hname]
  · refine ⟨entry, hentry, grant, hgrant, ⟨schema, table, ?_⟩, _, hmasks mask hmask, rfl, ?_,
      hfires rfl rfl⟩
    · simp only [grantRules, List.mem_append, List.mem_map, Js.mem_sortOn, Option.mem_toList]
      exact .inr ⟨mask, hmask, rfl⟩
    · simp only [columnMaskRule, hname]

/-- `sample` with one more grant on the customers. -/
def sampleWith (new : Grant) : Declaration :=
  { sample with resources :=
      [sample.resources[0],
        { sample.resources[1] with grants := sample.resources[1].grants ++ [new] },
        sample.resources[2]] }

theorem sampleWith_adds (new : Grant) : AddsGrantTo new sample.resources[1]
    { sample.resources[1] with grants := sample.resources[1].grants ++ [new] } sample
    (sampleWith new) :=
  .mk [sample.resources[0]] [sample.resources[2]] rfl
    (.mk sample.resources[1].grants [] (List.append_nil _).symm)

/-- Analysts who may also insert, without the opt-out, see hashed addresses as before. -/
theorem write_grant_keeps_reads_insert : ∃ rules rules', regoRules sample = .ok rules ∧
    regoRules (sampleWith { roles := ["analysts"], privileges := [.insert] }) = .ok rules' ∧
    ∀ r ∈ rules, r.head ≠ .allow → r.Fires ⟨"GetColumnMask",
      .column "iceberg" "lake" "customers" "email", ["analysts"]⟩ →
        ∃ r' ∈ rules', r'.head = r.head ∧ r'.Fires ⟨"GetColumnMask",
          .column "iceberg" "lake" "customers" "email", ["analysts"]⟩ := by
  obtain ⟨rules, rules', hrules, hrules', h⟩ := write_grant_keeps_reads
    (sampleWith_adds { roles := ["analysts"], privileges := [.insert] }) validate_sample
    (by decide +kernel)
  refine ⟨rules, rules', hrules, hrules', fun r hr hhead hfires => ?_⟩
  obtain ⟨entry, -, grant, -, -, r', hr', hhead', -, -, h⟩ := h r hr hhead
  exact ⟨r', hr', hhead', (h _ (by decide +kernel) hfires).mpr (.inr (.inl rfl))⟩

/-- A grant of `insert` with the opt-out shows analysts the addresses: the mask that
fired is off, and nothing else hides the column. -/
theorem write_grant_unmasks :
    ∃ new : Grant, new = { roles := ["analysts"], privileges := [.insert],
                           allowUnmasked := some true } ∧
      AddsGrantTo new sample.resources[1]
        { sample.resources[1] with grants := sample.resources[1].grants ++ [new] } sample
        (sampleWith new) ∧
      .select ∉ new.privileges ∧ new.columnMask = none ∧ new.rowFilter = none ∧
      validateDeclaration sample = [] ∧ validateDeclaration (sampleWith new) = [] ∧
      ∃ rules rules', regoRules sample = .ok rules ∧ regoRules (sampleWith new) = .ok rules' ∧
        ∃ i : Input, Closed sample i.groups ∧ (∃ r ∈ rules, r.head ≠ .allow ∧ r.Fires i) ∧
          ¬ ∃ r ∈ rules', r.head ≠ .allow ∧ r.Fires i := by
  refine ⟨_, rfl, sampleWith_adds _, by decide, rfl, rfl, validate_sample, by decide +kernel, ?_⟩
  refine ⟨_, _, ok_getD (by decide +kernel), ok_getD (by decide +kernel),
    ⟨"GetColumnMask", .column "iceberg" "lake" "customers" "email", ["analysts"]⟩, ?_⟩
  decide +kernel

end Policy
