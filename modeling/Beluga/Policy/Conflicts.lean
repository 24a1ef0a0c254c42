import Beluga.Policy.Masks

/-! # Mask conflicts

A complete rule of the policy may not yield two values. `Clash` says on the
declaration when the masks of a column would; the emitted rules and the check of
the validator are both compared with it.

* `masksConflict_iff`: two emitted masks conflict on a closed token exactly when
  its roles clash;
* `reported_iff`: the validator reports a column exactly when the roles of one
  role or of one group *name* clash;
* `conflicts_exact_iff`: the two agree exactly when group entries of one name
  clash together as they do one by one.
-/

namespace Policy

variable {d : Declaration}

/-! ## Clashes -/

/-- A token holds one of the roles. -/
def Meets (token roles : List String) : Prop := ∃ role ∈ roles, role ∈ token

/-- Two kinds of mask on one column that both apply to the roles of a token. -/
def Clash (res : Resource) (col : String) (token : List String) : Prop :=
  ∃ a ∈ maskedBy res col, ∃ b ∈ maskedBy res col, a.2 ≠ b.2 ∧
    a.1.optedOut = b.1.optedOut ∧ Meets token a.1.roles ∧ Meets token b.1.roles ∧
    (a.1.optedOut = true ∨ ¬ Meets token (unmaskedRoles res))

instance (token roles : List String) : Decidable (Meets token roles) :=
  inferInstanceAs (Decidable (∃ role ∈ roles, _))

instance (res : Resource) (col : String) (token : List String) : Decidable (Clash res col token) :=
  inferInstanceAs (Decidable (∃ a ∈ maskedBy res col, _))

theorem mem_maskedBy {res : Resource} {col : String} {a : Grant × MaskKind} :
    a ∈ maskedBy res col ↔ a.1 ∈ res.grants ∧ (col, a.2) ∈ a.1.masks := by
  obtain ⟨grant, kind⟩ := a
  simp only [maskedBy, List.mem_flatMap, List.mem_map, List.mem_filter, decide_eq_true_eq,
    Prod.mk.injEq]
  constructor
  · rintro ⟨g, hg, ⟨c, k⟩, ⟨hmask, rfl⟩, rfl, rfl⟩
    exact ⟨hg, hmask⟩
  · rintro ⟨hg, hmask⟩
    exact ⟨grant, hg, (col, kind), ⟨hmask, rfl⟩, rfl, rfl⟩

/-! ## The emitted rules -/

/-- Two emitted masks with different expressions on one column of a token. -/
def MasksConflict (rules : List Rule) (schema table col : String) (token : List String) : Prop :=
  ∃ r ∈ rules, ∃ r' ∈ rules, ∃ e e', r.head = .columnMask e ∧ r'.head = .columnMask e' ∧ e ≠ e' ∧
    ∀ op, r.Fires ⟨op, .column DEPLOYED_CATALOG schema table col, token⟩ ∧
      r'.Fires ⟨op, .column DEPLOYED_CATALOG schema table col, token⟩

theorem maskExpr_hash (col : String) :
    maskExpr .hash col = "to_hex(sha256(cast(" ++ col ++ " as varbinary)))" := rfl

theorem maskExpr_partly (col : String) :
    maskExpr .partly col = "concat(substr(" ++ col ++ ", 1, 2), '***')" := rfl

theorem maskExpr_null (col : String) : maskExpr .null col = "null" := rfl

/-- The kinds of mask differ in the first letter of their expressions. -/
theorem maskExpr_head (k : MaskKind) (col : String) : (maskExpr k col).toList.head? =
    some (match k with | .hash => 't' | .partly => 'c' | .null => 'n') := by
  cases k with
  | hash => simp [maskExpr_hash]
  | partly => simp [maskExpr_partly]
  | null => simp [maskExpr_null]

theorem maskExpr_inj {k k' : MaskKind} {col : String} (h : maskExpr k col = maskExpr k' col) :
    k = k' := by
  have hhead := maskExpr_head k col
  rw [h, maskExpr_head, Option.some.injEq] at hhead
  cases k <;> cases k' <;> first | rfl | exact absurd hhead (by decide)

/-- Two Trino resources of one name are one entry. -/
theorem Sound.resource_unique (h : Sound d) {res res' : Resource} (hres : res ∈ d.resources)
    (hres' : res' ∈ d.resources) (hengine : res.engineOrTrino = res'.engineOrTrino)
    (hname : res.resource = res'.resource) : res = res' := by
  refine List.inj_on_of_nodup_map h.resource_keys hres hres' ?_
  rw [resourceKey, resourceKey, hengine, hname]

section Emitted

variable {rules : List Rule} {res : Resource} {schema table col : String} {token : List String}

/-- The masks that fire for a column, by the grants of its resource. -/
theorem fires_columnMask_iff (h : Sound d) (hrules : regoRules d = .ok rules)
    (hres : res ∈ d.resources) (hengine : res.engineOrTrino = .trino)
    (hname : res.resource = schema ++ "." ++ table) (hclosed : Closed d token) {op e : String} :
    (∃ r ∈ rules, r.head = .columnMask e ∧
      r.Fires ⟨op, .column DEPLOYED_CATALOG schema table col, token⟩) ↔
    ∃ a ∈ maskedBy res col, e = maskExpr a.2 col ∧ Meets token a.1.roles ∧
      (a.1.optedOut = true ∨ ¬ Meets token (unmaskedRoles res)) := by
  constructor
  · rintro ⟨r, hr, hhead, hfires⟩
    have hne : r.head ≠ .allow := by simp [hhead]
    obtain ⟨res', hres', hengine', s, t, hsplit, grant, hgrant, hcase⟩ := hiding_cases hrules hr hne
    rcases hcase with ⟨filter, -, rfl⟩ | ⟨mask, hmask, rfl⟩
    · cases hhead
    · cases hhead
      obtain ⟨hplace, hroles, hopted⟩ :=
        (fires_hiding (h.resources res' hres') hclosed rfl).mp hfires
      have hat := holds_columnGuard.mp hplace
      simp only [TrinoResource.column.injEq, true_and] at hat
      obtain ⟨rfl, rfl, rfl⟩ := hat
      -- the rule looks at this table, so it comes from this resource
      have hsame : res' = res := h.resource_unique hres' hres (hengine'.trans hengine.symm)
        ((splitResource_ok hsplit).trans hname.symm)
      subst hsame
      exact ⟨(grant, mask.2), mem_maskedBy.mpr ⟨hgrant, hmask⟩, rfl, hroles, hopted⟩
  · rintro ⟨a, ha, rfl, hroles, hopted⟩
    obtain ⟨hgrant, hmask⟩ := mem_maskedBy.mp ha
    have hs := h.resources res hres
    refine ⟨_, (hiding_mem hrules hres hengine (hs.split_iff.mpr hname) hgrant).2 _ hmask, rfl, ?_⟩
    exact (fires_hiding hs hclosed rfl).mpr ⟨holds_columnGuard.mpr rfl, hroles, hopted⟩

theorem masksConflict_iff (h : Sound d) (hrules : regoRules d = .ok rules)
    (hres : res ∈ d.resources) (hengine : res.engineOrTrino = .trino)
    (hname : res.resource = schema ++ "." ++ table) (hclosed : Closed d token) :
    MasksConflict rules schema table col token ↔ Clash res col token := by
  have hiff : ∀ op e, (∃ r ∈ rules, r.head = .columnMask e ∧
      r.Fires ⟨op, .column DEPLOYED_CATALOG schema table col, token⟩) ↔
      ∃ a ∈ maskedBy res col, e = maskExpr a.2 col ∧ Meets token a.1.roles ∧
        (a.1.optedOut = true ∨ ¬ Meets token (unmaskedRoles res)) :=
    fun op e => fires_columnMask_iff h hrules hres hengine hname hclosed
  constructor
  · rintro ⟨r, hr, r', hr', e, e', hhead, hhead', hne, hfires⟩
    obtain ⟨a, ha, rfl, hroles, hopted⟩ := (hiff "" e).mp ⟨r, hr, hhead, (hfires "").1⟩
    obtain ⟨b, hb, rfl, hroles', hopted'⟩ := (hiff "" e').mp ⟨r', hr', hhead', (hfires "").2⟩
    refine ⟨a, ha, b, hb, fun heq => hne (by rw [heq]), ?_, hroles, hroles', hopted⟩
    -- one of two such masks without the opt-out would be guarded against the other
    have hmeets : ∀ {g : Grant × MaskKind}, g ∈ maskedBy res col → g.1.optedOut = true →
        Meets token g.1.roles → Meets token (unmaskedRoles res) := by
      rintro g hg hopt ⟨role, hrole, htoken⟩
      exact ⟨role, List.mem_flatMap.mpr
        ⟨g.1, List.mem_filter.mpr ⟨(mem_maskedBy.mp hg).1, hopt⟩, hrole⟩, htoken⟩
    cases hoa : a.1.optedOut <;> cases hob : b.1.optedOut
    · rfl
    · exact absurd (hmeets hb hob hroles') (hopted.resolve_left (by simp [hoa]))
    · exact absurd (hmeets ha hoa hroles) (hopted'.resolve_left (by simp [hob]))
    · rfl
  · rintro ⟨a, ha, b, hb, hne, hopt, hroles, hroles', hopted⟩
    have hs := h.resources res hres
    obtain ⟨hga, hma⟩ := mem_maskedBy.mp ha
    obtain ⟨hgb, hmb⟩ := mem_maskedBy.mp hb
    have hsplit := hs.split_iff.mpr hname
    refine ⟨_, (hiding_mem hrules hres hengine hsplit hga).2 _ hma, _,
      (hiding_mem hrules hres hengine hsplit hgb).2 _ hmb, _, _, rfl, rfl,
      fun heq => hne (maskExpr_inj heq), fun op => ⟨?_, ?_⟩⟩
    · exact (fires_hiding hs hclosed rfl).mpr ⟨holds_columnGuard.mpr rfl, hroles, hopted⟩
    · exact (fires_hiding hs hclosed rfl).mpr ⟨holds_columnGuard.mpr rfl, hroles', hopt ▸ hopted⟩

end Emitted

/-! ## The check of the validator -/

/-- The roles that the group entries of one name carry together. -/
def groupNamed (d : Declaration) (name : String) : List String :=
  (d.groups.filter fun g => g.name = name).flatMap (groupEffectiveRoles d)

/-- The tokens of the declared roles and of the group entries. -/
def singleTokens (d : Declaration) : List (List String) :=
  d.roleNames.map (expandRoles d) ++ d.groups.map (groupEffectiveRoles d)

/-- The tokens of the declared roles and of the group names. -/
def namedTokens (d : Declaration) : List (List String) :=
  d.roleNames.map (expandRoles d) ++ d.groups.map fun g => groupNamed d g.name

/-- The token that a holder stands for. -/
inductive Stands (d : Declaration) : String → List String → Prop where
  | role {r : String} (hr : r ∈ d.roleNames) : Stands d r (expandRoles d r)
  | group {g : Group} (hg : g ∈ d.groups) : Stands d ("group:" ++ g.name) (groupNamed d g.name)

theorem mem_groupNamed {name s : String} : s ∈ groupNamed d name ↔
    ∃ g ∈ d.groups, g.name = name ∧ ∃ r ∈ g.roles, Inherits d r s := by
  simp only [groupNamed, List.mem_flatMap, List.mem_filter, decide_eq_true_eq,
    mem_groupEffectiveRoles, and_assoc]

theorem mem_namedTokens {token : List String} :
    token ∈ namedTokens d ↔ ∃ h, Stands d h token := by
  simp only [namedTokens, List.mem_append, List.mem_map]
  constructor
  · rintro (⟨r, hr, rfl⟩ | ⟨g, hg, rfl⟩)
    · exact ⟨r, .role hr⟩
    · exact ⟨_, .group hg⟩
  · rintro ⟨h, hstands⟩
    cases hstands with
    | role hr => exact .inl ⟨_, hr, rfl⟩
    | group hg => exact .inr ⟨_, hg, rfl⟩

/-- No role looks like a tagged group. -/
theorem Sound.no_tag (h : Sound d) {r name : String} (hr : r ∈ d.roleNames) :
    r ≠ "group:" ++ name := by
  rintro rfl
  have hname := h.role_names _ hr
  obtain ⟨c, cs, heq, -, hcs⟩ := (Text.Regex.test_ident identStart nameRest _).mp hname
  have hcolon : ':' ∈ cs := by
    have htail : cs = ("group:" ++ name).toList.tail := by rw [heq, List.tail_cons]
    rw [htail]
    simp
  exact absurd (hcs ':' hcolon) (by decide)

/-- A holder of one of the roles, as the validator collects them. -/
theorem Sound.mem_holders (h : Sound d) {holder : String} {token roles : List String}
    (hstands : Stands d holder token) :
    holder ∈ roles.flatMap (holdersOfIncludingGroups d) ↔ Meets token roles := by
  rw [List.mem_flatMap]
  refine exists_congr fun role => and_congr_right fun _ => ?_
  rw [mem_holdersOfIncludingGroups, mem_holdersOf, mem_taggedGroupHolders]
  cases hstands with
  | role hr =>
      rw [mem_expandRoles]
      constructor
      · rintro (⟨-, hinherits⟩ | ⟨g, -, -, heq⟩)
        · exact hinherits
        · exact absurd heq (h.no_tag hr)
      · exact fun hinherits => .inl ⟨hr, hinherits⟩
  | group hg =>
      rw [mem_groupNamed]
      constructor
      · rintro (⟨hr, -⟩ | ⟨g, hg, hinherits, heq⟩)
        · exact absurd rfl (h.no_tag hr)
        · exact ⟨g, hg, (String.append_right_inj _).mp heq.symm, hinherits⟩
      · rintro ⟨g, hg, hname, hinherits⟩
        exact .inr ⟨g, hg, hinherits, by rw [hname]⟩

theorem stands_of_mem_holders {holder : String} {roles : List String}
    (hmem : holder ∈ roles.flatMap (holdersOfIncludingGroups d)) :
    ∃ token, Stands d holder token := by
  obtain ⟨role, -, hholder⟩ := List.mem_flatMap.mp hmem
  rcases mem_holdersOfIncludingGroups.mp hholder with hrole | hgroup
  · exact ⟨_, .role (mem_holdersOf.mp hrole).1⟩
  · obtain ⟨g, hg, -, rfl⟩ := mem_taggedGroupHolders.mp hgroup
    exact ⟨_, .group hg⟩

theorem mem_resourceUnmasked {res : Resource} {holder : String} :
    holder ∈ resourceUnmasked d res ↔
      holder ∈ (unmaskedRoles res).flatMap (holdersOfIncludingGroups d) := by
  simp only [resourceUnmasked, unmaskedRoles, List.mem_eraseDups, List.flatMap_assoc]

theorem mem_overlap {res : Resource} {a b : Grant} {holder : String} :
    holder ∈ overlap d res a b ↔
      holder ∈ a.roles.flatMap (holdersOfIncludingGroups d) ∧
        holder ∈ b.roles.flatMap (holdersOfIncludingGroups d) ∧
        (a.optedOut = true ∨
          holder ∉ (unmaskedRoles res).flatMap (holdersOfIncludingGroups d)) := by
  unfold overlap
  split
  · rename_i hopted
    simp only [hopted, List.mem_filter, decide_eq_true_eq, grantHolders, List.mem_eraseDups,
      true_or, and_true]
  · rename_i hopted
    simp only [hopted, List.mem_filter, decide_eq_true_eq, grantHolders, List.mem_eraseDups,
      mem_resourceUnmasked, false_or, and_assoc, Bool.false_eq_true]

/-- Some holder is found exactly when the roles of some token meet both grants. -/
theorem Sound.overlap_iff (h : Sound d) {res : Resource} {a b : Grant} :
    (∃ holder, holder ∈ overlap d res a b) ↔
      ∃ token ∈ namedTokens d, Meets token a.roles ∧ Meets token b.roles ∧
        (a.optedOut = true ∨ ¬ Meets token (unmaskedRoles res)) := by
  constructor
  · rintro ⟨holder, hholder⟩
    obtain ⟨ha, hb, hunmasked⟩ := mem_overlap.mp hholder
    obtain ⟨token, hstands⟩ := stands_of_mem_holders ha
    rw [h.mem_holders hstands] at ha hb hunmasked
    exact ⟨token, mem_namedTokens.mpr ⟨holder, hstands⟩, ha, hb, hunmasked⟩
  · rintro ⟨token, htoken, ha, hb, hunmasked⟩
    obtain ⟨holder, hstands⟩ := mem_namedTokens.mp htoken
    rw [← h.mem_holders hstands] at ha hb hunmasked
    exact ⟨holder, mem_overlap.mpr ⟨ha, hb, hunmasked⟩⟩

theorem mem_of_mem_pairs {α : Type} {xs : List α} {a b : α} (h : (a, b) ∈ pairs xs) :
    a ∈ xs ∧ b ∈ xs := by
  induction xs with
  | nil => cases h
  | cons x xs ih =>
      rcases List.mem_append.mp h with h | h
      · obtain ⟨y, hy, heq⟩ := List.mem_map.mp h
        cases heq
        exact ⟨List.mem_cons_self, List.mem_cons_of_mem _ hy⟩
      · exact ⟨List.mem_cons_of_mem _ (ih h).1, List.mem_cons_of_mem _ (ih h).2⟩

theorem mem_pairs {α : Type} {xs : List α} {a b : α} (ha : a ∈ xs) (hb : b ∈ xs) (hne : a ≠ b) :
    (a, b) ∈ pairs xs ∨ (b, a) ∈ pairs xs := by
  induction xs with
  | nil => cases ha
  | cons x xs ih =>
      simp only [pairs, List.mem_append, List.mem_map, Prod.mk.injEq]
      rcases List.mem_cons.mp ha with hax | hax <;> rcases List.mem_cons.mp hb with hbx | hbx
      · exact absurd (hax.trans hbx.symm) hne
      · exact .inl (.inl ⟨b, hbx, hax.symm, rfl⟩)
      · exact .inr (.inl ⟨a, hax, hbx.symm, rfl⟩)
      · rcases ih hax hbx with h | h
        · exact .inl (.inr h)
        · exact .inr (.inr h)

/-- A mask conflict is reported for the column of a resource. -/
def Reported (d : Declaration) (resource col : String) : Prop :=
  ∃ roles roles' kind kind' shared,
    .conflictingMask resource col roles roles' kind kind' shared ∈ validateDeclaration d

theorem mem_require {ok : Bool} {e e' : ValidationError} :
    e' ∈ require ok e ↔ ok = false ∧ e' = e := by
  cases ok <;> simp [require]

theorem conflictingMask_mem {resource col : String} {roles roles' shared : List String}
    {kind kind' : MaskKind} :
    .conflictingMask resource col roles roles' kind kind' shared ∈ validateDeclaration d ↔
      ∃ res ∈ d.resources,
        .conflictingMask resource col roles roles' kind kind' shared ∈ conflictErrors d res := by
  have hcycle : .conflictingMask resource col roles roles' kind kind' shared ∉ cycleErrors d := by
    unfold cycleErrors
    split <;> simp
  have hgrant : ∀ res grant,
      .conflictingMask resource col roles roles' kind kind' shared ∉ grantErrors d res grant := by
    intro res grant
    cases hfilter : grant.rowFilter <;>
      simp [grantErrors, hfilter, roleReference, knownRole, mem_require]
  simp [validateDeclaration, hcycle, hgrant, roleErrors, collisionErrors, groupErrors,
    duplicateResourceErrors, resourceErrors, catalogGrantErrors, duplicateCatalogGrantErrors,
    loginErrors, roleReference, knownRole, mem_require]

/-- Two masks of a column are reported exactly when they differ, and some holder
gets both. -/
theorem conflictErrors_iff {res : Resource} {resource col : String} :
    (∃ roles roles' kind kind' shared,
      .conflictingMask resource col roles roles' kind kind' shared ∈ conflictErrors d res) ↔
    res.resource = resource ∧ ∃ a b, (a, b) ∈ pairs (maskedBy res col) ∧ a.2 ≠ b.2 ∧
      a.1.optedOut = b.1.optedOut ∧ ∃ holder, holder ∈ overlap d res a.1 b.1 := by
  have hok : ∀ a b : Grant × MaskKind,
      (decide (a.2 = b.2) || a.1.optedOut != b.1.optedOut || (overlap d res a.1 b.1).isEmpty)
        = false ↔
      a.2 ≠ b.2 ∧ a.1.optedOut = b.1.optedOut ∧ ∃ holder, holder ∈ overlap d res a.1 b.1 := by
    intro a b
    simp only [Bool.or_eq_false_iff, decide_eq_false_iff_not, bne_eq_false_iff_eq,
      List.isEmpty_eq_false_iff_exists_mem, and_assoc, ne_eq]
  simp only [conflictErrors, List.mem_flatMap, mem_require, hok, Prod.exists,
    ValidationError.conflictingMask.injEq]
  constructor
  · rintro ⟨roles, roles', kind, kind', shared, col', -, a, ka, b, kb, hpair, h, rfl, rfl, -⟩
    exact ⟨rfl, a, ka, b, kb, hpair, h⟩
  · rintro ⟨rfl, a, ka, b, kb, hpair, h⟩
    refine ⟨_, _, _, _, _, col, ?_, a, ka, b, kb, hpair, h, rfl, rfl, rfl, rfl, rfl, rfl, rfl⟩
    obtain ⟨hgrant, hmask⟩ := mem_maskedBy.mp (mem_of_mem_pairs hpair).1
    rw [Js.mem_sort, List.mem_eraseDups, List.mem_flatMap]
    exact ⟨a, hgrant, List.mem_map_of_mem hmask⟩

theorem Sound.reported_iff (h : Sound d) {resource col : String} :
    Reported d resource col ↔ ∃ res ∈ d.resources, res.resource = resource ∧
      ∃ token ∈ namedTokens d, Clash res col token := by
  have hreported : Reported d resource col ↔
      ∃ res ∈ d.resources, ∃ roles roles' kind kind' shared,
        .conflictingMask resource col roles roles' kind kind' shared ∈ conflictErrors d res := by
    simp only [Reported, conflictingMask_mem]
    constructor
    · rintro ⟨roles, roles', kind, kind', shared, res, hres, hmem⟩
      exact ⟨res, hres, roles, roles', kind, kind', shared, hmem⟩
    · rintro ⟨res, hres, roles, roles', kind, kind', shared, hmem⟩
      exact ⟨roles, roles', kind, kind', shared, res, hres, hmem⟩
  rw [hreported]
  refine exists_congr fun res => and_congr_right fun _ => ?_
  rw [conflictErrors_iff]
  refine and_congr_right fun _ => ?_
  constructor
  · rintro ⟨a, b, hpair, hne, hopt, hover⟩
    obtain ⟨token, htoken, hma, hmb, hopted⟩ := h.overlap_iff.mp hover
    obtain ⟨ha, hb⟩ := mem_of_mem_pairs hpair
    exact ⟨token, htoken, a, ha, b, hb, hne, hopt, hma, hmb, hopted⟩
  · rintro ⟨token, htoken, a, ha, b, hb, hne, hopt, hma, hmb, hopted⟩
    rcases mem_pairs ha hb (fun heq => hne (by rw [heq])) with hpair | hpair
    · exact ⟨a, b, hpair, hne, hopt, h.overlap_iff.mpr ⟨token, htoken, hma, hmb, hopted⟩⟩
    · exact ⟨b, a, hpair, hne.symm, hopt.symm,
        h.overlap_iff.mpr ⟨token, htoken, hmb, hma, hopt ▸ hopted⟩⟩

/-! ## The two together -/

/-- What is reported, and what is not, about the tokens of single roles and groups. -/
def ConflictsExact (d : Declaration) : Prop :=
  ∃ rules, regoRules d = .ok rules ∧
    (validateDeclaration d = [] → ∀ res ∈ d.resources, res.engineOrTrino = .trino →
      ∀ schema table, res.resource = schema ++ "." ++ table → ∀ col, ∀ token ∈ singleTokens d,
        ¬ MasksConflict rules schema table col token) ∧
    ∀ resource col, Reported d resource col → ∃ schema table, resource = schema ++ "." ++ table ∧
      ∃ token ∈ singleTokens d, MasksConflict rules schema table col token

/-- Group entries of one name clash together as they do one by one: what clashes
for a name clashes for one role or entry, and if anything clashes for an entry,
something clashes for a role or a name. -/
def NamesAgree (d : Declaration) : Prop :=
  (∀ res ∈ d.resources, ∀ col, (∃ token ∈ namedTokens d, Clash res col token) →
    ∃ token ∈ singleTokens d, Clash res col token) ∧
  ((∃ res ∈ d.resources, ∃ col, ∃ token ∈ singleTokens d, Clash res col token) →
    ∃ res ∈ d.resources, ∃ col, ∃ token ∈ namedTokens d, Clash res col token)

theorem closed_expandRoles (r : String) : Closed d (expandRoles d r) := by
  intro g hg role hrole
  rw [mem_expandRoles] at hg hrole ⊢
  exact hg.trans hrole

theorem closed_groupEffectiveRoles (g : Group) : Closed d (groupEffectiveRoles d g) := by
  intro s hs role hrole
  obtain ⟨r, hr, hinherits⟩ := mem_groupEffectiveRoles.mp hs
  exact mem_groupEffectiveRoles.mpr ⟨r, hr, hinherits.trans (mem_expandRoles.mp hrole)⟩

theorem closed_of_mem_singleTokens {token : List String} (h : token ∈ singleTokens d) :
    Closed d token := by
  simp only [singleTokens, List.mem_append, List.mem_map] at h
  rcases h with ⟨r, -, rfl⟩ | ⟨g, -, rfl⟩
  · exact closed_expandRoles r
  · exact closed_groupEffectiveRoles g

theorem mem_validate_of_code {e : ValidationError} (he : e ∈ validateDeclaration d)
    (hcode : e.code = .CONFLICTING_MASK) : ∃ resource col, Reported d resource col := by
  cases e with
  | conflictingMask resource col roles roles' kind kind' shared =>
      exact ⟨resource, col, roles, roles', kind, kind', shared, he⟩
  | _ => simp [ValidationError.code] at hcode

/-- Only Trino resources have masks. -/
theorem Sound.trino_of_clash (h : Sound d) {res : Resource} (hres : res ∈ d.resources)
    {col : String} {token : List String} (hclash : Clash res col token) :
    res.engineOrTrino = .trino := by
  obtain ⟨a, ha, -⟩ := hclash
  obtain ⟨hgrant, hmask⟩ := mem_maskedBy.mp ha
  cases hengine : res.engine with
  | none => simp [Resource.engineOrTrino, hengine]
  | some engine =>
      cases engine with
      | trino => simp [Resource.engineOrTrino, hengine]
      | postgres =>
          have hnone := ((h.resources res hres).grants a.1 hgrant).postgres_mask hengine
          simp [Grant.masks, hnone] at hmask

/-- The validator and the policy agree on conflicts exactly when the group entries
of a name agree with the name. -/
theorem conflicts_exact_iff (d : Declaration) (hvalid : OnlyConflicts (validateDeclaration d)) :
    ConflictsExact d ↔ NamesAgree d := by
  have h := sound_of_onlyConflicts hvalid
  obtain ⟨rules, hrules⟩ := h.regoRules
  have hvalid_iff : validateDeclaration d = [] ↔
      ¬ ∃ res ∈ d.resources, ∃ col, ∃ token ∈ namedTokens d, Clash res col token := by
    constructor
    · rintro hnil ⟨res, hres, col, hclash⟩
      obtain ⟨_, _, _, _, _, hmem⟩ := h.reported_iff.mpr ⟨res, hres, rfl, hclash⟩
      rw [hnil] at hmem
      cases hmem
    · intro hno
      refine List.eq_nil_iff_forall_not_mem.mpr fun e he => hno ?_
      obtain ⟨resource, col, hreported⟩ := mem_validate_of_code he (hvalid e he)
      obtain ⟨res, hres, -, hclash⟩ := h.reported_iff.mp hreported
      exact ⟨res, hres, col, hclash⟩
  constructor
  · rintro ⟨rules', hrules', hsafe, hreal⟩
    cases hrules.symm.trans hrules'
    refine ⟨fun res hres col hclash => ?_, fun ⟨res, hres, col, token, htoken, hclash⟩ => ?_⟩
    -- a clash of a name is reported, and then one of a single token
    · obtain ⟨schema, table, hname, token, htoken, hconflict⟩ :=
        hreal res.resource col (h.reported_iff.mpr ⟨res, hres, rfl, hclash⟩)
      obtain ⟨_, _, hclash⟩ := hclash
      have hengine := h.trino_of_clash hres hclash
      exact ⟨token, htoken, (masksConflict_iff h hrules hres hengine hname
        (closed_of_mem_singleTokens htoken)).mp hconflict⟩
    -- a clash of a single token contradicts validity
    · by_contra hno
      obtain ⟨schema, table, -, hname, -⟩ := (h.resources res hres).split
      have hengine := h.trino_of_clash hres hclash
      exact hsafe (hvalid_iff.mpr hno) res hres hengine schema table hname col token htoken
        ((masksConflict_iff h hrules hres hengine hname
          (closed_of_mem_singleTokens htoken)).mpr hclash)
  · rintro ⟨hreal, hsafe⟩
    refine ⟨rules, hrules, fun hnil res hres hengine schema table hname col token htoken
      hconflict => ?_, fun resource col hreported => ?_⟩
    · refine hvalid_iff.mp hnil (hsafe ⟨res, hres, col, token, htoken, ?_⟩)
      exact (masksConflict_iff h hrules hres hengine hname
        (closed_of_mem_singleTokens htoken)).mp hconflict
    · obtain ⟨res, hres, rfl, hclash⟩ := h.reported_iff.mp hreported
      obtain ⟨token, htoken, hclash⟩ := hreal res hres col hclash
      obtain ⟨schema, table, -, hname, -⟩ := (h.resources res hres).split
      exact ⟨schema, table, hname, token, htoken, (masksConflict_iff h hrules hres
        (h.trino_of_clash hres hclash) hname (closed_of_mem_singleTokens htoken)).mpr hclash⟩

/-- Distinct group names are enough. -/
theorem namesAgree_of_nodup (h : (d.groups.map (·.name)).Nodup) : NamesAgree d := by
  have hname : ∀ g ∈ d.groups, ∀ s, s ∈ groupNamed d g.name ↔ s ∈ groupEffectiveRoles d g := by
    intro g hg s
    rw [mem_groupNamed, mem_groupEffectiveRoles]
    constructor
    · rintro ⟨g', hg', heq, hs⟩
      rwa [List.inj_on_of_nodup_map h hg' hg heq] at hs
    · exact fun hs => ⟨g, hg, rfl, hs⟩
  have hclash : ∀ g ∈ d.groups, ∀ res col,
      Clash res col (groupNamed d g.name) ↔ Clash res col (groupEffectiveRoles d g) := by
    intro g hg res col
    simp only [Clash, Meets, hname g hg]
  constructor
  · rintro res - col ⟨token, htoken, hc⟩
    simp only [namedTokens, List.mem_append, List.mem_map] at htoken
    rcases htoken with hrole | ⟨g, hg, rfl⟩
    · exact ⟨token, List.mem_append_left _ (List.mem_map.mpr hrole), hc⟩
    · exact ⟨_, List.mem_append_right _ (List.mem_map_of_mem hg), (hclash g hg res col).mp hc⟩
  · rintro ⟨res, hres, col, token, htoken, hc⟩
    simp only [singleTokens, List.mem_append, List.mem_map] at htoken
    rcases htoken with hrole | ⟨g, hg, rfl⟩
    · exact ⟨res, hres, col, token, List.mem_append_left _ (List.mem_map.mpr hrole), hc⟩
    · exact ⟨res, hres, col, _, List.mem_append_right _ (List.mem_map.mpr ⟨g, hg, rfl⟩),
        (hclash g hg res col).mpr hc⟩

/-- In `sample` the two agree. -/
theorem conflicts_exact_sample : ConflictsExact sample :=
  (conflicts_exact_iff sample (by simp [validate_sample, OnlyConflicts])).mpr
    (namesAgree_of_nodup (by decide))

/-- Two entries of a group whose masks clash, hidden by a third with an opt-out. -/
def dividedGroup : Declaration where
  roles := [{ name := "g1" }, { name := "g2" }, { name := "g3" }]
  groups := [{ name := "analytics", roles := ["g1", "g2"] },
    { name := "analytics", roles := ["g3"] }]
  resources :=
    [{ resource := "lake.customers", classification := .internal,
       grants :=
        [{ roles := ["g1"], privileges := [.select],
           columnMask := some (.single "email" .hash) },
         { roles := ["g2"], privileges := [.select],
           columnMask := some (.single "email" .partly) },
         { roles := ["g3"], privileges := [.select], allowUnmasked := some true }] }]

/-- The validator accepts the divided group, whose first entry gets two masks. -/
theorem divided_group_conflicts : validateDeclaration dividedGroup = [] ∧
    ["g1", "g2"] ∈ singleTokens dividedGroup ∧
    ∃ rules, regoRules dividedGroup = .ok rules ∧
      MasksConflict rules "lake" "customers" "email" ["g1", "g2"] ∧
      ¬ ConflictsExact dividedGroup := by
  have hvalid : validateDeclaration dividedGroup = [] := by decide +kernel
  have hsound := (valid_of_validate hvalid).toSound
  have htoken : ["g1", "g2"] ∈ singleTokens dividedGroup := by decide +kernel
  obtain ⟨rules, hrules⟩ := hsound.regoRules
  have hconflict : MasksConflict rules "lake" "customers" "email" ["g1", "g2"] := by
    refine (masksConflict_iff hsound hrules List.mem_cons_self rfl rfl
      (closed_of_mem_singleTokens htoken)).mpr ?_
    decide +kernel
  refine ⟨hvalid, htoken, rules, hrules, hconflict, ?_⟩
  rintro ⟨rules', hrules', hsafe, -⟩
  cases hrules.symm.trans hrules'
  exact hsafe hvalid _ List.mem_cons_self rfl "lake" "customers" rfl "email" _ htoken hconflict

end Policy
