import Beluga.Policy.Rego
import Beluga.Policy.Valid

/-! # Which rules are emitted

* `mem_regoRules`: every rule comes from a grant of a Trino resource or from a
  catalog grant, whatever the order they are emitted in;
* `Sound.regoRules`: a validated declaration compiles;
* `Closed.holds_effective`: on a closed token, the effective holders that an
  `allow` rule lists stand for the roles of the grant.
-/

namespace Policy

open Text

variable {d : Declaration}

/-! ## Names -/

theorem identifier_iff {s : String} : IDENTIFIER.test s = true ↔
    ∃ c cs, s.toList = c :: cs ∧ identStart c = true ∧ ∀ e ∈ cs, identRest e = true :=
  Regex.test_ident identStart identRest s

theorem identRest_of_identifier {s : String} (h : IDENTIFIER.test s = true) :
    ∀ c ∈ s.toList, identRest c = true := by
  obtain ⟨c, cs, heq, hc, hcs⟩ := identifier_iff.mp h
  rw [heq]
  intro e he
  rcases List.mem_cons.mp he with rfl | he
  · simp [identRest, hc]
  · exact hcs e he

theorem no_dot_of_identifier {s : String} (h : IDENTIFIER.test s = true) : '.' ∉ s.toList :=
  fun hmem => absurd (identRest_of_identifier h '.' hmem) (by decide)

theorem resourceParts_dot {schema table : String} (hschema : '.' ∉ schema.toList)
    (htable : '.' ∉ table.toList) : resourceParts (schema ++ "." ++ table) = [schema, table] := by
  have hsplit : (schema ++ "." ++ table).toList.splitOn '.' = [schema.toList, table.toList] := by
    rw [String.toList_append, String.toList_append, List.append_assoc,
      show ".".toList = ['.'] from rfl, List.singleton_append, List.splitOn_append_cons_self,
      List.splitOn_eq_singleton hschema, List.splitOn_eq_singleton htable, List.singleton_append]
  rw [resourceParts, hsplit]
  simp

/-- A resource name that passed its check is a schema and a table. -/
theorem resourceValid_iff {name : String} : resourceValid name = true ↔
    ∃ schema table, name = schema ++ "." ++ table ∧ IDENTIFIER.test schema = true ∧
      IDENTIFIER.test table = true := by
  constructor
  · intro h
    simp only [resourceValid, resourceParts, List.length_map, Bool.and_eq_true, decide_eq_true_eq,
      List.all_map, List.all_eq_true, Function.comp_apply] at h
    obtain ⟨hlen, hall⟩ := h
    obtain ⟨a, b, hab⟩ := List.length_eq_two.mp hlen
    rw [hab] at hall
    refine ⟨String.ofList a, String.ofList b, ?_, hall a (by simp), hall b (by simp)⟩
    have hjoin : ['.'].intercalate (name.toList.splitOn '.') = name.toList :=
      List.intercalate_splitOn '.'
    rw [hab] at hjoin
    rw [← String.toList_inj]
    simpa [List.intercalate] using hjoin.symm
  · rintro ⟨schema, table, rfl, hschema, htable⟩
    rw [resourceValid, resourceParts_dot (no_dot_of_identifier hschema)
      (no_dot_of_identifier htable)]
    simp [hschema, htable]

/-- A name splits at its last dot. -/
theorem splitResource_dot {schema table : String} (h : '.' ∉ table.toList) :
    splitResource (schema ++ "." ++ table) = .ok (schema, table) := by
  have htake : ∀ c ∈ table.toList.reverse, decide (c ≠ '.') = true := by
    intro c hc
    rw [decide_eq_true_eq]
    rintro rfl
    exact h (List.mem_reverse.mp hc)
  simp only [splitResource, String.toList_append, show ".".toList = ['.'] from rfl,
    List.append_assoc, List.singleton_append, List.reverse_append, List.reverse_cons,
    List.mem_append, List.mem_cons, true_or, or_true, if_true]
  rw [List.takeWhile_append_of_pos htake, List.dropWhile_append_of_pos htake]
  simp

/-- What a split gives back was there. -/
theorem splitResource_ok {name schema table : String}
    (h : splitResource name = .ok (schema, table)) : name = schema ++ "." ++ table := by
  by_cases hdot : '.' ∈ name.toList
  · obtain ⟨b, a, heq, hb⟩ := List.eq_append_cons_of_mem (List.mem_reverse.mpr hdot)
    have hname : name = String.ofList a.reverse ++ "." ++ String.ofList b.reverse := by
      rw [← String.toList_inj, ← List.reverse_inj, heq]
      simp
    rw [hname, splitResource_dot (by simpa using hb)] at h
    cases h
    exact hname
  · simp [splitResource, hdot] at h

/-! ## The rules -/

section MapM

variable {α β ε : Type} {f : α → Except ε β} {xs : List α}

theorem mapM_cons_ok {x : α} {ys : List β} (h : (x :: xs).mapM f = .ok ys) :
    ∃ y zs, f x = .ok y ∧ xs.mapM f = .ok zs ∧ ys = y :: zs := by
  rw [List.mapM_cons] at h
  cases hx : f x with
  | error e => simp [hx, Bind.bind, Except.bind] at h
  | ok y =>
      cases hxs : xs.mapM f with
      | error e => simp [hx, hxs, Bind.bind, Except.bind] at h
      | ok zs =>
          simp only [hx, hxs, Bind.bind, Except.bind, Pure.pure, Except.pure,
            Except.ok.injEq] at h
          exact ⟨y, zs, rfl, rfl, h.symm⟩

theorem mem_mapM {ys : List β} (h : xs.mapM f = .ok ys) {y : β} :
    y ∈ ys ↔ ∃ x ∈ xs, f x = .ok y := by
  induction xs generalizing ys with
  | nil =>
      cases h
      simp
  | cons x xs ih =>
      obtain ⟨z, zs, hx, hxs, rfl⟩ := mapM_cons_ok h
      simp [ih hxs, hx, eq_comm]

theorem exists_mapM (h : ∀ x ∈ xs, ∃ y, f x = .ok y) : ∃ ys, xs.mapM f = .ok ys := by
  induction xs with
  | nil => exact ⟨[], rfl⟩
  | cons x xs ih =>
      obtain ⟨y, hy⟩ := h x List.mem_cons_self
      obtain ⟨ys, hys⟩ := ih fun x' hx' => h x' (List.mem_cons_of_mem x hx')
      exact ⟨y :: ys, by simp [List.mapM_cons, hy, hys, Bind.bind, Except.bind, Pure.pure,
        Except.pure]⟩

end MapM

theorem map_ok {α β ε : Type} {r : Except ε α} {f : α → β} {b : β} (h : r.map f = .ok b) :
    ∃ a, r = .ok a ∧ f a = b := by
  cases r with
  | error e => cases h
  | ok a => exact ⟨a, rfl, Except.ok.inj h⟩

theorem ok_getD {α ε : Type} {r : Except ε (List α)} (h : r.toOption.isSome) :
    r = .ok (r.toOption.getD []) := by
  cases r with
  | error e => cases h
  | ok a => rfl

/-- A rule of a grant of a Trino resource. -/
def TableRule (d : Declaration) (r : Rule) : Prop :=
  ∃ res ∈ d.resources, res.engineOrTrino = .trino ∧ ∃ schema table,
    splitResource res.resource = .ok (schema, table) ∧ ∃ grant ∈ res.grants,
      r ∈ grantRules d res schema table grant

theorem mem_resourceRules {res : Resource} {rs : List Rule} (h : resourceRules d res = .ok rs)
    {r : Rule} : r ∈ rs ↔ ∃ schema table, splitResource res.resource = .ok (schema, table) ∧
      ∃ grant ∈ res.grants, r ∈ grantRules d res schema table grant := by
  obtain ⟨⟨schema, table⟩, hsplit, rfl⟩ := map_ok h
  simp [hsplit]

theorem mem_regoRules {rules : List Rule} (h : regoRules d = .ok rules) {r : Rule} :
    r ∈ rules ↔ TableRule d r ∨ ∃ cg ∈ d.catalogGrantList, r ∈ catalogRules d cg := by
  obtain ⟨tables, htables, rfl⟩ := map_ok h
  simp only [List.mem_append, List.mem_flatten, List.mem_flatMap, Js.mem_sortOn, mem_mapM htables]
  refine or_congr ⟨?_, ?_⟩ Iff.rfl
  · rintro ⟨rs, ⟨res, hres, hrs⟩, hr⟩
    simp only [trinoResources, Js.mem_sortOn, List.mem_filter, decide_eq_true_eq] at hres
    exact ⟨res, hres.1, hres.2, (mem_resourceRules hrs).mp hr⟩
  · rintro ⟨res, hres, hengine, schema, table, hsplit, hr⟩
    have hrs : ∃ rs, resourceRules d res = .ok rs := by simp [resourceRules, hsplit, Except.map]
    obtain ⟨rs, hrs⟩ := hrs
    refine ⟨rs, ⟨res, ?_, hrs⟩, (mem_resourceRules hrs).mpr ⟨schema, table, hsplit, hr⟩⟩
    simp [trinoResources, hres, hengine]

/-- A resource that passed its checks splits into its schema and its table. -/
theorem ResourceSound.split {res : Resource} (h : ResourceSound d res) : ∃ schema table,
    splitResource res.resource = .ok (schema, table) ∧ res.resource = schema ++ "." ++ table ∧
      IDENTIFIER.test schema = true ∧ IDENTIFIER.test table = true := by
  obtain ⟨schema, table, hname, hschema, htable⟩ := resourceValid_iff.mp h.name
  exact ⟨schema, table, hname ▸ splitResource_dot (no_dot_of_identifier htable), hname, hschema,
    htable⟩

theorem Sound.regoRules (h : Sound d) : ∃ rules, regoRules d = .ok rules := by
  have hok : ∃ tables, (trinoResources d).mapM (resourceRules d) = .ok tables := by
    refine exists_mapM fun res hres => ?_
    simp only [trinoResources, Js.mem_sortOn, List.mem_filter] at hres
    obtain ⟨schema, table, hsplit, -⟩ := (h.resources res hres.1).split
    simp [resourceRules, hsplit, Except.map]
  obtain ⟨tables, htables⟩ := hok
  exact ⟨_, by rw [Policy.regoRules, htables]; rfl⟩

/-- The split of a valid name is its only cut at a dot. -/
theorem ResourceSound.split_iff {res : Resource} (h : ResourceSound d res) {schema table : String} :
    splitResource res.resource = .ok (schema, table) ↔ res.resource = schema ++ "." ++ table := by
  refine ⟨splitResource_ok, fun hname => ?_⟩
  obtain ⟨schema', table', hsplit, hname', hschema', htable'⟩ := h.split
  rw [hsplit, Except.ok.injEq, Prod.mk.injEq]
  rw [hname, ← String.toList_inj] at hname'
  simp only [String.toList_append, show ".".toList = ['.'] from rfl, List.append_assoc,
    List.singleton_append] at hname'
  have hschema := no_dot_of_identifier hschema'
  have htable := no_dot_of_identifier htable'
  rcases List.append_eq_append_iff.mp hname' with ⟨between, hs, ht⟩ | ⟨between, hs, ht⟩
  · cases between with
    | nil =>
        simp only [List.append_nil, List.nil_append, List.cons.injEq, true_and] at hs ht
        exact ⟨String.toList_inj.mp hs, String.toList_inj.mp ht.symm⟩
    | cons c rest =>
        rw [List.cons_append, List.cons.injEq] at ht
        exact absurd (hs ▸ ht.1 ▸ by simp) hschema
  · cases between with
    | nil =>
        simp only [List.append_nil, List.nil_append, List.cons.injEq, true_and] at hs ht
        exact ⟨String.toList_inj.mp hs.symm, String.toList_inj.mp ht⟩
    | cons c rest =>
        rw [List.cons_append, List.cons.injEq] at ht
        exact absurd (ht.2 ▸ by simp) htable

/-! ## Tokens -/

/-- The groups of a token hold all that they inherit. -/
def Closed (d : Declaration) (token : List String) : Prop :=
  ∀ g ∈ token, ∀ role ∈ expandRoles d g, role ∈ token

instance (d : Declaration) (token : List String) : Decidable (Closed d token) :=
  inferInstanceAs (Decidable (∀ g ∈ token, ∀ role ∈ expandRoles d g, role ∈ token))

theorem mem_effective {roles : List String} {g : String} :
    g ∈ effective d roles ↔ ∃ role ∈ roles, g ∈ d.roleNames ∧ Inherits d g role := by
  simp [effective, mem_holdersOf]

/-- A closed token holds an effective holder exactly when it holds one of the roles. -/
theorem Closed.holds_effective {token roles : List String} (h : Closed d token)
    (hroles : ∀ role ∈ roles, role ∈ d.roleNames) :
    (∃ g ∈ token, g ∈ effective d roles) ↔ ∃ role ∈ roles, role ∈ token := by
  constructor
  · rintro ⟨g, hg, heff⟩
    obtain ⟨role, hrole, -, hinherits⟩ := mem_effective.mp heff
    exact ⟨role, hrole, h g hg role (mem_expandRoles.mpr hinherits)⟩
  · rintro ⟨role, hrole, htoken⟩
    exact ⟨role, htoken, mem_effective.mpr ⟨role, hrole, hroles role hrole, .refl⟩⟩

end Policy
