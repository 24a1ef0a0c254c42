import Beluga.Apisix.RouteAudit
import Mathlib.Data.List.ReduceOption

/-! # Which route entries the ratchet lets pass

* `lookup_render`: which entry of an identity is audited;
* `gate_clean_iff`: what holds of the audited entries where the gate reports nothing;
* `ratchet_sound_iff`: when every entry is protected or in the baseline as it is.
-/

namespace Apisix

open Py

variable {rt : Runtime} {g : Globals} {docs : List Entries} {combos : List (List Entries)}
  {es : List Entry} {lists : List (List Entry)} {e w : Entry} {id : String} {baseline : Baseline}

/-! ## Entries and routes -/

/-- The plugins restrict the clients or the rate. -/
def Passes (rt : Runtime) (e : Entry) : Prop :=
  (check_ip_restriction rt e.effective).1 = true ∨ (check_rate_limiting rt e.effective).1 = true

@[simp] theorem routeOf_entry : (routeOf rt e).entry = e := by
  unfold routeOf
  dsimp only
  split_ifs <;> rfl

theorem routeOf_compliant : (routeOf rt e).compliant = true ↔ Passes rt e := by
  unfold routeOf Passes
  dsimp only
  by_cases h : (check_ip_restriction rt e.effective).1 = true
  · rw [if_pos h]
    exact ⟨fun _ => .inl h, fun _ => rfl⟩
  · rw [if_neg h]
    exact ⟨fun hlimited => .inr hlimited, fun hpasses => hpasses.resolve_left h⟩

/-- All entries of a render, in order. -/
def comboEntries (rt : Runtime) (g : Globals) (docs : List Entries) : Try (List Entry) := do
  let parts ← docs.mapM (docEntries rt g)
  .ok parts.flatten

/-- All entries of each render. -/
def allEntries (rt : Runtime) (combos : List (List Entries)) : Try (List (List Entry)) := do
  let g ← extract_globals rt combos.flatten
  combos.mapM (comboEntries rt g)

/-- The last entry of an identity. -/
def lastOf (es : List Entry) (id : String) : Option Entry :=
  es.reverse.find? fun e => e.identity = id

theorem lastOf_append (es es' : List Entry) (id : String) :
    lastOf (es ++ es') id = (lastOf es' id).or (lastOf es id) := by
  rw [lastOf, List.reverse_append, List.find?_append]
  rfl

theorem lookup_routesOf : (routesOf rt es).lookup id = (lastOf es id).map (routeOf rt) := by
  unfold routesOf
  induction es using List.reverseRecOn with
  | nil => rfl
  | append_singleton es e ih =>
      rw [List.map_append, List.map_singleton, dictOf_concat, lastOf_append]
      by_cases h : id = e.identity
      · rw [h, AList.lookup_insert]
        simp [lastOf]
      · rw [AList.lookup_insert_ne h, ih]
        have hne : e.identity ≠ id := fun heq => h heq.symm
        simp [lastOf, hne]

theorem lookup_union {d d' : Routes} : (d ∪ d').lookup id = (d.lookup id).or (d'.lookup id) := by
  ext r
  rw [← Option.mem_def, AList.mem_lookup_union]
  cases h : d.lookup id with
  | none =>
      have hnot : id ∉ d := AList.lookup_eq_none.mp h
      simp [hnot]
  | some r' =>
      have hmem : id ∈ d := AList.lookup_isSome.mp (by rw [h]; rfl)
      simp [hmem]

theorem lookup_updateAll {lists : List (List Entry)} :
    (updateAll (lists.map (routesOf rt))).lookup id = (lastOf lists.flatten id).map (routeOf rt) := by
  unfold updateAll
  induction lists using List.reverseRecOn with
  | nil => rfl
  | append_singleton lists es ih =>
      rw [List.map_append, List.foldl_append, List.flatten_append, lastOf_append]
      simp only [List.map_cons, List.map_nil, List.foldl_cons, List.foldl_nil, List.flatten_cons,
        List.flatten_nil, List.append_nil]
      rw [lookup_union, lookup_routesOf, ih]
      cases lastOf es id with
      | none => rfl
      | some e => rfl

theorem parts_eq {docs : List Entries} {lists : List (List Entry)} {parts : List Routes}
    (hlists : docs.mapM (docEntries rt g) = .ok lists)
    (hparts : docs.mapM (extractRoutes rt g) = .ok parts) : parts = lists.map (routesOf rt) := by
  have hforall := mapM_ok_iff.mp hlists
  have hroutes := mapM_ok_iff.mp hparts
  clear hlists hparts
  induction hforall generalizing parts with
  | nil =>
      cases hroutes
      rfl
  | cons hdoc _ ih =>
      cases hroutes with
      | cons hpart hrest =>
          rcases bind_ok_iff.mp hpart with ⟨list, hlist, hpart⟩
          rw [← Except.ok.inj hpart, List.map_cons, ← ih hrest,
            Except.ok.inj (hlist.symm.trans hdoc)]

/-- The routes of a render keep the last entry of each identity. -/
theorem extract_ok {routes : Routes} (h : extract_routes_from_docs rt g docs = .ok routes) :
    ∃ es, comboEntries rt g docs = .ok es ∧
      ∀ id, routes.lookup id = (lastOf es id).map (routeOf rt) := by
  rcases bind_ok_iff.mp h with ⟨parts, hparts, hroutes⟩
  have hall : ∀ doc ∈ docs, ∃ list, docEntries rt g doc = .ok list := by
    intro doc hdoc
    rcases ok_of_mapM hparts hdoc with ⟨part, -, hpart⟩
    rcases bind_ok_iff.mp hpart with ⟨list, hlist, -⟩
    exact ⟨list, hlist⟩
  rcases exists_mapM hall with ⟨lists, hlists⟩
  refine ⟨lists.flatten, bind_ok_iff.mpr ⟨lists, hlists, rfl⟩, fun id => ?_⟩
  rw [← Except.ok.inj hroutes, parts_eq hlists hparts, lookup_updateAll]

theorem exists_extract (h : comboEntries rt g docs = .ok es) :
    ∃ routes, extract_routes_from_docs rt g docs = .ok routes := by
  rcases bind_ok_iff.mp h with ⟨lists, hlists, -⟩
  have hall : ∀ doc ∈ docs, ∃ part, extractRoutes rt g doc = .ok part := by
    intro doc hdoc
    rcases ok_of_mapM hlists hdoc with ⟨list, -, hlist⟩
    exact ⟨_, bind_ok_iff.mpr ⟨list, hlist, rfl⟩⟩
  rcases exists_mapM hall with ⟨parts, hparts⟩
  exact ⟨_, bind_ok_iff.mpr ⟨parts, hparts, rfl⟩⟩

/-! ## Several renders -/

/-- What stays of two routes of an identity. -/
def keep (old new : Option Route) : Option Route :=
  match old with
  | none => new
  | some route => if route.compliant && new.any (fun r => !r.compliant) then new else some route

theorem lookup_keepRoute (all : Routes) (identity : String) (route : Route) :
    (keepRoute all identity route).lookup id =
      if id = identity then keep (all.lookup id) (some route) else all.lookup id := by
  unfold keepRoute
  by_cases h : id = identity
  · rw [if_pos h, h]
    cases hold : all.lookup identity with
    | none => simp [keep]
    | some old =>
        simp only [keep, Option.any_some]
        split_ifs
        · exact AList.lookup_insert all
        · exact hold
  · rw [if_neg h]
    cases all.lookup identity with
    | none => exact AList.lookup_insert_ne h
    | some old =>
        dsimp only
        split_ifs
        · exact AList.lookup_insert_ne h
        · rfl

theorem lookup_keepRoutes (all part : Routes) :
    (keepRoutes all part).lookup id = keep (all.lookup id) (part.lookup id) := by
  have hlist : ∀ (items : List (Sigma fun _ : String => Route)), items.NodupKeys → ∀ all : Routes,
      (items.foldl (fun all item => keepRoute all item.1 item.2) all).lookup id =
        keep (all.lookup id) (items.dlookup id) := by
    intro items
    induction items with
    | nil =>
        intro _ all
        cases h : all.lookup id with
        | none => simp [keep, h]
        | some old => simp [keep, h]
    | cons item items ih =>
        intro hnodup all
        rcases item with ⟨key, route⟩
        rcases List.nodupKeys_cons.mp hnodup with ⟨hkey, hrest⟩
        rw [List.foldl_cons, ih hrest, lookup_keepRoute]
        by_cases h : id = key
        · subst h
          have hnone : items.dlookup id = none := List.dlookup_eq_none.mpr hkey
          rw [if_pos rfl, hnone, List.dlookup_cons_eq]
          cases keep (all.lookup id) (some route) with
          | none => rfl
          | some r => simp [keep]
        · rw [if_neg h, List.dlookup_cons_ne _ _ h]
  exact hlist part.entries part.nodupKeys all

/-- What stays of all routes of an identity is the first that is not compliant, or else the first. -/
theorem foldl_keep (old : Option Route) (routes : List (Option Route)) :
    routes.foldl keep old =
      (((old :: routes).reduceOption.find? fun r => !r.compliant).or
        (old :: routes).reduceOption.head?) := by
  induction routes generalizing old with
  | nil =>
      cases old with
      | none => rfl
      | some r =>
          cases h : r.compliant with
          | true => simp [h]
          | false => simp [h]
  | cons new routes ih =>
      rw [List.foldl_cons, ih]
      cases old with
      | none => simp [keep]
      | some r =>
          cases new with
          | none => simp [keep]
          | some r' =>
              cases h : r.compliant with
              | true =>
                  cases h' : r'.compliant with
                  | true => simp [keep, h, h']
                  | false => simp [keep, h, h']
              | false => simp [keep, h]

/-- The last entry of an identity in each render that has one. -/
def lasts (lists : List (List Entry)) (id : String) : List Entry := lists.filterMap (lastOf · id)

/-- The entry that is audited under an identity, where it is not protected: the first such of the
last ones. -/
def Audited (rt : Runtime) (lists : List (List Entry)) (id : String) (w : Entry) : Prop :=
  ∃ before after, lasts lists id = before ++ w :: after ∧ ¬ Passes rt w ∧
    ∀ w' ∈ before, Passes rt w'

/-- The routes that are kept, by the entries of the renders. -/
def Keeps (rt : Runtime) (lists : List (List Entry)) (routes : Routes) : Prop :=
  ∀ id, routes.lookup id = ((((lasts lists id).map (routeOf rt)).find? fun r => !r.compliant).or
    ((lasts lists id).map (routeOf rt)).head?)

theorem lookups_eq {parts : List Routes} (hlists : combos.mapM (comboEntries rt g) = .ok lists)
    (hparts : combos.mapM (extract_routes_from_docs rt g) = .ok parts) :
    (parts.map fun part => part.lookup id) = lists.map fun es => (lastOf es id).map (routeOf rt) := by
  have hforall := mapM_ok_iff.mp hlists
  have hforall' := mapM_ok_iff.mp hparts
  clear hlists hparts
  induction hforall generalizing parts with
  | nil =>
      cases hforall'
      rfl
  | cons hes _ ih =>
      cases hforall' with
      | cons hpart hrest =>
          rcases extract_ok hpart with ⟨es, hes', hlast⟩
          rw [List.map_cons, List.map_cons, ih hrest, hlast id, Except.ok.inj (hes'.symm.trans hes)]

/-- Of several renders, the routes are those of their last entries, put together by `keep`. -/
theorem render_ok {routes : Routes} (h : render_all_routes rt combos = .ok routes) :
    ∃ lists, allEntries rt combos = .ok lists ∧ Keeps rt lists routes := by
  rcases bind_ok_iff.mp h with ⟨g, hg, hrest⟩
  rcases bind_ok_iff.mp hrest with ⟨parts, hparts, hroutes⟩
  have hall : ∀ docs ∈ combos, ∃ es, comboEntries rt g docs = .ok es := by
    intro docs hdocs
    rcases ok_of_mapM hparts hdocs with ⟨part, -, hpart⟩
    rcases extract_ok hpart with ⟨es, hes, -⟩
    exact ⟨es, hes⟩
  rcases exists_mapM hall with ⟨lists, hlists⟩
  refine ⟨lists, bind_ok_iff.mpr ⟨g, hg, hlists⟩, fun id => ?_⟩
  rw [← Except.ok.inj hroutes]
  have hlookup : ∀ (parts : List Routes) (all : Routes), (parts.foldl keepRoutes all).lookup id =
      (parts.map fun part => part.lookup id).foldl keep (all.lookup id) := by
    intro parts
    induction parts with
    | nil => exact fun all => rfl
    | cons part parts ih =>
        intro all
        rw [List.foldl_cons, ih, lookup_keepRoutes]
        rfl
  have hlasts : (none :: lists.map fun es => (lastOf es id).map (routeOf rt)).reduceOption =
      (lasts lists id).map (routeOf rt) := by
    rw [lasts, List.reduceOption_cons_of_none, List.reduceOption, List.filterMap_map,
      List.map_filterMap]
    rfl
  rw [hlookup, lookups_eq hlists hparts, ← hlasts]
  exact foldl_keep none _

theorem exists_render (h : allEntries rt combos = .ok lists) :
    ∃ routes, render_all_routes rt combos = .ok routes := by
  rcases bind_ok_iff.mp h with ⟨g, hg, hlists⟩
  have hall : ∀ docs ∈ combos, ∃ routes, extract_routes_from_docs rt g docs = .ok routes := by
    intro docs hdocs
    rcases ok_of_mapM hlists hdocs with ⟨es, -, hes⟩
    exact exists_extract hes
  rcases exists_mapM hall with ⟨parts, hparts⟩
  exact ⟨_, bind_ok_iff.mpr ⟨g, hg, bind_ok_iff.mpr ⟨parts, hparts, rfl⟩⟩⟩

section Kept

variable {routes : Routes} {route : Route}

theorem Keeps.exists_entry (h : Keeps rt lists routes) (hroute : routes.lookup id = some route) :
    ∃ w ∈ lasts lists id, route = routeOf rt w := by
  rw [h id] at hroute
  have hmem : route ∈ (lasts lists id).map (routeOf rt) := by
    rcases Option.or_eq_some_iff.mp hroute with hfind | ⟨-, hhead⟩
    · exact List.mem_of_find?_eq_some hfind
    · exact List.mem_of_head? hhead
  rcases List.mem_map.mp hmem with ⟨w, hw, rfl⟩
  exact ⟨w, hw, rfl⟩

theorem Keeps.audited_iff (h : Keeps rt lists routes) :
    Audited rt lists id w ↔ routes.lookup id = some (routeOf rt w) ∧ ¬ Passes rt w := by
  have hnot : ∀ e, (!(routeOf rt e).compliant) = true ↔ ¬ Passes rt e := by
    intro e
    rw [← routeOf_compliant, Bool.not_eq_true', Bool.not_eq_true]
  have hfind : Audited rt lists id w ↔
      (lasts lists id).find? (fun e => !(routeOf rt e).compliant) = some w := by
    rw [List.find?_eq_some_iff_append, hnot]
    constructor
    · intro haudited
      rcases haudited with ⟨before, after, hlasts, hfails, hbefore⟩
      refine ⟨hfails, before, after, hlasts, fun e he => ?_⟩
      rw [Bool.not_not, routeOf_compliant]
      exact hbefore e he
    · intro hfound
      rcases hfound with ⟨hfails, before, after, hlasts, hbefore⟩
      refine ⟨before, after, hlasts, hfails, fun e he => ?_⟩
      have hpasses := hbefore e he
      rwa [Bool.not_not, routeOf_compliant] at hpasses
  have hmap : ((lasts lists id).map (routeOf rt)).find? (fun r => !r.compliant) =
      ((lasts lists id).find? fun e => !(routeOf rt e).compliant).map (routeOf rt) :=
    List.find?_map
  rw [hfind, h id, hmap]
  cases hfound : (lasts lists id).find? fun e => !(routeOf rt e).compliant with
  | some e =>
      rw [Option.map_some, Option.some_or]
      constructor
      · intro heq
        rw [Option.some.inj heq] at hfound ⊢
        exact ⟨rfl, (hnot w).mp (List.find?_some (p := fun e => !(routeOf rt e).compliant) hfound)⟩
      · intro heq
        have hentry := congrArg Route.entry (Option.some.inj heq.1)
        rw [routeOf_entry, routeOf_entry] at hentry
        rw [hentry]
  | none =>
      rw [Option.map_none, Option.none_or]
      refine ⟨fun heq => (by cases heq), fun heq => ?_⟩
      rcases List.mem_map.mp (List.mem_of_head? heq.1) with ⟨e, he, heq'⟩
      have hentry := congrArg Route.entry heq'
      rw [routeOf_entry, routeOf_entry] at hentry
      have hnone := List.find?_eq_none.mp hfound e he
      rw [hnot, not_not, hentry] at hnone
      exact absurd hnone heq.2

theorem Keeps.isSome_iff (h : Keeps rt lists routes) :
    (∃ id route, routes.lookup id = some route) ↔ ∃ es ∈ lists, es ≠ [] := by
  constructor
  · intro hroute
    rcases hroute with ⟨id, route, hroute⟩
    rcases h.exists_entry hroute with ⟨w, hw, -⟩
    rcases List.mem_filterMap.mp hw with ⟨es, hes, hlast⟩
    refine ⟨es, hes, fun hnil => ?_⟩
    rw [hnil] at hlast
    cases hlast
  · intro hes
    rcases hes with ⟨es, hes, hne⟩
    rcases List.exists_mem_of_ne_nil _ hne with ⟨e, he⟩
    have hlast : ∃ w, lastOf es e.identity = some w := by
      rw [← Option.isSome_iff_exists, lastOf, List.find?_isSome]
      exact ⟨e, List.mem_reverse.mpr he, by simp⟩
    rcases hlast with ⟨w, hlast⟩
    have hmem : w ∈ lasts lists e.identity := List.mem_filterMap.mpr ⟨es, hes, hlast⟩
    refine ⟨e.identity, ?_⟩
    rw [← Option.isSome_iff_exists, h e.identity, Option.isSome_or, Bool.or_eq_true]
    right
    cases hlasts : lasts lists e.identity with
    | nil =>
        rw [hlasts] at hmem
        cases hmem
    | cons w' rest => rfl

end Kept

/-! ## The audit of the routes -/

/-- A field has the items of the baseline. -/
def SameField (got : Value) (expected : List String) : Prop :=
  ∃ items, setOf got = .ok items ∧ ∀ v, v ∈ items ↔ ∃ name ∈ expected, v = .str name

/-- An entry has the hosts, paths and plugins of the baseline. -/
structure Frozen (e : Entry) (base : BaselineEntry) : Prop where
  hosts : SameField e.hosts base.hosts
  paths : SameField e.paths base.paths
  plugins : SameField (.list e.plugins) base.plugins

theorem sameSet_iff {values : List Value} {names : List String} : sameSet values names = true ↔
    ∀ v, v ∈ values ↔ ∃ name ∈ names, v = .str name := by
  unfold sameSet
  simp only [Bool.and_eq_true, List.all_eq_true, List.any_eq_true, eq_str, contains_str]
  constructor
  · intro h v
    refine ⟨fun hv => h.1 v hv, fun hname => ?_⟩
    rcases hname with ⟨name, hname, rfl⟩
    exact h.2 name hname
  · intro h
    exact ⟨fun v hv => (h v).mp hv, fun name hname => (h _).mpr ⟨name, hname, rfl⟩⟩

theorem fieldDiff_nil {label : String} {got : Value} {expected : List String} :
    fieldDiff rt label got expected = .ok [] ↔ SameField got expected := by
  unfold fieldDiff SameField
  constructor
  · intro h
    rcases bind_ok_iff.mp h with ⟨items, hitems, hdiff⟩
    split_ifs at hdiff with hsame
    · exact ⟨items, hitems, sameSet_iff.mp hsame⟩
    · rcases bind_ok_iff.mp hdiff with ⟨want, -, hdiff⟩
      rcases bind_ok_iff.mp hdiff with ⟨found, -, hdiff⟩
      cases hdiff
  · intro h
    rcases h with ⟨items, hitems, hsame⟩
    exact bind_ok_iff.mpr ⟨items, hitems, by rw [if_pos (sameSet_iff.mpr hsame)]⟩

theorem diffsOf_nil {base : BaselineEntry} : diffsOf rt e base = .ok [] ↔ Frozen e base := by
  unfold diffsOf
  constructor
  · intro h
    rcases bind_ok_iff.mp h with ⟨hosts, hhosts, h⟩
    rcases bind_ok_iff.mp h with ⟨paths, hpaths, h⟩
    rcases bind_ok_iff.mp h with ⟨plugins, hplugins, h⟩
    have hnil := Except.ok.inj h
    rw [List.append_eq_nil_iff, List.append_eq_nil_iff] at hnil
    rw [hnil.1.1] at hhosts
    rw [hnil.1.2] at hpaths
    rw [hnil.2] at hplugins
    exact ⟨fieldDiff_nil.mp hhosts, fieldDiff_nil.mp hpaths, fieldDiff_nil.mp hplugins⟩
  · intro h
    exact bind_ok_iff.mpr ⟨[], fieldDiff_nil.mpr h.hosts, bind_ok_iff.mpr ⟨[],
      fieldDiff_nil.mpr h.paths, bind_ok_iff.mpr ⟨[], fieldDiff_nil.mpr h.plugins, rfl⟩⟩⟩

/-- The gate returns, and reports no error. -/
def Clean (report : Try Report) : Prop := ∃ r, report = .ok r ∧ r.errors = []

theorem violationReport_clean {item : String × Route} : Clean (violationReport rt baseline item) ↔
    ∃ base, baseline.lookup item.1 = some base ∧ Frozen item.2.entry base := by
  unfold violationReport Clean
  cases hbase : baseline.lookup item.1 with
  | none => simp
  | some base =>
      simp only [Option.some.injEq, exists_eq_left']
      rw [← @diffsOf_nil rt item.2.entry base]
      constructor
      · intro h
        rcases h with ⟨r, hr, hnil⟩
        rcases bind_ok_iff.mp hr with ⟨diffs, hdiffs, hr⟩
        split_ifs at hr with hempty
        · rw [hdiffs, List.isEmpty_iff.mp hempty]
        · rw [← Except.ok.inj hr] at hnil
          cases hnil
      · intro h
        exact ⟨_, bind_ok_iff.mpr ⟨[], h, rfl⟩, rfl⟩

theorem mem_sortedItems {α : Type} {d : Dict String α} {item : String × α} :
    item ∈ sortedItems d ↔ d.lookup item.1 = some item.2 := by
  unfold sortedItems
  rw [(List.perm_insertionSort _ _).mem_iff, List.mem_map, ← Option.mem_def, AList.mem_lookup_iff]
  constructor
  · intro h
    rcases h with ⟨s, hs, rfl⟩
    exact hs
  · intro h
    exact ⟨⟨item.1, item.2⟩, h, rfl⟩

theorem staleErrors_nil {routes : Routes} : staleErrors routes id = [] ↔
    ∃ route, routes.lookup id = some route ∧ route.compliant = false := by
  unfold staleErrors
  cases routes.lookup id with
  | none => simp
  | some route =>
      cases h : route.compliant with
      | true => simp [h]
      | false => simp [h]

theorem audit_clean {routes : Routes} : Clean (audit_routes rt routes baseline) ↔
    (∃ id route, routes.lookup id = some route) ∧
      (∀ id route, routes.lookup id = some route → route.compliant = false →
        ∃ base, baseline.lookup id = some base ∧ Frozen route.entry base) ∧
      ∀ id base, baseline.lookup id = some base →
        ∃ route, routes.lookup id = some route ∧ route.compliant = false := by
  have hsome : (sortedItems routes).isEmpty = false ↔ ∃ id route, routes.lookup id = some route := by
    rw [← Bool.not_eq_true, List.isEmpty_iff]
    constructor
    · intro hne
      rcases List.exists_mem_of_ne_nil _ hne with ⟨item, hitem⟩
      exact ⟨item.1, item.2, mem_sortedItems.mp hitem⟩
    · intro hroute hnil
      rcases hroute with ⟨id, route, hroute⟩
      have hmem : (id, route) ∈ sortedItems routes := mem_sortedItems.mpr hroute
      rw [hnil] at hmem
      cases hmem
  have hviolation : ∀ item : String × Route,
      item ∈ (sortedItems routes).filter (fun item => !item.2.compliant) ↔
        routes.lookup item.1 = some item.2 ∧ item.2.compliant = false := by
    intro item
    rw [List.mem_filter, mem_sortedItems, Bool.not_eq_true']
  unfold audit_routes
  rw [← hsome]
  cases hempty : (sortedItems routes).isEmpty with
  | true =>
      dsimp only
      rw [if_pos hempty]
      refine ⟨fun h => ?_, fun h => (by cases h.1)⟩
      rcases h with ⟨r, hr, hnil⟩
      rw [← Except.ok.inj hr] at hnil
      cases hnil
  | false =>
      dsimp only
      rw [if_neg (Bool.not_eq_true _ ▸ hempty)]
      constructor
      · intro h
        rcases h with ⟨r, hr, hnil⟩
        rcases bind_ok_iff.mp hr with ⟨reports, hreports, hr⟩
        rw [← Except.ok.inj hr] at hnil
        dsimp only at hnil
        rw [List.append_eq_nil_iff, List.flatMap_eq_nil_iff, List.flatMap_eq_nil_iff] at hnil
        refine ⟨rfl, fun id route hlookup hcompliant => ?_, fun id base hbase => ?_⟩
        · rcases ok_of_mapM hreports ((hviolation (id, route)).mpr ⟨hlookup, hcompliant⟩) with
            ⟨report, hmem, hreport⟩
          exact violationReport_clean.mp ⟨report, hreport, hnil.1 report hmem⟩
        · exact staleErrors_nil.mp (hnil.2 (id, base) (mem_sortedItems.mpr hbase))
      · intro h
        rcases h with ⟨-, hviolations, hstale⟩
        have hall : ∀ item ∈ (sortedItems routes).filter (fun item => !item.2.compliant),
            Clean (violationReport rt baseline item) := by
          intro item hitem
          rcases (hviolation item).mp hitem with ⟨hlookup, hcompliant⟩
          exact violationReport_clean.mpr (hviolations _ _ hlookup hcompliant)
        rcases exists_mapM fun item hitem => (hall item hitem).imp fun r hr => hr.1 with
          ⟨reports, hreports⟩
        refine ⟨_, bind_ok_iff.mpr ⟨reports, hreports, rfl⟩, ?_⟩
        dsimp only
        rw [List.append_eq_nil_iff, List.flatMap_eq_nil_iff, List.flatMap_eq_nil_iff]
        constructor
        · intro report hmem
          rcases (mem_of_mapM hreports).mp hmem with ⟨item, hitem, hreport⟩
          rcases hall item hitem with ⟨r, hr, hnil⟩
          rw [Except.ok.inj (hreport.symm.trans hr)]
          exact hnil
        · intro item hitem
          exact staleErrors_nil.mpr (hstale item.1 item.2 (mem_sortedItems.mp hitem))

/-! ## The ratchet -/

/-- What the gate asks for. -/
structure Accepted (rt : Runtime) (lists : List (List Entry)) (baseline : Baseline) : Prop where
  rendered : ∃ es ∈ lists, es ≠ []
  violations : ∀ id w, Audited rt lists id w →
    ∃ base, baseline.lookup id = some base ∧ Frozen w base
  stale : ∀ id base, baseline.lookup id = some base → ∃ w, Audited rt lists id w

theorem gate_clean_iff : Clean (gate rt combos baseline) ↔
    ∃ lists, allEntries rt combos = .ok lists ∧ Accepted rt lists baseline := by
  have haccepted : ∀ {lists : List (List Entry)} {routes : Routes}, Keeps rt lists routes →
      (Clean (audit_routes rt routes baseline) ↔ Accepted rt lists baseline) := by
    intro lists routes hkeeps
    have hfails : ∀ w, (routeOf rt w).compliant = false ↔ ¬ Passes rt w := by
      intro w
      rw [← routeOf_compliant, Bool.not_eq_true]
    rw [audit_clean, hkeeps.isSome_iff]
    constructor
    · intro h
      refine ⟨h.1, fun id w hw => ?_, fun id base hbase => ?_⟩
      · rcases hkeeps.audited_iff.mp hw with ⟨hlookup, hnot⟩
        rcases h.2.1 id _ hlookup ((hfails w).mpr hnot) with ⟨base, hbase, hfrozen⟩
        rw [routeOf_entry] at hfrozen
        exact ⟨base, hbase, hfrozen⟩
      · rcases h.2.2 id base hbase with ⟨route, hlookup, hcompliant⟩
        rcases hkeeps.exists_entry hlookup with ⟨w, -, rfl⟩
        exact ⟨w, hkeeps.audited_iff.mpr ⟨hlookup, (hfails w).mp hcompliant⟩⟩
    · intro h
      refine ⟨h.rendered, fun id route hlookup hcompliant => ?_, fun id base hbase => ?_⟩
      · rcases hkeeps.exists_entry hlookup with ⟨w, -, rfl⟩
        rw [routeOf_entry]
        exact h.violations id w (hkeeps.audited_iff.mpr ⟨hlookup, (hfails w).mp hcompliant⟩)
      · rcases h.stale id base hbase with ⟨w, hw⟩
        rcases hkeeps.audited_iff.mp hw with ⟨hlookup, hnot⟩
        exact ⟨_, hlookup, (hfails w).mpr hnot⟩
  constructor
  · intro h
    rcases h with ⟨r, hr, hnil⟩
    rcases bind_ok_iff.mp hr with ⟨routes, hroutes, haudit⟩
    rcases render_ok hroutes with ⟨lists, hlists, hkeeps⟩
    exact ⟨lists, hlists, (haccepted hkeeps).mp ⟨r, haudit, hnil⟩⟩
  · intro h
    rcases h with ⟨lists, hlists, h⟩
    rcases exists_render hlists with ⟨routes, hroutes⟩
    rcases render_ok hroutes with ⟨lists', hlists', hkeeps⟩
    rw [← Except.ok.inj (hlists.symm.trans hlists')] at hkeeps
    rcases (haccepted hkeeps).mpr h with ⟨r, haudit, hnil⟩
    exact ⟨r, bind_ok_iff.mpr ⟨routes, hroutes, haudit⟩, hnil⟩

/-- What the ratchet stands for: without an error, every entry of every render is protected, or in
the baseline as it is. -/
def Sound (rt : Runtime) (combos : List (List Entries)) (baseline : Baseline) : Prop :=
  Clean (gate rt combos baseline) → ∀ lists, allEntries rt combos = .ok lists →
    ∀ es ∈ lists, ∀ e ∈ es, Passes rt e ∨
      ∃ base, baseline.lookup e.identity = some base ∧ Frozen e base

/-- Two fields have the same items. -/
def SameItems (v v' : Value) : Prop :=
  ∃ items items', setOf v = .ok items ∧ setOf v' = .ok items' ∧ ∀ x, x ∈ items ↔ x ∈ items'

/-- Two entries have the same hosts, paths and plugins. -/
structure SameEntry (e w : Entry) : Prop where
  hosts : SameItems e.hosts w.hosts
  paths : SameItems e.paths w.paths
  plugins : SameItems (.list e.plugins) (.list w.plugins)

theorem SameItems.field {v v' : Value} {names : List String} (h : SameItems v v')
    (hfield : SameField v' names) : SameField v names := by
  rcases h with ⟨items, items', hitems, hitems', hsame⟩
  rcases hfield with ⟨items'', hitems'', hall⟩
  rw [← Except.ok.inj (hitems'.symm.trans hitems'')] at hall
  exact ⟨items, hitems, fun x => (hsame x).trans (hall x)⟩

theorem SameField.items {v v' : Value} {names : List String} (h : SameField v names)
    (h' : SameField v' names) : SameItems v v' := by
  rcases h with ⟨items, hitems, hall⟩
  rcases h' with ⟨items', hitems', hall'⟩
  exact ⟨items, items', hitems, hitems', fun x => (hall x).trans (hall' x).symm⟩

/-- The ratchet is sound if and only if, where it has nothing to report of the entries that it
audits, every entry that is not protected has the hosts, the paths and the plugins of the one that
is audited under its identity. -/
theorem ratchet_sound_iff (rt : Runtime) (combos : List (List Entries)) (baseline : Baseline) :
    Sound rt combos baseline ↔
      ∀ lists, allEntries rt combos = .ok lists → Accepted rt lists baseline →
        ∀ es ∈ lists, ∀ e ∈ es, ¬ Passes rt e →
          ∃ w, Audited rt lists e.identity w ∧ SameEntry e w := by
  unfold Sound
  rw [gate_clean_iff]
  constructor
  · intro h lists hlists haccepted es hes e he hnot
    rcases (h ⟨lists, hlists, haccepted⟩ lists hlists es hes e he).resolve_left hnot with
      ⟨base, hbase, hfrozen⟩
    rcases haccepted.stale _ base hbase with ⟨w, hw⟩
    rcases haccepted.violations _ w hw with ⟨base', hbase', hfrozen'⟩
    rw [← Option.some.inj (hbase.symm.trans hbase')] at hfrozen'
    exact ⟨w, hw, hfrozen.hosts.items hfrozen'.hosts, hfrozen.paths.items hfrozen'.paths,
      hfrozen.plugins.items hfrozen'.plugins⟩
  · intro h hclean lists hlists es hes e he
    rcases hclean with ⟨lists', hlists', haccepted⟩
    rw [← Except.ok.inj (hlists.symm.trans hlists')] at haccepted
    by_cases hpasses : Passes rt e
    · exact .inl hpasses
    · right
      rcases h lists hlists haccepted es hes e he hpasses with ⟨w, hw, hsame⟩
      rcases haccepted.violations _ w hw with ⟨base, hbase, hfrozen⟩
      exact ⟨base, hbase, hsame.hosts.field hfrozen.hosts, hsame.paths.field hfrozen.paths,
        hsame.plugins.field hfrozen.plugins⟩

/-! ## An entry that is lost -/

def sampleRuntime : Runtime where
  py :=
    { quote := fun s => "'" ++ s ++ "'"
      float := fun _ => "0.0"
      float_head := Py.float_head_zero }
  safeLoad _ := .ok .none
  ipNetwork _ := none
  sorted values := .ok values
  lower s := s

/-- A route with two entries of one name, of which only the second is limited. -/
def twiceNamed : Entries :=
  [("kind", .str "ApisixRoute"),
    ("metadata", .dict [("name", .str "trino"), ("namespace", .str "analytics")]),
    ("spec", .dict [("http", .list [
      .dict [("name", .str "trino"), ("match", .dict [("hosts", .list [.str "trino.local.beluga.internal"]),
        ("paths", .list [.str "/*"])])],
      .dict [("name", .str "trino"), ("match", .dict [("hosts", .list [.str "trino.local.beluga.internal"]),
        ("paths", .list [.str "/v1/*"])]),
        ("plugins", .list [.dict [("name", .str "limit-req"),
          ("config", .dict [("rate", .int 100), ("burst", .int 50)])]])]])])]

/-- The entry without a limit is not audited. -/
theorem first_entry_lost :
    (gate sampleRuntime [[twiceNamed]] ∅).map (·.errors) = .ok [] ∧
      ¬ Sound sampleRuntime [[twiceNamed]] ∅ := by
  have hclean : (gate sampleRuntime [[twiceNamed]] ∅).map (·.errors) = .ok [] := by decide +kernel
  refine ⟨hclean, fun hsound => ?_⟩
  have hgate : Clean (gate sampleRuntime [[twiceNamed]] ∅) := by
    unfold Clean
    cases hreport : gate sampleRuntime [[twiceNamed]] ∅ with
    | error e =>
        rw [hreport] at hclean
        cases hclean
    | ok r =>
        rw [hreport] at hclean
        exact ⟨r, rfl, Except.ok.inj hclean⟩
  have hentries := hsound hgate _ rfl _ List.mem_cons_self _ List.mem_cons_self
  rcases hentries with hpasses | hfrozen
  · rcases hpasses with hip | hrate
    · exact absurd hip (by decide +kernel)
    · exact absurd hrate (by decide +kernel)
  · rcases hfrozen with ⟨base, hbase, -⟩
    cases hbase

end Apisix
