import Beluga.Upstream.LakekeeperCatalog

/-! # What a listing holds

The pages are untrusted. A page of namespaces is refused unless each of them is one
level below the parent; of a table only the name is looked at. The id of the parent
is derived anew from its segments.

* `Request`: what a listing asks for, and the items of the pages that it reads;
* `listing_faithful`: when a listing shows the children of its parent.
-/

namespace Upstream

open Interact Js

namespace LakekeeperCatalog

/-! ## Assets pass their schema -/

theorem deriveAssetId_ne_empty (kind : DataAssetKind) (segments : List String) :
    deriveAssetId kind segments ≠ "" := by
  intro h
  have hlist := congrArg String.toList h
  rw [toList_deriveAssetId, String.toList_empty, List.append_eq_nil_iff] at hlist
  cases kind <;> exact absurd hlist.1 (by decide)

theorem append_dot_ne_empty (front back : String) : front ++ "." ++ back ≠ "" := by
  intro h
  have hlist := congrArg String.toList h
  simp at hlist

theorem join_ne_empty {sep seg : String} {segs : List String} (h : seg ≠ "") :
    join sep (seg :: segs) ≠ "" := by
  intro heq
  cases segs with
  | nil => exact h (by rwa [join_singleton] at heq)
  | cons next segs =>
      rw [join_cons_cons] at heq
      have hlist := congrArg String.toList heq
      rw [String.toList_append, String.toList_append, String.toList_empty,
        List.append_eq_nil_iff, List.append_eq_nil_iff] at hlist
      exact h (String.toList_inj.mp hlist.1.1)

theorem ne_empty_of_safe {seg : String} (h : isSafeUpstreamSegment seg = true) : seg ≠ "" := by
  rintro rfl
  cases h

variable {catalog : String} {ns : List String}

theorem valid_schemaAsset (hcatalog : catalog ≠ "") (hne : ns ≠ []) (hns : ∀ seg ∈ ns, seg ≠ "") :
    (schemaAsset catalog ns).valid = true := by
  have hname : join "." ns ≠ "" := by
    cases ns with
    | nil => exact absurd rfl hne
    | cons seg segs => exact join_ne_empty (hns seg List.mem_cons_self)
  have hpath : ∀ seg ∈ ns.dropLast, seg ≠ "" := fun seg hseg =>
    hns seg (List.dropLast_subset _ hseg)
  have hparent : (if ns.length = 1 then catalogId catalog else schemaId catalog ns.dropLast) ≠ "" := by
    split_ifs
    · exact deriveAssetId_ne_empty _ _
    · exact deriveAssetId_ne_empty _ _
  have hid : schemaId catalog ns ≠ "" := deriveAssetId_ne_empty _ _
  have hservice : SERVICE_ID ≠ "" := by decide
  simpa [DataAsset.valid, schemaAsset, hid, hname, hservice, hcatalog, hparent] using
    ⟨hns, hpath⟩

theorem valid_tableAsset (hcatalog : catalog ≠ "") (hns : ∀ seg ∈ ns, seg ≠ "") (table : String) :
    (tableAsset catalog ns table).valid = true := by
  have hid := deriveAssetId_ne_empty .table (catalog :: (ns ++ [table]))
  have hname : join "." ns ++ "." ++ table ≠ "" := append_dot_ne_empty _ _
  have hparent : schemaId catalog ns ≠ "" := deriveAssetId_ne_empty _ _
  have hservice : SERVICE_ID ≠ "" := by decide
  simpa [DataAsset.valid, tableAsset, hid, hname, hservice, hcatalog, hparent] using hns

theorem mapM_parse {α : Type} {f : α → DataAsset} {xs : List α}
    (h : ∀ x ∈ xs, (f x).valid = true) : xs.mapM (fun x => parse (f x)) = .ok (xs.map f) := by
  induction xs with
  | nil => rfl
  | cons x xs ih =>
      have hx : parse (f x) = .ok (f x) := if_pos (h x List.mem_cons_self)
      rw [List.mapM_cons, hx, ih fun y hy => h y (List.mem_cons_of_mem _ hy)]
      rfl

/-! ## Pages -/

/-- The check of a page: one level below the parent. -/
theorem child_iff {parent child : List String} :
    (child.length ≠ parent.length + 1 ||
      parent.zipIdx.any fun seg => child[seg.2]? ≠ some seg.1) = false ↔
      ∃ seg, child = parent ++ [seg] := by
  rw [Bool.or_eq_false_iff, List.any_eq_false, decide_eq_false_iff_not, not_not]
  constructor
  · rintro ⟨hlength, hsame⟩
    have hfront : parent <+: child := by
      rw [List.prefix_iff_getElem?]
      intro i hi
      have hmem : (parent[i], i) ∈ parent.zipIdx := by
        rw [List.mem_zipIdx_iff_getElem?]
        exact List.getElem?_eq_getElem hi
      simpa using hsame _ hmem
    obtain ⟨rest, rfl⟩ := hfront
    rw [List.length_append] at hlength
    obtain ⟨seg, rfl⟩ := List.length_eq_one_iff.mp (show rest.length = 1 by omega)
    exact ⟨seg, rfl⟩
  · rintro ⟨seg, rfl⟩
    refine ⟨by simp, fun pair hmem => ?_⟩
    rw [List.mem_zipIdx_iff_getElem?] at hmem
    obtain ⟨hlt, hget⟩ := List.getElem?_eq_some_iff.mp hmem
    simp [List.getElem?_append_left hlt, hmem]

theorem checkNamespaces_eq_ok {parent : List String} {p p' : Page (List String)} :
    checkNamespaces parent p = .ok p' ↔
      (∀ child ∈ p.items, (∃ seg, child = parent ++ [seg]) ∧ ∀ seg ∈ child, seg ≠ "") ∧
        p' = { p with items := p.items.filter (·.all isSafeUpstreamSegment) } := by
  rw [checkNamespaces]
  split_ifs with hshape hlevel
  · refine ⟨nofun, fun ⟨hall, _⟩ => ?_⟩
    simp only [Bool.not_eq_true', List.all_eq_false, Bool.and_eq_true, not_and] at hshape
    obtain ⟨child, hchild, hne⟩ := hshape
    obtain ⟨⟨seg, hseg⟩, hsegs⟩ := hall child hchild
    refine absurd (List.all_eq_true.mpr fun s hs => by simpa using hsegs s hs) (hne ?_)
    simp [hseg]
  · refine ⟨nofun, fun ⟨hall, _⟩ => ?_⟩
    obtain ⟨child, hchild, hbad⟩ := List.any_eq_true.mp hlevel
    rw [child_iff.mpr (hall child hchild).1] at hbad
    cases hbad
  · have hall : ∀ child ∈ p.items, (∃ seg, child = parent ++ [seg]) ∧ ∀ seg ∈ child, seg ≠ "" := by
      intro child hchild
      rw [Bool.not_eq_true] at hlevel
      refine ⟨child_iff.mp (by simpa using List.any_eq_false.mp hlevel child hchild), ?_⟩
      simp only [Bool.not_eq_true', Bool.not_eq_false, List.all_eq_true, Bool.and_eq_true] at hshape
      simpa using (hshape child hchild).2
    constructor
    · intro heq
      cases heq
      exact ⟨hall, rfl⟩
    · rintro ⟨_, heq⟩
      rw [heq]

theorem checkTables_eq_ok {p p' : Page Identifier} :
    checkTables p = .ok p' ↔ (∀ id ∈ p.items, id.name ≠ "") ∧
      p' = { p with items := p.items.filter (isSafeUpstreamSegment ·.name) } := by
  rw [checkTables]
  split_ifs with h
  · refine ⟨nofun, fun ⟨hall, _⟩ => ?_⟩
    simp only [Bool.not_eq_true', List.all_eq_false, decide_eq_true_eq] at h
    obtain ⟨id, hid, hne⟩ := h
    exact absurd (hall id hid) hne
  · have hall : ∀ id ∈ p.items, id.name ≠ "" := by
      simpa using h
    constructor
    · intro heq
      cases heq
      exact ⟨hall, rfl⟩
    · rintro ⟨_, heq⟩
      rw [heq]

/-! ## Requests -/

/-- What a listing asks the catalog for. -/
structure Request where
  kind : DataAssetKind
  catalog : String
  ns : List String
  base : String
  deriving DecidableEq, Repr

/-- The request for the children of an id, when it is that of a known catalog or of a schema. -/
def request (catalogs : List CatalogMapping) (c : Catalog) (parentId : String) : Option Request :=
  match parseAssetId parentId with
  | some ⟨kind, catalog :: ns⟩ =>
      if kind = .table then none
      else (byName catalogs catalog).bind fun mapping =>
        match c.prefixFor mapping with
        | .ok base => some ⟨kind, mapping.name, ns, base⟩
        | .error _ => none
  | _ => none

namespace Request

variable (c : Catalog) (req : Request)

def namespacePages : Source LoadError (List String) := c.namespaces req.base req.ns

def tablePages : Source LoadError Identifier := c.tables req.base req.ns

/-- A namespace of the first pages. -/
def Names (child : List String) : Prop :=
  ∃ k p, Read MAX_PAGES (req.namespacePages c) k p ∧ child ∈ p.items

/-- An identifier of the first pages; only a schema has tables. -/
def Identifies (id : Identifier) : Prop :=
  req.kind = .schema ∧ ∃ k p, Read MAX_PAGES (req.tablePages c) k p ∧ id ∈ p.items

/-- A further page is left. -/
def Truncated : Prop :=
  Unread MAX_PAGES (req.namespacePages c) ∨
    (req.kind = .schema ∧ Unread MAX_PAGES (req.tablePages c))

end Request

theorem byName_name {catalogs : List CatalogMapping} {name : String} {mapping : CatalogMapping}
    (h : byName catalogs name = some mapping) : mapping.name = name := by
  simpa using List.find?_some h

/-- What a request says about the id. -/
theorem request_eq_some {catalogs : List CatalogMapping} {c : Catalog} {id : String} {req : Request}
    (h : request catalogs c id = some req) :
    parseAssetId id = some ⟨req.kind, req.catalog :: req.ns⟩ ∧ req.kind ≠ .table := by
  unfold request at h
  split at h
  next kind catalog ns hparse =>
    split_ifs at h with hkind
    obtain ⟨mapping, hmapping, hbase⟩ := Option.bind_eq_some_iff.mp h
    split at hbase
    next base _ =>
      cases hbase
      rw [hparse, byName_name hmapping]
      exact ⟨rfl, hkind⟩
    next => cases hbase
  next => cases h

theorem request_of_parsed {catalogs : List CatalogMapping} {c : Catalog} {id catalog : String}
    {kind : DataAssetKind} {ns : List String}
    (h : parseAssetId id = some ⟨kind, catalog :: ns⟩) (hkind : kind ≠ .table) :
    request catalogs c id = (byName catalogs catalog).bind fun mapping =>
      match c.prefixFor mapping with
      | .ok base => some ⟨kind, mapping.name, ns, base⟩
      | .error _ => none := by
  rw [request, h]
  exact if_neg hkind

theorem request_of_table {catalogs : List CatalogMapping} {c : Catalog} {id catalog : String}
    {ns : List String} (h : parseAssetId id = some ⟨.table, catalog :: ns⟩) :
    request catalogs c id = none := by
  rw [request, h]
  rfl

theorem request_of_not_parsed {catalogs : List CatalogMapping} {c : Catalog} {id : String}
    (h : ∀ kind catalog ns, parseAssetId id ≠ some ⟨kind, catalog :: ns⟩) :
    request catalogs c id = none := by
  unfold request
  split
  next kind catalog ns hparse => exact absurd hparse (h kind catalog ns)
  next => rfl

/-- A listing has a request, or it is empty. -/
theorem list_eq_ok {catalogs : List CatalogMapping} {c : Catalog} {id : String}
    {r : DataAssetListResult} (h : list catalogs c (some id) = .ok r) :
    (request catalogs c id = none ∧ r = ⟨[], [NODE_AUTHZ_WARNING]⟩) ∨
      ∃ req, request catalogs c id = some req ∧
        listChildren c req.catalog req.base req.kind req.ns = .ok r := by
  simp only [list, listUncached] at h
  split at h
  next kind catalog ns hparse =>
    simp only at h
    by_cases hkind : kind = .table
    · rw [if_pos (.inl hkind)] at h
      cases h
      rw [hkind] at hparse
      exact .inl ⟨request_of_table hparse, rfl⟩
    · rw [request_of_parsed hparse hkind]
      cases hmapping : byName catalogs catalog with
      | none =>
          rw [if_pos (.inr hmapping)] at h
          cases h
          exact .inl ⟨rfl, rfl⟩
      | some mapping =>
          rw [if_neg (not_or.mpr ⟨hkind, by rw [hmapping]; exact Option.some_ne_none _⟩)] at h
          simp only [hmapping] at h
          rw [if_neg hkind] at h
          rw [Option.bind_some]
          cases hbase : c.prefixFor mapping with
          | error e =>
              rw [hbase] at h
              cases h
          | ok base =>
              rw [hbase] at h
              exact .inr ⟨_, rfl, h⟩
  next hnone =>
    cases h
    exact .inl ⟨request_of_not_parsed hnone, rfl⟩

/-- The children that are listed, page by page. -/
theorem listNamespaces_eq_ok {c : Catalog} {req : Request} {children : List (List String)}
    {truncated : Bool} (h : listNamespaces c req.base req.ns = .ok (children, truncated)) :
    (∀ child, child ∈ children ↔ req.Names c child ∧ child.all isSafeUpstreamSegment = true) ∧
    (∀ child, req.Names c child → ∃ seg, child = req.ns ++ [seg]) ∧
    (truncated = true ↔ Unread MAX_PAGES (req.namespacePages c)) := by
  have hnext : ∀ p p', checkNamespaces req.ns p = .ok p' → p'.next = p.next := by
    intro p p' hcheck
    rw [(checkNamespaces_eq_ok.mp hcheck).2]
  obtain ⟨hitems, hok, htruncated⟩ := drain_spec (by decide) h
  refine ⟨fun child => ?_, fun child ⟨k, p, hread, hchild⟩ => ?_, ?_⟩
  · rw [hitems]
    constructor
    · rintro ⟨k, p', hread, hchild⟩
      obtain ⟨p, hread', hcheck⟩ := (read_checked hnext hok).mp hread
      rw [(checkNamespaces_eq_ok.mp hcheck).2, List.mem_filter] at hchild
      exact ⟨⟨k, p, hread', hchild.1⟩, hchild.2⟩
    · rintro ⟨⟨k, p, hread, hchild⟩, hsafe⟩
      obtain ⟨p', hcheck, hread'⟩ := read_passes hnext hok hread
      refine ⟨k, p', hread', ?_⟩
      rw [(checkNamespaces_eq_ok.mp hcheck).2]
      exact List.mem_filter.mpr ⟨hchild, hsafe⟩
  · obtain ⟨p', hcheck, -⟩ := read_passes hnext hok hread
    exact ((checkNamespaces_eq_ok.mp hcheck).1 child hchild).1
  · rw [htruncated]
    exact unread_checked hnext hok

/-- The tables that are listed. -/
theorem listTables_eq_ok {c : Catalog} {req : Request} {ids : List Identifier} {truncated : Bool}
    (hkind : req.kind = .schema)
    (h : listTables c req.base req.ns = .ok (ids, truncated)) :
    (∀ id, id ∈ ids ↔ req.Identifies c id ∧ isSafeUpstreamSegment id.name = true) ∧
    (truncated = true ↔ Unread MAX_PAGES (req.tablePages c)) := by
  have hnext : ∀ p p', checkTables p = .ok p' → p'.next = p.next := by
    intro p p' hcheck
    rw [(checkTables_eq_ok.mp hcheck).2]
  rw [listTables] at h
  split_ifs at h with hsafe
  obtain ⟨hitems, hok, htruncated⟩ := drain_spec (by decide) h
  refine ⟨fun id => ?_, ?_⟩
  · rw [hitems]
    constructor
    · rintro ⟨k, p', hread, hid⟩
      obtain ⟨p, hread', hcheck⟩ := (read_checked hnext hok).mp hread
      rw [(checkTables_eq_ok.mp hcheck).2, List.mem_filter] at hid
      exact ⟨⟨hkind, k, p, hread', hid.1⟩, hid.2⟩
    · rintro ⟨⟨-, k, p, hread, hid⟩, hname⟩
      obtain ⟨p', hcheck, hread'⟩ := read_passes hnext hok hread
      refine ⟨k, p', hread', ?_⟩
      rw [(checkTables_eq_ok.mp hcheck).2]
      exact List.mem_filter.mpr ⟨hid, hname⟩
  · rw [htruncated]
    exact unread_checked hnext hok

/-! ## Listings -/

/-- The assets and the warnings of a listing. -/
structure Listed (c : Catalog) (req : Request) (r : DataAssetListResult) : Prop where
  mem_iff : ∀ a, a ∈ r.assets ↔
    (∃ child, req.Names c child ∧ child.all isSafeUpstreamSegment = true ∧
      a = schemaAsset req.catalog child) ∨
    ∃ id, req.Identifies c id ∧ isSafeUpstreamSegment id.name = true ∧
      a = tableAsset req.catalog req.ns id.name
  names : ∀ child, req.Names c child → ∃ seg, child = req.ns ++ [seg]
  truncated : (∃ w ∈ r.warnings, w.code = "LISTING_TRUNCATED") ↔ req.Truncated c

theorem exists_warn {truncated : Bool} :
    (∃ w ∈ warn truncated, w.code = "LISTING_TRUNCATED") ↔ truncated = true := by
  cases truncated with
  | false => simp [warn]
  | true => simp [warn, LISTING_TRUNCATED]

theorem exists_warning {ws : List ListWarning} :
    (∃ w ∈ NODE_AUTHZ_WARNING :: ws, w.code = "LISTING_TRUNCATED") ↔
      ∃ w ∈ ws, w.code = "LISTING_TRUNCATED" := by
  rw [List.exists_mem_cons_iff]
  exact or_iff_right (by simp [NODE_AUTHZ_WARNING])

/-- What the children of a request are. -/
theorem listChildren_eq_ok {c : Catalog} {req : Request} {r : DataAssetListResult}
    (hcatalog : req.catalog ≠ "") (hns : ∀ seg ∈ req.ns, seg ≠ "")
    (h : listChildren c req.catalog req.base req.kind req.ns = .ok r) : Listed c req r := by
  rw [listChildren] at h
  cases hchildren : listNamespaces c req.base req.ns with
  | error e =>
      rw [hchildren] at h
      cases h
  | ok found =>
      obtain ⟨children, truncated⟩ := found
      obtain ⟨hmem, hlevel, htruncated⟩ := listNamespaces_eq_ok hchildren
      have hvalid : ∀ child ∈ children, (schemaAsset req.catalog child).valid = true := by
        intro child hchild
        obtain ⟨hnames, hsafe⟩ := (hmem child).mp hchild
        obtain ⟨seg, hseg⟩ := hlevel child hnames
        refine valid_schemaAsset hcatalog (by simp [hseg]) fun s hs => ?_
        exact ne_empty_of_safe (List.all_eq_true.mp hsafe s hs)
      have hschemas : ∀ a, a ∈ children.map (schemaAsset req.catalog) ↔
          ∃ child, req.Names c child ∧ child.all isSafeUpstreamSegment = true ∧
            a = schemaAsset req.catalog child := by
        intro a
        rw [List.mem_map]
        constructor
        · rintro ⟨child, hchild, ha⟩
          obtain ⟨hnames, hsafe⟩ := (hmem child).mp hchild
          exact ⟨child, hnames, hsafe, ha.symm⟩
        · rintro ⟨child, hnames, hsafe, ha⟩
          exact ⟨child, (hmem child).mpr ⟨hnames, hsafe⟩, ha.symm⟩
      rw [hchildren] at h
      simp only [bind, Except.bind] at h
      rw [mapM_parse hvalid] at h
      simp only at h
      by_cases hkind : req.kind = .schema
      · rw [if_pos hkind] at h
        cases htables : listTables c req.base req.ns with
        | error e =>
            rw [htables] at h
            cases h
        | ok found =>
            obtain ⟨ids, truncated'⟩ := found
            obtain ⟨hids, htruncated'⟩ := listTables_eq_ok hkind htables
            rw [htables] at h
            simp only at h
            rw [mapM_parse fun id _ => valid_tableAsset hcatalog hns id.name] at h
            cases h
            refine ⟨fun a => ?_, hlevel, ?_⟩
            · rw [List.mem_append, hschemas, List.mem_map]
              apply or_congr_right
              constructor
              · rintro ⟨id, hid, ha⟩
                obtain ⟨hidentifies, hsafe⟩ := (hids id).mp hid
                exact ⟨id, hidentifies, hsafe, ha.symm⟩
              · rintro ⟨id, hidentifies, hsafe, ha⟩
                exact ⟨id, (hids id).mpr ⟨hidentifies, hsafe⟩, ha.symm⟩
            · show (∃ w ∈ NODE_AUTHZ_WARNING :: (warn truncated ++ warn truncated'), _) ↔ _
              rw [exists_warning]
              simp only [List.mem_append, or_and_right, exists_or]
              rw [exists_warn, exists_warn, htruncated, htruncated', Request.Truncated]
              simp only [hkind, true_and]
      · -- below a catalog there are no tables
        rw [if_neg hkind] at h
        cases h
        refine ⟨fun a => ?_, hlevel, ?_⟩
        · rw [hschemas, or_iff_left]
          rintro ⟨id, ⟨hschema, _⟩, _⟩
          exact hkind hschema
        · rw [exists_warning, exists_warn, htruncated, Request.Truncated, or_iff_left]
          exact fun h => hkind h.1

/-- A listing shows the children of its parent: its own namespaces and tables, all of them that
can be addressed, and whether there are more. -/
structure Faithful (catalogs : List CatalogMapping) (c : Catalog) (id : String)
    (r : DataAssetListResult) : Prop where
  parents : ∀ a ∈ r.assets, a.parentId = some id
  kinds : ∀ a ∈ r.assets, a.kind = .schema ∨ a.kind = .table
  schemas : ∀ a ∈ r.assets, a.kind = .schema → ∃ req child, request catalogs c id = some req ∧
    req.Names c child ∧ (∃ seg, child = req.ns ++ [seg]) ∧ a = schemaAsset req.catalog child
  tables : ∀ a ∈ r.assets, a.kind = .table → ∃ req ident, request catalogs c id = some req ∧
    req.Identifies c ident ∧ ident.namespaces = req.ns ∧
      a = tableAsset req.catalog req.ns ident.name
  namespacesShown : ∀ req child, request catalogs c id = some req → req.Names c child →
    child.all isSafeUpstreamSegment = true → schemaAsset req.catalog child ∈ r.assets
  tablesShown : ∀ req ident, request catalogs c id = some req → req.Identifies c ident →
    isSafeUpstreamSegment ident.name = true → ident.namespaces = req.ns →
      tableAsset req.catalog req.ns ident.name ∈ r.assets
  truncated : (∃ w ∈ r.warnings, w.code = "LISTING_TRUNCATED") ↔
    ∃ req, request catalogs c id = some req ∧ req.Truncated c

namespace Request

variable (c : Catalog) (req : Request)

/-- Among the items read there is one that can be addressed. -/
def Addressable : Prop :=
  (∃ child, req.Names c child ∧ child.all isSafeUpstreamSegment = true) ∨
    ∃ id, req.Identifies c id ∧ isSafeUpstreamSegment id.name = true

/-- Every name that can be addressed is one of the schema itself. -/
def Own : Prop :=
  ∀ id, req.Identifies c id → isSafeUpstreamSegment id.name = true →
    ∃ id', req.Identifies c id' ∧ id'.namespaces = req.ns ∧ id'.name = id.name

end Request

theorem request_safe {catalogs : List CatalogMapping} {c : Catalog} {id : String} {req : Request}
    (h : request catalogs c id = some req) :
    (∀ seg ∈ req.catalog :: req.ns, isSafeUpstreamSegment seg = true) ∧
      Counted req.kind (req.ns.length + 1) := by
  obtain ⟨hparse, -⟩ := request_eq_some h
  obtain ⟨-, -, -, -, hsafe, hcount, -⟩ := parseAssetId_eq_some.mp hparse
  exact ⟨hsafe, hcount⟩

/-- The id that the segments of the request make. -/
def Request.id (req : Request) : String := deriveAssetId req.kind (req.catalog :: req.ns)

theorem id_eq_iff {catalogs : List CatalogMapping} {c : Catalog} {id : String} {req : Request}
    (h : request catalogs c id = some req) : req.id = id ↔ Canonical id.toList := by
  have hderive := derive_parse (request_eq_some h).1
  exact hderive

theorem schemaAsset_parentId {catalogs : List CatalogMapping} {c : Catalog} {id : String}
    {req : Request} (h : request catalogs c id = some req) (seg : String) :
    (schemaAsset req.catalog (req.ns ++ [seg])).parentId = some req.id := by
  have hcount := (request_safe h).2
  have hkind := (request_eq_some h).2
  show some (if (req.ns ++ [seg]).length = 1 then _ else schemaId _ (req.ns ++ [seg]).dropLast) = _
  rw [List.dropLast_concat, List.length_append, List.length_singleton, Request.id]
  cases hk : req.kind with
  | catalog =>
      rw [hk] at hcount
      have hnil : req.ns = [] := List.eq_nil_of_length_eq_zero (Nat.succ_inj.mp hcount)
      simp [hnil, catalogId]
  | schema =>
      rw [hk] at hcount
      have hlen : ¬ req.ns.length + 1 = 1 := by
        have : 2 ≤ req.ns.length + 1 := hcount
        omega
      rw [if_neg hlen, schemaId]
  | table => exact absurd hk hkind
  | topic =>
      rw [hk] at hcount
      exact hcount.elim

theorem tableAsset_parentId {req : Request} (hkind : req.kind = .schema) (table : String) :
    (tableAsset req.catalog req.ns table).parentId = some req.id := by
  rw [Request.id, hkind]
  rfl

theorem tableAsset_inj {catalog : String} {ns : List String} {table table' : String}
    (h : tableAsset catalog ns table = tableAsset catalog ns table') : table = table' := by
  have hname : join "." ns ++ "." ++ table = join "." ns ++ "." ++ table' :=
    congrArg DataAsset.name h
  exact String.append_right_inj _ |>.mp hname

/-- What is listed for a request. -/
theorem listed_of_request {catalogs : List CatalogMapping} {c : Catalog} {id : String}
    {r : DataAssetListResult} {req : Request} (h : list catalogs c (some id) = .ok r)
    (hreq : request catalogs c id = some req) : Listed c req r := by
  rcases list_eq_ok h with ⟨hnone, _⟩ | ⟨req', hreq', hchildren⟩
  · cases hnone.symm.trans hreq
  · cases hreq'.symm.trans hreq
    have hsafe := (request_safe hreq).1
    have hne : ∀ seg ∈ req.catalog :: req.ns, seg ≠ "" :=
      fun seg hseg => ne_empty_of_safe (hsafe seg hseg)
    exact listChildren_eq_ok (hne _ List.mem_cons_self)
      (fun seg hseg => hne seg (List.mem_cons_of_mem _ hseg)) hchildren

/-- Without a request nothing is listed. -/
theorem faithful_empty {catalogs : List CatalogMapping} {c : Catalog} {id : String}
    (h : request catalogs c id = none) :
    Faithful catalogs c id ⟨[], [NODE_AUTHZ_WARNING]⟩ := by
  have hno : ∀ {req : Request}, request catalogs c id ≠ some req :=
    fun hreq => Option.some_ne_none _ (hreq.symm.trans h)
  refine ⟨nofun, nofun, nofun, nofun, fun req child hreq => absurd hreq hno,
    fun req ident hreq => absurd hreq hno, ?_⟩
  rw [exists_warning]
  constructor
  · rintro ⟨w, hw, _⟩
    cases hw
  · rintro ⟨req, hreq, _⟩
    exact absurd hreq hno

section Request

variable {catalogs : List CatalogMapping} {c : Catalog} {id : String} {r : DataAssetListResult}
  {req : Request}

/-- The parent of every asset is the id that is made of the request. -/
theorem Listed.parentId (h : Listed c req r) (hreq : request catalogs c id = some req)
    {a : DataAsset} (ha : a ∈ r.assets) : a.parentId = some req.id := by
  rcases (h.mem_iff a).mp ha with ⟨child, hnames, _, rfl⟩ | ⟨ident, hidentifies, _, rfl⟩
  · obtain ⟨seg, rfl⟩ := h.names child hnames
    exact schemaAsset_parentId hreq seg
  · exact tableAsset_parentId hidentifies.1 _

theorem Listed.addressable (h : Listed c req r) : req.Addressable c ↔ ∃ a, a ∈ r.assets := by
  constructor
  · rintro (⟨child, hnames, hsafe⟩ | ⟨ident, hidentifies, hsafe⟩)
    · exact ⟨_, (h.mem_iff _).mpr (.inl ⟨child, hnames, hsafe, rfl⟩)⟩
    · exact ⟨_, (h.mem_iff _).mpr (.inr ⟨ident, hidentifies, hsafe, rfl⟩)⟩
  · rintro ⟨a, ha⟩
    rcases (h.mem_iff a).mp ha with ⟨child, hnames, hsafe, _⟩ | ⟨ident, hidentifies, hsafe, _⟩
    · exact .inl ⟨child, hnames, hsafe⟩
    · exact .inr ⟨ident, hidentifies, hsafe⟩

theorem faithful_iff (h : Listed c req r) (hreq : request catalogs c id = some req) :
    Faithful catalogs c id r ↔
      (req.Addressable c → Canonical id.toList) ∧ req.Own c := by
  have hone : ∀ {req'}, request catalogs c id = some req' → req' = req :=
    fun h' => Option.some.inj (h'.symm.trans hreq)
  constructor
  · intro hfaithful
    refine ⟨fun haddr => ?_, fun ident hident hsafe => ?_⟩
    · obtain ⟨a, ha⟩ := h.addressable.mp haddr
      rw [← id_eq_iff hreq]
      exact Option.some.inj ((h.parentId hreq ha).symm.trans (hfaithful.parents a ha))
    · have hmem := (h.mem_iff (tableAsset req.catalog req.ns ident.name)).mpr
        (.inr ⟨ident, hident, hsafe, rfl⟩)
      obtain ⟨req', ident', hreq', hident', hns, heq⟩ := hfaithful.tables _ hmem rfl
      cases hone hreq'
      exact ⟨ident', hident', hns, (tableAsset_inj heq).symm⟩
  · rintro ⟨hcanonical, hown⟩
    refine ⟨fun a ha => ?_, fun a ha => ?_, fun a ha hkind => ?_, fun a ha hkind => ?_,
      fun req' child hreq' hnames hsafe => ?_, fun req' ident hreq' hident hsafe _ => ?_, ?_⟩
    · rw [h.parentId hreq ha, (id_eq_iff hreq).mpr (hcanonical (h.addressable.mpr ⟨a, ha⟩))]
    · rcases (h.mem_iff a).mp ha with ⟨child, _, _, rfl⟩ | ⟨ident, _, _, rfl⟩
      · exact .inl rfl
      · exact .inr rfl
    · rcases (h.mem_iff a).mp ha with ⟨child, hnames, _, rfl⟩ | ⟨ident, _, _, rfl⟩
      · exact ⟨req, child, hreq, hnames, h.names child hnames, rfl⟩
      · cases hkind
    · rcases (h.mem_iff a).mp ha with ⟨child, _, _, rfl⟩ | ⟨ident, hident, hsafe, rfl⟩
      · cases hkind
      · obtain ⟨ident', hident', hns, hname⟩ := hown ident hident hsafe
        exact ⟨req, ident', hreq, hident', hns, by rw [hname]⟩
    · cases hone hreq'
      exact (h.mem_iff _).mpr (.inl ⟨child, hnames, hsafe, rfl⟩)
    · cases hone hreq'
      exact (h.mem_iff _).mpr (.inr ⟨ident, hident, hsafe, rfl⟩)
    · rw [h.truncated]
      constructor
      · intro htruncated
        exact ⟨req, hreq, htruncated⟩
      · rintro ⟨req', hreq', htruncated⟩
        cases hone hreq'
        exact htruncated

end Request

/-- A listing shows the children of its parent, if and only if the id is written canonically (or no
item can be addressed) and each table that is named has one of its name in the schema itself. -/
theorem listing_faithful (catalogs : List CatalogMapping) (c : Catalog) (id : String)
    (r : DataAssetListResult) (h : list catalogs c (some id) = .ok r) :
    Faithful catalogs c id r ↔ ∀ req, request catalogs c id = some req →
      (req.Addressable c → Canonical id.toList) ∧ req.Own c := by
  cases hreq : request catalogs c id with
  | none =>
      rcases list_eq_ok h with ⟨_, rfl⟩ | ⟨req, hsome, _⟩
      · exact ⟨fun _ => nofun, fun _ => faithful_empty hreq⟩
      · cases hsome.symm.trans hreq
  | some req =>
      rw [faithful_iff (listed_of_request h hreq) hreq]
      constructor
      · intro hboth req' hreq'
        cases hreq'
        exact hboth
      · intro hall
        exact hall req rfl

/-- A catalog whose schemas all hold the same page of tables. -/
def samePage (items : List Identifier) : Catalog where
  prefixFor _ := .ok ""
  namespaces _ parent _ _ := .ok ⟨[parent ++ ["s"]], none⟩
  tables _ _ _ _ := .ok ⟨items, none⟩

/-- A table of another schema, and an id that escapes a letter. -/
theorem listing_broken :
    (∃ r, list [⟨"lake", "main"⟩] (samePage [⟨["b"], "t"⟩]) (some "asset-schema-lake.a") = .ok r ∧
      tableAsset "lake" ["a"] "t" ∈ r.assets ∧
      ¬ Faithful [⟨"lake", "main"⟩] (samePage [⟨["b"], "t"⟩]) "asset-schema-lake.a" r) ∧
    ∃ r, list [⟨"a%41", "main"⟩] (samePage []) (some "asset-catalog-a%41") = .ok r ∧
      ¬ Faithful [⟨"a%41", "main"⟩] (samePage []) "asset-catalog-a%41" r := by
  constructor
  · refine ⟨⟨[schemaAsset "lake" ["a", "s"], tableAsset "lake" ["a"] "t"], [NODE_AUTHZ_WARNING]⟩,
      by decide +kernel, by simp, fun hfaithful => ?_⟩
    obtain ⟨req, ident, hreq, ⟨_, k, page, ⟨token, _, hpage⟩, hmem⟩, hns, _⟩ :=
      hfaithful.tables (tableAsset "lake" ["a"] "t") (by simp) rfl
    have hreq' : request [⟨"lake", "main"⟩] (samePage [⟨["b"], "t"⟩]) "asset-schema-lake.a" =
        some ⟨.schema, "lake", ["a"], ""⟩ := by decide +kernel
    cases hreq'.symm.trans hreq
    cases hpage
    rw [List.mem_singleton.mp hmem] at hns
    revert hns
    decide
  · refine ⟨⟨[schemaAsset "a%41" ["s"]], [NODE_AUTHZ_WARNING]⟩, by decide +kernel,
      fun hfaithful => ?_⟩
    have hparent := hfaithful.parents (schemaAsset "a%41" ["s"]) List.mem_cons_self
    revert hparent
    decide +kernel

/-- `listing_faithful` on a schema with a table of its own. -/
theorem listing_faithful_own :
    Faithful [⟨"lake", "main"⟩] (samePage [⟨["a"], "t"⟩]) "asset-schema-lake.a"
      ⟨[schemaAsset "lake" ["a", "s"], tableAsset "lake" ["a"] "t"], [NODE_AUTHZ_WARNING]⟩ := by
  refine (listing_faithful [⟨"lake", "main"⟩] (samePage [⟨["a"], "t"⟩]) "asset-schema-lake.a" _
    (by decide +kernel)).mpr fun req hreq => ⟨fun _ => ?_, fun ident hident _ => ?_⟩
  · simp [canonical_cons, canonical_nil]
  · have hreq' : request [⟨"lake", "main"⟩] (samePage [⟨["a"], "t"⟩]) "asset-schema-lake.a" =
        some ⟨.schema, "lake", ["a"], ""⟩ := by decide +kernel
    cases hreq'.symm.trans hreq
    refine ⟨ident, hident, ?_, rfl⟩
    obtain ⟨_, k, page, ⟨token, _, hpage⟩, hmem⟩ := hident
    cases hpage
    rw [List.mem_singleton.mp hmem]

end LakekeeperCatalog

end Upstream
