import Beluga.Web.LayoutRules
import Mathlib.Algebra.Order.Field.Rat

/-! # Positions of the layered layout

* `sanitizeGraph_nodes`: the sanitised graph has the nodes that a layout places;
* `mem_out`: the edges that the search follows;
* `layout_columns`: every distinct id has one position, explicit ones are kept, and without
  explicit positions columns are the lengths of longest paths.
-/

namespace Web

open Graph

/-! ## The first node of each id -/

theorem uniqueNodes_concat (nodes : List TopologyGraphNode) (n : TopologyGraphNode) :
    uniqueNodes (nodes ++ [n]) =
      if (uniqueNodes nodes).any (·.id = n.id) then uniqueNodes nodes
      else uniqueNodes nodes ++ [n] := by
  rw [uniqueNodes, List.foldl_append]
  rfl

theorem any_id {unique : List TopologyGraphNode} {id : String} :
    unique.any (·.id = id) = true ↔ id ∈ unique.map (·.id) := by
  simp [List.any_eq_true]

/-- The ids of a layout, each once. -/
theorem uniqueNodes_ids (nodes : List TopologyGraphNode) :
    ((uniqueNodes nodes).map (·.id)).Nodup ∧
      ∀ id, id ∈ (uniqueNodes nodes).map (·.id) ↔ id ∈ nodes.map (·.id) := by
  induction nodes using List.reverseRecOn with
  | nil => exact ⟨List.nodup_nil, fun _ => Iff.rfl⟩
  | append_singleton nodes n ih =>
      obtain ⟨hnodup, hmem⟩ := ih
      rw [uniqueNodes_concat]
      split_ifs with hseen
      · have hid := any_id.mp hseen
        refine ⟨hnodup, fun id => ?_⟩
        rw [hmem, List.map_append, List.mem_append, List.map_singleton, List.mem_singleton]
        refine ⟨.inl, fun h => h.elim (fun h => h) ?_⟩
        rintro rfl
        exact (hmem n.id).mp hid
      · have hid : n.id ∉ (uniqueNodes nodes).map (·.id) := fun h => hseen (any_id.mpr h)
        rw [List.map_append]
        refine ⟨hnodup.append (List.nodup_singleton _) ?_, fun id => ?_⟩
        · intro id hold hnew
          rw [List.map_singleton, List.mem_singleton] at hnew
          exact hid (hnew ▸ hold)
        · rw [List.mem_append, hmem, List.map_append, List.mem_append]

/-- The first node of an id is the one that counts. -/
theorem mem_uniqueNodes {nodes : List TopologyGraphNode} {node : TopologyGraphNode} :
    node ∈ uniqueNodes nodes ↔ nodes.find? (·.id = node.id) = some node := by
  induction nodes using List.reverseRecOn with
  | nil => simp [uniqueNodes]
  | append_singleton nodes n ih =>
      have hids := (uniqueNodes_ids nodes).2
      rw [uniqueNodes_concat, List.find?_append]
      cases hfind : nodes.find? (·.id = node.id) with
      | some first =>
          -- met before: `n` does not count for this id
          have hseen : node.id ∈ (uniqueNodes nodes).map (·.id) := by
            have hid := List.find?_some hfind
            rw [hids, List.mem_map]
            exact ⟨first, List.mem_of_find?_eq_some hfind, by simpa using hid⟩
          rw [hfind] at ih
          rw [Option.some_or, ← ih]
          split_ifs with hn
          · rfl
          · rw [List.mem_append, List.mem_singleton, or_iff_left]
            rintro rfl
            exact hn (any_id.mpr hseen)
      | none =>
          have hnew : node.id ∉ (uniqueNodes nodes).map (·.id) := by
            rw [hids, List.mem_map]
            rintro ⟨other, hother, hid⟩
            exact List.find?_eq_none.mp hfind other hother (by simpa using hid)
          have hnot : node ∉ uniqueNodes nodes := fun h => hnew (List.mem_map_of_mem h)
          have hlast : [n].find? (·.id = node.id) = if n.id = node.id then some n else none := by
            by_cases hid : n.id = node.id
            · simp [hid]
            · simp [hid]
          rw [Option.none_or, hlast]
          by_cases hid : n.id = node.id
          · have hn : ¬ (uniqueNodes nodes).any (·.id = n.id) := fun h => hnew (hid ▸ any_id.mp h)
            rw [if_neg hn, if_pos hid, Option.some.injEq, List.mem_append, List.mem_singleton,
              or_iff_right hnot, eq_comm]
          · rw [if_neg hid]
            refine iff_of_false (fun h => ?_) (by simp)
            split_ifs at h with hn
            · exact hnot h
            · rcases List.mem_append.mp h with h | h
              · exact hnot h
              · exact hid (congrArg (·.id) (List.mem_singleton.mp h).symm)

theorem mem_addId {ids : List String} {id id' : String} :
    id' ∈ addId ids id ↔ id' ∈ ids ∨ id' = id := by
  unfold addId
  split_ifs with hid
  · refine ⟨.inl, fun h => h.elim (fun h => h) ?_⟩
    rintro rfl
    exact hid
  · rw [List.mem_append, List.mem_singleton]

/-- One rule for duplicates: the nodes that are kept are those that a layout places. -/
theorem sanitizeGraph_nodes (nodes : List TopologyGraphNode) (edges : List TopologyGraphEdge) :
    (sanitizeGraph nodes edges).nodes = uniqueNodes nodes := by
  have hscan : ∀ nodes : List TopologyGraphNode,
      (nodes.foldl NodeScan.add {}).keptNodes = uniqueNodes nodes ∧
        ∀ id, id ∈ (nodes.foldl NodeScan.add {}).seenNodes ↔
          id ∈ (uniqueNodes nodes).map (·.id) := by
    intro nodes
    induction nodes using List.reverseRecOn with
    | nil => exact ⟨rfl, fun _ => Iff.rfl⟩
    | append_singleton nodes n ih =>
        obtain ⟨hkept, hseen⟩ := ih
        rw [uniqueNodes_concat, List.foldl_append, List.foldl_cons, List.foldl_nil, NodeScan.add]
        by_cases hn : n.id ∈ (uniqueNodes nodes).map (·.id)
        · rw [if_pos ((hseen n.id).mpr hn), if_pos (any_id.mpr hn)]
          exact ⟨hkept, hseen⟩
        · rw [if_neg fun h => hn ((hseen n.id).mp h), if_neg fun h => hn (any_id.mp h)]
          refine ⟨by rw [hkept], fun id => ?_⟩
          rw [mem_addId, hseen, List.map_append, List.mem_append, List.map_singleton,
            List.mem_singleton]
  exact (hscan nodes).1

/-! ## The edges that the search follows -/

theorem indexOf_iff {unique : List TopologyGraphNode} (hnodup : (unique.map (·.id)).Nodup)
    {id : String} {i : Fin unique.length} : indexOf unique id = some i ↔ (unique.get i).id = id := by
  rw [indexOf, List.findFinIdx?_eq_some_iff]
  constructor
  · rintro ⟨h, -⟩
    simpa using h
  · intro h
    refine ⟨by simpa using h, fun j hj => ?_⟩
    have hne : (unique.get j).id ≠ (unique.get i).id := by
      intro heq
      have hget := @List.Nodup.getElem_inj_iff _ _ hnodup j (by simp) i (by simp)
      simp only [List.getElem_map] at hget
      have := hget.mp heq
      omega
    rw [h] at hne
    simpa using hne

theorem mem_out {unique : List TopologyGraphNode} {edges : List TopologyGraphEdge}
    {s t : Fin unique.length} :
    t ∈ (linksOf unique edges).out s ↔ s ≠ t ∧ ∃ e ∈ edges,
      indexOf unique e.source = some s ∧ indexOf unique e.target = some t := by
  induction edges using List.reverseRecOn with
  | nil => simp [linksOf]
  | append_singleton edges e ih =>
      have hlinks : linksOf unique (edges ++ [e]) =
          (linksOf unique edges).add (indexOf unique) e := by
        rw [linksOf, List.foldl_append]
        rfl
      have hstep : t ∈ ((linksOf unique edges).add (indexOf unique) e).out s ↔
          t ∈ (linksOf unique edges).out s ∨ s ≠ t ∧ indexOf unique e.source = some s ∧
            indexOf unique e.target = some t := by
        unfold Links.add
        split
        · rename_i s' t' hs' ht'
          rw [hs', ht', Option.some.injEq, Option.some.injEq]
          split_ifs with heq
          · refine (or_iff_left ?_).symm
            rintro ⟨hne, rfl, rfl⟩
            exact hne heq
          · by_cases hs : s = s'
            · subst hs
              simp only [Function.update_self, List.mem_append, List.mem_singleton]
              refine or_congr_right ⟨?_, fun h => h.2.2.symm⟩
              rintro rfl
              exact ⟨heq, trivial, rfl⟩
            · simp only [Function.update_of_ne hs]
              refine (or_iff_left ?_).symm
              rintro ⟨-, rfl, -⟩
              exact hs rfl
        · rename_i hnone
          refine (or_iff_left ?_).symm
          rintro ⟨-, hs, ht⟩
          exact hnone s t hs ht
      rw [hlinks, hstep, ih]
      constructor
      · rintro (⟨hne, e', he', h⟩ | ⟨hne, h⟩)
        · exact ⟨hne, e', List.mem_append_left _ he', h⟩
        · exact ⟨hne, e, List.mem_append_right _ (List.mem_singleton.mpr rfl), h⟩
      · rintro ⟨hne, e', he', h⟩
        rcases List.mem_append.mp he' with he' | he'
        · exact .inl ⟨hne, e', he', h⟩
        · rw [List.mem_singleton.mp he'] at h
          exact .inr ⟨hne, h⟩

/-! ## Placing nodes -/

/-- The place in a column and a row. -/
def gridPosition (column row : ℕ) : Position where
  x := (column * (GRAPH_NODE_WIDTH + GRAPH_GAP_X) : ℕ)
  y := (row * (GRAPH_NODE_HEIGHT + GRAPH_GAP_Y) : ℕ)

theorem gridPosition_inj {column row column' row' : ℕ}
    (h : gridPosition column row = gridPosition column' row') :
    column = column' ∧ row = row' := by
  obtain ⟨hx, hy⟩ := Position.mk.inj h
  have hx' : column * 310 = column' * 310 := by exact_mod_cast hx
  have hy' : row * 124 = row' * 124 := by exact_mod_cast hy
  omega

theorem gridPosition_lt {column row column' row' : ℕ} (h : column < column') :
    (gridPosition column row).x < (gridPosition column' row').x := by
  have hlt : column * 310 < column' * 310 := by omega
  show ((column * 310 : ℕ) : ℚ) < ((column' * 310 : ℕ) : ℚ)
  exact_mod_cast hlt

theorem Positions.set_new {positions : Positions} {id : String} {position : Position}
    (h : id ∉ positions.map Prod.fst) :
    positions.set id position = positions ++ [(id, position)] := by
  rw [Positions.set, if_neg]
  intro hany
  obtain ⟨entry, hentry, hid⟩ := List.any_eq_true.mp hany
  exact h (List.mem_map.mpr ⟨entry, hentry, by simpa using hid⟩)

variable {unique : List TopologyGraphNode} {layer : Fin unique.length → ℕ}

/-- The nodes `placed` have their positions: explicit ones, or the next row of the column. -/
structure Placed (unique : List TopologyGraphNode) (layer : Fin unique.length → ℕ)
    (placed : List (Fin unique.length)) (placing : Placing) : Prop where
  ids : placing.positions.map Prod.fst = placed.map (fun i => (unique.get i).id)
  explicit : ∀ i ∈ placed, ∀ position, (unique.get i).position = some position →
    ((unique.get i).id, position) ∈ placing.positions
  columns : ∀ i ∈ placed, (unique.get i).position = none → ∃ row,
    ((unique.get i).id, gridPosition (layer i) row) ∈ placing.positions
  /-- Rows of a column are counted up. -/
  below : (∀ i ∈ placed, (unique.get i).position = none) → ∀ entry ∈ placing.positions,
    ∃ column, ∃ row < placing.rowInLayer column, entry.2 = gridPosition column row
  apart : (∀ i ∈ placed, (unique.get i).position = none) →
    (placing.positions.map Prod.snd).Nodup

theorem Placed.place {placed : List (Fin unique.length)} {placing : Placing}
    (h : Placed unique layer placed placing) {i : Fin unique.length}
    (hnew : (unique.get i).id ∉ placed.map (fun i => (unique.get i).id)) :
    Placed unique layer (placed ++ [i]) (placing.place (unique.get i) (layer i)) := by
  have hid : (unique.get i).id ∉ placing.positions.map Prod.fst := by rwa [h.ids]
  have hsplit : ∀ {p : Fin unique.length → Prop}, (∀ j ∈ placed ++ [i], p j) →
      (∀ j ∈ placed, p j) ∧ p i := by
    intro p hall
    exact ⟨fun j hj => hall j (List.mem_append_left _ hj),
      hall i (List.mem_append_right _ (List.mem_singleton.mpr rfl))⟩
  cases hposition : (unique.get i).position with
  | some position =>
      have hplace : placing.place (unique.get i) (layer i) =
          { placing with positions := placing.positions ++ [((unique.get i).id, position)] } := by
        simp only [Placing.place, hposition, Positions.set_new hid]
      rw [hplace]
      constructor
      · simp [h.ids]
      · intro j hj position' hj'
        rcases List.mem_append.mp hj with hj | hj
        · exact List.mem_append_left _ (h.explicit j hj position' hj')
        · rw [List.mem_singleton.mp hj] at hj' ⊢
          rw [hposition, Option.some.injEq] at hj'
          exact List.mem_append_right _ (by simp [hj'])
      · intro j hj hj'
        rcases List.mem_append.mp hj with hj | hj
        · obtain ⟨row, hrow⟩ := h.columns j hj hj'
          exact ⟨row, List.mem_append_left _ hrow⟩
        · rw [List.mem_singleton.mp hj, hposition] at hj'
          cases hj'
      · intro hall
        rw [(hsplit hall).2] at hposition
        cases hposition
      · intro hall
        rw [(hsplit hall).2] at hposition
        cases hposition
  | none =>
      have hplace : placing.place (unique.get i) (layer i) =
          { rowInLayer := Function.update placing.rowInLayer (layer i)
              (placing.rowInLayer (layer i) + 1)
            positions := placing.positions ++
              [((unique.get i).id, gridPosition (layer i) (placing.rowInLayer (layer i)))] } := by
        simp only [Placing.place, hposition, Positions.set_new hid]
        rfl
      have hrows : ∀ column, placing.rowInLayer column ≤
          Function.update placing.rowInLayer (layer i) (placing.rowInLayer (layer i) + 1)
            column := by
        intro column
        by_cases hcolumn : column = layer i
        · rw [hcolumn, Function.update_self]
          omega
        · rw [Function.update_of_ne hcolumn]
      rw [hplace]
      constructor
      · simp [h.ids]
      · intro j hj position' hj'
        rcases List.mem_append.mp hj with hj | hj
        · exact List.mem_append_left _ (h.explicit j hj position' hj')
        · rw [List.mem_singleton.mp hj, hposition] at hj'
          cases hj'
      · intro j hj hj'
        rcases List.mem_append.mp hj with hj | hj
        · obtain ⟨row, hrow⟩ := h.columns j hj hj'
          exact ⟨row, List.mem_append_left _ hrow⟩
        · rw [List.mem_singleton.mp hj]
          exact ⟨_, List.mem_append_right _ (List.mem_singleton.mpr rfl)⟩
      · intro hall entry hentry
        rcases List.mem_append.mp hentry with hentry | hentry
        · obtain ⟨column, row, hrow, heq⟩ := h.below (hsplit hall).1 entry hentry
          exact ⟨column, row, Nat.lt_of_lt_of_le hrow (hrows column), heq⟩
        · refine ⟨layer i, placing.rowInLayer (layer i), ?_, ?_⟩
          · simp only [Function.update_self]
            omega
          · rw [List.mem_singleton.mp hentry]
      · intro hall
        rw [List.map_append]
        refine (h.apart (hsplit hall).1).append (List.nodup_singleton _) ?_
        intro position hold hnew'
        obtain ⟨entry, hentry, rfl⟩ := List.mem_map.mp hold
        obtain ⟨column, row, hrow, heq⟩ := h.below (hsplit hall).1 entry hentry
        rw [List.map_singleton, List.mem_singleton, heq] at hnew'
        -- the row is new in its column
        obtain ⟨rfl, rfl⟩ := gridPosition_inj hnew'
        exact absurd hrow (Nat.lt_irrefl _)

theorem placed_foldl (hnodup : (unique.map (·.id)).Nodup) :
    Placed unique layer (List.finRange unique.length)
      ((List.finRange unique.length).foldl
        (fun placing i => Placing.place placing (unique.get i) (layer i)) {}) := by
  have hids : ((List.finRange unique.length).map (fun i => (unique.get i).id)).Nodup := by
    have heq : (List.finRange unique.length).map (fun i => (unique.get i).id) = unique.map (·.id) := by
      apply List.ext_getElem
      · simp
      · intro i _ _
        simp
    rwa [heq]
  have hfold : ∀ indices : List (Fin unique.length), (indices.map (fun i => (unique.get i).id)).Nodup →
      Placed unique layer indices (indices.foldl
        (fun placing i => Placing.place placing (unique.get i) (layer i)) {}) := by
    intro indices
    induction indices using List.reverseRecOn with
    | nil =>
        intro _
        exact ⟨rfl, by simp, by simp, by simp, fun _ => List.nodup_nil⟩
    | append_singleton indices i ih =>
        intro hnodup
        rw [List.map_append] at hnodup
        have hplaced := ih (List.nodup_append.mp hnodup).1
        rw [List.foldl_append]
        refine hplaced.place fun hmem => ?_
        exact (List.nodup_append.mp hnodup).2.2 _ hmem _ (List.mem_singleton.mpr rfl) rfl
  exact hfold _ hids

/-! ## The layout -/

/-- An edge between distinct nodes that are there. -/
def Linked (nodes : List TopologyGraphNode) (edges : List TopologyGraphEdge) (a b : String) :
    Prop :=
  a ≠ b ∧ a ∈ nodes.map (·.id) ∧ b ∈ nodes.map (·.id) ∧ ∃ e ∈ edges, e.source = a ∧ e.target = b

theorem layout_of_unpositioned {nodes : List TopologyGraphNode} {edges : List TopologyGraphEdge}
    {node : TopologyGraphNode} (hnode : node ∈ uniqueNodes nodes) (hnone : node.position = none) :
    computeGraphLayout nodes edges = ((List.finRange (uniqueNodes nodes).length).foldl
      (fun placing i => Placing.place placing ((uniqueNodes nodes).get i)
        (layersOf (dfs (linksOf (uniqueNodes nodes) edges)) i)) {}).positions := by
  have hne : nodes.length ≠ 0 := by
    intro hzero
    rw [List.length_eq_zero_iff.mp hzero] at hnode
    cases hnode
  have hall : ¬ (uniqueNodes nodes).all (·.position.isSome) = true := by
    intro hall
    have hsome := List.all_eq_true.mp hall node hnode
    rw [hnone] at hsome
    cases hsome
  rw [computeGraphLayout, if_neg hne]
  simp only
  rw [if_neg hall]

/-- The loop over nodes that all have positions. -/
theorem placed_positioned {nodes : List TopologyGraphNode} (hnodup : (nodes.map (·.id)).Nodup)
    (hall : ∀ node ∈ nodes, node.position ≠ none) :
    (nodes.foldl (fun positions n =>
        n.position.elim positions fun position => Positions.set positions n.id position)
      []).map Prod.fst = nodes.map (·.id) ∧
    ∀ node ∈ nodes, ∀ position, node.position = some position →
      (node.id, position) ∈ nodes.foldl (fun positions n =>
        n.position.elim positions fun position => Positions.set positions n.id position) [] := by
  induction nodes using List.reverseRecOn with
  | nil => exact ⟨rfl, by simp⟩
  | append_singleton nodes n ih =>
      rw [List.map_append] at hnodup
      obtain ⟨hbefore, -, hnew⟩ := List.nodup_append.mp hnodup
      obtain ⟨hids, hexplicit⟩ := ih hbefore fun node hnode =>
        hall node (List.mem_append_left _ hnode)
      cases hposition : n.position with
      | none =>
          exact absurd hposition (hall n (List.mem_append_right _ (List.mem_singleton.mpr rfl)))
      | some position =>
          rw [List.foldl_append, List.foldl_cons, List.foldl_nil, hposition, Option.elim_some,
            Positions.set_new fun hmem =>
              hnew _ (hids ▸ hmem) _ (List.mem_singleton.mpr rfl) rfl]
          refine ⟨by simp [hids], fun node hnode position' hnode' => ?_⟩
          rcases List.mem_append.mp hnode with hnode | hnode
          · exact List.mem_append_left _ (hexplicit node hnode position' hnode')
          · rw [List.mem_singleton.mp hnode] at hnode' ⊢
            rw [hposition, Option.some.injEq] at hnode'
            exact List.mem_append_right _ (by simp [hnode'])

/-- Where all nodes have positions, the layout is these. -/
theorem layout_of_positioned {nodes : List TopologyGraphNode} {edges : List TopologyGraphEdge}
    (hall : ∀ node ∈ uniqueNodes nodes, node.position ≠ none) :
    (computeGraphLayout nodes edges).map Prod.fst = (uniqueNodes nodes).map (·.id) ∧
      ∀ node ∈ uniqueNodes nodes, ∀ position, node.position = some position →
        (node.id, position) ∈ computeGraphLayout nodes edges := by
  by_cases hzero : nodes.length = 0
  · rw [List.length_eq_zero_iff.mp hzero]
    exact ⟨rfl, fun node hnode => by cases hnode⟩
  · have hsome : (uniqueNodes nodes).all (·.position.isSome) = true := by
      rw [List.all_eq_true]
      intro node hnode
      exact Option.isSome_iff_ne_none.mpr (hall node hnode)
    rw [computeGraphLayout, if_neg hzero]
    simp only
    rw [if_pos hsome]
    exact placed_positioned (uniqueNodes_ids nodes).1 hall

/-- Every id has one position, and explicit ones are kept. -/
theorem layout_ids (nodes : List TopologyGraphNode) (edges : List TopologyGraphEdge) :
    (computeGraphLayout nodes edges).map Prod.fst = (uniqueNodes nodes).map (·.id) ∧
      ∀ node ∈ uniqueNodes nodes, ∀ position, node.position = some position →
        (node.id, position) ∈ computeGraphLayout nodes edges := by
  by_cases hall : ∀ node ∈ uniqueNodes nodes, node.position ≠ none
  · exact layout_of_positioned hall
  · obtain ⟨node, hnode, hnone⟩ : ∃ node ∈ uniqueNodes nodes, node.position = none := by
      by_contra hsome
      exact hall fun node hnode hnone => hsome ⟨node, hnode, hnone⟩
    have hplaced := @placed_foldl (uniqueNodes nodes)
      (layersOf (dfs (linksOf (uniqueNodes nodes) edges))) (uniqueNodes_ids nodes).1
    rw [layout_of_unpositioned hnode hnone]
    constructor
    · rw [hplaced.ids]
      apply List.ext_getElem
      · simp
      · intro i _ _
        simp
    · intro node' hnode' position hposition
      obtain ⟨i, hi, rfl⟩ := List.getElem_of_mem hnode'
      exact hplaced.explicit ⟨i, hi⟩ (List.mem_finRange _) position hposition

/-- An entry of a layout is found by its id. -/
theorem layout_eq {nodes : List TopologyGraphNode} {edges : List TopologyGraphEdge} {id : String}
    {p q : Position} (hp : (id, p) ∈ computeGraphLayout nodes edges)
    (hq : (id, q) ∈ computeGraphLayout nodes edges) : p = q := by
  have hnodup : ((computeGraphLayout nodes edges).map Prod.fst).Nodup := by
    rw [(layout_ids nodes edges).1]
    exact (uniqueNodes_ids nodes).1
  exact congrArg Prod.snd (List.inj_on_of_nodup_map hnodup hp hq rfl)

/-- A layout without explicit positions: nodes lie apart, and columns are layers. -/
theorem layout_layers {nodes : List TopologyGraphNode} {edges : List TopologyGraphEdge}
    (hnone : ∀ node ∈ uniqueNodes nodes, node.position = none) :
    ((computeGraphLayout nodes edges).map Prod.snd).Nodup ∧
      ∀ i : Fin (uniqueNodes nodes).length, ∃ row, (((uniqueNodes nodes).get i).id,
        gridPosition (layersOf (dfs (linksOf (uniqueNodes nodes) edges)) i) row) ∈
          computeGraphLayout nodes edges := by
  have hplaced := @placed_foldl (uniqueNodes nodes)
    (layersOf (dfs (linksOf (uniqueNodes nodes) edges))) (uniqueNodes_ids nodes).1
  have hnone' : ∀ i : Fin (uniqueNodes nodes).length, ((uniqueNodes nodes).get i).position = none :=
    fun i => hnone _ (List.getElem_mem i.isLt)
  by_cases hempty : uniqueNodes nodes = []
  · have hids := (layout_ids nodes edges).1
    rw [hempty, List.map_nil, List.map_eq_nil_iff] at hids
    rw [hids]
    refine ⟨List.nodup_nil, fun i => absurd i.isLt ?_⟩
    simp [hempty]
  · obtain ⟨node, hnode⟩ := List.exists_mem_of_ne_nil _ hempty
    rw [layout_of_unpositioned hnode (hnone node hnode)]
    exact ⟨hplaced.apart fun i _ => hnone' i,
      fun i => hplaced.columns i (List.mem_finRange i) (hnone' i)⟩

/-- The edges that are kept go to later columns, all edges if there is no cycle. -/
theorem layout_rightward {nodes : List TopologyGraphNode} {edges : List TopologyGraphEdge}
    (hnone : ∀ node ∈ uniqueNodes nodes, node.position = none)
    {i j : Fin (uniqueNodes nodes).length}
    (hlayer : layersOf (dfs (linksOf (uniqueNodes nodes) edges)) i <
      layersOf (dfs (linksOf (uniqueNodes nodes) edges)) j) {p q : Position}
    (hp : (((uniqueNodes nodes).get i).id, p) ∈ computeGraphLayout nodes edges)
    (hq : (((uniqueNodes nodes).get j).id, q) ∈ computeGraphLayout nodes edges) : p.x < q.x := by
  obtain ⟨row, hrow⟩ := (layout_layers hnone).2 i
  obtain ⟨row', hrow'⟩ := (layout_layers hnone).2 j
  rw [layout_eq hp hrow, layout_eq hq hrow']
  exact gridPosition_lt hlayer

theorem linked_of_out {nodes : List TopologyGraphNode} {edges : List TopologyGraphEdge}
    {s t : Fin (uniqueNodes nodes).length}
    (h : t ∈ (linksOf (uniqueNodes nodes) edges).out s) :
    Linked nodes edges ((uniqueNodes nodes).get s).id ((uniqueNodes nodes).get t).id := by
  obtain ⟨hnodup, hids⟩ := uniqueNodes_ids nodes
  obtain ⟨hne, e, he, hs, ht⟩ := mem_out.mp h
  rw [indexOf_iff hnodup] at hs ht
  refine ⟨fun heq => hne ?_, (hids _).mp (List.mem_map_of_mem (List.getElem_mem s.isLt)),
    (hids _).mp (List.mem_map_of_mem (List.getElem_mem t.isLt)), e, he, hs.symm, ht.symm⟩
  have hfirst := (indexOf_iff hnodup).mpr heq
  have hself := (indexOf_iff hnodup).mpr (rfl : ((uniqueNodes nodes).get t).id = _)
  exact Option.some.inj (hfirst.symm.trans hself)

theorem out_of_linked {nodes : List TopologyGraphNode} {edges : List TopologyGraphEdge}
    {a b : String} (h : Linked nodes edges a b) : ∃ s t : Fin (uniqueNodes nodes).length,
      ((uniqueNodes nodes).get s).id = a ∧ ((uniqueNodes nodes).get t).id = b ∧
        t ∈ (linksOf (uniqueNodes nodes) edges).out s := by
  obtain ⟨hnodup, hids⟩ := uniqueNodes_ids nodes
  obtain ⟨hne, ha, hb, e, he, hsource, htarget⟩ := h
  have hindex : ∀ {id}, id ∈ nodes.map (·.id) → ∃ s : Fin (uniqueNodes nodes).length,
      ((uniqueNodes nodes).get s).id = id := by
    intro id hid
    obtain ⟨node, hnode, rfl⟩ := List.mem_map.mp ((hids id).mpr hid)
    obtain ⟨s, hs, rfl⟩ := List.getElem_of_mem hnode
    exact ⟨⟨s, hs⟩, rfl⟩
  obtain ⟨s, hs⟩ := hindex ha
  obtain ⟨t, ht⟩ := hindex hb
  refine ⟨s, t, hs, ht, mem_out.mpr ⟨?_, e, he, ?_, ?_⟩⟩
  · rintro rfl
    exact hne (hs.symm.trans ht)
  · rw [indexOf_iff hnodup, hs, hsource]
  · rw [indexOf_iff hnodup, ht, htarget]

/-- Every distinct id has one position, and explicit ones are kept. Without explicit ones all
positions differ, the column of a node is the length of the longest path to it in the graph
without the back-edges of the search, and edges that are left go to later columns; without
cycles these are all edges. -/
theorem layout_columns (nodes : List TopologyGraphNode) (edges : List TopologyGraphEdge) :
    ((computeGraphLayout nodes edges).map Prod.fst).Nodup ∧
    (∀ id, id ∈ (computeGraphLayout nodes edges).map Prod.fst ↔ id ∈ nodes.map (·.id)) ∧
    (∀ node position, nodes.find? (·.id = node.id) = some node →
      node.position = some position → (node.id, position) ∈ computeGraphLayout nodes edges) ∧
    ((∀ node ∈ nodes, node.position = none) →
      ((computeGraphLayout nodes edges).map Prod.snd).Nodup ∧
      (∃ st, Forest (linksOf (uniqueNodes nodes) edges).out
          (rootsOf (linksOf (uniqueNodes nodes) edges).indeg) Search.start st ∧
        ∀ i : Fin (uniqueNodes nodes).length,
          (∃ column row, (((uniqueNodes nodes).get i).id, gridPosition column row) ∈
              computeGraphLayout nodes edges ∧
            IsGreatest {k | ∃ j, Steps st.dag k j i} column) ∧
          ∀ j ∈ st.dag i, ∀ p q, (((uniqueNodes nodes).get i).id, p) ∈ computeGraphLayout nodes edges →
            (((uniqueNodes nodes).get j).id, q) ∈ computeGraphLayout nodes edges → p.x < q.x) ∧
      ((∀ id, ¬ Relation.TransGen (Linked nodes edges) id id) →
        ∀ a b, Linked nodes edges a b → ∀ p q, (a, p) ∈ computeGraphLayout nodes edges →
          (b, q) ∈ computeGraphLayout nodes edges → p.x < q.x)) := by
  obtain ⟨hids, hexplicit⟩ := layout_ids nodes edges
  obtain ⟨hnodup, hmem⟩ := uniqueNodes_ids nodes
  refine ⟨hids ▸ hnodup, fun id => hids ▸ hmem id, ?_, fun hnone => ?_⟩
  · intro node position hfirst hposition
    exact hexplicit node (mem_uniqueNodes.mpr hfirst) position hposition
  · have hnone' : ∀ node ∈ uniqueNodes nodes, node.position = none := by
      intro node hnode
      exact hnone node (List.mem_of_find?_eq_some (mem_uniqueNodes.mp hnode))
    obtain ⟨hapart, hcolumns⟩ := @layout_layers nodes edges hnone'
    have hforest := dfs_forest (linksOf (uniqueNodes nodes) edges)
    obtain ⟨hacyclic, hcounted, -, hdropped⟩ := hforest.complete (mem_rootsOf _)
    have hlongest := layersOf_longest hcounted hacyclic
    refine ⟨hapart, ⟨_, hforest, fun i => ⟨?_, ?_⟩⟩, ?_⟩
    · obtain ⟨row, hrow⟩ := hcolumns i
      exact ⟨_, row, hrow, (hlongest i).2⟩
    · intro j hj p q hp hq
      exact layout_rightward hnone' ((hlongest i).1 j hj) hp hq
    · intro hcycle a b hlinked p q hp hq
      obtain ⟨s, t, rfl, rfl, hout⟩ := out_of_linked hlinked
      have hkept : t ∈ (dfs (linksOf (uniqueNodes nodes) edges)).dag s := by
        refine (hdropped s t hout).resolve_right fun hreach => ?_
        -- a way back makes a cycle of ids
        have hback : Relation.TransGen (Edge (linksOf (uniqueNodes nodes) edges).out) s s :=
          .head' hout hreach
        exact hcycle _ (hback.lift (fun i => ((uniqueNodes nodes).get i).id) fun _ _ => linked_of_out)
      exact layout_rightward hnone' ((hlongest s).1 t hkept) hp hq

/-- Two nodes, one of them twice, with an edge and a dangling one. -/
def sampleNodes : List TopologyGraphNode := [⟨"a", none⟩, ⟨"b", none⟩, ⟨"a", none⟩]

def sampleEdges : List TopologyGraphEdge := [⟨"1", "a", "b"⟩, ⟨"2", "b", "missing"⟩]

theorem sample_linked {a b : String} : Linked sampleNodes sampleEdges a b ↔ a = "a" ∧ b = "b" := by
  constructor
  · rintro ⟨-, -, hb, e, he, rfl, rfl⟩
    rcases List.mem_cons.mp he with rfl | he
    · exact ⟨rfl, rfl⟩
    · rw [List.mem_singleton.mp he] at hb
      exact absurd hb (by decide)
  · rintro ⟨rfl, rfl⟩
    exact ⟨by decide, by decide, by decide, _, List.mem_cons_self, rfl, rfl⟩

theorem layout_columns_sample :
    ((computeGraphLayout sampleNodes sampleEdges).map Prod.snd).Nodup ∧
      ∀ p q, ("a", p) ∈ computeGraphLayout sampleNodes sampleEdges →
        ("b", q) ∈ computeGraphLayout sampleNodes sampleEdges → p.x < q.x := by
  obtain ⟨-, -, -, h⟩ := layout_columns sampleNodes sampleEdges
  obtain ⟨hapart, -, hright⟩ := h (by decide)
  refine ⟨hapart, hright ?_ "a" "b" (sample_linked.mpr ⟨rfl, rfl⟩)⟩
  intro id hcycle
  obtain ⟨next, hfirst, hrest⟩ := Relation.TransGen.head'_iff.mp hcycle
  obtain ⟨rfl, rfl⟩ := sample_linked.mp hfirst
  rcases Relation.ReflTransGen.cases_head hrest with heq | ⟨_, hsecond, _⟩
  · exact absurd heq (by decide)
  · exact absurd (sample_linked.mp hsecond).1 (by decide)

end Web
