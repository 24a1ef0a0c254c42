import Beluga.Graph.DepthFirst
import Beluga.Graph.Layers
import Mathlib.Algebra.GroupWithZero.Nat
import Mathlib.Data.Rat.Defs

/-! # Layered layout of a topology graph

`sanitize.ts` and `layout.ts` of the graph component. Columns are layers of the graph
without the back-edges of a depth-first search; rows inside a column keep input order. -/

namespace Web

open Graph

def GRAPH_NODE_WIDTH : ℕ := 220
def GRAPH_NODE_HEIGHT : ℕ := 100
def GRAPH_GAP_X : ℕ := 90
def GRAPH_GAP_Y : ℕ := 24

structure Position where
  x : ℚ
  y : ℚ
  deriving DecidableEq

structure TopologyGraphNode where
  id : String
  position : Option Position := none
  deriving DecidableEq

structure TopologyGraphEdge where
  id : String
  source : String
  target : String

/-! ## `sanitize.ts` -/

structure SanitizedGraph where
  nodes : List TopologyGraphNode
  edges : List TopologyGraphEdge
  duplicateNodeIds : List String
  duplicateEdgeIds : List String
  danglingEdgeCount : ℕ

/-- `Set.add`. -/
def addId (ids : List String) (id : String) : List String :=
  if id ∈ ids then ids else ids ++ [id]

structure NodeScan where
  seenNodes : List String := []
  dupNodes : List String := []
  keptNodes : List TopologyGraphNode := []

def NodeScan.add (scan : NodeScan) (node : TopologyGraphNode) : NodeScan :=
  if node.id ∈ scan.seenNodes then { scan with dupNodes := addId scan.dupNodes node.id }
  else
    { scan with
      seenNodes := addId scan.seenNodes node.id
      keptNodes := scan.keptNodes ++ [node] }

structure EdgeScan where
  seenEdges : List String := []
  dupEdges : List String := []
  keptEdges : List TopologyGraphEdge := []
  dangling : ℕ := 0

def EdgeScan.add (seenNodes : List String) (scan : EdgeScan) (edge : TopologyGraphEdge) :
    EdgeScan :=
  if edge.id ∈ scan.seenEdges then { scan with dupEdges := addId scan.dupEdges edge.id }
  else
    let scan := { scan with seenEdges := addId scan.seenEdges edge.id }
    if edge.source ∉ seenNodes ∨ edge.target ∉ seenNodes then
      { scan with dangling := scan.dangling + 1 }
    else { scan with keptEdges := scan.keptEdges ++ [edge] }

def sanitizeGraph (nodes : List TopologyGraphNode) (edges : List TopologyGraphEdge) :
    SanitizedGraph :=
  let scan := nodes.foldl NodeScan.add {}
  let edgeScan := edges.foldl (EdgeScan.add scan.seenNodes) {}
  { nodes := scan.keptNodes
    edges := edgeScan.keptEdges
    duplicateNodeIds := scan.dupNodes
    duplicateEdgeIds := edgeScan.dupEdges
    danglingEdgeCount := edgeScan.dangling }

/-! ## The graph of a layout -/

/-- The first node of each id. -/
def uniqueNodes (nodes : List TopologyGraphNode) : List TopologyGraphNode :=
  nodes.foldl (fun unique n => if unique.any (·.id = n.id) then unique else unique ++ [n]) []

/-- `index.get`: where the node of an id stands. -/
def indexOf (unique : List TopologyGraphNode) (id : String) : Option (Fin unique.length) :=
  unique.findFinIdx? (·.id = id)

structure Links (count : ℕ) where
  out : Fin count → List (Fin count)
  indeg : Fin count → ℕ

/-- Edges to missing nodes and self-links are ignored. -/
def Links.add {count : ℕ} (index : String → Option (Fin count)) (links : Links count)
    (e : TopologyGraphEdge) : Links count :=
  match index e.source, index e.target with
  | some s, some t =>
      if s = t then links
      else
        { out := Function.update links.out s (links.out s ++ [t])
          indeg := Function.update links.indeg t (links.indeg t + 1) }
  | _, _ => links

def linksOf (unique : List TopologyGraphNode) (edges : List TopologyGraphEdge) :
    Links unique.length :=
  edges.foldl (Links.add (indexOf unique)) { out := fun _ => [], indeg := fun _ => 0 }

/-! ## The search -/

/-- Nodes without incoming edges first, then the others. -/
def rootsOf {count : ℕ} (indeg : Fin count → ℕ) : List (Fin count) :=
  (List.finRange count).filter (indeg · = 0) ++ (List.finRange count).filter (indeg · ≠ 0)

structure Frame (count : ℕ) where
  node : Fin count
  next : ℕ

/-- The arrays of the search and its stack, top first. -/
structure Dfs (count : ℕ) extends Search (Fin count) where
  stack : List (Frame count)

variable {count : ℕ}

/-- One round of the `while` loop, with `frame` on top of the stack. -/
def Dfs.round (out : Fin count → List (Fin count)) (st : Search (Fin count))
    (frame : Frame count) (below : List (Frame count)) : Dfs count :=
  match (out frame.node)[frame.next]? with
  | none => { st.mark frame.node .done with stack := below }
  | some target =>
      let stack := { frame with next := frame.next + 1 } :: below
      match st.state target with
      -- back-edge: ignored for layering
      | .onStack => { st with stack := stack }
      | .done => { st.keep frame.node target with stack := stack }
      | .unvisited =>
          { (st.keep frame.node target).mark target .onStack with stack := ⟨target, 0⟩ :: stack }

/-- Rounds that a search can still take: each frame its edges, each new node its own. -/
def Dfs.left (out : Fin count → List (Fin count)) (s : Dfs count) : ℕ :=
  (s.stack.map fun frame => (out frame.node).length - frame.next + 1).sum +
    ∑ x ∈ s.fresh, ((out x).length + 2)

theorem Dfs.left_round (out : Fin count → List (Fin count)) (st : Search (Fin count))
    (frame : Frame count) (below : List (Frame count)) :
    (Dfs.round out st frame below).left out < Dfs.left out { st with stack := frame :: below } := by
  unfold Dfs.round
  cases htarget : (out frame.node)[frame.next]? with
  | none =>
      have hsub : (st.mark frame.node .done).fresh ⊆ st.fresh := by
        rw [Search.fresh_mark (by decide)]
        exact Finset.erase_subset _ _
      have hle := Finset.sum_le_sum_of_subset (f := fun x => (out x).length + 2) hsub
      simp only [Dfs.left, List.map_cons, List.sum_cons]
      omega
  | some target =>
      have hnext : frame.next < (out frame.node).length :=
        (List.getElem?_eq_some_iff.mp htarget).1
      simp only
      cases hstate : st.state target with
      | onStack =>
          simp only [Dfs.left, List.map_cons, List.sum_cons]
          omega
      | done =>
          have hfresh : (st.keep frame.node target).fresh = st.fresh := rfl
          simp only [Dfs.left, List.map_cons, List.sum_cons, hfresh]
          omega
      | unvisited =>
          -- the new node pays for its own frame
          have hfresh : ((st.keep frame.node target).mark target .onStack).fresh =
              st.fresh.erase target := Search.fresh_mark (by decide)
          have hsum := Finset.add_sum_erase st.fresh (fun x => (out x).length + 2)
            (Search.mem_fresh.mpr hstate)
          simp only [Dfs.left, List.map_cons, List.sum_cons, hfresh]
          omega

def Dfs.loop (out : Fin count → List (Fin count)) (s : Dfs count) : Dfs count :=
  match _hstack : s.stack with
  | [] => s
  | frame :: below => Dfs.loop out (Dfs.round out s.toSearch frame below)
termination_by s.left out
decreasing_by
  have hround := Dfs.left_round out s.toSearch frame below
  rwa [← _hstack] at hround

/-- The search from one root. -/
def Dfs.visit (out : Fin count → List (Fin count)) (st : Search (Fin count))
    (root : Fin count) : Search (Fin count) :=
  match st.state root with
  | .unvisited => (Dfs.loop out { st.mark root .onStack with stack := [⟨root, 0⟩] }).toSearch
  | _ => st

def dfs (links : Links count) : Search (Fin count) :=
  (rootsOf links.indeg).foldl (Dfs.visit links.out) Search.start

/-! ## Layers -/

/-- Layers, in-degrees, and the queue from its head on. -/
structure Layering (count : ℕ) where
  layer : Fin count → ℕ
  dagIndeg : Fin count → ℤ
  queue : List (Fin count)

def Layering.relax (cur : Fin count) (l : Layering count) (next : Fin count) : Layering count :=
  let left := l.dagIndeg next - 1
  { layer := Function.update l.layer next (max (l.layer next) (l.layer cur + 1))
    dagIndeg := Function.update l.dagIndeg next left
    queue := if left = 0 then l.queue ++ [next] else l.queue }

/-- Nodes that can still enter the queue, and those in it. -/
def Layering.left (l : Layering count) : ℕ :=
  (Finset.univ.filter fun x => 0 < l.dagIndeg x).card + l.queue.length

theorem Layering.left_relax (cur : Fin count) (l : Layering count) (next : Fin count) :
    (l.relax cur next).left ≤ l.left := by
  have hother : ∀ x, x ≠ next → (l.relax cur next).dagIndeg x = l.dagIndeg x := by
    intro x hx
    exact Function.update_of_ne hx (l.dagIndeg next - 1) l.dagIndeg
  have hself : (l.relax cur next).dagIndeg next = l.dagIndeg next - 1 := by
    show Function.update l.dagIndeg next (l.dagIndeg next - 1) next = _
    rw [Function.update_self]
  have hsub : (Finset.univ.filter fun x => 0 < (l.relax cur next).dagIndeg x) ⊆
      Finset.univ.filter fun x => 0 < l.dagIndeg x := by
    intro x hx
    rw [Finset.mem_filter] at hx ⊢
    refine ⟨hx.1, ?_⟩
    by_cases hxn : x = next
    · subst hxn
      have := hx.2
      omega
    · rw [← hother x hxn]
      exact hx.2
  have hqueue : (l.relax cur next).queue =
      if l.dagIndeg next - 1 = 0 then l.queue ++ [next] else l.queue := rfl
  unfold Layering.left
  rw [hqueue]
  split_ifs with hzero
  · -- a node that enters the queue had one edge left
    have hmem : next ∈ Finset.univ.filter fun x => 0 < l.dagIndeg x := by
      rw [Finset.mem_filter]
      exact ⟨Finset.mem_univ next, by omega⟩
    have hgone : next ∉ Finset.univ.filter fun x => 0 < (l.relax cur next).dagIndeg x := by
      rw [Finset.mem_filter]
      omega
    have hlt := Finset.card_lt_card (Finset.ssubset_iff_of_subset hsub |>.mpr ⟨next, hmem, hgone⟩)
    rw [List.length_append, List.length_singleton]
    omega
  · have hle := Finset.card_le_card hsub
    omega

theorem Layering.left_foldl (cur : Fin count) (targets : List (Fin count)) (l : Layering count) :
    (targets.foldl (Layering.relax cur) l).left ≤ l.left := by
  induction targets generalizing l with
  | nil => exact Nat.le_refl _
  | cons next targets ih => exact Nat.le_trans (ih _) (l.left_relax cur next)

def Layering.loop (dag : Fin count → List (Fin count)) (l : Layering count) : Layering count :=
  match _hqueue : l.queue with
  | [] => l
  | cur :: rest =>
      Layering.loop dag ((dag cur).foldl (Layering.relax cur) { l with queue := rest })
termination_by l.left
decreasing_by
  have hle := Layering.left_foldl cur (dag cur) { l with queue := rest }
  simp only [Layering.left, _hqueue, List.length_cons] at hle ⊢
  omega

def layersOf (st : Search (Fin count)) : Fin count → ℕ :=
  (Layering.loop st.dag
    { layer := fun _ => 0
      dagIndeg := st.dagIndeg
      queue := (List.finRange count).filter (st.dagIndeg · = 0) }).layer

/-! ## Positions -/

/-- A `Map`, its entries in order. -/
abbrev Positions : Type := List (String × Position)

def Positions.set (positions : Positions) (id : String) (position : Position) : Positions :=
  if positions.any (·.1 = id) then
    positions.map fun entry => if entry.1 = id then (id, position) else entry
  else positions ++ [(id, position)]

structure Placing where
  rowInLayer : ℕ → ℕ := fun _ => 0
  positions : Positions := []

def Placing.place (placing : Placing) (node : TopologyGraphNode) (l : ℕ) : Placing :=
  match node.position with
  | some position => { placing with positions := placing.positions.set node.id position }
  | none =>
      let row := placing.rowInLayer l
      { rowInLayer := Function.update placing.rowInLayer l (row + 1)
        positions := placing.positions.set node.id
          { x := (l * (GRAPH_NODE_WIDTH + GRAPH_GAP_X) : ℕ)
            y := (row * (GRAPH_NODE_HEIGHT + GRAPH_GAP_Y) : ℕ) } }

def computeGraphLayout (nodes : List TopologyGraphNode) (edges : List TopologyGraphEdge) :
    Positions :=
  if nodes.length = 0 then []
  else
    let unique := uniqueNodes nodes
    if unique.all (·.position.isSome) then
      unique.foldl (fun positions n =>
        n.position.elim positions fun position => Positions.set positions n.id position) []
    else
      let layer := layersOf (dfs (linksOf unique edges))
      ((List.finRange unique.length).foldl
        (fun placing i => Placing.place placing (unique.get i) (layer i)) {}).positions

end Web
