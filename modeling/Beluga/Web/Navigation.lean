import Beluga.Js.Numbers
import Beluga.Web.LayoutPositions
import Mathlib.Algebra.Order.Ring.Rat
import Mathlib.Data.List.MinMax
import Mathlib.Tactic.Linarith

/-! # Moving through a graph with the keyboard

`navigation.ts`, and the key handler of `TopologyGraph.tsx`. An arrow key goes to the nearest
node on its side, `Home` and `End` go to the ends of the reading order.

* `findNextNodeId_arrow`: the loop over the points finds the first of the nearest;
* `goes_home`, `goes_end`: the ends of the order;
* `Grid`: columns and rows without gaps, which is what a layout gives (`layout_grid`);
* `keyboard_reaches`: up, aside and down lead from any node to any other.
-/

namespace Web

open Js

inductive NavigationKey where
  | ArrowUp
  | ArrowDown
  | ArrowLeft
  | ArrowRight
  | Home
  | End
  deriving DecidableEq

structure NavigablePoint where
  id : String
  x : Js.Num
  y : Js.Num

structure Direction where
  x : ℤ
  y : ℤ

def DIRECTIONS : NavigationKey → Option Direction
  | .ArrowUp => some ⟨0, -1⟩
  | .ArrowDown => some ⟨0, 1⟩
  | .ArrowLeft => some ⟨-1, 0⟩
  | .ArrowRight => some ⟨1, 0⟩
  | .Home | .End => none

def PERPENDICULAR_WEIGHT : ℕ := 2

def isNavigationKey : String → Option NavigationKey
  | "ArrowUp" => some .ArrowUp
  | "ArrowDown" => some .ArrowDown
  | "ArrowLeft" => some .ArrowLeft
  | "ArrowRight" => some .ArrowRight
  | "Home" => some .Home
  | "End" => some .End
  | _ => none

/-- A point with finite coordinates. -/
structure FinitePoint where
  id : String
  x : ℚ
  y : ℚ
  deriving DecidableEq

def NavigablePoint.finite (p : NavigablePoint) : Option FinitePoint :=
  match p.x, p.y with
  | .fin x, .fin y => some ⟨p.id, x, y⟩
  | _, _ => none

def finitePoints (points : List NavigablePoint) : List FinitePoint :=
  points.filterMap NavigablePoint.finite

/-- The loop body: `best` against one more point. -/
def nearer (current : FinitePoint) (dir : Direction) (best : Option (String × ℚ))
    (p : FinitePoint) : Option (String × ℚ) :=
  if p.id = current.id then best
  else
    let dx := p.x + GRAPH_NODE_WIDTH / 2 - (current.x + GRAPH_NODE_WIDTH / 2)
    let dy := p.y + GRAPH_NODE_HEIGHT / 2 - (current.y + GRAPH_NODE_HEIGHT / 2)
    let along := dx * dir.x + dy * dir.y
    if along ≤ 0 then best
    else
      let across := |dx * dir.y + dy * dir.x|
      let score := along + PERPENDICULAR_WEIGHT * across
      match best with
      | none => some (p.id, score)
      | some b => if score < b.2 then some (p.id, score) else some b

/-- Row by row: `a.y - b.y || a.x - b.x` is not positive. -/
def readsBefore (a b : FinitePoint) : Bool := a.y < b.y || (a.y = b.y && a.x ≤ b.x)

def findNextNodeId (points : List NavigablePoint) (currentId : String) (key : NavigationKey) :
    Option String :=
  let points := finitePoints points
  if points.isEmpty then none
  else
    let current := points.find? (·.id = currentId)
    if key = .Home ∨ key = .End then
      let sorted := points.mergeSort readsBefore
      if key = .Home then sorted.head?.map (·.id) else sorted.getLast?.map (·.id)
    else
      match current, DIRECTIONS key with
      | some current, some dir => (points.foldl (nearer current dir) none).map Prod.fst
      | _, _ => none

/-- The node that the tabulator key stops at. -/
def resolveActiveNodeId (ids : List String) (active selected : Option String) : Option String :=
  if active.any (· ∈ ids) then active
  else if selected.any (· ∈ ids) then selected
  else ids.head?

structure KeyboardEvent where
  key : String
  altKey : Bool := false
  ctrlKey : Bool := false
  metaKey : Bool := false

def graphPoints (graph : SanitizedGraph) : List NavigablePoint :=
  let layoutPositions := computeGraphLayout graph.nodes graph.edges
  graph.nodes.map fun n =>
    let p := ((layoutPositions.lookup n.id).or n.position).getD ⟨0, 0⟩
    { id := n.id, x := .fin p.x, y := .fin p.y }

/-- The node that is focused next. -/
def handleGraphKeyDown (graph : SanitizedGraph) (currentId : String) (e : KeyboardEvent) :
    Option String :=
  if e.altKey || e.ctrlKey || e.metaKey then none
  else (isNavigationKey e.key).bind fun key => findNextNodeId (graphPoints graph) currentId key

/-- The focus after a key: where no node is found, it stays. -/
def press (graph : SanitizedGraph) (focus key : String) : String :=
  (handleGraphKeyDown graph focus { key }).getD focus

/-! ## Where a key goes -/

section Nearest

variable (current : FinitePoint) (dir : Direction) (p : FinitePoint)

def along : ℚ := (p.x - current.x) * dir.x + (p.y - current.y) * dir.y

def score : ℚ := along current dir p +
  PERPENDICULAR_WEIGHT * |(p.x - current.x) * dir.y + (p.y - current.y) * dir.x|

/-- Another point, on the side of the key. -/
def Ahead : Prop := p.id ≠ current.id ∧ 0 < along current dir p

instance : Decidable (Ahead current dir p) := inferInstanceAs (Decidable (_ ∧ _))

variable {current dir p}

theorem nearer_eq (best : Option FinitePoint) :
    nearer current dir (best.map fun b => (b.id, score current dir b)) p =
      (if Ahead current dir p then
        List.argAux (fun a b => score current dir a < score current dir b) best p
      else best).map fun b => (b.id, score current dir b) := by
  have hx : p.x + GRAPH_NODE_WIDTH / 2 - (current.x + GRAPH_NODE_WIDTH / 2) = p.x - current.x := by
    ring
  have hy : p.y + GRAPH_NODE_HEIGHT / 2 - (current.y + GRAPH_NODE_HEIGHT / 2) =
      p.y - current.y := by ring
  unfold nearer
  simp only [hx, hy]
  change (if p.id = current.id then _ else if along current dir p ≤ 0 then _ else
    (match best.map fun b => (b.id, score current dir b) with
      | none => some (p.id, score current dir p)
      | some b => if score current dir p < b.2 then some (p.id, score current dir p)
        else some b)) = _
  by_cases hid : p.id = current.id
  · rw [if_pos hid, if_neg fun h : Ahead current dir p => h.1 hid]
  · rw [if_neg hid]
    by_cases halong : along current dir p ≤ 0
    · rw [if_pos halong, if_neg fun h : Ahead current dir p => absurd h.2 (not_lt.mpr halong)]
    · rw [if_neg halong, if_pos ⟨hid, not_le.mp halong⟩]
      cases best with
      | none => rfl
      | some b =>
          simp only [Option.map_some, List.argAux]
          split_ifs <;> rfl

theorem foldl_nearer (points : List FinitePoint) (best : Option FinitePoint) :
    points.foldl (nearer current dir) (best.map fun b => (b.id, score current dir b)) =
      ((points.filter (Ahead current dir ·)).foldl
        (List.argAux fun a b => score current dir a < score current dir b) best).map
          fun b => (b.id, score current dir b) := by
  induction points generalizing best with
  | nil => rfl
  | cons p points ih =>
      rw [List.foldl_cons, nearer_eq, ih, List.filter_cons]
      by_cases hp : Ahead current dir p
      · simp only [hp, decide_true, if_true, List.foldl_cons]
      · simp only [hp, decide_false, if_false, Bool.false_eq_true]

end Nearest

/-- An arrow key goes to a nearest point on its side, if there is one. -/
theorem findNextNodeId_arrow {points : List NavigablePoint} {currentId : String}
    {key : NavigationKey} {dir : Direction} (hdir : DIRECTIONS key = some dir) :
    findNextNodeId points currentId key =
      ((finitePoints points).find? (·.id = currentId)).bind fun current =>
        (((finitePoints points).filter (Ahead current dir ·)).argmin
          (score current dir)).map (·.id) := by
  have hkey : ¬ (key = .Home ∨ key = .End) := by
    rintro (rfl | rfl) <;> cases hdir
  unfold findNextNodeId
  simp only [if_neg hkey, hdir]
  cases hpoints : finitePoints points with
  | nil => rfl
  | cons p rest =>
      rw [if_neg (by simp)]
      cases (p :: rest).find? (·.id = currentId) with
      | none => rfl
      | some current =>
          simp only [Option.bind_some]
          rw [← Option.map_none fun b => (b.id, score current dir b), foldl_nearer, Option.map_map]
          rfl

/-! ## The ends of the reading order -/

theorem readsBefore_iff {a b : FinitePoint} :
    readsBefore a b = true ↔ a.y < b.y ∨ a.y = b.y ∧ a.x ≤ b.x := by
  simp [readsBefore]

theorem readsBefore_total (a b : FinitePoint) : (readsBefore a b || readsBefore b a) = true := by
  rw [Bool.or_eq_true, readsBefore_iff, readsBefore_iff]
  rcases lt_trichotomy a.y b.y with h | h | h
  · exact .inl (.inl h)
  · rcases le_total a.x b.x with hx | hx
    · exact .inl (.inr ⟨h, hx⟩)
    · exact .inr (.inr ⟨h.symm, hx⟩)
  · exact .inr (.inl h)

theorem readsBefore_trans (a b c : FinitePoint) (hab : readsBefore a b = true)
    (hbc : readsBefore b c = true) : readsBefore a c = true := by
  rw [readsBefore_iff] at hab hbc ⊢
  rcases hab with hab | ⟨hab, hx⟩
  · rcases hbc with hbc | ⟨hbc, -⟩
    · exact .inl (hab.trans hbc)
    · exact .inl (hbc ▸ hab)
  · rcases hbc with hbc | ⟨hbc, hx'⟩
    · exact .inl (hab ▸ hbc)
    · exact .inr ⟨hab.trans hbc, hx.trans hx'⟩

/-- Where a key leads from a node that is there: for `Home` and `End` to the ends of the reading
order, for an arrow key to a node on its side than which no other there is nearer. -/
def Leads (points : List FinitePoint) (current : FinitePoint) (key : NavigationKey)
    (p : FinitePoint) : Prop :=
  p ∈ points ∧ match DIRECTIONS key with
    | some dir => Ahead current dir p ∧
        ∀ q ∈ points, Ahead current dir q → score current dir p ≤ score current dir q
    | none => ∀ q ∈ points,
        if key = .Home then readsBefore p q = true else readsBefore q p = true

theorem findNextNodeId_end {points : List NavigablePoint} {currentId : String}
    {key : NavigationKey} (hdir : DIRECTIONS key = none) (hne : finitePoints points ≠ [])
    (current : FinitePoint) : ∃ p, findNextNodeId points currentId key = some p.id ∧
      Leads (finitePoints points) current key p := by
  have hkey : key = .Home ∨ key = .End := by
    cases key
    case Home => exact .inl rfl
    case End => exact .inr rfl
    all_goals cases hdir
  have hsorted := List.pairwise_mergeSort readsBefore_trans readsBefore_total
    (finitePoints points)
  have hperm := List.mergeSort_perm (finitePoints points) readsBefore
  unfold findNextNodeId
  simp only [if_pos hkey, Leads, hdir, ← hperm.mem_iff]
  rw [if_neg (by simpa using hne)]
  generalize (finitePoints points).mergeSort readsBefore = sorted at *
  have hsome : sorted ≠ [] := fun hnil => hne (List.perm_nil.mp (hnil ▸ hperm.symm))
  rcases hkey with rfl | rfl
  · cases sorted with
    | nil => exact absurd rfl hsome
    | cons p rest =>
        refine ⟨p, rfl, List.mem_cons_self, fun q hq => ?_⟩
        rw [if_pos rfl]
        rcases List.mem_cons.mp hq with rfl | hq
        · exact readsBefore_iff.mpr (.inr ⟨rfl, le_rfl⟩)
        · exact (List.pairwise_cons.mp hsorted).1 q hq
  · rcases List.eq_nil_or_concat' sorted with rfl | ⟨before, p, rfl⟩
    · exact absurd rfl hsome
    · refine ⟨p, by simp, by simp, fun q hq => ?_⟩
      rw [if_neg (by decide)]
      rcases List.mem_append.mp hq with hq | hq
      · exact (List.pairwise_append.mp hsorted).2.2 q hq p List.mem_cons_self
      · rw [List.mem_singleton.mp hq]
        exact readsBefore_iff.mpr (.inr ⟨rfl, le_rfl⟩)

/-- A point beside another, and one that is nowhere. -/
def samplePoints : List NavigablePoint :=
  [⟨"a", .fin 0, .fin 0⟩, ⟨"b", .fin 310, .fin 0⟩, ⟨"c", .nan, .fin 0⟩]

/-- A point in a column and a row. -/
def FinitePoint.At (p : FinitePoint) (column row : ℕ) : Prop :=
  Position.mk p.x p.y = gridPosition column row

/-- Columns and rows without gaps: rows are counted from the top, columns from the left. -/
structure Grid (points : List FinitePoint) : Prop where
  ids : (points.map (·.id)).Nodup
  cell : ∀ p ∈ points, ∃ column row, p.At column row
  apart : ∀ p ∈ points, ∀ q ∈ points, ∀ column row, p.At column row → q.At column row → p = q
  above : ∀ p ∈ points, ∀ column row, p.At column (row + 1) → ∃ q ∈ points, q.At column row
  before : ∀ p ∈ points, ∀ column row, p.At (column + 1) row → ∃ q ∈ points, q.At column 0

section Keys

variable {points : List NavigablePoint} {p q : FinitePoint} {column row column' row' : ℕ}

/-- Distances between places, along the side of a key and in all. -/
def stepAlong (dir : Direction) (dx dy : ℤ) : ℤ := 310 * dx * dir.x + 124 * dy * dir.y

def stepScore (dir : Direction) (dx dy : ℤ) : ℤ :=
  stepAlong dir dx dy + 2 * |310 * dx * dir.y + 124 * dy * dir.x|

theorem along_at (hp : p.At column row) (hq : q.At column' row') (dir : Direction) :
    along p dir q = stepAlong dir (column' - column) (row' - row) := by
  rcases Position.mk.inj hp with ⟨hpx, hpy⟩
  rcases Position.mk.inj hq with ⟨hqx, hqy⟩
  unfold along stepAlong
  rw [hpx, hpy, hqx, hqy]
  push_cast [GRAPH_NODE_WIDTH, GRAPH_GAP_X, GRAPH_NODE_HEIGHT, GRAPH_GAP_Y]
  ring

theorem score_at (hp : p.At column row) (hq : q.At column' row') (dir : Direction) :
    score p dir q = stepScore dir (column' - column) (row' - row) := by
  rcases Position.mk.inj hp with ⟨hpx, hpy⟩
  rcases Position.mk.inj hq with ⟨hqx, hqy⟩
  unfold score stepScore
  rw [along_at hp hq, hpx, hpy, hqx, hqy]
  push_cast [GRAPH_NODE_WIDTH, GRAPH_GAP_X, GRAPH_NODE_HEIGHT, GRAPH_GAP_Y, PERPENDICULAR_WEIGHT]
  ring_nf

/-- A key leads to the place at `dx`, `dy`, if that is the nearest of all that could be there. -/
theorem key_beside (hgrid : Grid (finitePoints points)) {key : NavigationKey} {dir : Direction}
    (hdir : DIRECTIONS key = some dir) (hp : p ∈ finitePoints points) (hpat : p.At column row)
    (hq : q ∈ finitePoints points) (hqat : q.At column' row') {dx dy : ℤ}
    (hcolumn : column' - column = dx) (hrow : row' - row = dy) (hahead : 0 < stepAlong dir dx dy)
    (hnearest : ∀ dx' dy' : ℤ, 0 < stepAlong dir dx' dy' →
      stepScore dir dx' dy' ≤ stepScore dir dx dy → dx' = dx ∧ dy' = dy) :
    findNextNodeId points p.id key = some q.id := by
  subst hcolumn hrow
  have hfind : (finitePoints points).find? (·.id = p.id) = some p := by
    cases hfound : (finitePoints points).find? (·.id = p.id) with
    | none => simpa using List.find?_eq_none.mp hfound p hp
    | some found =>
        have hid := List.find?_some hfound
        rw [List.inj_on_of_nodup_map hgrid.ids (List.mem_of_find?_eq_some hfound) hp
          (of_decide_eq_true hid)]
  have haheadq : Ahead p dir q := by
    refine ⟨fun hid => ?_, by rw [along_at hpat hqat]; exact_mod_cast hahead⟩
    -- the two places differ
    have hsame := List.inj_on_of_nodup_map hgrid.ids hq hp hid
    rw [hsame] at hqat
    rcases gridPosition_inj (hqat.symm.trans hpat) with ⟨rfl, rfl⟩
    simp [stepAlong] at hahead
  rw [findNextNodeId_arrow hdir, hfind, Option.bind_some]
  refine Option.map_eq_some_iff.mpr ⟨q, List.argmin_eq_some_iff.mpr ⟨?_, ?_, ?_⟩, rfl⟩
  · exact List.mem_filter.mpr ⟨hq, decide_eq_true haheadq⟩
  all_goals
    intro a ha
    rcases List.mem_filter.mp ha with ⟨ha, hahead'⟩
    rcases hgrid.cell a ha with ⟨column'', row'', hat⟩
    have hfar : 0 < stepAlong dir (column'' - column) (row'' - row) := by
      have hlt := (of_decide_eq_true hahead').2
      rw [along_at hpat hat] at hlt
      exact_mod_cast hlt
    have heq : score p dir a ≤ score p dir q → a = q := by
      intro hle
      rw [score_at hpat hat, score_at hpat hqat] at hle
      have hsame := hnearest _ _ hfar (by exact_mod_cast hle)
      obtain ⟨rfl, rfl⟩ : column'' = column' ∧ row'' = row' := by omega
      exact hgrid.apart a ha q hq _ _ hat hqat
  · by_contra hlt
    rw [heq (le_of_not_ge hlt)] at hlt
    exact hlt le_rfl
  · intro hle
    rw [heq hle]

theorem key_up (hgrid : Grid (finitePoints points)) (hp : p ∈ finitePoints points)
    (hpat : p.At column (row + 1)) (hq : q ∈ finitePoints points) (hqat : q.At column row) :
    findNextNodeId points p.id .ArrowUp = some q.id := by
  refine key_beside hgrid rfl hp hpat hq hqat (by ring) (by push_cast; ring)
    (by decide : 0 < stepAlong _ 0 (-1)) fun dx dy hfar hle => ?_
  rw [(by decide : stepScore ⟨0, -1⟩ 0 (-1) = 124)] at hle
  simp only [stepScore, stepAlong] at hfar hle
  rcases abs_cases (310 * dx * -1 + 124 * dy * 0) with ⟨habs, hsign⟩ | ⟨habs, hsign⟩ <;> omega

theorem key_down (hgrid : Grid (finitePoints points)) (hp : p ∈ finitePoints points)
    (hpat : p.At column row) (hq : q ∈ finitePoints points) (hqat : q.At column (row + 1)) :
    findNextNodeId points p.id .ArrowDown = some q.id := by
  refine key_beside hgrid rfl hp hpat hq hqat (by ring) (by push_cast; ring)
    (by decide : 0 < stepAlong _ 0 1) fun dx dy hfar hle => ?_
  rw [(by decide : stepScore ⟨0, 1⟩ 0 1 = 124)] at hle
  simp only [stepScore, stepAlong] at hfar hle
  rcases abs_cases (310 * dx * 1 + 124 * dy * 0) with ⟨habs, hsign⟩ | ⟨habs, hsign⟩ <;> omega

theorem key_left (hgrid : Grid (finitePoints points)) (hp : p ∈ finitePoints points)
    (hpat : p.At (column + 1) row) (hq : q ∈ finitePoints points) (hqat : q.At column row) :
    findNextNodeId points p.id .ArrowLeft = some q.id := by
  refine key_beside hgrid rfl hp hpat hq hqat (by push_cast; ring) (by ring)
    (by decide : 0 < stepAlong _ (-1) 0) fun dx dy hfar hle => ?_
  rw [(by decide : stepScore ⟨-1, 0⟩ (-1) 0 = 310)] at hle
  simp only [stepScore, stepAlong] at hfar hle
  rcases abs_cases (310 * dx * 0 + 124 * dy * -1) with ⟨habs, hsign⟩ | ⟨habs, hsign⟩ <;> omega

theorem key_right (hgrid : Grid (finitePoints points)) (hp : p ∈ finitePoints points)
    (hpat : p.At column row) (hq : q ∈ finitePoints points) (hqat : q.At (column + 1) row) :
    findNextNodeId points p.id .ArrowRight = some q.id := by
  refine key_beside hgrid rfl hp hpat hq hqat (by push_cast; ring) (by ring)
    (by decide : 0 < stepAlong _ 1 0) fun dx dy hfar hle => ?_
  rw [(by decide : stepScore ⟨1, 0⟩ 1 0 = 310)] at hle
  simp only [stepScore, stepAlong] at hfar hle
  rcases abs_cases (310 * dx * 0 + 124 * dy * 1) with ⟨habs, hsign⟩ | ⟨habs, hsign⟩ <;> omega

end Keys

/-! ## Walks over a grid -/

section Walks

variable {graph : SanitizedGraph} {p q : FinitePoint} {column row : ℕ}

theorem press_of_next {focus key next : String} {k : NavigationKey}
    (hkey : isNavigationKey key = some k)
    (h : findNextNodeId (graphPoints graph) focus k = some next) :
    press graph focus key = next := by
  simp [press, handleGraphKeyDown, hkey, h]

theorem walk_up (hgrid : Grid (finitePoints (graphPoints graph)))
    (hp : p ∈ finitePoints (graphPoints graph)) (hpat : p.At column row) :
    ∃ q ∈ finitePoints (graphPoints graph), q.At column 0 ∧
      (List.replicate row "ArrowUp").foldl (press graph) p.id = q.id := by
  induction row generalizing p with
  | zero => exact ⟨p, hp, hpat, rfl⟩
  | succ row ih =>
      rcases hgrid.above p hp column row hpat with ⟨next, hnext, hat⟩
      rcases ih hnext hat with ⟨q, hq, hqat, hwalk⟩
      refine ⟨q, hq, hqat, ?_⟩
      rw [List.replicate_succ, List.foldl_cons,
        press_of_next rfl (key_up hgrid hp hpat hnext hat), hwalk]

theorem walk_down (hgrid : Grid (finitePoints (graphPoints graph)))
    (hp : p ∈ finitePoints (graphPoints graph)) (hpat : p.At column 0)
    (hq : q ∈ finitePoints (graphPoints graph)) (hqat : q.At column row) :
    (List.replicate row "ArrowDown").foldl (press graph) p.id = q.id := by
  induction row generalizing q with
  | zero => rw [hgrid.apart p hp q hq column 0 hpat hqat, List.replicate_zero, List.foldl_nil]
  | succ row ih =>
      rcases hgrid.above q hq column row hqat with ⟨last, hlast, hat⟩
      rw [List.replicate_succ', List.foldl_append, ih hlast hat, List.foldl_cons, List.foldl_nil,
        press_of_next rfl (key_down hgrid hlast hat hq hqat)]

theorem walk_left (hgrid : Grid (finitePoints (graphPoints graph))) {columns : ℕ}
    (hp : p ∈ finitePoints (graphPoints graph)) (hpat : p.At (column + columns) 0)
    (hq : q ∈ finitePoints (graphPoints graph)) (hqat : q.At column 0) :
    (List.replicate columns "ArrowLeft").foldl (press graph) p.id = q.id := by
  induction columns generalizing p with
  | zero => rw [hgrid.apart p hp q hq column 0 hpat hqat, List.replicate_zero, List.foldl_nil]
  | succ columns ih =>
      rcases hgrid.before p hp (column + columns) 0 hpat with ⟨next, hnext, hat⟩
      rw [List.replicate_succ, List.foldl_cons,
        press_of_next rfl (key_left hgrid hp hpat hnext hat), ih hnext hat]

theorem walk_right (hgrid : Grid (finitePoints (graphPoints graph))) {columns : ℕ}
    (hp : p ∈ finitePoints (graphPoints graph)) (hpat : p.At column 0)
    (hq : q ∈ finitePoints (graphPoints graph)) (hqat : q.At (column + columns) 0) :
    (List.replicate columns "ArrowRight").foldl (press graph) p.id = q.id := by
  induction columns generalizing q with
  | zero => rw [hgrid.apart p hp q hq column 0 hpat hqat, List.replicate_zero, List.foldl_nil]
  | succ columns ih =>
      rcases hgrid.before q hq (column + columns) 0 hqat with ⟨last, hlast, hat⟩
      rw [List.replicate_succ', List.foldl_append, ih hlast hat, List.foldl_cons, List.foldl_nil,
        press_of_next rfl (key_right hgrid hlast hat hq hqat)]

/-- Up to the first row, along it, and down. -/
theorem walk (hgrid : Grid (finitePoints (graphPoints graph)))
    (hp : p ∈ finitePoints (graphPoints graph)) (hq : q ∈ finitePoints (graphPoints graph)) :
    ∃ ups aside downs, ∃ side ∈ ["ArrowLeft", "ArrowRight"],
      (List.replicate ups "ArrowUp" ++ List.replicate aside side ++
        List.replicate downs "ArrowDown").foldl (press graph) p.id = q.id := by
  rcases hgrid.cell p hp with ⟨column, row, hpat⟩
  rcases hgrid.cell q hq with ⟨column', row', hqat⟩
  rcases walk_up hgrid hp hpat with ⟨top, htop, htopat, hup⟩
  rcases walk_up hgrid hq hqat with ⟨top', htop', htopat', -⟩
  have hdown := walk_down hgrid htop' htopat' hq hqat
  rcases Nat.le_total column' column with hle | hle
  · rcases Nat.exists_eq_add_of_le hle with ⟨columns, rfl⟩
    refine ⟨row, columns, row', "ArrowLeft", by simp, ?_⟩
    rw [List.foldl_append, List.foldl_append, hup, walk_left hgrid htop htopat htop' htopat', hdown]
  · rcases Nat.exists_eq_add_of_le hle with ⟨columns, rfl⟩
    refine ⟨row, columns, row', "ArrowRight", by simp, ?_⟩
    rw [List.foldl_append, List.foldl_append, hup, walk_right hgrid htop htopat htop' htopat', hdown]

end Walks

/-! ## Layouts are grids -/

section Layout

variable {nodes : List TopologyGraphNode} {edges : List TopologyGraphEdge}

/-- The rows of a column are used from the first on. -/
def Counted (placing : Placing) : Prop :=
  ∀ column, ∀ row < placing.rowInLayer column,
    ∃ id, (id, gridPosition column row) ∈ placing.positions

theorem Counted.place {placing : Placing} (h : Counted placing) {node : TopologyGraphNode}
    (hnone : node.position = none) (hid : node.id ∉ placing.positions.map Prod.fst) (layer : ℕ) :
    Counted (placing.place node layer) := by
  simp only [Placing.place, hnone, Positions.set_new hid]
  intro column row hrow
  change row < Function.update placing.rowInLayer layer _ column at hrow
  by_cases hcolumn : column = layer
  · subst hcolumn
    rw [Function.update_self] at hrow
    rcases Nat.lt_succ_iff_lt_or_eq.mp hrow with hlt | rfl
    · rcases h column row hlt with ⟨id, hmem⟩
      exact ⟨id, List.mem_append_left _ hmem⟩
    · exact ⟨node.id, List.mem_append_right _ (List.mem_singleton.mpr rfl)⟩
  · rw [Function.update_of_ne hcolumn] at hrow
    rcases h column row hrow with ⟨id, hmem⟩
    exact ⟨id, List.mem_append_left _ hmem⟩

theorem counted_foldl {unique : List TopologyGraphNode} {layer : Fin unique.length → ℕ}
    (hnodup : (unique.map (·.id)).Nodup) (hnone : ∀ node ∈ unique, node.position = none) :
    Counted ((List.finRange unique.length).foldl
      (fun placing i => Placing.place placing (unique.get i) (layer i)) {}) := by
  have hids : ((List.finRange unique.length).map (fun i => (unique.get i).id)).Nodup := by
    refine (List.nodup_finRange _).map_on fun i _ j _ hij => ?_
    exact (List.nodup_iff_injective_get.mp (List.Nodup.of_map _ hnodup)) (List.inj_on_of_nodup_map
      hnodup (List.get_mem unique i) (List.get_mem unique j) hij)
  have hfold : ∀ indices : List (Fin unique.length),
      (indices.map (fun i => (unique.get i).id)).Nodup →
        Placed unique layer indices (indices.foldl
          (fun placing i => Placing.place placing (unique.get i) (layer i)) {}) ∧
        Counted (indices.foldl
          (fun placing i => Placing.place placing (unique.get i) (layer i)) {}) := by
    intro indices
    induction indices using List.reverseRecOn with
    | nil =>
        intro _
        refine ⟨⟨rfl, by simp, by simp, by simp, fun _ => List.nodup_nil⟩, ?_⟩
        intro column row hrow
        exact absurd hrow (Nat.not_lt_zero row)
    | append_singleton indices i ih =>
        intro hnodup
        rw [List.map_append] at hnodup
        rcases List.nodup_append.mp hnodup with ⟨hbefore, -, hnew⟩
        rcases ih hbefore with ⟨hplaced, hcounted⟩
        have hid : (unique.get i).id ∉ indices.map fun i => (unique.get i).id := by
          intro hmem
          exact hnew _ hmem _ (List.mem_singleton.mpr rfl) rfl
        rw [List.foldl_append, List.foldl_cons, List.foldl_nil]
        exact ⟨hplaced.place hid, hcounted.place (hnone _ (List.get_mem unique i))
          (by rwa [hplaced.ids]) _⟩
  exact (hfold _ hids).2

/-- The entries of a layout without explicit positions. -/
theorem layout_entry (hnone : ∀ node ∈ uniqueNodes nodes, node.position = none) {id : String}
    {position : Position} (h : (id, position) ∈ computeGraphLayout nodes edges) :
    ∃ i : Fin (uniqueNodes nodes).length, ((uniqueNodes nodes).get i).id = id ∧ ∃ row,
      position = gridPosition (layersOf (dfs (linksOf (uniqueNodes nodes) edges)) i) row := by
  have hid : id ∈ (computeGraphLayout nodes edges).map Prod.fst := List.mem_map_of_mem h
  rw [(layout_ids nodes edges).1] at hid
  rcases List.mem_map.mp hid with ⟨node, hnode, rfl⟩
  rcases List.get_of_mem hnode with ⟨i, rfl⟩
  rcases (layout_layers hnone).2 i with ⟨row, hrow⟩
  exact ⟨i, rfl, row, layout_eq h hrow⟩

theorem layout_above (hnone : ∀ node ∈ uniqueNodes nodes, node.position = none) {id : String}
    {column row row' : ℕ} (h : (id, gridPosition column row) ∈ computeGraphLayout nodes edges)
    (hle : row' ≤ row) : ∃ id', (id', gridPosition column row') ∈ computeGraphLayout nodes edges := by
  rcases layout_entry hnone h with ⟨i, -⟩
  have hnode := List.get_mem (uniqueNodes nodes) i
  have hnone' : ∀ i : Fin (uniqueNodes nodes).length, ((uniqueNodes nodes).get i).position = none :=
    fun i => hnone _ (List.get_mem _ i)
  have hplaced := @placed_foldl (uniqueNodes nodes)
    (layersOf (dfs (linksOf (uniqueNodes nodes) edges))) (uniqueNodes_ids nodes).1
  have hcounted := @counted_foldl (uniqueNodes nodes)
    (layersOf (dfs (linksOf (uniqueNodes nodes) edges))) (uniqueNodes_ids nodes).1 hnone
  rw [layout_of_unpositioned hnode (hnone _ hnode)] at h ⊢
  rcases hplaced.below (fun i _ => hnone' i) _ h with ⟨column', row'', hlt, heq⟩
  rcases gridPosition_inj heq with ⟨rfl, rfl⟩
  exact hcounted column row' (Nat.lt_of_le_of_lt hle hlt)

/-- Before a column that is used there is one that is used. -/
theorem layout_before (hnone : ∀ node ∈ uniqueNodes nodes, node.position = none) {id : String}
    {column row : ℕ} (h : (id, gridPosition (column + 1) row) ∈ computeGraphLayout nodes edges) :
    ∃ id', (id', gridPosition column 0) ∈ computeGraphLayout nodes edges := by
  have hforest := dfs_forest (linksOf (uniqueNodes nodes) edges)
  rcases hforest.complete (mem_rootsOf _) with ⟨hacyclic, hcounted, -, -⟩
  have hlongest := layersOf_longest hcounted hacyclic
  rcases layout_entry hnone h with ⟨i, -, row', heq⟩
  rcases gridPosition_inj heq with ⟨hlayer, -⟩
  -- a longest path to the node, and the node before it on the path
  rcases (hlongest i).2 with ⟨⟨x, hsteps⟩, -⟩
  rw [← hlayer] at hsteps
  cases hsteps with
  | tail hsteps hedge =>
      rename_i y
      have hle := (hlongest y).2.2 ⟨x, hsteps⟩
      have hlt := (hlongest y).1 i hedge
      have hcolumn : layersOf (dfs (linksOf (uniqueNodes nodes) edges)) y = column := by omega
      rcases (layout_layers hnone).2 y with ⟨row'', hrow⟩
      rw [hcolumn] at hrow
      exact layout_above hnone hrow (Nat.zero_le _)

variable {graph : SanitizedGraph}

theorem finitePoints_graph : finitePoints (graphPoints graph) = graph.nodes.map fun n =>
    let p := (((computeGraphLayout graph.nodes graph.edges).lookup n.id).or n.position).getD ⟨0, 0⟩
    ⟨n.id, p.x, p.y⟩ := by
  unfold finitePoints graphPoints
  rw [List.filterMap_map]
  exact List.filterMap_eq_map_iff_forall_eq_some.mpr fun n _ => rfl

theorem mem_points {p : FinitePoint} : p ∈ finitePoints (graphPoints graph) ↔
    (p.id, ⟨p.x, p.y⟩) ∈ computeGraphLayout graph.nodes graph.edges := by
  have hids := (layout_ids graph.nodes graph.edges).1
  rcases uniqueNodes_ids graph.nodes with ⟨hnodup, hmem⟩
  have hlookup : ∀ {id : String} {position : Position},
      (id, position) ∈ computeGraphLayout graph.nodes graph.edges →
        (computeGraphLayout graph.nodes graph.edges).lookup id = some position := by
    intro id position h
    rcases List.append_of_mem h with ⟨before, after, hsplit⟩
    refine List.lookup_eq_some_iff.mpr ⟨before, after, hsplit, fun entry hentry => ?_⟩
    rw [← hids, hsplit, List.map_append, List.map_cons] at hnodup
    have hne := (List.nodup_append.mp hnodup).2.2 entry.1 (List.mem_map_of_mem hentry) id
      List.mem_cons_self
    simpa using Ne.symm hne
  rw [finitePoints_graph, List.mem_map]
  constructor
  · rintro ⟨n, hn, rfl⟩
    have hid : n.id ∈ (computeGraphLayout graph.nodes graph.edges).map Prod.fst := by
      rw [hids]
      exact (hmem n.id).mpr (List.mem_map_of_mem hn)
    rcases List.mem_map.mp hid with ⟨⟨id, position⟩, hentry, rfl⟩
    rwa [hlookup hentry]
  · intro h
    have hid : p.id ∈ graph.nodes.map (·.id) := by
      rw [← hmem, ← hids]
      exact List.mem_map_of_mem h
    rcases List.mem_map.mp hid with ⟨n, hn, hnid⟩
    refine ⟨n, hn, ?_⟩
    rw [hnid, hlookup h]
    rfl

theorem layout_grid (hnodup : (graph.nodes.map (·.id)).Nodup)
    (hnone : ∀ node ∈ graph.nodes, node.position = none) :
    Grid (finitePoints (graphPoints graph)) := by
  have hnone' : ∀ node ∈ uniqueNodes graph.nodes, node.position = none := by
    intro node hnode
    exact hnone node (List.mem_of_find?_eq_some (mem_uniqueNodes.mp hnode))
  have hplace : ∀ {id column row},
      (id, gridPosition column row) ∈ computeGraphLayout graph.nodes graph.edges →
        ∃ q ∈ finitePoints (graphPoints graph), q.At column row := by
    intro id column row h
    exact ⟨⟨id, _, _⟩, mem_points.mpr h, rfl⟩
  refine ⟨?_, fun p hp => ?_, fun p hp q hq column row hpat hqat => ?_,
    fun p hp column row hpat => ?_, fun p hp column row hpat => ?_⟩
  · rw [finitePoints_graph, List.map_map]
    exact hnodup
  · rcases layout_entry hnone' (mem_points.mp hp) with ⟨i, -, row, hrow⟩
    exact ⟨_, row, hrow⟩
  · have hp' := mem_points.mp hp
    have hq' := mem_points.mp hq
    rw [hpat] at hp'
    rw [hqat] at hq'
    have hentry := List.inj_on_of_nodup_map (layout_layers hnone').1 hp' hq' rfl
    rcases Position.mk.inj (hpat.trans hqat.symm) with ⟨hx, hy⟩
    cases p
    cases q
    simp_all
  · have hp' := mem_points.mp hp
    rw [hpat] at hp'
    rcases layout_above hnone' hp' (Nat.le_succ row) with ⟨id, h⟩
    exact hplace h
  · have hp' := mem_points.mp hp
    rw [hpat] at hp'
    rcases layout_before hnone' hp' with ⟨id, h⟩
    exact hplace h

/-- In a graph without explicit positions every node is reached from the one that the tabulator
key stops at, which is the active node if there is one: up, along the first row, and down. -/
theorem keyboard_reaches (hnone : ∀ node ∈ nodes, node.position = none)
    (active selected : Option String) {id : String} (hid : id ∈ nodes.map (·.id)) :
    ∃ start, resolveActiveNodeId ((sanitizeGraph nodes edges).nodes.map (·.id)) active selected =
        some start ∧
      (∀ a ∈ active, a ∈ nodes.map (·.id) → start = a) ∧
      ∃ ups aside downs, ∃ side ∈ ["ArrowLeft", "ArrowRight"],
        (List.replicate ups "ArrowUp" ++ List.replicate aside side ++
          List.replicate downs "ArrowDown").foldl (press (sanitizeGraph nodes edges)) start =
            id := by
  rcases uniqueNodes_ids nodes with ⟨hnodup, hmem⟩
  have hnodes := sanitizeGraph_nodes nodes edges
  have hgrid : Grid (finitePoints (graphPoints (sanitizeGraph nodes edges))) := by
    refine layout_grid (hnodes ▸ hnodup) fun node hnode => ?_
    rw [hnodes] at hnode
    exact hnone node (List.mem_of_find?_eq_some (mem_uniqueNodes.mp hnode))
  have hpoint : ∀ {a : String}, a ∈ (sanitizeGraph nodes edges).nodes.map (·.id) →
      ∃ p ∈ finitePoints (graphPoints (sanitizeGraph nodes edges)), p.id = a := by
    intro a ha
    rcases List.mem_map.mp ha with ⟨n, hn, rfl⟩
    rw [finitePoints_graph]
    exact ⟨_, List.mem_map_of_mem hn, rfl⟩
  have hmem' : ∀ a, a ∈ (sanitizeGraph nodes edges).nodes.map (·.id) ↔ a ∈ nodes.map (·.id) := by
    rw [hnodes]
    exact hmem
  -- the tabulator key stops at a node
  have hstart : ∃ start ∈ (sanitizeGraph nodes edges).nodes.map (·.id),
      resolveActiveNodeId ((sanitizeGraph nodes edges).nodes.map (·.id)) active selected =
        some start ∧ ∀ a ∈ active, a ∈ nodes.map (·.id) → start = a := by
    unfold resolveActiveNodeId
    split_ifs with hactive hselected
    · rcases (Option.any_eq_true _ _).mp hactive with ⟨a, rfl, ha⟩
      exact ⟨a, of_decide_eq_true ha, rfl, fun b hb _ => Option.some.inj hb⟩
    · rcases (Option.any_eq_true _ _).mp hselected with ⟨s, rfl, hs⟩
      refine ⟨s, of_decide_eq_true hs, rfl, fun a ha hin => absurd ?_ hactive⟩
      exact (Option.any_eq_true _ _).mpr ⟨a, ha, decide_eq_true ((hmem' a).mpr hin)⟩
    · cases hids : (sanitizeGraph nodes edges).nodes.map (·.id) with
      | nil => exact absurd ((hmem' id).mpr hid) (hids ▸ List.not_mem_nil)
      | cons first rest =>
          refine ⟨first, List.mem_cons_self, rfl, fun a ha hin => absurd ?_ hactive⟩
          exact (Option.any_eq_true _ _).mpr ⟨a, ha, decide_eq_true ((hmem' a).mpr hin)⟩
  rcases hstart with ⟨start, hin, hresolve, hactive⟩
  rcases hpoint hin with ⟨p, hp, rfl⟩
  rcases hpoint ((hmem' id).mpr hid) with ⟨q, hq, rfl⟩
  exact ⟨p.id, hresolve, hactive, walk hgrid hp hq⟩

theorem keyboard_reaches_sample : ∃ start,
    resolveActiveNodeId ((sanitizeGraph sampleNodes sampleEdges).nodes.map (·.id)) none none =
        some start ∧
      ∃ keys : List String,
        keys.foldl (press (sanitizeGraph sampleNodes sampleEdges)) start = "b" := by
  rcases @keyboard_reaches sampleNodes sampleEdges (by decide) none none "b" (by decide) with
    ⟨start, hstart, -, ups, aside, downs, side, -, hwalk⟩
  exact ⟨start, hstart, _, hwalk⟩

end Layout

end Web
