import Mathlib.Data.List.Nodup
import Mathlib.Data.List.Perm.Subperm
import Mathlib.Logic.Relation

/-! # Depth-first walks

A graph is a function from a node to the list of its successors. Two recursions
over it, as they are written in a language without termination checks: both take
fuel, and both results say how much is enough (one more than the nodes there are).

* `mem_walk`: what a walk collects is what is reachable;
* `acyclic_of_findCycle`, `findCycle_of_acyclic`: a three-colour search reports a cycle
  exactly when there is one.
-/

namespace Graph

variable {α : Type} {succ : α → List α}

/-- One edge. -/
abbrev Edge (succ : α → List α) (x y : α) : Prop := y ∈ succ x

/-- Any number of edges. -/
abbrev Reach (succ : α → List α) : α → α → Prop := Relation.ReflTransGen (Edge succ)

/-- All nodes are among `nodes`. -/
def Within (succ : α → List α) (nodes : List α) : Prop := ∀ x ∈ nodes, succ x ⊆ nodes

theorem Within.reach {nodes : List α} (h : Within succ nodes) {x y : α} (hx : x ∈ nodes)
    (hreach : Reach succ x y) : y ∈ nodes := by
  induction hreach with
  | refl => exact hx
  | tail _ hedge ih => exact h _ ih hedge

/-! ## Collecting what is reachable -/

variable [DecidableEq α]

/-- Add `x`, then walk from each of its successors; a node that was seen is skipped. -/
def walk (succ : α → List α) : Nat → List α → α → List α
  | 0, seen, _ => seen
  | fuel + 1, seen, x =>
      if x ∈ seen then seen else (succ x).foldl (walk succ fuel) (seen ++ [x])

/-- What a walk from the nodes `xs` makes of the nodes seen before. -/
structure Visits (succ : α → List α) (seen xs out : List α) : Prop where
  keeps : seen ⊆ out
  starts : xs ⊆ out
  reached : ∀ y ∈ out, y ∈ seen ∨ ∃ x ∈ xs, Reach succ x y
  /-- What was added is closed under edges. -/
  closed : ∀ y ∈ out, y ∉ seen → succ y ⊆ out
  nodup : seen.Nodup → out.Nodup

omit [DecidableEq α] in
theorem Visits.nil (seen : List α) : Visits succ seen [] seen where
  keeps := List.Subset.refl seen
  starts := List.nil_subset seen
  reached _ hy := .inl hy
  closed _ hy hne := absurd hy hne
  nodup h := h

theorem Visits.trans {seen xs ys mid out : List α} (h : Visits succ seen xs mid)
    (h' : Visits succ mid ys out) : Visits succ seen (xs ++ ys) out where
  keeps := List.Subset.trans h.keeps h'.keeps
  starts := List.append_subset.mpr ⟨List.Subset.trans h.starts h'.keeps, h'.starts⟩
  reached y hy := by
    rcases h'.reached y hy with hy | ⟨x, hx, hreach⟩
    · rcases h.reached y hy with hy | ⟨x, hx, hreach⟩
      · exact .inl hy
      · exact .inr ⟨x, List.mem_append_left _ hx, hreach⟩
    · exact .inr ⟨x, List.mem_append_right _ hx, hreach⟩
  closed y hy hne := by
    by_cases hmid : y ∈ mid
    · exact List.Subset.trans (h.closed y hmid hne) h'.keeps
    · exact h'.closed y hy hmid
  nodup hseen := h'.nodup (h.nodup hseen)

/-- The nodes that are left. -/
def left (nodes seen : List α) : Nat := (nodes.filter (· ∉ seen)).length

theorem left_append (nodes nodes' seen : List α) :
    left (nodes ++ nodes') seen = left nodes seen + left nodes' seen := by
  simp [left]

theorem left_mono {nodes seen seen' : List α} (h : seen ⊆ seen') :
    left nodes seen' ≤ left nodes seen := by
  refine (List.monotone_filter_right nodes fun x hx => ?_).length_le
  simp only [decide_eq_true_eq] at hx ⊢
  exact fun hmem => hx (h hmem)

theorem left_add {nodes seen : List α} {x : α} (hx : x ∈ nodes) (hne : x ∉ seen) :
    left nodes (seen ++ [x]) < left nodes seen := by
  obtain ⟨before, after, rfl⟩ := List.append_of_mem hx
  have hbefore : left before (seen ++ [x]) ≤ left before seen :=
    left_mono (List.subset_append_left _ _)
  have hafter : left after (seen ++ [x]) ≤ left after seen :=
    left_mono (List.subset_append_left _ _)
  have hcounted : left [x] seen = 1 := by simp [left, hne]
  have hgone : left [x] (seen ++ [x]) = 0 := by simp [left]
  rw [← List.singleton_append, left_append, left_append, left_append, left_append]
  omega

theorem visits_foldl {nodes : List α} {fuel : Nat}
    (ih : ∀ seen x, x ∈ nodes → left nodes seen < fuel →
      Visits succ seen [x] (walk succ fuel seen x))
    (xs seen : List α) (hxs : xs ⊆ nodes) (hfuel : left nodes seen < fuel) :
    Visits succ seen xs (xs.foldl (walk succ fuel) seen) := by
  induction xs generalizing seen with
  | nil => exact .nil seen
  | cons x xs ihxs =>
      have hx := ih seen x (hxs List.mem_cons_self) hfuel
      have hrest := ihxs (walk succ fuel seen x) (List.cons_subset.mp hxs).2
        (Nat.lt_of_le_of_lt (left_mono hx.keeps) hfuel)
      exact hx.trans hrest

/-- With fuel for the nodes that are left, a walk visits from `x`. -/
theorem visits_walk {nodes : List α} (hwithin : Within succ nodes) (fuel : Nat) (seen : List α)
    (x : α) (hx : x ∈ nodes) (hfuel : left nodes seen < fuel) :
    Visits succ seen [x] (walk succ fuel seen x) := by
  induction fuel generalizing seen x with
  | zero => omega
  | succ fuel ih =>
      unfold walk
      split_ifs with hseen
      · -- seen before
        refine ⟨List.Subset.refl _, by simpa using hseen, fun y hy => .inl hy, ?_, fun h => h⟩
        exact fun y hy hne => absurd hy hne
      · have hleft : left nodes (seen ++ [x]) < fuel := by
          have := left_add hx hseen
          omega
        have hrest := visits_foldl ih (succ x) (seen ++ [x]) (hwithin x hx) hleft
        refine ⟨List.Subset.trans (List.subset_append_left _ _) hrest.keeps, ?_, ?_, ?_, ?_⟩
        · exact List.cons_subset.mpr ⟨hrest.keeps (by simp), List.nil_subset _⟩
        · intro y hy
          rcases hrest.reached y hy with hy | ⟨z, hz, hreach⟩
          · rcases List.mem_append.mp hy with hy | hy
            · exact .inl hy
            · exact .inr ⟨x, by simp, by rw [List.mem_singleton.mp hy]⟩
          · exact .inr ⟨x, by simp, .head hz hreach⟩
        · intro y hy hne
          by_cases hyx : y = x
          · rw [hyx]
            exact hrest.starts
          · exact hrest.closed y hy (by simp [hne, hyx])
        · intro hnodup
          refine hrest.nodup (List.Nodup.append hnodup (by simp) ?_)
          simpa using hseen

theorem left_nil_lt {nodes : List α} {fuel : Nat} (hfuel : nodes.length < fuel) :
    left nodes [] < fuel :=
  Nat.lt_of_le_of_lt (List.length_filter_le _ _) hfuel

/-- A walk from nothing collects what is reachable. -/
theorem mem_walk {nodes : List α} (hwithin : Within succ nodes) {fuel : Nat} {x y : α}
    (hx : x ∈ nodes) (hfuel : nodes.length < fuel) :
    y ∈ walk succ fuel [] x ↔ Reach succ x y := by
  have hvisits := visits_walk hwithin fuel [] x hx (left_nil_lt hfuel)
  constructor
  · intro hy
    rcases hvisits.reached y hy with hy | ⟨x', hx', hreach⟩
    · cases hy
    · rwa [← List.mem_singleton.mp hx']
  · intro hreach
    induction hreach with
    | refl => exact hvisits.starts (by simp)
    | tail _ hedge ih => exact hvisits.closed _ ih List.not_mem_nil hedge

/-- A walk collects no node twice. -/
theorem nodup_walk {nodes : List α} (hwithin : Within succ nodes) {fuel : Nat} {x : α}
    (hx : x ∈ nodes) (hfuel : nodes.length < fuel) : (walk succ fuel [] x).Nodup :=
  (visits_walk hwithin fuel [] x hx (left_nil_lt hfuel)).nodup List.nodup_nil

/-! ## Looking for a cycle -/

/-- The nodes on the way to the current one, the nodes that are finished, last
finished first, and the first cycle that was met. -/
structure Colours (α : Type) where
  visiting : List α := []
  done : List α := []
  cycle : Option (List α) := none

/-- Visit `x`, to which `path` leads. -/
def search (succ : α → List α) : Nat → List α → Colours α → α → Colours α
  | 0, _, st, _ => st
  | fuel + 1, path, st, x =>
      if st.cycle.isSome then st
      else if x ∈ st.visiting then { st with cycle := some (path ++ [x]) }
      else if x ∈ st.done then st
      else
        let st' := (succ x).foldl (search succ fuel (path ++ [x]))
          { st with visiting := x :: st.visiting }
        { st' with visiting := st'.visiting.erase x, done := x :: st'.done }

/-- The first cycle that a search from the roots, in order, meets. -/
def findCycle (succ : α → List α) (fuel : Nat) (roots : List α) : Option (List α) :=
  (roots.foldl (search succ fuel []) {}).cycle

omit [DecidableEq α] in
/-- Every successor of a finished node was finished before it. -/
def Ordered (succ : α → List α) (done : List α) : Prop :=
  ∀ l₁ x l₂, done = l₁ ++ x :: l₂ → succ x ⊆ l₂

omit [DecidableEq α] in
theorem Ordered.cons {done : List α} {x : α} (h : Ordered succ done) (hx : succ x ⊆ done) :
    Ordered succ (x :: done) := by
  intro l₁ y l₂ heq
  cases l₁ with
  | nil =>
      obtain ⟨rfl, rfl⟩ := List.cons.inj heq
      exact hx
  | cons z l₁ => exact h l₁ y l₂ (List.cons.inj heq).2

omit [DecidableEq α] in
theorem Ordered.later {done : List α} (h : Ordered succ done) {l₁ l₂ : List α} {x y : α}
    (heq : done = l₁ ++ x :: l₂) (hreach : Relation.TransGen (Edge succ) x y) : y ∈ l₂ := by
  induction hreach with
  | single hedge => exact h l₁ x l₂ heq hedge
  | tail _ hedge ih =>
      obtain ⟨m₁, m₂, rfl⟩ := List.append_of_mem ih
      exact List.mem_append_right _
        (List.mem_cons_of_mem _ (h (l₁ ++ x :: m₁) _ m₂ (by simp [heq]) hedge))

omit [DecidableEq α] in
/-- No finished node lies on a cycle. -/
theorem Ordered.acyclic {done : List α} (h : Ordered succ done) {x : α} (hx : x ∈ done) :
    ¬ Relation.TransGen (Edge succ) x x := by
  intro hcycle
  obtain ⟨l₁, l₂, heq, hlast⟩ := List.eq_append_cons_of_mem (List.mem_reverse.mpr hx)
  have hdone : done = l₂.reverse ++ x :: l₁.reverse := by
    have := congrArg List.reverse heq
    simpa using this
  exact hlast (List.mem_reverse.mp (h.later hdone hcycle))

/-- A search that met no cycle: it finished `xs`, and the rest is as it was. -/
structure Finishes (succ : α → List α) (st : Colours α) (xs : List α) (st' : Colours α) : Prop where
  visiting : st'.visiting = st.visiting
  keeps : st.done ⊆ st'.done
  starts : xs ⊆ st'.done
  ordered : Ordered succ st.done → Ordered succ st'.done

theorem search_cycle {fuel : Nat} {path : List α} {st : Colours α} {x : α}
    (h : st.cycle.isSome) : search succ fuel path st x = st := by
  cases fuel with
  | zero => rfl
  | succ fuel => simp [search, h]

theorem foldl_search_cycle {fuel : Nat} {path : List α} {st : Colours α} {xs : List α}
    (h : st.cycle.isSome) : xs.foldl (search succ fuel path) st = st := by
  induction xs with
  | nil => rfl
  | cons x xs ih => rw [List.foldl_cons, search_cycle h, ih]

/-- A cycle that was met stays. -/
theorem cycle_none_of_foldl {fuel : Nat} {path : List α} {st : Colours α} {xs : List α}
    (h : (xs.foldl (search succ fuel path) st).cycle = none) : st.cycle = none := by
  by_contra hsome
  have hcycle : st.cycle.isSome := Option.isSome_iff_ne_none.mpr hsome
  rw [foldl_search_cycle hcycle] at h
  exact hsome h

theorem finishes_foldl {nodes : List α} {fuel : Nat} {path : List α}
    (ih : ∀ st x, x ∈ nodes → st.visiting.Nodup → st.visiting ⊆ nodes →
      nodes.length < fuel + st.visiting.length → (search succ fuel path st x).cycle = none →
      Finishes succ st [x] (search succ fuel path st x))
    (xs : List α) (st : Colours α) (hxs : xs ⊆ nodes) (hnodup : st.visiting.Nodup)
    (hsub : st.visiting ⊆ nodes) (hfuel : nodes.length < fuel + st.visiting.length)
    (hnone : (xs.foldl (search succ fuel path) st).cycle = none) :
    Finishes succ st xs (xs.foldl (search succ fuel path) st) := by
  induction xs generalizing st with
  | nil => exact ⟨rfl, List.Subset.refl _, List.nil_subset _, fun h => h⟩
  | cons x xs ihxs =>
      have hx := ih st x (hxs List.mem_cons_self) hnodup hsub hfuel (cycle_none_of_foldl hnone)
      have hrest := ihxs (search succ fuel path st x) (List.cons_subset.mp hxs).2
        (by rwa [hx.visiting]) (by rwa [hx.visiting]) (by rwa [hx.visiting]) hnone
      refine ⟨hrest.visiting.trans hx.visiting, List.Subset.trans hx.keeps hrest.keeps, ?_,
        fun h => hrest.ordered (hx.ordered h)⟩
      exact List.cons_subset.mpr ⟨hrest.keeps (hx.starts List.mem_cons_self), hrest.starts⟩

/-- With fuel for the nodes that are not on the way, a search finishes `x` or meets a cycle. -/
theorem finishes_search {nodes : List α} (hwithin : Within succ nodes) (fuel : Nat)
    (path : List α) (st : Colours α) (x : α) (hx : x ∈ nodes) (hnodup : st.visiting.Nodup)
    (hsub : st.visiting ⊆ nodes) (hfuel : nodes.length < fuel + st.visiting.length)
    (hnone : (search succ fuel path st x).cycle = none) :
    Finishes succ st [x] (search succ fuel path st x) := by
  induction fuel generalizing path st x with
  | zero =>
      have hle := (List.subperm_of_subset hnodup hsub).length_le
      omega
  | succ fuel ih =>
      unfold search at hnone ⊢
      split_ifs at hnone ⊢ with hcycle hvisiting hdone
      · exact absurd hnone (Option.isSome_iff_ne_none.mp hcycle)
      · exact ⟨rfl, List.Subset.refl _, by simpa using hdone, fun h => h⟩
      · -- a new node: its successors are finished first
        have hrest := finishes_foldl (ih (path ++ [x])) (succ x)
          { st with visiting := x :: st.visiting } (hwithin x hx)
          (List.nodup_cons.mpr ⟨hvisiting, hnodup⟩) (List.cons_subset.mpr ⟨hx, hsub⟩)
          (by simp only [List.length_cons]; omega) hnone
        refine ⟨?_, List.Subset.trans hrest.keeps (List.subset_cons_self _ _), by simp, fun h => ?_⟩
        · simp [hrest.visiting]
        · exact (hrest.ordered h).cons hrest.starts

/-- No node that is reachable from a root lies on a cycle, if none was found. -/
theorem acyclic_of_findCycle {nodes roots : List α} (hwithin : Within succ nodes) {fuel : Nat}
    (hroots : roots ⊆ nodes) (hfuel : nodes.length < fuel)
    (hnone : findCycle succ fuel roots = none) {x y : α} (hx : x ∈ roots)
    (hreach : Reach succ x y) : ¬ Relation.TransGen (Edge succ) y y := by
  have hfinishes := finishes_foldl (finishes_search hwithin fuel []) roots {} hroots
    List.nodup_nil (List.nil_subset _) (by simpa using hfuel) hnone
  have hordered := hfinishes.ordered fun l₁ z l₂ h => by simp at h
  have hdone : y ∈ (roots.foldl (search succ fuel []) {}).done := by
    induction hreach with
    | refl => exact hfinishes.starts hx
    | tail _ hedge ih =>
        obtain ⟨l₁, l₂, heq⟩ := List.append_of_mem ih
        rw [heq]
        exact List.mem_append_right _ (List.mem_cons_of_mem _ (hordered _ _ _ heq hedge))
  exact hordered.acyclic hdone

/-- A search leaves the way to its node as it was. -/
theorem search_visiting (fuel : Nat) (path : List α) (st : Colours α) (x : α) :
    (search succ fuel path st x).visiting = st.visiting := by
  induction fuel generalizing path st x with
  | zero => rfl
  | succ fuel ih =>
      have hfoldl : ∀ (xs path : List α) (st : Colours α),
          (xs.foldl (search succ fuel path) st).visiting = st.visiting := by
        intro xs path
        induction xs with
        | nil => exact fun _ => rfl
        | cons y ys ihys => exact fun st => (ihys _).trans (ih path st y)
      unfold search
      split_ifs
      · rfl
      · rfl
      · rfl
      · simp [hfoldl]

/-- A cycle that a search meets at the end of a way is one. -/
theorem search_cyclic (fuel : Nat) (path : List α) (st : Colours α) (x : α)
    (hway : ∀ v ∈ st.visiting, Relation.TransGen (Edge succ) v x)
    (h : (search succ fuel path st x).cycle.isSome) :
    st.cycle.isSome ∨ ∃ y, Relation.TransGen (Edge succ) y y := by
  induction fuel generalizing path st x with
  | zero => exact .inl h
  | succ fuel ih =>
      have hfoldl : ∀ (xs path : List α) (st : Colours α),
          (∀ y ∈ xs, ∀ v ∈ st.visiting, Relation.TransGen (Edge succ) v y) →
          (xs.foldl (search succ fuel path) st).cycle.isSome →
          st.cycle.isSome ∨ ∃ y, Relation.TransGen (Edge succ) y y := by
        intro xs path
        induction xs with
        | nil => exact fun _ _ h => .inl h
        | cons y ys ihys =>
            intro st hways h
            rcases ihys (search succ fuel path st y) (fun z hz => by
              rw [search_visiting]
              exact hways z (List.mem_cons_of_mem _ hz)) h with hcycle | hcyclic
            · exact ih path st y (hways y List.mem_cons_self) hcycle
            · exact .inr hcyclic
      unfold search at h
      split_ifs at h with hcycle hvisiting hdone
      · exact .inl hcycle
      · -- the way has come back to `x`
        exact .inr ⟨x, hway x hvisiting⟩
      · exact .inl h
      · refine hfoldl (succ x) (path ++ [x]) { st with visiting := x :: st.visiting } ?_ h
        intro y hy v hv
        rcases List.mem_cons.mp hv with rfl | hv
        · exact .single hy
        · exact (hway v hv).tail hy

/-- Where no node lies on a cycle, none is found. -/
theorem findCycle_of_acyclic {fuel : Nat} {roots : List α}
    (hacyclic : ∀ y, ¬ Relation.TransGen (Edge succ) y y) :
    findCycle succ fuel roots = none := by
  have hnone : ∀ (xs : List α) (st : Colours α), st.visiting = [] → st.cycle = none →
      (xs.foldl (search succ fuel []) st).cycle = none := by
    intro xs
    induction xs with
    | nil => exact fun _ _ h => h
    | cons x xs ih =>
        intro st hvisiting hcycle
        refine ih _ (by rw [search_visiting, hvisiting]) ?_
        by_contra hsome
        rcases search_cyclic fuel [] st x (by simp [hvisiting])
          (Option.isSome_iff_ne_none.mpr hsome) with h | ⟨y, hy⟩
        · simp [hcycle] at h
        · exact hacyclic y hy
  exact hnone roots {} rfl rfl

end Graph
