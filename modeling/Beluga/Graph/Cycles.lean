import Mathlib.Data.List.Chain
import Beluga.Graph.Walk

/-! # Walks and searches without fuel

The recursions of `Walk.lean` as they are written: a run of the recursion is a
derivation, and that there is one is that the recursion ends.

* `walks_walk`, `searches_search`: with fuel for the nodes that are left, the function
  computes what the run returns;
* `Walks.unique`: no other result is possible;
* `loops_findCycle`: a reported cycle is a walk that comes back to where it was.
-/

namespace Graph

variable {α : Type} [DecidableEq α] {succ : α → List α}

/-! ## The walk -/

/-- The walk from each of `xs`, with `seen` seen before, ends with `out` seen. -/
inductive Walks (succ : α → List α) : List α → List α → List α → Prop
  | nil (seen : List α) : Walks succ seen [] seen
  | skip {seen xs out : List α} {x : α} (hseen : x ∈ seen) (hrest : Walks succ seen xs out) :
      Walks succ seen (x :: xs) out
  | enter {seen xs mid out : List α} {x : α} (hnew : x ∉ seen)
      (hbelow : Walks succ (seen ++ [x]) (succ x) mid) (hrest : Walks succ mid xs out) :
      Walks succ seen (x :: xs) out

omit [DecidableEq α] in
theorem Walks.unique {seen xs out out' : List α} (h : Walks succ seen xs out)
    (h' : Walks succ seen xs out') : out = out' := by
  induction h generalizing out' with
  | nil seen =>
      cases h'
      rfl
  | skip hseen _ ih =>
      cases h' with
      | skip _ hrest' => exact ih hrest'
      | enter hnew' _ _ => exact absurd hseen hnew'
  | enter hnew _ _ ihbelow ihrest =>
      cases h' with
      | skip hseen' _ => exact absurd hseen' hnew
      | enter _ hbelow' hrest' =>
          -- the same below `x`, so the rest starts from the same nodes
          have hmid := ihbelow hbelow'
          subst hmid
          exact ihrest hrest'

omit [DecidableEq α] in
/-- A walk from `x` first and from `xs` then is a walk from all of them. -/
theorem Walks.cons {seen xs mid out : List α} {x : α} (h : Walks succ seen [x] mid)
    (hrest : Walks succ mid xs out) : Walks succ seen (x :: xs) out := by
  cases h with
  | skip hseen hnil =>
      cases hnil
      exact .skip hseen hrest
  | enter hnew hbelow hnil =>
      cases hnil
      exact .enter hnew hbelow hrest

theorem walks_foldl {nodes : List α} (hwithin : Within succ nodes) {fuel : Nat}
    (ih : ∀ seen x, x ∈ nodes → left nodes seen < fuel →
      Walks succ seen [x] (walk succ fuel seen x))
    (xs seen : List α) (hxs : xs ⊆ nodes) (hfuel : left nodes seen < fuel) :
    Walks succ seen xs (xs.foldl (walk succ fuel) seen) := by
  induction xs generalizing seen with
  | nil => exact .nil seen
  | cons x xs ihxs =>
      have hx := List.cons_subset.mp hxs
      have hkeeps := (visits_walk hwithin fuel seen x hx.1 hfuel).keeps
      have hless : left nodes (walk succ fuel seen x) < fuel :=
        Nat.lt_of_le_of_lt (left_mono hkeeps) hfuel
      exact (ih seen x hx.1 hfuel).cons (ihxs (walk succ fuel seen x) hx.2 hless)

/-- With fuel for the nodes that are left, the walk ends, with the nodes that `walk` computes. -/
theorem walks_walk {nodes : List α} (hwithin : Within succ nodes) (fuel : Nat) (seen : List α)
    (x : α) (hx : x ∈ nodes) (hfuel : left nodes seen < fuel) :
    Walks succ seen [x] (walk succ fuel seen x) := by
  induction fuel generalizing seen x with
  | zero => omega
  | succ fuel ih =>
      unfold walk
      split_ifs with hseen
      · exact .skip hseen (.nil seen)
      · -- `x` is new: one node less is left for its successors
        have hleft : left nodes (seen ++ [x]) < fuel := by
          have := left_add hx hseen
          omega
        exact .enter hseen (walks_foldl hwithin ih (succ x) (seen ++ [x]) (hwithin x hx) hleft)
          (.nil _)

/-! ## The search -/

/-- The search from each of `xs`, to which `path` leads, ends and makes `st'` of `st`. -/
inductive Searches (succ : α → List α) : List α → Colours α → List α → Colours α → Prop
  | nil (path : List α) (st : Colours α) : Searches succ path st [] st
  | found {path xs : List α} {st st' : Colours α} {x : α} (hcycle : st.cycle.isSome)
      (hrest : Searches succ path st xs st') : Searches succ path st (x :: xs) st'
  | close {path xs : List α} {st st' : Colours α} {x : α} (hcycle : ¬ st.cycle.isSome)
      (hvisiting : x ∈ st.visiting)
      (hrest : Searches succ path { st with cycle := some (path ++ [x]) } xs st') :
      Searches succ path st (x :: xs) st'
  | skip {path xs : List α} {st st' : Colours α} {x : α} (hcycle : ¬ st.cycle.isSome)
      (hvisiting : x ∉ st.visiting) (hdone : x ∈ st.done)
      (hrest : Searches succ path st xs st') : Searches succ path st (x :: xs) st'
  | enter {path xs : List α} {st mid st' : Colours α} {x : α} (hcycle : ¬ st.cycle.isSome)
      (hvisiting : x ∉ st.visiting) (hdone : x ∉ st.done)
      (hbelow : Searches succ (path ++ [x]) { st with visiting := x :: st.visiting } (succ x) mid)
      (hrest : Searches succ path
        { mid with visiting := mid.visiting.erase x, done := x :: mid.done } xs st') :
      Searches succ path st (x :: xs) st'

theorem Searches.cons {path xs : List α} {st mid st' : Colours α} {x : α}
    (h : Searches succ path st [x] mid) (hrest : Searches succ path mid xs st') :
    Searches succ path st (x :: xs) st' := by
  cases h with
  | found hcycle hnil =>
      cases hnil
      exact .found hcycle hrest
  | close hcycle hvisiting hnil =>
      cases hnil
      exact .close hcycle hvisiting hrest
  | skip hcycle hvisiting hdone hnil =>
      cases hnil
      exact .skip hcycle hvisiting hdone hrest
  | enter hcycle hvisiting hdone hbelow hnil =>
      cases hnil
      exact .enter hcycle hvisiting hdone hbelow hrest

theorem searches_foldl {nodes : List α} {fuel : Nat} {path : List α}
    (ih : ∀ st x, x ∈ nodes → st.visiting.Nodup → st.visiting ⊆ nodes →
      nodes.length < fuel + st.visiting.length →
      Searches succ path st [x] (search succ fuel path st x))
    (xs : List α) (st : Colours α) (hxs : xs ⊆ nodes) (hnodup : st.visiting.Nodup)
    (hsub : st.visiting ⊆ nodes) (hfuel : nodes.length < fuel + st.visiting.length) :
    Searches succ path st xs (xs.foldl (search succ fuel path) st) := by
  induction xs generalizing st with
  | nil => exact .nil path st
  | cons x xs ihxs =>
      have hx := List.cons_subset.mp hxs
      have hsame : (search succ fuel path st x).visiting = st.visiting :=
        search_visiting fuel path st x
      have hrest := ihxs (search succ fuel path st x) hx.2 (by rwa [hsame]) (by rwa [hsame])
        (by rwa [hsame])
      exact (ih st x hx.1 hnodup hsub hfuel).cons hrest

/-- With fuel for the nodes that are not on the way, the search ends as `search` computes. -/
theorem searches_search {nodes : List α} (hwithin : Within succ nodes) (fuel : Nat)
    (path : List α) (st : Colours α) (x : α) (hx : x ∈ nodes) (hnodup : st.visiting.Nodup)
    (hsub : st.visiting ⊆ nodes) (hfuel : nodes.length < fuel + st.visiting.length) :
    Searches succ path st [x] (search succ fuel path st x) := by
  induction fuel generalizing path st x with
  | zero =>
      -- all nodes cannot be on the way
      have hle := (List.subperm_of_subset hnodup hsub).length_le
      omega
  | succ fuel ih =>
      unfold search
      split_ifs with hcycle hvisiting hdone
      · exact .found hcycle (.nil path st)
      · exact .close hcycle hvisiting (.nil path _)
      · exact .skip hcycle hvisiting hdone (.nil path st)
      · refine .enter hcycle hvisiting hdone ?_ (.nil path _)
        refine searches_foldl (ih (path ++ [x])) (succ x)
          { st with visiting := x :: st.visiting } (hwithin x hx)
          (List.nodup_cons.mpr ⟨hvisiting, hnodup⟩) (List.cons_subset.mpr ⟨hx, hsub⟩) ?_
        simp only [List.length_cons]
        omega

/-- The search from the roots ends, with the cycle that `findCycle` reports. -/
theorem searches_findCycle {nodes roots : List α} (hwithin : Within succ nodes) {fuel : Nat}
    (hroots : roots ⊆ nodes) (hfuel : nodes.length < fuel) :
    ∃ st, Searches succ [] {} roots st ∧ st.cycle = findCycle succ fuel roots := by
  refine ⟨roots.foldl (search succ fuel []) {}, ?_, rfl⟩
  exact searches_foldl (searches_search hwithin fuel []) roots {} hroots List.nodup_nil
    (List.nil_subset _) (by simpa using hfuel)

/-! ## What is reported -/

omit [DecidableEq α] in
/-- A walk along edges whose last node occurs in it before. -/
structure Loops (succ : α → List α) (cycle : List α) : Prop where
  chain : cycle.IsChain (Edge succ)
  back : ∃ way x, cycle = way ++ [x] ∧ x ∈ way

omit [DecidableEq α] in
theorem chain_snoc {path : List α} {x y : α} (h : (path ++ [x]).IsChain (Edge succ))
    (hedge : y ∈ succ x) : (path ++ [x] ++ [y]).IsChain (Edge succ) := by
  rw [List.append_assoc, List.isChain_append]
  rw [List.isChain_append] at h
  refine ⟨h.1, ?_, ?_⟩
  · simpa using hedge
  · intro a ha b hb
    exact h.2.2 a ha b (by simpa using hb)

/-- A cycle that is met at the end of a way is the way and the node it comes back to. -/
theorem loops_search (fuel : Nat) (path : List α) (st : Colours α) (x : α)
    (hpath : st.visiting = path.reverse) (hchain : (path ++ [x]).IsChain (Edge succ))
    (hbefore : ∀ cycle, st.cycle = some cycle → Loops succ cycle) :
    ∀ cycle, (search succ fuel path st x).cycle = some cycle → Loops succ cycle := by
  induction fuel generalizing path st x with
  | zero => exact hbefore
  | succ fuel ih =>
      have hfoldl : ∀ (xs path : List α) (st : Colours α), st.visiting = path.reverse →
          (∀ y ∈ xs, (path ++ [y]).IsChain (Edge succ)) →
          (∀ cycle, st.cycle = some cycle → Loops succ cycle) →
          ∀ cycle, (xs.foldl (search succ fuel path) st).cycle = some cycle → Loops succ cycle := by
        intro xs path
        induction xs with
        | nil => exact fun _ _ _ h => h
        | cons y ys ihys =>
            intro st hst hys hbefore
            refine ihys (search succ fuel path st y) ?_ ?_ ?_
            · rw [search_visiting, hst]
            · exact fun z hz => hys z (List.mem_cons_of_mem _ hz)
            · exact ih path st y hst (hys y List.mem_cons_self) hbefore
      unfold search
      split_ifs with hcycle hvisiting hdone
      · exact hbefore
      · -- the way has come back to `x`
        intro cycle hsome
        have heq : path ++ [x] = cycle := Option.some.inj hsome
        subst heq
        rw [hpath, List.mem_reverse] at hvisiting
        exact ⟨hchain, path, x, rfl, hvisiting⟩
      · exact hbefore
      · apply hfoldl (succ x) (path ++ [x]) { st with visiting := x :: st.visiting }
        · simp [hpath]
        · exact fun y hy => chain_snoc hchain hy
        · exact hbefore

/-- A reported cycle is a walk that comes back to where it was. -/
theorem loops_findCycle {fuel : Nat} {roots cycle : List α}
    (h : findCycle succ fuel roots = some cycle) : Loops succ cycle := by
  have hfoldl : ∀ (xs : List α) (st : Colours α), st.visiting = [] →
      (∀ cycle, st.cycle = some cycle → Loops succ cycle) →
      ∀ cycle, (xs.foldl (search succ fuel []) st).cycle = some cycle → Loops succ cycle := by
    intro xs
    induction xs with
    | nil => exact fun _ _ h => h
    | cons x xs ih =>
        intro st hst hbefore
        refine ih (search succ fuel [] st x) (by rw [search_visiting, hst]) ?_
        exact loops_search fuel [] st x hst (by simp) hbefore
  exact hfoldl roots {} rfl (by simp) cycle h

end Graph
