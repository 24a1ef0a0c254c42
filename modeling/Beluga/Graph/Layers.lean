import Beluga.Graph.Walk
import Mathlib.Algebra.BigOperators.Group.Finset.Basic
import Mathlib.Algebra.Order.BigOperators.Group.Finset
import Mathlib.Data.Fintype.Basic
import Mathlib.Data.Fintype.EquivFin
import Mathlib.Order.Bounds.Basic
import Mathlib.Order.WellFounded

/-! # Layers of a graph without cycles

The layer of a node is the length of the longest path to it. Nodes are taken off a queue
when all edges into them come from nodes that were taken off before.

* `longest_path`: layers that go up along every edge, each by one from some node below, are
  the lengths of longest paths;
* `Layered.take`: what holds while nodes are taken off;
* `Layered.longest`: when the queue is empty, layers are final.
-/

namespace Graph

variable {α : Type} {succ : α → List α}

/-- A path of so many edges. -/
inductive Steps (succ : α → List α) : ℕ → α → α → Prop where
  | refl {x} : Steps succ 0 x x
  | tail {k x y z} : Steps succ k x y → z ∈ succ y → Steps succ (k + 1) x z

theorem longest_path {layer : α → ℕ} (habove : ∀ x, ∀ y ∈ succ x, layer x + 1 ≤ layer y)
    (hbelow : ∀ y, layer y = 0 ∨ ∃ x, y ∈ succ x ∧ layer y = layer x + 1) (y : α) :
    IsGreatest {k | ∃ x, Steps succ k x y} (layer y) := by
  constructor
  · -- going down from `y` one layer at a time
    show ∃ x, Steps succ (layer y) x y
    induction hlayer : layer y generalizing y with
    | zero => exact ⟨y, .refl⟩
    | succ k ih =>
        rcases hbelow y with hzero | ⟨x, hedge, heq⟩
        · omega
        · obtain ⟨w, hw⟩ := ih x (by omega)
          exact ⟨w, hw.tail hedge⟩
  · intro k hk
    obtain ⟨x, hsteps⟩ := hk
    induction hsteps with
    | refl => exact Nat.zero_le _
    | tail _ hedge ih =>
        have hup := habove _ _ hedge
        omega

variable [DecidableEq α]

/-- While nodes are taken off: `todo` were not yet, of which those in the queue may be. -/
structure Layered (succ : α → List α) (todo : Finset α) (queue : List α) (layer : α → ℕ)
    (indeg : α → ℤ) : Prop where
  counted : ∀ y, indeg y = ∑ x ∈ todo, ((succ x).count y : ℤ)
  queued : ∀ y, y ∈ queue ↔ y ∈ todo ∧ indeg y = 0
  nodup : queue.Nodup
  taken : ∀ y, y ∉ todo → indeg y = 0
  above : ∀ x, x ∉ todo → ∀ y ∈ succ x, layer x + 1 ≤ layer y
  below : ∀ y, layer y = 0 ∨ ∃ x, x ∉ todo ∧ y ∈ succ x ∧ layer y = layer x + 1

variable {todo : Finset α} {queue : List α} {layer layer' : α → ℕ} {indeg indeg' : α → ℤ}

/-- No edge leads from a node that is left to one without such edges. -/
theorem Layered.no_edge (h : Layered succ todo queue layer indeg) {x y : α} (hx : x ∈ todo)
    (hy : indeg y = 0) : y ∉ succ x := by
  rw [h.counted y] at hy
  have hzero := (Finset.sum_eq_zero_iff_of_nonneg fun x _ => Int.natCast_nonneg _).mp hy x hx
  exact List.count_eq_zero.mp (by exact_mod_cast hzero)

/-- The first node of the queue is taken off, and its edges are followed. -/
theorem Layered.take {cur : α} {rest pushed : List α}
    (h : Layered succ todo (cur :: rest) layer indeg)
    (hlayer : ∀ y, layer' y = if y ∈ succ cur then max (layer y) (layer cur + 1) else layer y)
    (hindeg : ∀ y, indeg' y = indeg y - ((succ cur).count y : ℤ)) (hpushed : pushed.Nodup)
    (hmem : ∀ y, y ∈ pushed ↔ y ∈ succ cur ∧ indeg' y = 0) :
    Layered succ (todo.erase cur) (rest ++ pushed) layer' indeg' := by
  obtain ⟨hcur, hzero⟩ := (h.queued cur).mp List.mem_cons_self
  obtain ⟨hfirst, hrest⟩ := List.nodup_cons.mp h.nodup
  have hkeep : ∀ {y}, indeg y = 0 → y ∉ succ cur := fun hy => h.no_edge hcur hy
  have hlayer_keep : ∀ {y}, indeg y = 0 → layer' y = layer y := by
    intro y hy
    rw [hlayer, if_neg (hkeep hy)]
  have hindeg_keep : ∀ {y}, y ∉ succ cur → indeg' y = indeg y := by
    intro y hy
    rw [hindeg, List.count_eq_zero.mpr hy]
    exact sub_zero _
  have htodo : ∀ {y}, y ∈ succ cur → y ∈ todo := by
    intro y hy
    by_contra hgone
    exact hkeep (h.taken y hgone) hy
  constructor
  · intro y
    rw [hindeg, h.counted y, ← Finset.add_sum_erase _ _ hcur]
    omega
  · intro y
    rw [List.mem_append, hmem, Finset.mem_erase]
    constructor
    · rintro (hy | ⟨hy, hdone⟩)
      · obtain ⟨hleft, hfree⟩ := (h.queued y).mp (List.mem_cons_of_mem _ hy)
        refine ⟨⟨?_, hleft⟩, (hindeg_keep (hkeep hfree)).trans hfree⟩
        rintro rfl
        exact hfirst hy
      · refine ⟨⟨?_, htodo hy⟩, hdone⟩
        rintro rfl
        exact hkeep hzero hy
    · rintro ⟨⟨hne, hleft⟩, hdone⟩
      by_cases hy : y ∈ succ cur
      · exact .inr ⟨hy, hdone⟩
      · rw [hindeg_keep hy] at hdone
        exact .inl ((List.mem_cons.mp ((h.queued y).mpr ⟨hleft, hdone⟩)).resolve_left hne)
  · refine List.Nodup.append hrest hpushed fun y hy hy' => ?_
    exact hkeep ((h.queued y).mp (List.mem_cons_of_mem _ hy)).2 ((hmem y).mp hy').1
  · intro y hy
    have hfree : indeg y = 0 := by
      by_cases hyc : y = cur
      · rw [hyc]
        exact hzero
      · exact h.taken y fun hleft => hy (Finset.mem_erase.mpr ⟨hyc, hleft⟩)
    rw [hindeg_keep (hkeep hfree), hfree]
  · intro x hx y hy
    by_cases hxc : x = cur
    · subst hxc
      rw [hlayer_keep hzero, hlayer y, if_pos hy]
      exact le_max_right _ _
    · have hgone : x ∉ todo := fun hleft => hx (Finset.mem_erase.mpr ⟨hxc, hleft⟩)
      have hup := h.above x hgone y hy
      rw [hlayer_keep (h.taken x hgone), hlayer y]
      split_ifs
      · exact le_max_of_le_left hup
      · exact hup
  · intro y
    have hold : layer y = 0 ∨
        ∃ x, x ∉ todo.erase cur ∧ y ∈ succ x ∧ layer y = layer' x + 1 := by
      rcases h.below y with hy | ⟨x, hgone, hedge, heq⟩
      · exact .inl hy
      · refine .inr ⟨x, fun hx => hgone (Finset.mem_of_mem_erase hx), hedge, ?_⟩
        rw [hlayer_keep (h.taken x hgone), heq]
    rw [hlayer y]
    split_ifs with hy
    · rcases max_choice (layer y) (layer cur + 1) with hmax | hmax
      · rw [hmax]
        exact hold
      · refine .inr ⟨cur, Finset.notMem_erase cur todo, hy, ?_⟩
        rw [hmax, hlayer_keep hzero]
    · exact hold

variable [Fintype α]

theorem Layered.start (hcounted : ∀ y, indeg y = ∑ x, ((succ x).count y : ℤ))
    (hqueue : ∀ y, y ∈ queue ↔ indeg y = 0) (hnodup : queue.Nodup) :
    Layered succ Finset.univ queue (fun _ => 0) indeg where
  counted := hcounted
  queued y := by simp [hqueue y]
  nodup := hnodup
  taken y hy := absurd (Finset.mem_univ y) hy
  above x hx := absurd (Finset.mem_univ x) hx
  below _ := .inl rfl

/-- With the queue empty, all nodes of a graph without cycles were taken off. -/
theorem Layered.all_taken (h : Layered succ todo [] layer indeg)
    (hacyclic : ∀ x, ¬ Relation.TransGen (Edge succ) x x) : todo = ∅ := by
  have hirrefl : Std.Irrefl (Relation.TransGen (Edge succ)) := ⟨hacyclic⟩
  have hwf : WellFounded (Relation.TransGen (Edge succ)) :=
    Finite.wellFounded_of_trans_of_irrefl _
  by_contra hne
  obtain ⟨y, hy, hmin⟩ := hwf.has_min (todo : Set α) (Finset.nonempty_iff_ne_empty.mpr hne)
  have hindeg : indeg y ≠ 0 := fun hzero => List.not_mem_nil ((h.queued y).mpr ⟨hy, hzero⟩)
  rw [h.counted y] at hindeg
  obtain ⟨x, hx, hcount⟩ := Finset.exists_ne_zero_of_sum_ne_zero hindeg
  have hedge : y ∈ succ x := List.count_pos_iff.mp (by omega)
  exact hmin x hx (.single hedge)

theorem Layered.longest (h : Layered succ todo [] layer indeg)
    (hacyclic : ∀ x, ¬ Relation.TransGen (Edge succ) x x) (y : α) :
    (∀ z ∈ succ y, layer y < layer z) ∧ IsGreatest {k | ∃ x, Steps succ k x y} (layer y) := by
  have hall : ∀ x, x ∉ todo := by
    intro x
    rw [h.all_taken hacyclic]
    exact Finset.notMem_empty x
  refine ⟨fun z hz => h.above y (hall y) z hz, longest_path (fun x => h.above x (hall x)) ?_ y⟩
  intro z
  rcases h.below z with hz | ⟨x, -, hedge, heq⟩
  · exact .inl hz
  · exact .inr ⟨x, hedge, heq⟩

end Graph
