import Beluga.Js.Strings
import Mathlib.Data.List.Perm.Basic

/-! # Sorting what was shuffled

A list whose elements were put in another order, each changed by a relation, such
as an order of its own parts. A sort hides the order of elements that its key
tells apart. What is emitted for two elements that may come in either order has
to be the same either way.

* `Shuffled.sortOn`: with distinct keys, the sorted lists agree element by element;
* `Shuffled.flatMap_sortOn`: what is emitted in sorted order is the same, if the
  elements that may come in either order commute.
-/

namespace Js

variable {α β : Type} {R : α → α → Prop}

/-! ## Element by element -/

theorem mem_of_forall₂ {S : α → β → Prop} {xs : List α} {ys : List β} (h : List.Forall₂ S xs ys)
    {y : β} (hy : y ∈ ys) : ∃ x ∈ xs, S x y := by
  induction h with
  | nil => cases hy
  | @cons x y' xs ys hxy _ ih =>
      rcases List.mem_cons.mp hy with rfl | hy
      · exact ⟨x, List.mem_cons_self, hxy⟩
      · obtain ⟨x', hx', hxy'⟩ := ih hy
        exact ⟨x', List.mem_cons_of_mem _ hx', hxy'⟩

theorem map_of_forall₂ {xs ys : List α} {f g : α → β} (h : List.Forall₂ R xs ys)
    (hfg : ∀ x ∈ xs, ∀ y, R x y → f x = g y) : xs.map f = ys.map g := by
  rw [← List.forall₂_eq_eq_eq, List.forall₂_map_left_iff, List.forall₂_map_right_iff]
  exact (List.forall₂_and_left (p := (· ∈ xs)) xs ys |>.mpr ⟨fun _ hx => hx, h⟩).imp
    fun x y ⟨hx, hxy⟩ => hfg x hx y hxy

/-- An order of the second list shows in the first as one of some changed elements. -/
theorem pairwise_of_forall₂ {T : α → α → Prop} {xs ys : List α} (h : List.Forall₂ R xs ys)
    (hys : ys.Pairwise T) : xs.Pairwise fun a b => ∃ a' b', R a a' ∧ R b b' ∧ T a' b' := by
  induction h with
  | nil => exact .nil
  | @cons x y xs ys hxy hrest ih =>
      obtain ⟨hy, hys⟩ := List.pairwise_cons.mp hys
      refine .cons (fun x' hx' => ?_) (ih hys)
      obtain ⟨y', hy', hxy'⟩ := mem_of_forall₂ hrest.flip hx'
      exact ⟨y, y', hxy, hxy', hy y' hy'⟩

/-! ## Shuffles -/

/-- `ys` has the elements of `xs` in some order, each changed by `R`. -/
def Shuffled (R : α → α → Prop) (xs ys : List α) : Prop :=
  ∃ zs, xs.Perm zs ∧ List.Forall₂ R zs ys

namespace Shuffled

variable {xs ys : List α}

theorem of_perm (hrefl : ∀ x, R x x) (h : xs.Perm ys) : Shuffled R xs ys :=
  ⟨ys, h, List.forall₂_same.mpr fun x _ => hrefl x⟩

theorem of_forall₂ (h : List.Forall₂ R xs ys) : Shuffled R xs ys := ⟨xs, .refl xs, h⟩

/-- Every element of the second list comes from one of the first. -/
theorem source (h : Shuffled R xs ys) {y : α} (hy : y ∈ ys) : ∃ x ∈ xs, R x y := by
  obtain ⟨zs, hperm, hrel⟩ := h
  obtain ⟨x, hx, hxy⟩ := mem_of_forall₂ hrel hy
  exact ⟨x, hperm.symm.subset hx, hxy⟩

/-- Every element of the first list is in the second, changed. -/
theorem target (h : Shuffled R xs ys) {x : α} (hx : x ∈ xs) : ∃ y ∈ ys, R x y := by
  obtain ⟨zs, hperm, hrel⟩ := h
  exact mem_of_forall₂ hrel.flip (hperm.subset hx)

theorem length_eq (h : Shuffled R xs ys) : xs.length = ys.length := by
  obtain ⟨zs, hperm, hrel⟩ := h
  exact hperm.length_eq.trans hrel.length_eq

/-- Other orders of both lists. -/
theorem perm (h : Shuffled R xs ys) {xs' ys' : List α} (hxs : xs'.Perm xs) (hys : ys'.Perm ys) :
    Shuffled R xs' ys' := by
  obtain ⟨zs, hperm, hrel⟩ := h
  -- the order of `ys'` goes back to the elements that `ys` came from
  have hcomp : Relation.Comp (List.Forall₂ R) List.Perm zs ys' := ⟨ys, hrel, hys.symm⟩
  rw [List.forall₂_comp_perm_eq_perm_comp_forall₂] at hcomp
  obtain ⟨zs', hzs, hrel'⟩ := hcomp
  exact ⟨zs', hxs.trans (hperm.trans hzs), hrel'⟩

theorem filter {p q : α → Bool} (h : Shuffled R xs ys) (hpq : ∀ x y, R x y → (p x ↔ q y)) :
    Shuffled R (xs.filter p) (ys.filter q) := by
  obtain ⟨zs, hperm, hrel⟩ := h
  exact ⟨zs.filter p, hperm.filter p, List.rel_filter (fun x y => hpq x y) hrel⟩

theorem map_perm {f g : α → β} (h : Shuffled R xs ys)
    (hfg : ∀ x ∈ xs, ∀ y, R x y → f x = g y) : (xs.map f).Perm (ys.map g) := by
  obtain ⟨zs, hperm, hrel⟩ := h
  rw [← map_of_forall₂ hrel fun z hz y hzy => hfg z (hperm.symm.subset hz) y hzy]
  exact hperm.map f

theorem flatMap_perm {f g : α → List β} (h : Shuffled R xs ys)
    (hfg : ∀ x y, R x y → (f x).Perm (g y)) : (xs.flatMap f).Perm (ys.flatMap g) := by
  obtain ⟨zs, hperm, hrel⟩ := h
  refine (hperm.flatMap_right f).trans ?_
  clear hperm
  induction hrel with
  | nil => exact .nil
  | cons hzy _ ih =>
      rw [List.flatMap_cons, List.flatMap_cons]
      exact (hfg _ _ hzy).append ih

/-! ## Sorted -/

/-- Keys that tell the elements apart leave one order. -/
theorem sortOn {key : α → String} (h : Shuffled R xs ys) (hkey : ∀ x y, R x y → key x = key y)
    (hinj : ∀ a ∈ xs, ∀ b ∈ xs, key a = key b → a = b) :
    List.Forall₂ R (sortOn key xs) (sortOn key ys) := by
  obtain ⟨zs, hperm, hrel⟩ := h.perm (sortOn_perm key xs) (sortOn_perm key ys)
  have hsorted : zs.Pairwise fun a b => le (key a) (key b) := by
    refine (pairwise_of_forall₂ hrel (List.pairwise_insertionSort _ ys)).imp ?_
    rintro a b ⟨a', b', ha, hb, hle⟩
    rwa [hkey a a' ha, hkey b b' hb]
  have heq : Js.sortOn key xs = zs := by
    refine List.Perm.eq_of_pairwise ?_ (List.pairwise_insertionSort _ xs) hsorted hperm
    intro a b ha hb hab hba
    exact hinj a (mem_sortOn.mp ha) b (mem_sortOn.mp (hperm.symm.subset hb))
      (utf16_inj (le_antisymm hab hba))
  rwa [heq]

end Shuffled

/-! ## Emitted in sorted order -/

/-- What is emitted for `x` can move over what is emitted for `xs`. -/
theorem flatMap_comm {f : α → List β} {x : α} {xs : List α}
    (h : ∀ a ∈ xs, f a ++ f x = f x ++ f a) : xs.flatMap f ++ f x = f x ++ xs.flatMap f := by
  induction xs with
  | nil => simp
  | cons a xs ih =>
      have hx := h a List.mem_cons_self
      rw [List.flatMap_cons, List.append_assoc,
        ih fun b hb => h b (List.mem_cons_of_mem _ hb), ← List.append_assoc, hx,
        List.append_assoc]

/-- Two orders of one list that both respect `S`: where `S` leaves two elements
free, they commute. -/
theorem flatMap_of_perm {S : α → α → Prop} {f : α → List β} {xs zs : List α} (h : xs.Perm zs)
    (hxs : xs.Pairwise S) (hzs : zs.Pairwise S)
    (hcomm : ∀ a ∈ xs, ∀ b ∈ xs, S a b → S b a → f a ++ f b = f b ++ f a) :
    xs.flatMap f = zs.flatMap f := by
  induction xs generalizing zs with
  | nil => rw [h.nil_eq]
  | cons x xs ih =>
      obtain ⟨l₁, l₂, rfl⟩ := List.append_of_mem (h.subset List.mem_cons_self)
      have hrest : xs.Perm (l₁ ++ l₂) := List.Perm.cons_inv (h.trans List.perm_middle)
      obtain ⟨hx, hxs⟩ := List.pairwise_cons.mp hxs
      obtain ⟨hl₁, hl₂, hacross⟩ := List.pairwise_append.mp hzs
      -- whatever `x` has to pass comes after it in the other order
      have hpass : l₁.flatMap f ++ f x = f x ++ l₁.flatMap f := by
        refine flatMap_comm fun a ha => ?_
        have hmem : a ∈ xs := hrest.symm.subset (List.mem_append_left _ ha)
        exact hcomm a (List.mem_cons_of_mem _ hmem) x List.mem_cons_self
          (hacross a ha x List.mem_cons_self) (hx a hmem)
      have hsorted : (l₁ ++ l₂).Pairwise S :=
        hzs.sublist (List.Sublist.append_left (List.sublist_cons_self x l₂) l₁)
      rw [List.flatMap_cons, ih hrest hxs hsorted fun a ha b hb =>
        hcomm a (List.mem_cons_of_mem _ ha) b (List.mem_cons_of_mem _ hb), List.flatMap_append,
        List.flatMap_append, List.flatMap_cons, ← List.append_assoc, ← hpass, List.append_assoc]

/-- `a` can come before `b` in a sort of changed elements. -/
def Precedes (R : α → α → Prop) (key : α → String) (a b : α) : Prop :=
  ∃ a' b', R a a' ∧ R b b' ∧ le (key a') (key b')

theorem Shuffled.flatMap_sortOn {key : α → String} {f g : α → List β} {xs ys : List α}
    (h : Shuffled R xs ys) (hrefl : ∀ x, R x x) (hfg : ∀ x ∈ xs, ∀ y, R x y → f x = g y)
    (hcomm : ∀ a ∈ xs, ∀ b ∈ xs, Precedes R key a b → Precedes R key b a →
      f a ++ f b = f b ++ f a) :
    (Js.sortOn key xs).flatMap f = (Js.sortOn key ys).flatMap g := by
  obtain ⟨zs, hperm, hrel⟩ := h.perm (sortOn_perm key xs) (sortOn_perm key ys)
  have hmem : ∀ {x}, x ∈ Js.sortOn key xs → x ∈ xs := fun hx => mem_sortOn.mp hx
  have hxs : (Js.sortOn key xs).Pairwise (Precedes R key) :=
    (List.pairwise_insertionSort _ xs).imp fun hle => ⟨_, _, hrefl _, hrefl _, hle⟩
  have hzs : zs.Pairwise (Precedes R key) :=
    pairwise_of_forall₂ hrel (List.pairwise_insertionSort _ ys)
  rw [flatMap_of_perm hperm hxs hzs fun a ha b hb => hcomm a (hmem ha) b (hmem hb),
    List.flatMap_def, List.flatMap_def,
    map_of_forall₂ hrel fun z hz y hzy => hfg z (hmem (hperm.symm.subset hz)) y hzy]

end Js
