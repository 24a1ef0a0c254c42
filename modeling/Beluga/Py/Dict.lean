import Mathlib.Data.Finset.Card
import Mathlib.Data.List.AList
import Mathlib.Data.List.Induction

/-! # Dicts built from pairs

`{key(x): value(x) for x in xs}`: a later pair replaces an earlier one with its key.

* `lookup_dictOf_last`: what is found is the last pair with the key;
* `lookup_dictOf_of_count`: with one pair at most, it is that pair;
* `lookup_dictOf_perm`: then the order of the pairs does not matter.

And loops that may fail, over lists in any order (`mapM_perm`). -/

namespace Py

section Dict

variable {κ α : Type} [DecidableEq κ]

abbrev Dict (κ α : Type) [DecidableEq κ] := AList fun _ : κ => α

def dictOf (pairs : List (κ × α)) : Dict κ α :=
  pairs.foldl (fun d pair => d.insert pair.1 pair.2) ∅

theorem dictOf_concat (pairs : List (κ × α)) (k : κ) (v : α) :
    dictOf (pairs ++ [(k, v)]) = (dictOf pairs).insert k v := by
  rw [dictOf, List.foldl_append]
  rfl

theorem mem_dictOf {pairs : List (κ × α)} {k : κ} : k ∈ dictOf pairs ↔ k ∈ pairs.map Prod.fst := by
  induction pairs using List.reverseRecOn with
  | nil => simp [dictOf]
  | append_singleton pairs pair ih =>
      rw [dictOf_concat, AList.mem_insert, ih, List.map_append, List.mem_append, or_comm]
      simp

theorem mem_of_lookup {pairs : List (κ × α)} {k : κ} {v : α}
    (h : (dictOf pairs).lookup k = some v) : (k, v) ∈ pairs := by
  induction pairs using List.reverseRecOn with
  | nil => cases h
  | append_singleton pairs pair ih =>
      rw [dictOf_concat] at h
      by_cases hk : k = pair.1
      · subst hk
        rw [AList.lookup_insert] at h
        obtain rfl := Option.some.inj h
        simp
      · rw [AList.lookup_insert_ne hk] at h
        exact List.mem_append_left _ (ih h)

theorem lookup_append_left {pairs rest : List (κ × α)} {k : κ} (h : k ∉ rest.map Prod.fst) :
    (dictOf (pairs ++ rest)).lookup k = (dictOf pairs).lookup k := by
  induction rest using List.reverseRecOn with
  | nil => rw [List.append_nil]
  | append_singleton rest pair ih =>
      rw [List.map_append, List.mem_append, not_or] at h
      have hk : k ≠ pair.1 := by
        intro heq
        exact h.2 (by simp [heq])
      rw [← List.append_assoc, dictOf_concat, AList.lookup_insert_ne hk, ih h.1]

theorem lookup_append_right {pairs rest : List (κ × α)} {k : κ} (h : k ∈ rest.map Prod.fst) :
    (dictOf (pairs ++ rest)).lookup k = (dictOf rest).lookup k := by
  induction rest using List.reverseRecOn with
  | nil => cases h
  | append_singleton rest pair ih =>
      rw [← List.append_assoc, dictOf_concat, dictOf_concat]
      by_cases hk : k = pair.1
      · rw [hk, AList.lookup_insert, AList.lookup_insert]
      · rw [AList.lookup_insert_ne hk, AList.lookup_insert_ne hk]
        rw [List.map_append, List.mem_append] at h
        refine ih (h.resolve_right fun hlast => hk ?_)
        simpa using hlast

theorem lookup_dictOf_last {pairs rest : List (κ × α)} {k : κ} {v : α}
    (h : k ∉ rest.map Prod.fst) : (dictOf (pairs ++ (k, v) :: rest)).lookup k = some v := by
  rw [List.append_cons, lookup_append_left h, dictOf_concat, AList.lookup_insert]

theorem eq_of_count {pairs : List (κ × α)} {k : κ} (h : (pairs.map Prod.fst).count k ≤ 1)
    {v w : α} (hv : (k, v) ∈ pairs) (hw : (k, w) ∈ pairs) : v = w := by
  induction pairs with
  | nil => cases hv
  | cons pair pairs ih =>
      have hrest : ∀ {u}, (k, u) ∈ pairs → 0 < (pairs.map Prod.fst).count k :=
        fun hu => List.count_pos_iff.mpr (List.mem_map.mpr ⟨_, hu, rfl⟩)
      rw [List.map_cons, List.count_cons] at h
      rcases List.mem_cons.mp hv with rfl | hv'
      · rcases List.mem_cons.mp hw with heq | hw'
        · exact (Prod.mk.inj heq).2.symm
        · have hpos := hrest hw'
          rw [if_pos (beq_self_eq_true _)] at h
          omega
      · rcases List.mem_cons.mp hw with rfl | hw'
        · have hpos := hrest hv'
          rw [if_pos (beq_self_eq_true _)] at h
          omega
        · exact ih (by omega) hv' hw'

theorem lookup_dictOf_of_count {pairs : List (κ × α)} {k : κ}
    (h : (pairs.map Prod.fst).count k ≤ 1) {v : α} :
    (dictOf pairs).lookup k = some v ↔ (k, v) ∈ pairs := by
  refine ⟨mem_of_lookup, fun hmem => ?_⟩
  have hk : k ∈ dictOf pairs := mem_dictOf.mpr (List.mem_map.mpr ⟨_, hmem, rfl⟩)
  obtain ⟨w, hw⟩ := Option.isSome_iff_exists.mp (AList.lookup_isSome.mpr hk)
  rw [hw, eq_of_count h hmem (mem_of_lookup hw)]

theorem lookup_dictOf_perm {pairs pairs' : List (κ × α)} (hp : pairs.Perm pairs') {k : κ}
    (h : (pairs.map Prod.fst).count k ≤ 1) :
    (dictOf pairs).lookup k = (dictOf pairs').lookup k := by
  have h' : (pairs'.map Prod.fst).count k ≤ 1 := by rwa [← (hp.map Prod.fst).count_eq]
  ext v
  rw [lookup_dictOf_of_count h, lookup_dictOf_of_count h', hp.mem_iff]

theorem keys_toFinset (pairs : List (κ × α)) :
    (dictOf pairs).keys.toFinset = (pairs.map Prod.fst).toFinset := by
  ext k
  rw [List.mem_toFinset, List.mem_toFinset, ← AList.mem_keys, mem_dictOf]

theorem length_keys {pairs : List (κ × α)} (h : (pairs.map Prod.fst).Nodup) :
    (dictOf pairs).keys.length = pairs.length := by
  rw [← List.toFinset_card_of_nodup (AList.keys_nodup _), keys_toFinset,
    List.toFinset_card_of_nodup h, List.length_map]

end Dict

/-! ## Loops that may fail -/

section MapM

variable {α β ε : Type} {f : α → Except ε β}

theorem bind_ok_iff {x : Except ε α} {g : α → Except ε β} {b : β} :
    x.bind g = .ok b ↔ ∃ a, x = .ok a ∧ g a = .ok b := by
  constructor
  · intro h
    cases x with
    | error e => cases h
    | ok a => exact ⟨a, rfl, h⟩
  · rintro ⟨a, rfl, h⟩
    exact h

theorem mapM_ok_iff {xs : List α} {ys : List β} :
    xs.mapM f = .ok ys ↔ List.Forall₂ (fun x y => f x = .ok y) xs ys := by
  induction xs generalizing ys with
  | nil =>
      rw [List.forall₂_nil_left_iff]
      exact ⟨fun h => (Except.ok.inj h).symm, fun h => h ▸ rfl⟩
  | cons x xs ih =>
      rw [List.mapM_cons, List.forall₂_cons_left_iff]
      constructor
      · intro h
        obtain ⟨y, hy, hrest⟩ := bind_ok_iff.mp h
        obtain ⟨zs, hzs, heq⟩ := bind_ok_iff.mp hrest
        exact ⟨y, zs, hy, ih.mp hzs, (Except.ok.inj heq).symm⟩
      · rintro ⟨y, zs, hy, hzs, rfl⟩
        exact bind_ok_iff.mpr ⟨y, hy, bind_ok_iff.mpr ⟨zs, ih.mpr hzs, rfl⟩⟩

theorem mem_of_mapM {xs : List α} {ys : List β} (h : xs.mapM f = .ok ys) {y : β} :
    y ∈ ys ↔ ∃ x ∈ xs, f x = .ok y := by
  rw [mapM_ok_iff] at h
  induction h with
  | nil => simp
  | @cons x y' xs ys hy _ ih =>
      simp [ih, hy, eq_comm]

theorem ok_of_mapM {xs : List α} {ys : List β} (h : xs.mapM f = .ok ys) {x : α} (hx : x ∈ xs) :
    ∃ y ∈ ys, f x = .ok y := by
  rw [mapM_ok_iff] at h
  induction h with
  | nil => cases hx
  | @cons x' y' xs ys hy _ ih =>
      rcases List.mem_cons.mp hx with rfl | hx
      · exact ⟨y', List.mem_cons_self, hy⟩
      · obtain ⟨y, hmem, hy'⟩ := ih hx
        exact ⟨y, List.mem_cons_of_mem _ hmem, hy'⟩

theorem exists_mapM {xs : List α} (h : ∀ x ∈ xs, ∃ y, f x = .ok y) : ∃ ys, xs.mapM f = .ok ys := by
  induction xs with
  | nil => exact ⟨[], rfl⟩
  | cons x xs ih =>
      obtain ⟨⟨y, hy⟩, hxs⟩ := List.forall_mem_cons.mp h
      obtain ⟨ys, hys⟩ := ih hxs
      rw [mapM_ok_iff] at hys
      refine ⟨y :: ys, ?_⟩
      rw [mapM_ok_iff]
      exact .cons hy hys

theorem mapM_perm {xs xs' : List α} {ys : List β} (hp : xs.Perm xs') (h : xs.mapM f = .ok ys) :
    ∃ ys', xs'.mapM f = .ok ys' ∧ ys.Perm ys' := by
  rw [mapM_ok_iff] at h
  have hcomp : Relation.Comp List.Perm (List.Forall₂ fun x y => f x = .ok y) xs' ys :=
    ⟨xs, hp.symm, h⟩
  rw [← List.forall₂_comp_perm_eq_perm_comp_forall₂] at hcomp
  obtain ⟨ys', hall, hperm⟩ := hcomp
  refine ⟨ys', ?_, hperm.symm⟩
  rw [mapM_ok_iff]
  exact hall

end MapM

end Py
