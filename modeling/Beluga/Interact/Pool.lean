import Mathlib.Data.List.Basic

/-! # Worker pools

Workers take the items of a list in order, each the next one as soon as its own is
settled. Items are known by their places, and a worker ends when no item is left.

* `Sound.start`, `Sound.settle`: an item that was taken is running or has its outcome;
* `Sound.done`: when no worker is left every item has its outcome;
* `left_settle`: every outcome leaves less to do.
-/

namespace Interact

structure Pool (β : Type) where
  /-- The first item that nobody has taken. -/
  next : Nat
  running : List Nat
  out : List (Option β)
  deriving Repr

namespace Pool

variable {β : Type}

/-- `limit` workers for `n` items, or one for each item. -/
def start (limit n : Nat) : Pool β where
  next := min limit n
  running := List.range (min limit n)
  out := List.replicate n none

/-- The worker of item `i` writes its outcome and takes the next item, if there is one. -/
def settle (p : Pool β) (i : Nat) (r : β) : Pool β :=
  let rest := p.running.erase i
  let out := p.out.set i (some r)
  if p.next < p.out.length then { next := p.next + 1, running := p.next :: rest, out := out }
  else { p with running := rest, out := out }

/-- The outcomes, when all are there. -/
def results (p : Pool β) : Option (List β) := p.out.mapM id

structure Sound (p : Pool β) : Prop where
  bound : p.next ≤ p.out.length
  taken : ∀ i < p.next, i ∈ p.running ∨ ∃ r, p.out[i]? = some (some r)
  /-- A worker ends only when nothing is left to take. -/
  busy : p.next < p.out.length → p.running ≠ []

variable {p : Pool β}

theorem length_settle (p : Pool β) (i : Nat) (r : β) :
    (p.settle i r).out.length = p.out.length := by
  unfold settle
  split_ifs <;> simp

theorem Sound.start {limit n : Nat} (hlimit : 0 < limit) :
    (Pool.start limit n : Pool β).Sound where
  bound := by
    simp only [Pool.start, List.length_replicate]
    omega
  taken i hi := .inl (List.mem_range.mpr hi)
  busy h := by
    simp only [Pool.start, List.length_replicate] at h ⊢
    rw [ne_eq, List.range_eq_nil]
    omega

/-- The outcomes that are there stay, and `i` has one. -/
theorem settled {i j : Nat} (r : β) (hbound : p.next ≤ p.out.length) (hj : j < p.next)
    (h : j ∈ p.running ∨ ∃ r, p.out[j]? = some (some r)) :
    j ∈ p.running.erase i ∨ ∃ r', (p.out.set i (some r))[j]? = some (some r') := by
  by_cases hij : j = i
  · have hlt : i < p.out.length := by omega
    exact .inr ⟨r, by rw [hij, List.getElem?_set_self hlt]⟩
  · rcases h with hrun | ⟨r', hr'⟩
    · exact .inl ((List.mem_erase_of_ne hij).mpr hrun)
    · exact .inr ⟨r', by rw [List.getElem?_set_ne (Ne.symm hij), hr']⟩

theorem Sound.settle (h : p.Sound) (i : Nat) (r : β) : (p.settle i r).Sound := by
  have hbound := h.bound
  unfold Pool.settle
  by_cases hleft : p.next < p.out.length
  · rw [if_pos hleft]
    refine ⟨?_, fun j hj => ?_, fun _ => List.cons_ne_nil _ _⟩
    · rw [List.length_set]
      exact hleft
    · by_cases hnew : j = p.next
      · exact .inl (hnew ▸ List.mem_cons_self)
      · have hold : j < p.next := by
          have hlt : j < p.next + 1 := hj
          omega
        rcases @settled β p i j r hbound hold (h.taken j hold) with hrun | hout
        · exact .inl (List.mem_cons_of_mem _ hrun)
        · exact .inr hout
  · rw [if_neg hleft]
    refine ⟨by rw [List.length_set]; exact hbound, fun j hj => ?_, fun hlt => ?_⟩
    · exact settled r hbound hj (h.taken j hj)
    · rw [List.length_set] at hlt
      exact absurd hlt hleft

/-- Nobody works any more, so everything is done. -/
theorem Sound.done (h : p.Sound) (hrunning : p.running = []) : ∃ rs, p.results = some rs := by
  have hnext : ¬ p.next < p.out.length := fun hlt => h.busy hlt hrunning
  have hall : ∀ o ∈ p.out, ∃ r, o = some r := by
    intro o ho
    obtain ⟨i, hi, hget⟩ := List.mem_iff_getElem.mp ho
    rcases h.taken i (by omega) with hrun | ⟨r, hr⟩
    · rw [hrunning] at hrun
      cases hrun
    · rw [List.getElem?_eq_getElem hi, hget] at hr
      exact ⟨r, Option.some.inj hr⟩
  unfold results
  generalize p.out = out at hall
  induction out with
  | nil => exact ⟨[], rfl⟩
  | cons o out ih =>
      obtain ⟨r, rfl⟩ := hall o List.mem_cons_self
      obtain ⟨rs, hrs⟩ := ih fun o' ho' => hall o' (List.mem_cons_of_mem _ ho')
      exact ⟨r :: rs, by rw [List.mapM_cons, hrs]; rfl⟩

theorem out_of_results {rs : List β} (h : p.results = some rs) : p.out = rs.map some := by
  unfold results at h
  generalize p.out = out at h ⊢
  induction out generalizing rs with
  | nil =>
      cases h
      rfl
  | cons o out ih =>
      rw [List.mapM_cons] at h
      cases o with
      | none => cases h
      | some r =>
          obtain ⟨r', hr', h⟩ := Option.bind_eq_some_iff.mp h
          obtain ⟨rest, hrest, heq⟩ := Option.bind_eq_some_iff.mp h
          cases hr'
          rw [← Option.some.inj heq, List.map_cons, ih hrest]

/-- How much is left to do. -/
def left (p : Pool β) : Nat := (p.out.length - p.next) + p.running.length

/-- Every outcome leaves less to do. -/
theorem left_settle {i : Nat} (r : β) (hi : i ∈ p.running) : (p.settle i r).left < p.left := by
  have hlength : (p.running.erase i).length = p.running.length - 1 := List.length_erase_of_mem hi
  have hpos : 0 < p.running.length := List.length_pos_of_mem hi
  unfold left settle
  by_cases hnext : p.next < p.out.length
  · rw [if_pos hnext]
    simp only [List.length_set, List.length_cons]
    omega
  · rw [if_neg hnext]
    simp only [List.length_set]
    omega

end Pool

end Interact
