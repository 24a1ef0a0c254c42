import Mathlib.Logic.Basic

/-! # Machines

A machine is a state and a computable, guarded step; a run is any sequence of
steps. `Reaches ok` are the runs whose every step meets a condition `ok` on the
state before it and the action.

* `Reaches.induct`: what holds at the start and is kept by every such step holds
  in every state that is reached;
* `Reaches.lift`: a preorder that every step respects is respected by every run;
* `reaches_of_run`, `reaches_of_runWith`: a replayed list of actions is a run.
-/

namespace Interact

structure Machine where
  State : Type
  Act : Type
  /-- `none` when the action is not possible. -/
  step : State → Act → Option State

namespace Machine

variable (M : Machine)

/-- A condition on steps. -/
abbrev Guard := M.State → M.Act → Prop

variable {M}

/-- The states that runs from `s` reach, when every step meets `ok`. -/
inductive Reaches (ok : M.Guard) (s : M.State) : M.State → Prop where
  | refl : Reaches ok s s
  | tail {s' s'' : M.State} (a : M.Act) : Reaches ok s s' → ok s' a → M.step s' a = some s'' →
      Reaches ok s s''

/-- Any run. -/
abbrev Reachable (s s' : M.State) : Prop := Reaches (fun _ _ => True) s s'

variable {ok ok' : M.Guard} {s s' s'' : M.State}

namespace Reaches

theorem trans (h : Reaches ok s s') (h' : Reaches ok s' s'') : Reaches ok s s'' := by
  induction h' with
  | refl => exact h
  | tail a _ hok hstep ih => exact .tail a ih hok hstep

theorem mono (h : Reaches ok s s') (hok : ∀ s a, ok s a → ok' s a) : Reaches ok' s s' := by
  induction h with
  | refl => exact .refl
  | tail a _ ha hstep ih => exact .tail a ih (hok _ a ha) hstep

/-- An invariant of a run. -/
theorem induct {I : M.State → Prop} (hinit : I s)
    (hstep : ∀ {s' s'' a}, Reaches ok s s' → I s' → ok s' a → M.step s' a = some s'' → I s'')
    (h : Reaches ok s s') : I s' := by
  induction h with
  | refl => exact hinit
  | tail a hreach hok hst ih => exact hstep hreach ih hok hst

/-- A preorder that every step respects. -/
theorem lift {R : M.State → M.State → Prop} (hrefl : ∀ s, R s s)
    (htrans : ∀ {a b c}, R a b → R b c → R a c)
    (hstep : ∀ {s s' a}, M.step s a = some s' → R s s') (h : Reaches ok s s') : R s s' := by
  induction h with
  | refl => exact hrefl s
  | tail a _ _ hst ih => exact htrans ih (hstep hst)

end Reaches

/-- Replay a list of actions. -/
def run (s : M.State) : List M.Act → Option M.State
  | [] => some s
  | a :: as => (M.step s a).bind (run · as)

theorem reaches_of_run {as : List M.Act} (h : run s as = some s') :
    Reachable s s' := by
  induction as generalizing s with
  | nil =>
      cases h
      exact .refl
  | cons a as ih =>
      simp only [run, Option.bind_eq_some_iff] at h
      obtain ⟨s₁, hstep, hrun⟩ := h
      exact (Reaches.tail a .refl trivial hstep).trans (ih hrun)

/-- The state that a replayed list ends in. -/
theorem reaches_get {as : List M.Act} (h : (run s as).isSome) :
    Reachable s ((run s as).get h) :=
  reaches_of_run (Option.some_get h).symm

/-- A replayed list of actions ends in a state that passes the check. -/
theorem exists_reachable {as : List M.Act} {check : M.State → Bool}
    (h : (run s as).any check = true) : ∃ s', Reachable s s' ∧ check s' = true := by
  obtain ⟨s', hrun, hcheck⟩ := (Option.any_eq_true _ _).mp h
  exact ⟨s', reaches_of_run hrun, hcheck⟩

/-- Replay a list of actions, each of which has to pass a check. -/
def runWith (ok : M.State → M.Act → Bool) (s : M.State) : List M.Act → Option M.State
  | [] => some s
  | a :: as => if ok s a then (M.step s a).bind (runWith ok · as) else none

theorem reaches_of_runWith {check : M.State → M.Act → Bool} {as : List M.Act}
    (h : runWith check s as = some s') : Reaches (fun s a => check s a = true) s s' := by
  induction as generalizing s with
  | nil =>
      cases h
      exact .refl
  | cons a as ih =>
      simp only [runWith, Option.ite_none_right_eq_some, Option.bind_eq_some_iff] at h
      obtain ⟨hok, s₁, hstep, hrun⟩ := h
      exact (Reaches.tail a .refl hok hstep).trans (ih hrun)

end Machine

end Interact
