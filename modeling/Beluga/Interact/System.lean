import Beluga.Interact.Prog
import Mathlib.Data.List.Basic

/-! # Interleaved systems

A system runs any number of threads over one shared state. Each thread is a
program started for a task; a step of the system starts a thread, lets one
thread make its next call, or lets the environment change the shared state.
A call is atomic, and every choice that is not the program's own (when the
call is served, what it is answered, whether it fails) is in the `Answer`,
over which all results quantify. A thread that never moves again has crashed.

The step function is computable: `run` replays a list of actions, so a run on
given inputs can be evaluated.
-/

namespace Interact

variable {S : Sig} {ε α : Type}

/-- One call and the reply it got. -/
structure Event (S : Sig) where
  op : S.Op
  rep : S.Rep op

/-- What a family of programs runs against. `exec g t op a` serves call `op`
of thread `t` in shared state `g`; it is `none` when `a` does not answer `op`. -/
structure System (S : Sig) (ε α : Type) where
  Shared : Type
  Task : Type
  prog : Task → Prog S ε α
  Answer : Type
  exec : Shared → Nat → (op : S.Op) → Answer → Option (S.Rep op × Shared)
  Env : Type
  env : Shared → Env → Option Shared

namespace System

variable (Y : System S ε α)

/-- A running task: the calls it has made so far, oldest first, and the rest
of its program. -/
structure Thread where
  task : Y.Task
  hist : List (Event S)
  rest : Prog S ε α

/-- The shared state and the threads, in the order they were started. -/
structure State where
  shared : Y.Shared
  threads : List Y.Thread

/-- The actions of a run. -/
inductive Act where
  | spawn (k : Y.Task)
  | act (t : Nat) (ans : Y.Answer)
  | env (e : Y.Env)

variable {Y}

/-- The thread after its pending call `op` was replied `r`. -/
def Thread.advance (th : Y.Thread) (op : S.Op) (k : S.Rep op → Prog S ε α) (r : S.Rep op) :
    Y.Thread :=
  { th with hist := th.hist ++ [⟨op, r⟩], rest := k r }

/-- Thread `t` makes its next call. -/
def callStep (s : Y.State) (t : Nat) (ans : Y.Answer) (th : Y.Thread) : Option Y.State :=
  match th.rest with
  | .call op k =>
      (Y.exec s.shared t op ans).map fun rg =>
        ⟨rg.2, s.threads.set t (th.advance op k rg.1)⟩
  | _ => none

/-- One step of the system. -/
def step (s : Y.State) : Y.Act → Option Y.State
  | .spawn k => some { s with threads := s.threads ++ [⟨k, [], Y.prog k⟩] }
  | .act t ans => s.threads[t]?.bind (callStep s t ans)
  | .env e => (Y.env s.shared e).map fun g => { s with shared := g }

/-- Replay a list of actions. -/
def run : Y.State → List Y.Act → Option Y.State
  | s, [] => some s
  | s, a :: as => (step s a).bind (run · as)

/-- The states some run reaches from `s`. -/
inductive Reaches (s : Y.State) : Y.State → Prop where
  | refl : Reaches s s
  | tail {s' s'' : Y.State} (a : Y.Act) : Reaches s s' → step s' a = some s'' → Reaches s s''

/-- The state in which no thread has been started. -/
def init (g : Y.Shared) : Y.State := ⟨g, []⟩

/-- Reachable when the shared state starts as `g`. -/
def Reachable (g : Y.Shared) (s : Y.State) : Prop := Reaches (init g) s

/-! ## Steps and runs -/

/-- What a step can do: start a thread, serve one pending call, or let the
environment move. -/
theorem step_cases {s s' : Y.State} {a : Y.Act} (h : step s a = some s') :
    (∃ k, a = .spawn k ∧ s' = { s with threads := s.threads ++ [⟨k, [], Y.prog k⟩] }) ∨
    (∃ t ans th op k r g, a = .act t ans ∧ s.threads[t]? = some th ∧ th.rest = .call op k ∧
      Y.exec s.shared t op ans = some (r, g) ∧
      s' = ⟨g, s.threads.set t (th.advance op k r)⟩) ∨
    (∃ e g, a = .env e ∧ Y.env s.shared e = some g ∧ s' = { s with shared := g }) := by
  cases a with
  | spawn k => exact .inl ⟨k, rfl, by simpa [step] using h.symm⟩
  | act t ans =>
      right; left
      simp only [step, Option.bind_eq_some_iff] at h
      obtain ⟨th, hth, h⟩ := h
      unfold callStep at h
      split at h
      · next op k hrest =>
          simp only [Option.map_eq_some_iff] at h
          obtain ⟨⟨r, g⟩, hexec, rfl⟩ := h
          exact ⟨t, ans, th, op, k, r, g, rfl, hth, hrest, hexec, rfl⟩
      · cases h
  | env e =>
      right; right
      simp only [step, Option.map_eq_some_iff] at h
      obtain ⟨g, hg, rfl⟩ := h
      exact ⟨e, g, rfl, hg, rfl⟩

theorem Reaches.trans {s s' s'' : Y.State} (h : Reaches s s') (h' : Reaches s' s'') :
    Reaches s s'' := by
  induction h' with
  | refl => exact h
  | tail a _ hstep ih => exact .tail a ih hstep

theorem Reaches.single {s s' : Y.State} {a : Y.Act} (h : step s a = some s') : Reaches s s' :=
  .tail a .refl h

theorem reaches_of_run {s s' : Y.State} {as : List Y.Act} (h : run s as = some s') :
    Reaches s s' := by
  induction as generalizing s with
  | nil =>
      cases h
      exact .refl
  | cons a as ih =>
      simp only [run, Option.bind_eq_some_iff] at h
      obtain ⟨s₁, hstep, hrun⟩ := h
      exact (Reaches.single hstep).trans (ih hrun)

theorem run_append (s : Y.State) (as as' : List Y.Act) :
    run s (as ++ as') = (run s as).bind (run · as') := by
  induction as generalizing s with
  | nil => rfl
  | cons a as ih =>
      simp only [List.cons_append, run, Option.bind_assoc]
      exact Option.bind_congr fun s' _ => ih s'

/-! The parts of a run that is replayed whole. -/

theorem run_left {s : Y.State} {as as' : List Y.Act} (h : (run s (as ++ as')).isSome) :
    (run s as).isSome := by
  rw [run_append] at h
  exact Option.isSome_of_isSome_bind h

theorem run_right {s : Y.State} {as as' : List Y.Act} (h : (run s (as ++ as')).isSome)
    (hleft : (run s as).isSome) : (run ((run s as).get hleft) as').isSome := by
  rw [run_append] at h
  rwa [← Option.some_get hleft, Option.bind_some] at h

theorem step_left {s : Y.State} {a : Y.Act} {as : List Y.Act} (h : (run s (a :: as)).isSome) :
    (step s a).isSome := Option.isSome_of_isSome_bind h

theorem step_right {s : Y.State} {a : Y.Act} {as : List Y.Act} (h : (run s (a :: as)).isSome)
    (hleft : (step s a).isSome) : (run ((step s a).get hleft) as).isSome := by
  rw [run] at h
  rwa [← Option.some_get hleft, Option.bind_some] at h

/-- Every run is the replay of its actions. -/
theorem Reaches.exists_run {s s' : Y.State} (h : Reaches s s') : ∃ as, run s as = some s' := by
  induction h with
  | refl => exact ⟨[], rfl⟩
  | tail a _ hstep ih =>
      obtain ⟨as, hrun⟩ := ih
      refine ⟨as ++ [a], ?_⟩
      rw [run_append, hrun]
      simp [run, hstep]

/-- The state a replayed run ends in is reachable. -/
theorem reachable_get {g : Y.Shared} {as : List Y.Act} (h : (run (init g) as).isSome) :
    Reachable g ((run (init g) as).get h) :=
  reaches_of_run (Option.some_get h).symm

/-- A preorder that every step out of a reachable state respects is respected
by every run. -/
theorem Reaches.lift {R : Y.State → Y.State → Prop} {g : Y.Shared} {s s' : Y.State}
    (hrefl : ∀ s, R s s) (htrans : ∀ {a b c}, R a b → R b c → R a c)
    (hstep : ∀ {a b act}, Reachable g a → System.step a act = some b → R a b)
    (hs : Reachable g s) (h : Reaches s s') : R s s' := by
  induction h with
  | refl => exact hrefl s
  | tail a hreach hst ih => exact htrans ih (hstep (Reaches.trans hs hreach) hst)

/-- An invariant holds initially and is preserved by the steps out of
reachable states. -/
theorem Reachable.induct {I : Y.State → Prop} {g : Y.Shared} (hinit : I (init g))
    (hstep : ∀ {s s' a}, Reachable g s → I s → step s a = some s' → I s') {s : Y.State}
    (h : Reachable g s) : I s := by
  induction h with
  | refl => exact hinit
  | tail a hreach hst ih => exact hstep hreach ih hst

theorem Reachable.tail {g : Y.Shared} {s s' : Y.State} {a : Y.Act} (h : Reachable g s)
    (hstep : step s a = some s') : Reachable g s' :=
  Reaches.tail a h hstep

/-- The thread found at `t'` after thread `t` advanced. -/
theorem getElem?_set_advance {s : Y.State} {t t' : Nat} {th th' new : Y.Thread}
    (hth : s.threads[t]? = some th) (h : (s.threads.set t new)[t']? = some th') :
    (t' = t ∧ th' = new) ∨ (t' ≠ t ∧ s.threads[t']? = some th') := by
  rw [List.getElem?_set] at h
  have hlt : t < s.threads.length := (List.getElem?_eq_some_iff.mp hth).1
  by_cases ht : t = t'
  · subst ht
    simp only [if_pos, hlt, Option.some.injEq] at h
    exact .inl ⟨rfl, h.symm⟩
  · simp only [if_neg ht] at h
    exact .inr ⟨fun h' => ht h'.symm, h⟩

/-- The thread found at `t` after a thread was started. -/
theorem getElem?_append_spawn {ths : List Y.Thread} {new th : Y.Thread} {t : Nat}
    (h : (ths ++ [new])[t]? = some th) :
    ths[t]? = some th ∨ (t = ths.length ∧ th = new) := by
  rcases Nat.lt_trichotomy t ths.length with hlt | heq | hgt
  · rw [List.getElem?_append_left hlt] at h
    exact .inl h
  · subst heq
    rw [List.getElem?_append_right (Nat.le_refl _)] at h
    simp only [Nat.sub_self, List.getElem?_cons_zero, Option.some.injEq] at h
    exact .inr ⟨rfl, h.symm⟩
  · rw [List.getElem?_append_right (by omega)] at h
    have hne : t - ths.length ≠ 0 := by omega
    obtain ⟨n, hn⟩ := Nat.exists_eq_succ_of_ne_zero hne
    simp [hn] at h

/-- A thread keeps its place and its task, and its history grows. -/
theorem Reaches.thread {s s' : Y.State} (h : Reaches s s') {t : Nat} {th : Y.Thread}
    (hth : s.threads[t]? = some th) :
    ∃ th', s'.threads[t]? = some th' ∧ th'.task = th.task ∧ th.hist <+: th'.hist := by
  induction h with
  | refl => exact ⟨th, hth, rfl, List.prefix_rfl⟩
  | tail a _ hstep ih =>
      obtain ⟨th', hth', htask, hhist⟩ := ih
      have hlt := (List.getElem?_eq_some_iff.mp hth').1
      obtain ⟨k, -, rfl⟩ | ⟨t', ans, th₁, op, k, r, g', -, hth₁, hrest, hx, rfl⟩ |
        ⟨_, g', -, hx, rfl⟩ := step_cases hstep
      · exact ⟨th', by rw [List.getElem?_append_left hlt, hth'], htask, hhist⟩
      · by_cases ht : t' = t
        · -- the thread itself called
          subst ht
          cases hth'.symm.trans hth₁
          exact ⟨th'.advance op k r, by simp [hlt], htask,
            hhist.trans (List.prefix_append _ _)⟩
        · exact ⟨th', by rw [List.getElem?_set_ne ht, hth'], htask, hhist⟩
      · exact ⟨th', hth', htask, hhist⟩

/-- An event that is new in the history of a thread was a call in between. -/
theorem Reaches.called {s s' : Y.State} (h : Reaches s s') {t : Nat} {th th' : Y.Thread}
    (hth : s.threads[t]? = some th) (hth' : s'.threads[t]? = some th') {e : Event S}
    (he : e ∈ th'.hist) (hnew : e ∉ th.hist) :
    ∃ l l' thl k ans, Reaches s l ∧ l.threads[t]? = some thl ∧ thl.rest = .call e.op k ∧
      step l (.act t ans) = some l' ∧ Reaches l' s' := by
  induction h generalizing th' with
  | refl =>
      cases hth.symm.trans hth'
      exact absurd he hnew
  | @tail s₁ s₂ a hreach hstep ih =>
      obtain ⟨th₁, hth₁, -, -⟩ := hreach.thread hth
      by_cases hold : e ∈ th₁.hist
      · obtain ⟨l, l', thl, k, ans, hl, hthl, hrest, hcall, hl'⟩ := ih hth₁ hold
        exact ⟨l, l', thl, k, ans, hl, hthl, hrest, hcall, .tail a hl' hstep⟩
      · -- the last step made the call
        have hlt := (List.getElem?_eq_some_iff.mp hth₁).1
        obtain ⟨k, -, rfl⟩ | ⟨t', ans, th₂, op, k, r, g', rfl, hth₂, hrest, hx, rfl⟩ |
          ⟨_, g', -, hx, rfl⟩ := step_cases hstep
        · rw [List.getElem?_append_left hlt] at hth'
          cases hth₁.symm.trans hth'
          exact absurd he hold
        · rcases getElem?_set_advance hth₂ hth' with ⟨rfl, rfl⟩ | ⟨-, hsame⟩
          · cases hth₁.symm.trans hth₂
            rcases List.mem_append.mp he with he | he
            · exact absurd he hold
            · rw [List.mem_singleton.mp he]
              exact ⟨s₁, _, th₁, k, ans, hreach, hth₁, hrest, hstep, .refl⟩
          · cases hth₁.symm.trans hsame
            exact absurd he hold
        · cases hth₁.symm.trans hth'
          exact absurd he hold

/-- What holds of all events of all histories, what every call establishes of its
event and every step keeps. -/
theorem Reaches.events {P : Nat → Event S → Y.Shared → Prop} {s₀ : Y.State}
    (hstart : ∀ t th, s₀.threads[t]? = some th → ∀ e ∈ th.hist, P t e s₀.shared)
    (hcall : ∀ {s : Y.State} {t : Nat} {th : Y.Thread} {op : S.Op} {k : S.Rep op → Prog S ε α}
      {ans : Y.Answer} {r : S.Rep op} {g' : Y.Shared}, Reaches s₀ s → s.threads[t]? = some th →
      th.rest = .call op k → Y.exec s.shared t op ans = some (r, g') → P t ⟨op, r⟩ g')
    (hkeep : ∀ {s s' : Y.State} {a : Y.Act}, Reaches s₀ s → step s a = some s' →
      ∀ t e, P t e s.shared → P t e s'.shared)
    {s : Y.State} (h : Reaches s₀ s) :
    ∀ t th, s.threads[t]? = some th → ∀ e ∈ th.hist, P t e s.shared := by
  induction h with
  | refl => exact hstart
  | tail a hreach hstep ih =>
      intro t th hth e he
      have hkeep := hkeep hreach hstep
      obtain ⟨k, -, rfl⟩ | ⟨t', ans, th', op, k, r, g', -, hth', hrest, hx, rfl⟩ |
        ⟨_, g', -, hx, rfl⟩ := step_cases hstep
      · rcases getElem?_append_spawn hth with hold | ⟨rfl, rfl⟩
        · exact ih t th hold e he
        · cases he
      · rcases getElem?_set_advance hth' hth with ⟨rfl, rfl⟩ | ⟨-, hold⟩
        · -- the thread that called: an old event, or the new one
          rcases List.mem_append.mp he with he | he
          · exact hkeep t e (ih t th' hth' e he)
          · rw [List.mem_singleton.mp he]
            exact hcall hreach hth' hrest hx
        · exact hkeep t e (ih t th hold e he)
      · exact hkeep t e (ih t th hth e he)

/-- The same from the start. -/
theorem Reachable.events {P : Nat → Event S → Y.Shared → Prop} {g : Y.Shared}
    (hcall : ∀ {s : Y.State} {t : Nat} {th : Y.Thread} {op : S.Op} {k : S.Rep op → Prog S ε α}
      {ans : Y.Answer} {r : S.Rep op} {g' : Y.Shared}, Reachable g s → s.threads[t]? = some th →
      th.rest = .call op k → Y.exec s.shared t op ans = some (r, g') → P t ⟨op, r⟩ g')
    (hkeep : ∀ {s s' : Y.State} {a : Y.Act}, Reachable g s → step s a = some s' →
      ∀ t e, P t e s.shared → P t e s'.shared)
    {s : Y.State} (h : Reachable g s) :
    ∀ t th, s.threads[t]? = some th → ∀ e ∈ th.hist, P t e s.shared := by
  refine Reaches.events ?_ hcall hkeep h
  intro t th hth
  simp [init] at hth

/-! ## A thread that runs alone -/

/-- Thread `t` makes its next calls with these answers, and nobody else moves. -/
def serveAll (Y : System S ε α) (t : Nat) :
    Y.Shared → Prog S ε α → List Y.Answer → Option (Y.Shared × Prog S ε α)
  | g, p, [] => some (g, p)
  | g, .call op k, ans :: rest =>
      (Y.exec g t op ans).bind fun rg => serveAll Y t rg.2 (k rg.1) rest
  | _, _, _ :: _ => none

@[simp] theorem serveAll_nil (t : Nat) (g : Y.Shared) (p : Prog S ε α) :
    serveAll Y t g p [] = some (g, p) := by
  cases p <;> rfl

theorem run_serveAll {s : Y.State} {t : Nat} {th : Y.Thread} {answers : List Y.Answer}
    {g : Y.Shared} {p : Prog S ε α} (hth : s.threads[t]? = some th)
    (h : serveAll Y t s.shared th.rest answers = some (g, p)) :
    ∃ s' th', run s (answers.map (.act t)) = some s' ∧ s'.shared = g ∧
      s'.threads[t]? = some th' ∧ th'.rest = p := by
  induction answers generalizing s th with
  | nil =>
      obtain ⟨rfl, rfl⟩ : s.shared = g ∧ th.rest = p := by simpa using h
      exact ⟨s, th, rfl, rfl, hth, rfl⟩
  | cons ans rest ih =>
      cases hrest : th.rest with
      | ret a => simp [hrest, serveAll] at h
      | raise e => simp [hrest, serveAll] at h
      | call op k =>
          simp only [hrest, serveAll, Option.bind_eq_some_iff] at h
          obtain ⟨⟨r, g'⟩, hx, h⟩ := h
          have hlt : t < s.threads.length := (List.getElem?_eq_some_iff.mp hth).1
          have hth' : (s.threads.set t (th.advance op k r))[t]? = some (th.advance op k r) := by
            simp [hlt]
          obtain ⟨s', th', hrun, hs'⟩ :=
            ih (s := ⟨g', s.threads.set t (th.advance op k r)⟩) hth' h
          refine ⟨s', th', ?_, hs'⟩
          simp [run, step, hth, callStep, hrest, hx, hrun]

end System

end Interact
