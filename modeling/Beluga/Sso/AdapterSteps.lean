import Beluga.Sso.AdapterRules

/-! # Steps of the read adapter

* `Stepped`, `step_cases`: what a step does, once for all actions;
* `Inv`: one refresh at a time, who waits for it, and that what callers hold was
  read at one commit. `inv_step` keeps it, `inv_reachable` has it in every run;
* `Flow`: a fact about the responses that callers hold or wait for. `flow_step`
  keeps it when it holds of the responses that a step makes.
-/

namespace Sso.GithubSsoAdapter

open Interact

variable {o : Options}

namespace State

/-- What a step does. -/
inductive Stepped (o : Options) (s : State) : Act → State → Prop where
  | push (commitSha : String) :
      Stepped o s (.push commitSha) { s with history := commitSha :: s.history }
  | answered (call : Call) (r : Reads) (response : Except String Response)
      (hr : r.After s.now) (honce : s.atOnce o call r = some response) :
      Stepped o s (.call call r) { s with
        now := r.c, callers := s.callers ++ [⟨s.infoOf o call r, received call response⟩] }
  | joined (call : Call) (r : Reads) (id : Nat) (hr : r.After s.now)
      (honce : s.atOnce o call r = none) (hin : s.inflight = some id) :
      Stepped o s (.call call r) { s with
        now := r.c, callers := s.callers ++ [⟨s.infoOf o call r, .waiting id⟩] }
  | begun (call : Call) (r : Reads) (hr : r.After s.now)
      (honce : s.atOnce o call r = none) (hin : s.inflight = none) :
      Stepped o s (.call call r) { s with
        core := s.core.note (.started r.c)
        inflight := some s.started
        running := s.running ++ [⟨s.started, .head s.core.snapshot⟩]
        started := s.started + 1
        now := r.c
        callers := s.callers ++ [⟨s.infoOf o call r, .waiting s.started⟩] }
  | served (id : Nat) (previous : Option Nat) (answer : HeadAnswer)
      (hstage : s.stageOf id = some (.head previous)) (hcan : s.canAnswer previous answer = true) :
      Stepped o s (.serveHead id answer) (s.setStage id (.headServed previous s.main answer))
  | headRead (id : Nat) (previous : Option Nat) (main : String) (answer : HeadAnswer) (r : Reads)
      (hr : r.After s.now) (hstage : s.stageOf id = some (.headServed previous main answer)) :
      Stepped o s (.deliverHead id r)
        { s.setStage id (s.core.headRead o (s.core.headOf previous main answer) r).2 with
          core := (s.core.headRead o (s.core.headOf previous main answer) r).1, now := r.c }
  | fileRead (id : Nat) (head : Head) (answer : Except Failure (String × String)) (r : Reads)
      (hr : r.After s.now) (hstage : s.stageOf id = some (.file head)) :
      Stepped o s (.deliverFile id answer r)
        { s.setStage id (.ended (s.core.fileRead o head answer r).2) with
          core := (s.core.fileRead o head answer r).1, now := r.c }
  | finished (id : Nat) (result : Except String Response) (hend : s.resultOf id = some result) :
      Stepped o s (.finish id) { s with
        inflight := none
        running := s.running.filter fun run => run.id != id
        callers := wake s.callers id result }
  | resumed (i : Nat) (info : CallInfo) (response : Except String Response) (r : Reads)
      (hr : r.After s.now) (hcaller : s.callers[i]? = some ⟨info, .ready response⟩) :
      Stepped o s (.resume i r) { s with
        core := (s.core.baseRead o response r).1
        now := r.c
        callers := s.callers.set i ⟨info, (s.core.baseRead o response r).2⟩ }
  | groupsRead (i : Nat) (info : CallInfo) (p : Nat) (response : Response)
      (answer : Except Failure (String × String)) (r : Reads) (hr : r.After s.now)
      (hcaller : s.callers[i]? = some ⟨info, .groups p response⟩) :
      Stepped o s (.deliverGroups i answer r) { s with
        core := (s.core.groupsRead o p answer r).1
        now := r.c
        callers := s.callers.set i ⟨info, .returned
          ((s.core.groupsRead o p answer r).2.map fun b => .base b response)⟩ }

theorem callerAt_eq_some {s : State} {i : Nat} {info : CallInfo} {stage : CallerStage}
    (h : s.callerAt i = some (info, stage)) : s.callers[i]? = some ⟨info, stage⟩ := by
  obtain ⟨c, hc, heq⟩ := Option.map_eq_some_iff.mp h
  cases heq
  exact hc

theorem step_cases {s s' : State} {a : Act} (h : s.step o a = some s') : Stepped o s a s' := by
  cases a with
  | push commitSha =>
      cases h
      exact .push commitSha
  | call call r =>
      simp only [step, Option.ite_none_right_eq_some, Option.some.injEq] at h
      obtain ⟨hr, h⟩ := h
      subst h
      unfold arrive
      cases honce : s.atOnce o call r with
      | some response => exact .answered call r response hr honce
      | none =>
          cases hin : s.inflight with
          | some id =>
              have hjoin : s.join r = (s, id) := by simp [join, hin]
              rw [hjoin]
              exact .joined call r id hr honce hin
          | none => simpa only [join, hin] using .begun call r hr honce hin
  | serveHead id answer =>
      simp only [step] at h
      split at h
      case h_1 previous hstage =>
        simp only [Option.ite_none_right_eq_some, Option.some.injEq] at h
        obtain ⟨hcan, h⟩ := h
        subst h
        exact .served id previous answer hstage hcan
      case h_2 => cases h
  | deliverHead id r =>
      simp only [step] at h
      split at h
      case h_1 previous main answer hstage =>
        simp only [Option.ite_none_right_eq_some, Option.some.injEq] at h
        obtain ⟨hr, h⟩ := h
        subst h
        exact .headRead id previous main answer r hr hstage
      case h_2 => cases h
  | deliverFile id answer r =>
      simp only [step] at h
      split at h
      case h_1 head hstage =>
        simp only [Option.ite_none_right_eq_some, Option.some.injEq] at h
        obtain ⟨hr, h⟩ := h
        subst h
        exact .fileRead id head answer r hr hstage
      case h_2 => cases h
  | finish id =>
      simp only [step] at h
      split at h
      case h_1 result hend =>
        cases h
        exact .finished id result hend
      case h_2 => cases h
  | resume i r =>
      simp only [step] at h
      split at h
      case h_1 info response hcaller =>
        simp only [Option.ite_none_right_eq_some, Option.some.injEq] at h
        obtain ⟨hr, h⟩ := h
        subst h
        exact .resumed i info response r hr (callerAt_eq_some hcaller)
      case h_2 => cases h
  | deliverGroups i answer r =>
      simp only [step] at h
      split at h
      case h_1 info p response hcaller =>
        simp only [Option.ite_none_right_eq_some, Option.some.injEq] at h
        obtain ⟨hr, h⟩ := h
        subst h
        exact .groupsRead i info p response answer r hr (callerAt_eq_some hcaller)
      case h_2 => cases h

/-! ## One refresh at a time -/

/-- At most one refresh is under way, and those who wait wait for it. While it reads the file, or
once it has a response, no commit is known to be invalid. -/
structure Shape (s : State) : Prop where
  one : (s.inflight = none ∧ s.running = []) ∨
    ∃ id stage, s.inflight = some id ∧ s.running = [⟨id, stage⟩]
  waiting : ∀ c ∈ s.callers, ∀ id, c.stage = .waiting id → s.inflight = some id
  file : ∀ run ∈ s.running, ∀ head, run.stage = .file head → s.core.invalid = none
  ended : ∀ run ∈ s.running, ∀ resp, run.stage = .ended (.ok resp) → s.core.invalid = none

theorem Shape.start (commitSha : String) : (start commitSha).Shape := by
  refine ⟨.inl ⟨rfl, rfl⟩, ?_, ?_, ?_⟩ <;> intro x hx <;> cases hx

theorem Shape.running {s : State} (h : s.Shape) {id : Nat} {stage : Stage}
    (hstage : s.stageOf id = some stage) :
    s.inflight = some id ∧ s.running = [⟨id, stage⟩] := by
  rcases h.one with ⟨-, hrun⟩ | ⟨id', stage', hin, hrun⟩
  · simp [stageOf, hrun] at hstage
  · by_cases hid : id' = id
    · subst hid
      simp only [stageOf, hrun, List.find?_cons, beq_self_eq_true, Option.map_some,
        Option.some.injEq] at hstage
      rw [hrun, hstage]
      exact ⟨hin, rfl⟩
    · simp [stageOf, hrun, hid] at hstage

theorem running_setStage {s : State} {id : Nat} {stage : Stage}
    (stage' : Stage) (hrun : s.running = [⟨id, stage⟩]) :
    (s.setStage id stage').running = [⟨id, stage'⟩] := by
  simp [setStage, hrun]

theorem stageOf_of_running {s : State} {id : Nat} {stage : Stage}
    (hrun : s.running = [⟨id, stage⟩]) : s.stageOf id = some stage := by
  simp [stageOf, hrun]

theorem resultOf_eq_some {s : State} {id : Nat} {result : Except String Response} :
    s.resultOf id = some result ↔ s.stageOf id = some (.ended result) := by
  unfold resultOf
  split
  case h_1 r hstage => simp [hstage]
  case h_2 hstage =>
    simp only [reduceCtorEq, false_iff]
    exact hstage result

theorem Shape.idle {s : State} (h : s.Shape) (hin : s.inflight = none) : s.running = [] := by
  rcases h.one with ⟨-, hrun⟩ | ⟨id, stage, hid, -⟩
  · exact hrun
  · rw [hin] at hid
    cases hid

/-- While a refresh is under way, none has ended. -/
theorem Shape.resultOf_none {s : State} (h : s.Shape) {id : Nat} {stage : Stage}
    (hstage : s.stageOf id = some stage) (hne : ∀ result, stage ≠ .ended result) (id' : Nat) :
    s.resultOf id' = none := by
  cases hres : s.resultOf id' with
  | none => rfl
  | some result =>
      have hrun := (h.running hstage).2
      rw [(h.running (resultOf_eq_some.mp hres)).2] at hrun
      simp only [List.cons.injEq, Running.mk.injEq] at hrun
      exact absurd hrun.1.2.symm (hne result)

theorem received_ne_waiting (call : Call) (response : Except String Response) (id : Nat) :
    received call response ≠ .waiting id := by
  cases call <;> simp [received]

/-- A caller after `wake`: it stays, or has the result it waited for. -/
theorem mem_wake {callers : List Caller} {id : Nat} {result : Except String Response}
    {c : Caller} (h : c ∈ wake callers id result) :
    (c ∈ callers ∧ c.stage ≠ .waiting id) ∨
      ∃ c₀ ∈ callers, c₀.stage = .waiting id ∧ c = ⟨c₀.info, received c₀.info.call result⟩ := by
  obtain ⟨c₀, hc₀, heq⟩ := List.mem_map.mp h
  cases hstage : c₀.stage with
  | waiting i =>
      rw [hstage] at heq
      by_cases hi : i = id
      · subst hi
        simp only [if_true] at heq
        exact .inr ⟨c₀, hc₀, hstage, heq.symm⟩
      · simp only [hi, if_false] at heq
        subst heq
        refine .inl ⟨hc₀, ?_⟩
        rw [hstage]
        exact fun h => hi (CallerStage.waiting.inj h)
  | _ =>
      rw [hstage] at heq
      subst heq
      exact .inl ⟨hc₀, by simp [hstage]⟩

/-- A caller after one of them has gone on. -/
theorem mem_set {callers : List Caller} {i : Nat} {c₀ c : Caller}
    (h : c ∈ callers.set i c₀) : c ∈ callers ∨ c = c₀ :=
  List.mem_or_eq_of_mem_set h

theorem baseRead_ne_waiting {k : Core} {response : Except String Response} {r : Reads}
    (id : Nat) : (k.baseRead o response r).2 ≠ .waiting id := by
  intro h
  have hspec := Core.baseRead_spec (o := o) k response r
  rw [h] at hspec
  cases hspec

theorem headRead_invalid {k : Core} {answer : Except Failure Head} {r : Reads} :
    (∀ head, (k.headRead o answer r).2 = .file head → (k.headRead o answer r).1.invalid = none) ∧
      ∀ resp, (k.headRead o answer r).2 = .ended (.ok resp) →
        (k.headRead o answer r).1.invalid = none := by
  have hspec := (Core.headRead_spec (o := o) k answer r).2
  refine ⟨?_, ?_⟩
  · intro head h
    rw [h] at hspec
    cases hspec with
    | file _ _ hinv => exact hinv
  · intro resp h
    rw [h] at hspec
    cases hspec with
    | failed _ _ hstale => exact (hstale resp rfl).invalid
    | confirmed _ _ _ hfresh => exact hfresh.invalid

theorem fileRead_invalid {k : Core} {head : Head} {answer : Except Failure (String × String)}
    {r : Reads} (hinv : k.invalid = none) {resp : Response}
    (h : (k.fileRead o head answer r).2 = .ok resp) :
    (k.fileRead o head answer r).1.invalid = none := by
  have hspec := (Core.fileRead_spec (o := o) k head answer r hinv).2
  rw [h] at hspec
  cases hspec with
  | failed _ _ hstale => exact (hstale resp rfl).invalid
  | confirmed _ hfresh => exact hfresh.invalid

theorem Shape.step {s s' : State} {a : Act} (h : s.Shape) (hstep : s.step o a = some s') :
    s'.Shape := by
  cases step_cases hstep with
  | push commitSha => exact ⟨h.one, h.waiting, h.file, h.ended⟩
  | answered call r response hr honce =>
      refine ⟨h.one, ?_, h.file, h.ended⟩
      intro c hc id hid
      rcases List.mem_append.mp hc with hc | hc
      · exact h.waiting c hc id hid
      · rw [List.mem_singleton.mp hc] at hid
        exact absurd hid (received_ne_waiting call response id)
  | joined call r id hr honce hin =>
      refine ⟨h.one, ?_, h.file, h.ended⟩
      intro c hc id' hid
      rcases List.mem_append.mp hc with hc | hc
      · exact h.waiting c hc id' hid
      · rw [List.mem_singleton.mp hc] at hid
        rw [← CallerStage.waiting.inj hid]
        exact hin
  | begun call r hr honce hin =>
      have hrun := h.idle hin
      have hone : s.running ++ [⟨s.started, .head s.core.snapshot⟩] =
          [⟨s.started, .head s.core.snapshot⟩] := by
        rw [hrun, List.nil_append]
      refine ⟨.inr ⟨s.started, .head s.core.snapshot, rfl, hone⟩, ?_, ?_, ?_⟩
      · intro c hc id hid
        rcases List.mem_append.mp hc with hc | hc
        · have := h.waiting c hc id hid
          rw [hin] at this
          cases this
        · rw [List.mem_singleton.mp hc] at hid
          rw [← CallerStage.waiting.inj hid]
      · intro run hmem head hfile
        rw [hone] at hmem
        rw [List.mem_singleton.mp hmem] at hfile
        cases hfile
      · intro run hmem resp hend
        rw [hone] at hmem
        rw [List.mem_singleton.mp hmem] at hend
        cases hend
  | served id previous answer hstage hcan =>
      obtain ⟨hin, hrun⟩ := h.running hstage
      have hrun' := running_setStage (.headServed previous s.main answer) hrun
      refine ⟨.inr ⟨id, _, hin, hrun'⟩, h.waiting, ?_, ?_⟩
      · intro run hmem head hfile
        rw [hrun'] at hmem
        rw [List.mem_singleton.mp hmem] at hfile
        cases hfile
      · intro run hmem resp hend
        rw [hrun'] at hmem
        rw [List.mem_singleton.mp hmem] at hend
        cases hend
  | headRead id previous main answer r hr hstage =>
      obtain ⟨hin, hrun⟩ := h.running hstage
      have hrun' := running_setStage
        ((s.core.headRead o (s.core.headOf previous main answer) r).2) hrun
      refine ⟨.inr ⟨id, _, hin, hrun'⟩, h.waiting, ?_, ?_⟩
      · intro run hmem head hfile
        rw [List.mem_singleton.mp (hrun' ▸ hmem : run ∈ _)] at hfile
        exact headRead_invalid.1 head hfile
      · intro run hmem resp hend
        rw [List.mem_singleton.mp (hrun' ▸ hmem : run ∈ _)] at hend
        exact headRead_invalid.2 resp hend
  | fileRead id head answer r hr hstage =>
      obtain ⟨hin, hrun⟩ := h.running hstage
      have hinv : s.core.invalid = none :=
        h.file _ (hrun ▸ List.mem_singleton_self _) head rfl
      have hrun' := running_setStage
        (.ended (s.core.fileRead o head answer r).2) hrun
      refine ⟨.inr ⟨id, _, hin, hrun'⟩, h.waiting, ?_, ?_⟩
      · intro run hmem head' hfile
        rw [List.mem_singleton.mp (hrun' ▸ hmem : run ∈ _)] at hfile
        cases hfile
      · intro run hmem resp hend
        rw [List.mem_singleton.mp (hrun' ▸ hmem : run ∈ _)] at hend
        exact fileRead_invalid hinv (Stage.ended.inj hend)
  | finished id result hend =>
      obtain ⟨hin, hrun⟩ := h.running (resultOf_eq_some.mp hend)
      have hnone : (s.running.filter fun run => run.id != id) = [] := by simp [hrun]
      refine ⟨.inl ⟨rfl, hnone⟩, ?_, ?_, ?_⟩
      · intro c hc id' hid
        rcases mem_wake hc with ⟨hc, hne⟩ | ⟨c₀, -, -, rfl⟩
        · -- who waits, waits for the refresh that has ended
          have hother := h.waiting c hc id' hid
          rw [hin] at hother
          rw [Option.some.inj hother] at hne
          exact absurd hid hne
        · exact absurd hid (received_ne_waiting _ _ _)
      · intro run hmem
        rw [hnone] at hmem
        cases hmem
      · intro run hmem
        rw [hnone] at hmem
        cases hmem
  | resumed i info response r hr hcaller =>
      have hinv : (s.core.baseRead o response r).1.invalid = s.core.invalid := by
        rcases Core.baseRead_core (o := o) s.core response r with hk | ⟨hk, -⟩ <;> rw [hk]
        rfl
      refine ⟨h.one, ?_, ?_, ?_⟩
      · intro c hc id hid
        rcases mem_set hc with hc | rfl
        · exact h.waiting c hc id hid
        · exact absurd hid (baseRead_ne_waiting id)
      · intro run hmem head hfile
        exact hinv.trans (h.file run hmem head hfile)
      · intro run hmem resp hend
        exact hinv.trans (h.ended run hmem resp hend)
  | groupsRead i info p response answer r hr hcaller =>
      have hinv := (Core.groupsRead_spec (o := o) s.core p answer r).2.1
      refine ⟨h.one, ?_, ?_, ?_⟩
      · intro c hc id hid
        rcases mem_set hc with hc | rfl
        · exact h.waiting c hc id hid
        · cases hid
      · intro run hmem head hfile
        exact hinv.trans (h.file run hmem head hfile)
      · intro run hmem resp hend
        exact hinv.trans (h.ended run hmem resp hend)

/-! ## Responses on their way -/

/-- The response a caller has, which it goes on with or has returned. -/
def carried : CallerStage → Option Response
  | .ready (.ok r) => some r
  | .groups _ r => some r
  | .returned (.ok (.configured r)) => some r
  | .returned (.ok (.base _ r)) => some r
  | _ => none

/-- `Q` holds of the responses that callers have, and of the one they are about to get. -/
structure Flow (Q : State → CallInfo → Response → Prop) (s : State) : Prop where
  held : ∀ c ∈ s.callers, ∀ r, carried c.stage = some r → Q s c.info r
  ended : ∀ id r, s.stageOf id = some (.ended (.ok r)) →
    ∀ c ∈ s.callers, c.stage = .waiting id → Q s c.info r

theorem carried_received {call : Call} {response : Except String Response} {r : Response}
    (h : carried (received call response) = some r) : response = .ok r := by
  cases call <;> cases response <;> simp_all [received, carried, Except.map]

theorem carried_baseRead {k : Core} {response : Except String Response} {r : Reads}
    {resp : Response} (h : carried (k.baseRead o response r).2 = some resp) :
    response = .ok resp := by
  have hspec := Core.baseRead_spec (o := o) k response r
  cases hstage : (k.baseRead o response r).2 with
  | waiting id => exact absurd hstage (baseRead_ne_waiting id)
  | ready x => rw [hstage] at hspec; cases hspec
  | groups p x =>
      rw [hstage] at hspec h
      cases hspec with
      | groups _ _ hok => cases h; exact hok
  | returned out =>
      rw [hstage] at hspec h
      cases hspec with
      | refused message => cases h
      | base _ snap names hok => cases h; exact hok

theorem flow_step {Q : State → CallInfo → Response → Prop} {s s' : State} {a : Act}
    (hshape : s.Shape) (hflow : Flow Q s) (hstep : s.step o a = some s')
    (hmono : ∀ info r, Q s info r → Q s' info r)
    (honce : ∀ call r resp, a = .call call r → s.atOnce o call r = some (.ok resp) →
      Q s' (s.infoOf o call r) resp)
    (hjoin : ∀ call r id resp, a = .call call r → s.atOnce o call r = none →
      s.inflight = some id → s.stageOf id = some (.ended (.ok resp)) →
      Q s' (s.infoOf o call r) resp)
    (hend : ∀ id resp, s.resultOf id = none → s'.stageOf id = some (.ended (.ok resp)) →
      ∀ c ∈ s.callers, c.stage = .waiting id → Q s' c.info resp) :
    Flow Q s' := by
  cases step_cases hstep with
  | push commitSha =>
      refine ⟨?_, ?_⟩
      · intro c hc resp hcar
        exact hmono _ _ (hflow.held c hc resp hcar)
      · intro id resp hst c hc hw
        exact hmono _ _ (hflow.ended id resp hst c hc hw)
  | answered call r response hr hat =>
      refine ⟨?_, ?_⟩
      · intro c hc resp hcar
        rcases List.mem_append.mp hc with hc | hc
        · exact hmono _ _ (hflow.held c hc resp hcar)
        · rw [List.mem_singleton.mp hc] at hcar ⊢
          rw [carried_received hcar] at hat
          exact honce call r resp rfl hat
      · intro id resp hst c hc hw
        rcases List.mem_append.mp hc with hc | hc
        · exact hmono _ _ (hflow.ended id resp hst c hc hw)
        · rw [List.mem_singleton.mp hc] at hw
          exact absurd hw (received_ne_waiting _ _ _)
  | joined call r id hr hat hin =>
      refine ⟨?_, ?_⟩
      · intro c hc resp hcar
        rcases List.mem_append.mp hc with hc | hc
        · exact hmono _ _ (hflow.held c hc resp hcar)
        · rw [List.mem_singleton.mp hc] at hcar
          cases hcar
      · intro id' resp hst c hc hw
        rcases List.mem_append.mp hc with hc | hc
        · exact hmono _ _ (hflow.ended id' resp hst c hc hw)
        · rw [List.mem_singleton.mp hc] at hw ⊢
          rw [← CallerStage.waiting.inj hw] at hst
          exact hjoin call r id resp rfl hat hin hst
  | begun call r hr hat hin =>
      refine ⟨?_, ?_⟩
      · intro c hc resp hcar
        rcases List.mem_append.mp hc with hc | hc
        · exact hmono _ _ (hflow.held c hc resp hcar)
        · rw [List.mem_singleton.mp hc] at hcar
          cases hcar
      · -- the refresh that has begun has not ended
        intro id resp hst c hc hw
        simp [stageOf, hshape.idle hin] at hst
  | served id previous answer hstage hcan =>
      obtain ⟨hin, hrun⟩ := hshape.running hstage
      have hrun' := running_setStage (.headServed previous s.main answer) hrun
      refine ⟨?_, ?_⟩
      · intro c hc resp hcar
        exact hmono _ _ (hflow.held c hc resp hcar)
      · intro id' resp hst c hc hw
        simp [stageOf, hrun'] at hst
  | headRead id previous main answer r hr hstage =>
      refine ⟨?_, ?_⟩
      · intro c hc resp hcar
        exact hmono _ _ (hflow.held c hc resp hcar)
      · intro id' resp hst c hc hw
        exact hend id' resp (hshape.resultOf_none hstage (by simp) id') hst c hc hw
  | fileRead id head answer r hr hstage =>
      refine ⟨?_, ?_⟩
      · intro c hc resp hcar
        exact hmono _ _ (hflow.held c hc resp hcar)
      · intro id' resp hst c hc hw
        exact hend id' resp (hshape.resultOf_none hstage (by simp) id') hst c hc hw
  | finished id result hres =>
      have hst := resultOf_eq_some.mp hres
      obtain ⟨hin, hrun⟩ := hshape.running hst
      refine ⟨?_, ?_⟩
      · intro c hc resp hcar
        rcases mem_wake hc with ⟨hc, -⟩ | ⟨c₀, hc₀, hw, rfl⟩
        · exact hmono _ _ (hflow.held c hc resp hcar)
        · rw [carried_received hcar] at hst
          exact hmono _ _ (hflow.ended id resp hst c₀ hc₀ hw)
      · intro id' resp hst' c hc hw
        simp [stageOf, hrun] at hst'
  | resumed i info response r hr hcaller =>
      refine ⟨?_, ?_⟩
      · intro c hc resp hcar
        rcases mem_set hc with hc | rfl
        · exact hmono _ _ (hflow.held c hc resp hcar)
        · have hready := hflow.held _ (List.mem_of_getElem? hcaller) resp
          rw [carried_baseRead hcar] at hready
          exact hmono _ _ (hready rfl)
      · intro id resp hst c hc hw
        rcases mem_set hc with hc | rfl
        · exact hmono _ _ (hflow.ended id resp hst c hc hw)
        · exact absurd hw (baseRead_ne_waiting id)
  | groupsRead i info p response answer r hr hcaller =>
      refine ⟨?_, ?_⟩
      · intro c hc resp hcar
        rcases mem_set hc with hc | rfl
        · exact hmono _ _ (hflow.held c hc resp hcar)
        · refine hmono _ _ (hflow.held _ (List.mem_of_getElem? hcaller) resp ?_)
          cases hb : (s.core.groupsRead o p answer r).2 with
          | error message => rw [hb] at hcar; cases hcar
          | ok b => rw [hb] at hcar; exact hcar
      · intro id resp hst c hc hw
        rcases mem_set hc with hc | rfl
        · exact hmono _ _ (hflow.ended id resp hst c hc hw)
        · cases hw

/-- The commit that the head read of refresh `id` has found. -/
def HeadKnown (s : State) (id : Nat) (commitSha : String) : Prop :=
  (∃ previous main answer etag, s.stageOf id = some (.headServed previous main answer) ∧
    s.core.headOf previous main answer = .ok ⟨commitSha, etag⟩) ∨
  ∃ etag, s.stageOf id = some (.file ⟨commitSha, etag⟩)

/-- How a refresh comes to have ended with a response. -/
theorem ended_of_step {s s' : State} {a : Act} {id : Nat} {resp : Response} (h : s.Shape)
    (hstep : s.step o a = some s') (hnone : s.resultOf id = none)
    (hst : s'.stageOf id = some (.ended (.ok resp))) :
    ∃ r : Reads, r.After s.now ∧
      ((∃ commitSha, s.HeadKnown id commitSha ∧ Core.Fresh s'.core r commitSha resp) ∨
        (Core.Stale o s'.core resp ∧ s'.core.failed = true)) := by
  have hsame : ∀ {x}, s.stageOf id = some x → x ≠ .ended (.ok resp) := by
    intro x hx heq
    rw [heq, ← resultOf_eq_some, hnone] at hx
    cases hx
  cases step_cases hstep with
  | push => exact absurd rfl (hsame hst)
  | answered => exact absurd rfl (hsame hst)
  | joined => exact absurd rfl (hsame hst)
  | begun call r hr honce hin => simp [stageOf, h.idle hin] at hst
  | served id' previous answer hstage hcan =>
      have hrun := (h.running hstage).2
      simp [stageOf, setStage, hrun] at hst
  | headRead id' previous main answer r hr hstage =>
      have hrun := running_setStage
        ((s.core.headRead o (s.core.headOf previous main answer) r).2)
        (h.running hstage).2
      have hspec := (Core.headRead_spec (o := o) s.core (s.core.headOf previous main answer) r).2
      refine ⟨r, hr, ?_⟩
      by_cases hid : id' = id
      · subst hid
        have hstage' : (s.core.headRead o (s.core.headOf previous main answer) r).2 =
            .ended (.ok resp) := by
          simpa [stageOf, hrun] using hst
        rw [hstage'] at hspec
        cases hspec with
        | failed _ hfailed hstale => exact .inr ⟨hstale resp rfl, hfailed⟩
        | confirmed head _ hanswer hfresh =>
            exact .inl ⟨head.commitSha, .inl ⟨previous, main, answer, head.etag, hstage, hanswer⟩,
              hfresh⟩
      · simp [stageOf, hrun, hid] at hst
  | fileRead id' head answer r hr hstage =>
      have hrun := running_setStage (.ended (s.core.fileRead o head answer r).2)
        (h.running hstage).2
      have hinv := h.file _ ((h.running hstage).2 ▸ List.mem_singleton_self _) head rfl
      have hspec := (Core.fileRead_spec (o := o) s.core head answer r hinv).2
      refine ⟨r, hr, ?_⟩
      by_cases hid : id' = id
      · subst hid
        have hresult : (s.core.fileRead o head answer r).2 = .ok resp := by
          simpa [stageOf, hrun] using hst
        rw [hresult] at hspec
        cases hspec with
        | failed _ hfailed hstale => exact .inr ⟨hstale resp rfl, hfailed⟩
        | confirmed _ hfresh => exact .inl ⟨head.commitSha, .inr ⟨head.etag, hstage⟩, hfresh⟩
      · simp [stageOf, hrun, hid] at hst
  | finished id' result hend =>
      have hrun := (h.running (resultOf_eq_some.mp hend)).2
      simp [stageOf, hrun] at hst
  | resumed => exact absurd rfl (hsame hst)
  | groupsRead => exact absurd rfl (hsame hst)

/-- A refresh that has ended keeps its result. -/
theorem stageOf_kept {s s' : State} {a : Act} {id : Nat} {result result' : Except String Response}
    (h : s.Shape) (hstep : s.step o a = some s') (hres : s.resultOf id = some result)
    (hst : s'.stageOf id = some (.ended result')) : result = result' := by
  have hstage := resultOf_eq_some.mp hres
  have hkeep : ∀ {s₁ : State}, s₁.running = s.running → s₁.stageOf id = some (.ended result') →
      result = result' := by
    intro s₁ hrun h₁
    rw [stageOf, hrun, ← stageOf, hstage] at h₁
    exact Stage.ended.inj (Option.some.inj h₁)
  have hother : ∀ {id' : Nat} {stage : Stage}, s.stageOf id' = some stage →
      (∀ x, stage ≠ .ended x) → False := by
    intro id' stage hs hne
    have hnone := h.resultOf_none hs hne id
    rw [hres] at hnone
    cases hnone
  cases step_cases hstep with
  | push => exact hkeep rfl hst
  | answered => exact hkeep rfl hst
  | joined => exact hkeep rfl hst
  | begun call r hr honce hin =>
      rw [(h.running hstage).1] at hin
      cases hin
  | served id' previous answer hs => exact (hother hs (by simp)).elim
  | headRead id' previous main answer r hr hs => exact (hother hs (by simp)).elim
  | fileRead id' head answer r hr hs => exact (hother hs (by simp)).elim
  | finished id' res hend =>
      have hrun := (h.running (resultOf_eq_some.mp hend)).2
      simp [stageOf, hrun] at hst
  | resumed => exact hkeep rfl hst
  | groupsRead => exact hkeep rfl hst

/-- The callers after a step: the old ones, those with a new stage, and a new one. -/
theorem info_of_step {s s' : State} {a : Act} (hstep : s.step o a = some s') {c : Caller}
    (hc : c ∈ s'.callers) :
    (∃ c₀ ∈ s.callers, c₀.info = c.info) ∨
      ∃ call r, a = .call call r ∧ c.info = s.infoOf o call r := by
  cases step_cases hstep with
  | push => exact .inl ⟨c, hc, rfl⟩
  | served => exact .inl ⟨c, hc, rfl⟩
  | headRead => exact .inl ⟨c, hc, rfl⟩
  | fileRead => exact .inl ⟨c, hc, rfl⟩
  | answered call r =>
      rcases List.mem_append.mp hc with hc | hc
      · exact .inl ⟨c, hc, rfl⟩
      · exact .inr ⟨call, r, rfl, by rw [List.mem_singleton.mp hc]⟩
  | joined call r =>
      rcases List.mem_append.mp hc with hc | hc
      · exact .inl ⟨c, hc, rfl⟩
      · exact .inr ⟨call, r, rfl, by rw [List.mem_singleton.mp hc]⟩
  | begun call r =>
      rcases List.mem_append.mp hc with hc | hc
      · exact .inl ⟨c, hc, rfl⟩
      · exact .inr ⟨call, r, rfl, by rw [List.mem_singleton.mp hc]⟩
  | finished id result =>
      rcases mem_wake hc with ⟨hc, -⟩ | ⟨c₀, hc₀, -, rfl⟩
      · exact .inl ⟨c, hc, rfl⟩
      · exact .inl ⟨c₀, hc₀, rfl⟩
  | resumed i info response r hr hcaller =>
      rcases mem_set hc with hc | rfl
      · exact .inl ⟨c, hc, rfl⟩
      · exact .inl ⟨_, List.mem_of_getElem? hcaller, rfl⟩
  | groupsRead i info p response answer r hr hcaller =>
      rcases mem_set hc with hc | rfl
      · exact .inl ⟨c, hc, rfl⟩
      · exact .inl ⟨_, List.mem_of_getElem? hcaller, rfl⟩

theorem call_after {s s' : State} {call : Call} {r : Reads}
    (hstep : s.step o (.call call r) = some s') : r.After s.now := by
  simp only [step, Option.ite_none_right_eq_some] at hstep
  exact hstep.1

/-! ## The invariant of all runs -/

/-- What a caller holds was read at one commit, and it came before now. -/
structure CallerOk (o : Options) (s : State) (c : Caller) : Prop where
  groups : ∀ p resp, c.stage = .groups p resp →
    s.core.commitOf p = some resp.commitSha ∧ resp.staleReason = none
  base : ∀ b resp, c.stage = .returned (.ok (.base b resp)) →
    Core.BaseOk o s.core b ∧ b.commitSha = resp.commitSha ∧ resp.staleReason = none
  configured : ∀ resp, c.stage = .returned (.ok (.configured resp)) →
    c.info.call = .getSsoConfig
  called : c.info.calledAt ≤ s.now

structure Inv (o : Options) (s : State) : Prop where
  shape : s.Shape
  core : s.core.Ok o
  callers : ∀ c ∈ s.callers, CallerOk o s c
  now : 0 ≤ s.now

theorem Inv.start (commitSha : String) : Inv o (start commitSha) := by
  refine ⟨.start commitSha, .start, ?_, le_rfl⟩
  intro c hc
  cases hc

/-- What a caller holds stays so in a later state. -/
theorem CallerOk.mono {s s' : State} {c : Caller} (h : CallerOk o s c) (hle : s.core.Le s'.core)
    (hnow : s.now ≤ s'.now) : CallerOk o s' c where
  groups p resp hs := ⟨hle.commits p _ (h.groups p resp hs).1, (h.groups p resp hs).2⟩
  base b resp hs := ⟨(h.base b resp hs).1.mono hle, (h.base b resp hs).2⟩
  configured := h.configured
  called := h.called.trans hnow

theorem callerOk_received {s : State} {info : CallInfo} {response : Except String Response}
    (hcalled : info.calledAt ≤ s.now) : CallerOk o s ⟨info, received info.call response⟩ := by
  refine ⟨?_, ?_, ?_, hcalled⟩
  · intro p resp h
    cases hc : info.call <;> simp [received, hc] at h
  · intro b resp h
    cases hc : info.call with
    | getSsoConfig => cases response <;> simp [received, hc, Except.map] at h
    | readBase fresh => simp [received, hc] at h
  · intro resp h
    cases hc : info.call with
    | getSsoConfig => rfl
    | readBase fresh => simp [received, hc] at h

theorem callerOk_waiting {s : State} {info : CallInfo} {id : Nat}
    (hcalled : info.calledAt ≤ s.now) : CallerOk o s ⟨info, .waiting id⟩ := by
  refine ⟨?_, ?_, ?_, hcalled⟩
  · intro p resp h
    cases h
  · intro b resp h
    cases h
  · intro resp h
    cases h

/-- The clock does not go back. -/
theorem now_le {s s' : State} {a : Act} (hstep : s.step o a = some s') : s.now ≤ s'.now := by
  cases step_cases hstep with
  | push => exact le_rfl
  | served => exact le_rfl
  | finished => exact le_rfl
  | answered _ _ _ hr => exact hr.le
  | joined _ _ _ hr => exact hr.le
  | begun _ _ hr => exact hr.le
  | headRead _ _ _ _ _ hr => exact hr.le
  | fileRead _ _ _ _ hr => exact hr.le
  | resumed _ _ _ _ hr => exact hr.le
  | groupsRead _ _ _ _ _ _ hr => exact hr.le

theorem core_le {s s' : State} {a : Act} (h : s.Shape) (hstep : s.step o a = some s') :
    s.core.Le s'.core := by
  cases step_cases hstep with
  | push => exact .refl _
  | served => exact .refl _
  | finished => exact .refl _
  | answered => exact .refl _
  | joined => exact .refl _
  | begun => exact Core.le_note _ _
  | headRead => exact (Core.headRead_spec _ _ _).1
  | fileRead id head answer r hr hstage =>
      have hinv := h.file _ ((h.running hstage).2 ▸ List.mem_singleton_self _) head rfl
      exact (Core.fileRead_spec _ _ _ _ hinv).1
  | resumed i info response r =>
      rcases Core.baseRead_core (o := o) s.core response r with hk | ⟨hk, -⟩
      · show s.core.Le (s.core.baseRead o response r).1
        rw [hk]
        exact .refl _
      · show s.core.Le (s.core.baseRead o response r).1
        rw [hk]
        exact Core.le_note _ _
  | groupsRead => exact (Core.groupsRead_spec _ _ _ _).1

theorem core_ok {s s' : State} {a : Act} (h : s.core.Ok o) (hstep : s.step o a = some s') :
    s'.core.Ok o := by
  cases step_cases hstep with
  | push => exact h
  | served => exact h
  | finished => exact h
  | answered => exact h
  | joined => exact h
  | begun => exact h.note _
  | headRead => exact h.headRead _ _
  | fileRead => exact h.fileRead _ _ _
  | resumed => exact h.baseRead _ _
  | groupsRead => exact h.groupsRead _ _ _

theorem Inv.step {s s' : State} {a : Act} (h : Inv o s) (hstep : s.step o a = some s') :
    Inv o s' := by
  have hle := core_le h.shape hstep
  have hnow := now_le hstep
  have hold : ∀ c ∈ s.callers, CallerOk o s' c := by
    intro c hc
    exact (h.callers c hc).mono hle hnow
  refine ⟨h.shape.step hstep, core_ok h.core hstep, ?_, h.now.trans hnow⟩
  cases step_cases hstep with
  | push => exact hold
  | served => exact hold
  | headRead => exact hold
  | fileRead => exact hold
  | answered call r response hr =>
      intro c hc
      rcases List.mem_append.mp hc with hc | hc
      · exact hold c hc
      · rw [List.mem_singleton.mp hc]
        exact @callerOk_received _ _ (s.infoOf o call r) _ (hr.2.1.trans hr.2.2)
  | joined call r id hr =>
      intro c hc
      rcases List.mem_append.mp hc with hc | hc
      · exact hold c hc
      · rw [List.mem_singleton.mp hc]
        exact callerOk_waiting (hr.2.1.trans hr.2.2)
  | begun call r hr =>
      intro c hc
      rcases List.mem_append.mp hc with hc | hc
      · exact hold c hc
      · rw [List.mem_singleton.mp hc]
        exact callerOk_waiting (hr.2.1.trans hr.2.2)
  | finished id result =>
      intro c hc
      rcases mem_wake hc with ⟨hc, -⟩ | ⟨c₀, hc₀, -, rfl⟩
      · exact hold c hc
      · exact callerOk_received (hold c₀ hc₀).called
  | resumed i info response r hr hcaller =>
      intro c hc
      rcases mem_set hc with hc | rfl
      · exact hold c hc
      · have hcalled := (hold _ (List.mem_of_getElem? hcaller)).called
        have hspec := Core.baseRead_spec (o := o) s.core response r
        refine ⟨?_, ?_, ?_, hcalled⟩
        · intro p resp hs
          simp only at hs
          rw [hs] at hspec
          cases hspec with
          | groups _ _ _ hfresh hcommit => exact ⟨hle.commits p _ hcommit, hfresh⟩
        · intro b resp hs
          simp only at hs
          rw [hs] at hspec
          cases hspec with
          | base _ snap names _ hfresh hmem hcommit hnames =>
              have hb := Core.baseOk_of_snapOk (h.core.snaps snap hmem) hnames
              exact ⟨hb.mono hle, hcommit, hfresh⟩
        · intro resp hs
          simp only at hs
          rw [hs] at hspec
          cases hspec
  | groupsRead i info p response answer r hr hcaller =>
      intro c hc
      rcases mem_set hc with hc | rfl
      · exact hold c hc
      · have hok := h.callers _ (List.mem_of_getElem? hcaller)
        have hcalled := (hold _ (List.mem_of_getElem? hcaller)).called
        obtain ⟨-, -, -, -, hspec⟩ := Core.groupsRead_spec (o := o) s.core p answer r
        refine ⟨?_, ?_, ?_, hcalled⟩
        · intro q resp hs
          cases hs
        · intro b resp hs
          cases hb : (s.core.groupsRead o p answer r).2 with
          | error message => simp [hb, Except.map] at hs
          | ok base =>
              simp only [hb, Except.map, CallerStage.returned.injEq, Except.ok.injEq,
                Outcome.base.injEq] at hs
              obtain ⟨rfl, rfl⟩ := hs
              obtain ⟨hbase, hcommit⟩ := (hspec h.core.snaps).2 base hb
              obtain ⟨hresp, hfresh⟩ := hok.groups p response rfl
              rw [hcommit] at hresp
              exact ⟨hbase, Option.some.inj hresp, hfresh⟩
        · intro resp hs
          cases hb : (s.core.groupsRead o p answer r).2 with
          | error message => simp [hb, Except.map] at hs
          | ok base => simp [hb, Except.map] at hs

theorem inv_reachable {commitSha : String} {s : State}
    (h : Machine.Reachable (M := adapterMachine o) (start commitSha) s) : Inv o s :=
  h.induct (.start commitSha) fun _ hinv _ hstep => hinv.step hstep

end State

end Sso.GithubSsoAdapter
