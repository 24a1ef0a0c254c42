import Beluga.Sso.AdapterFresh

/-! # A fresh base is main's head

`readBase({ fresh: true })` promises a commit that main was at when it was called or
later. It shares the refresh that is under way, and the head read of that one may
have been answered before the call, with a commit that main has left since
(`fresh_base_left`). Where no fresh call joins such a refresh, the promise holds
(`fresh_base_head`).
-/

namespace Sso.GithubSsoAdapter

open Interact

variable {o : Options}

namespace State

/-- The commits main was at since it had had `since` of them. -/
def headsSince (s : State) (since : Nat) : List String :=
  s.history.take (s.history.length + 1 - since)

/-- The commit that the head read of a refresh was answered with. -/
def headAnswered : Stage → Option String
  | .headServed _ _ (.failure _) => none
  | .headServed _ main _ => some main
  | .file head => some head.commitSha
  | .ended (.ok resp) => if resp.staleReason.isNone then some resp.commitSha else none
  | _ => none

/-- A fresh call that joins a refresh whose head read was answered with a commit that main has
left. -/
def joinsLeftHead (s : State) : Act → Bool
  | .call (.readBase true) _ =>
      ((s.inflight.bind s.stageOf).bind headAnswered).any fun c => c != s.main
  | _ => false

theorem main_mem {s : State} {since : Nat} (hne : s.history ≠ []) (hs : since ≤ s.history.length) :
    s.main ∈ s.headsSince since := by
  obtain ⟨c, rest, hh⟩ := List.exists_cons_of_ne_nil hne
  have hn : s.history.length + 1 - since = (s.history.length - since) + 1 := by omega
  rw [headsSince, main, hn, hh, List.take_succ_cons]
  exact List.mem_cons_self

theorem history_of_step {s s' : State} {a : Act} (hstep : s.step o a = some s') :
    s'.history = s.history ∨ ∃ c, s'.history = c :: s.history := by
  cases step_cases hstep with
  | push commitSha => exact .inr ⟨commitSha, rfl⟩
  | _ => exact .inl rfl

theorem headsSince_mono {s s' : State} {a : Act} {since : Nat} (hstep : s.step o a = some s')
    (hs : since ≤ s.history.length) {c : String} (hc : c ∈ s.headsSince since) :
    c ∈ s'.headsSince since := by
  rcases history_of_step hstep with h | ⟨new, h⟩
  · rwa [headsSince, h]
  · have hn : s.history.length + 1 + 1 - since = (s.history.length + 1 - since) + 1 := by omega
    rw [headsSince, h, List.length_cons, hn, List.take_succ_cons]
    exact .tail _ hc

/-- What a fresh call gets is a commit main was at since. -/
def HeadSince (s : State) (info : CallInfo) (resp : Response) : Prop :=
  info.call = .readBase true → resp.staleReason = none →
    info.since ≤ s.history.length ∧ resp.commitSha ∈ s.headsSince info.since

/-- The stages in which the head read has been answered, and not with a failure. -/
def AnsweredAt (s : State) (id : Nat) (c : String) : Prop :=
  (∃ previous answer, s.stageOf id = some (.headServed previous c answer) ∧
    ∀ f, answer ≠ .failure f) ∨
  ∃ etag, s.stageOf id = some (.file ⟨c, etag⟩)

structure Heads (o : Options) (s : State) : Prop where
  inv : Inv o s
  history : s.history ≠ []
  since : ∀ c ∈ s.callers, c.info.since ≤ s.history.length
  /-- A 304 says that main is where the snapshot was read. -/
  served : ∀ id previous m, s.stageOf id = some (.headServed previous m .notModified) →
    ∃ p, previous = some p ∧ s.core.commitOf p = some m
  known : ∀ id c, s.AnsweredAt id c → ∀ caller ∈ s.callers, caller.info.call = .readBase true →
    caller.stage = .waiting id → c ∈ s.headsSince caller.info.since
  flow : Flow HeadSince s

theorem Heads.start (commitSha : String) : Heads o (start commitSha) := by
  refine ⟨.start commitSha, by simp [State.start], ?_, ?_, ?_, ?_, ?_⟩
  · intro c hc
    cases hc
  · intro id previous m h
    cases h
  · intro id c h caller hcaller
    cases hcaller
  · intro c hc
    cases hc
  · intro id r h
    cases h

/-- What `fetchHead` reads off an answer is where main was. -/
theorem Heads.headOf {s : State} (h : Heads o s) {id : Nat} {previous : Option Nat} {m : String}
    {answer : HeadAnswer} (hst : s.stageOf id = some (.headServed previous m answer)) {head : Head}
    (hhead : s.core.headOf previous m answer = .ok head) :
    head.commitSha = m ∧ ∀ f, answer ≠ .failure f := by
  cases answer with
  | sha etag =>
      cases hhead
      exact ⟨rfl, fun f => by simp⟩
  | failure f => cases hhead
  | notModified =>
      obtain ⟨p, rfl, hp⟩ := h.served id previous m hst
      obtain ⟨snap, hsnap, hcommit⟩ := Option.map_eq_some_iff.mp hp
      simp only [Core.headOf, Option.bind_some, hsnap, Except.ok.injEq] at hhead
      rw [← hhead]
      exact ⟨hcommit, fun f => by simp⟩

/-- How a refresh comes to wait for `fetchHead`. -/
theorem headServed_of_step {s s' : State} {a : Act} {id : Nat} {previous : Option Nat}
    {m : String} {answer : HeadAnswer} (h : s.Shape) (hstep : s.step o a = some s')
    (hst : s'.stageOf id = some (.headServed previous m answer)) :
    s.stageOf id = some (.headServed previous m answer) ∨
      (s.canAnswer previous answer = true ∧ m = s.main ∧ a = .serveHead id answer) := by
  cases step_cases hstep with
  | push => exact .inl hst
  | answered => exact .inl hst
  | joined => exact .inl hst
  | begun call r hr honce hin => simp [stageOf, h.idle hin] at hst
  | served id' previous' answer' hstage hcan =>
      have hrun := running_setStage (.headServed previous' s.main answer')
        (h.running hstage).2
      by_cases hid : id' = id
      · subst hid
        have heq := (stageOf_of_running hrun).symm.trans hst
        simp only [Option.some.injEq, Stage.headServed.injEq] at heq
        obtain ⟨rfl, rfl, rfl⟩ := heq
        exact .inr ⟨hcan, rfl, rfl⟩
      · simp [stageOf, hrun, hid] at hst
  | headRead id' previous' m' answer' r hr hstage =>
      have hrun := running_setStage
        ((s.core.headRead o (s.core.headOf previous' m' answer') r).2)
        (h.running hstage).2
      have hspec := (Core.headRead_spec (o := o) s.core (s.core.headOf previous' m' answer') r).2
      by_cases hid : id' = id
      · subst hid
        have hstage' : (s.core.headRead o (s.core.headOf previous' m' answer') r).2 =
            .headServed previous m answer := by
          simpa [stageOf, hrun] using hst
        rw [hstage'] at hspec
        cases hspec
      · simp [stageOf, hrun, hid] at hst
  | fileRead id' head answer' r hr hstage =>
      have hrun := running_setStage (.ended (s.core.fileRead o head answer' r).2)
        (h.running hstage).2
      simp [stageOf, hrun] at hst
  | finished id' result hend =>
      have hrun := (h.running (resultOf_eq_some.mp hend)).2
      simp [stageOf, hrun] at hst
  | resumed => exact .inl hst
  | groupsRead => exact .inl hst

/-- How a refresh comes to read the file at a head. -/
theorem file_of_step {s s' : State} {a : Act} {id : Nat} {head : Head} (h : s.Shape)
    (hstep : s.step o a = some s') (hst : s'.stageOf id = some (.file head)) :
    s.HeadKnown id head.commitSha := by
  have hkeep : s.stageOf id = some (.file head) → s.HeadKnown id head.commitSha :=
    fun hs => .inr ⟨head.etag, hs⟩
  cases step_cases hstep with
  | push => exact hkeep hst
  | answered => exact hkeep hst
  | joined => exact hkeep hst
  | begun call r hr honce hin => simp [stageOf, h.idle hin] at hst
  | served id' previous answer hstage hcan =>
      have hrun := (h.running hstage).2
      simp [stageOf, setStage, hrun] at hst
  | headRead id' previous m answer r hr hstage =>
      have hrun := running_setStage
        ((s.core.headRead o (s.core.headOf previous m answer) r).2)
        (h.running hstage).2
      have hspec := (Core.headRead_spec (o := o) s.core (s.core.headOf previous m answer) r).2
      by_cases hid : id' = id
      · subst hid
        have hstage' : (s.core.headRead o (s.core.headOf previous m answer) r).2 = .file head := by
          simpa [stageOf, hrun] using hst
        rw [hstage'] at hspec
        cases hspec with
        | file _ hanswer => exact .inl ⟨previous, m, answer, head.etag, hstage, hanswer⟩
      · simp [stageOf, hrun, hid] at hst
  | fileRead id' head' answer r hr hstage =>
      have hrun := (h.running hstage).2
      simp [stageOf, setStage, hrun] at hst
  | finished id' result hend =>
      have hrun := (h.running (resultOf_eq_some.mp hend)).2
      simp [stageOf, hrun] at hst
  | resumed => exact hkeep hst
  | groupsRead => exact hkeep hst

/-- The commit that a head read has found is one it was answered with. -/
theorem Heads.answeredAt {s : State} (h : Heads o s) {id : Nat} {c : String}
    (hknown : s.HeadKnown id c) : s.AnsweredAt id c := by
  rcases hknown with ⟨previous, m, answer, etag, hst, hhead⟩ | ⟨etag, hst⟩
  · obtain ⟨hm, hne⟩ := h.headOf hst hhead
    subst hm
    exact .inl ⟨previous, answer, hst, hne⟩
  · exact .inr ⟨etag, hst⟩

/-- Who waits after a step waited before, or has called in it. -/
theorem waiting_of_step {s s' : State} {a : Act} {id : Nat} {c : Caller}
    (hstep : s.step o a = some s') (hc : c ∈ s'.callers) (hw : c.stage = .waiting id) :
    c ∈ s.callers ∨ ∃ call r, a = .call call r ∧ c.info = s.infoOf o call r ∧
      s.inflight.all (fun id' => id' == id) = true := by
  cases step_cases hstep with
  | push => exact .inl hc
  | served => exact .inl hc
  | headRead => exact .inl hc
  | fileRead => exact .inl hc
  | answered call r response =>
      rcases List.mem_append.mp hc with hc | hc
      · exact .inl hc
      · rw [List.mem_singleton.mp hc] at hw
        exact absurd hw (received_ne_waiting _ _ _)
  | joined call r id' hr honce hin =>
      rcases List.mem_append.mp hc with hc | hc
      · exact .inl hc
      · rw [List.mem_singleton.mp hc] at hw ⊢
        refine .inr ⟨call, r, rfl, rfl, ?_⟩
        rw [hin, CallerStage.waiting.inj hw]
        simp
  | begun call r hr honce hin =>
      rcases List.mem_append.mp hc with hc | hc
      · exact .inl hc
      · rw [List.mem_singleton.mp hc]
        exact .inr ⟨call, r, rfl, rfl, by rw [hin]; rfl⟩
  | finished id' result =>
      rcases mem_wake hc with ⟨hc, -⟩ | ⟨c₀, -, -, rfl⟩
      · exact .inl hc
      · exact absurd hw (received_ne_waiting _ _ _)
  | resumed i info response r hr hcaller =>
      rcases mem_set hc with hc | rfl
      · exact .inl hc
      · exact absurd hw (baseRead_ne_waiting id)
  | groupsRead i info p response answer r hr hcaller =>
      rcases mem_set hc with hc | rfl
      · exact .inl hc
      · cases hw

/-- A call answers no head read. -/
theorem answeredAt_of_call {s s' : State} {call : Call} {r : Reads} (h : s.Shape)
    (hstep : s.step o (.call call r) = some s') {id : Nat} {c : String}
    (hans : s'.AnsweredAt id c) : s.AnsweredAt id c := by
  cases step_cases hstep with
  | answered => exact hans
  | joined => exact hans
  | begun call r hr honce hin =>
      rcases hans with ⟨previous, answer, hst, -⟩ | ⟨etag, hst⟩
      · simp [stageOf, h.idle hin] at hst
      · simp [stageOf, h.idle hin] at hst

/-- A fresh call that may be made joins only a refresh at main's head. -/
theorem main_of_join {s : State} {r : Reads} {id : Nat} {stage : Stage} {c : String}
    (hok : s.joinsLeftHead (.call (.readBase true) r) = false) (hin : s.inflight = some id)
    (hst : s.stageOf id = some stage) (hhead : headAnswered stage = some c) : c = s.main := by
  simpa [joinsLeftHead, hin, hst, hhead] using hok

theorem headAnswered_of_answeredAt {s : State} {id : Nat} {c : String}
    (h : s.AnsweredAt id c) :
    ∃ stage, s.stageOf id = some stage ∧ headAnswered stage = some c := by
  rcases h with ⟨previous, answer, hst, hne⟩ | ⟨etag, hst⟩
  · refine ⟨_, hst, ?_⟩
    cases answer with
    | failure f => exact absurd rfl (hne f)
    | sha etag => rfl
    | notModified => rfl
  · exact ⟨_, hst, rfl⟩

theorem history_le {s s' : State} {a : Act} (hstep : s.step o a = some s') :
    s.history.length ≤ s'.history.length := by
  rcases history_of_step hstep with h | ⟨c, h⟩
  · rw [h]
  · rw [h, List.length_cons]
    omega

theorem Heads.step_since {s s' : State} {a : Act} (h : Heads o s)
    (hstep : s.step o a = some s') : ∀ c ∈ s'.callers, c.info.since ≤ s'.history.length := by
  intro c hc
  rcases info_of_step hstep hc with ⟨c₀, hc₀, heq⟩ | ⟨call, r, -, heq⟩
  · rw [← heq]
    exact (h.since c₀ hc₀).trans (history_le hstep)
  · rw [heq]
    exact history_le hstep

theorem Heads.step_served {s s' : State} {a : Act} (h : Heads o s)
    (hstep : s.step o a = some s') {id : Nat} {previous : Option Nat} {m : String}
    (hst : s'.stageOf id = some (.headServed previous m .notModified)) :
    ∃ p, previous = some p ∧ s'.core.commitOf p = some m := by
  have hle := core_le h.inv.shape hstep
  rcases headServed_of_step h.inv.shape hstep hst with hst | ⟨hcan, hm, -⟩
  · obtain ⟨p, hp, hcommit⟩ := h.served id previous m hst
    exact ⟨p, hp, hle.commits p m hcommit⟩
  · -- GitHub says 304 when main is at the commit asked with
    obtain ⟨snap, hbind, heq⟩ := (Option.any_eq_true _ _).mp hcan
    obtain ⟨p, hp, hsnap⟩ := Option.bind_eq_some_iff.mp hbind
    refine ⟨p, hp, hle.commits p m ?_⟩
    rw [Core.commitOf, hsnap, Option.map_some, hm, beq_iff_eq.mp heq]

theorem Heads.step_known {s s' : State} {a : Act} (h : Heads o s)
    (hok : s.joinsLeftHead a = false) (hstep : s.step o a = some s') {id : Nat} {c : String}
    (hans : s'.AnsweredAt id c) {caller : Caller} (hc : caller ∈ s'.callers)
    (hcall : caller.info.call = .readBase true) (hw : caller.stage = .waiting id) :
    c ∈ s'.headsSince caller.info.since := by
  have hshape := h.inv.shape
  rcases waiting_of_step hstep hc hw with hold | ⟨call, r, ha, hinfo, -⟩
  · have hsince := h.since caller hold
    have hbefore : s.AnsweredAt id c → c ∈ s'.headsSince caller.info.since := by
      intro hs
      exact headsSince_mono hstep hsince (h.known id c hs caller hold hcall hw)
    rcases hans with ⟨previous, answer, hst, hne⟩ | ⟨etag, hst⟩
    · rcases headServed_of_step hshape hstep hst with hst | ⟨-, hm, -⟩
      · exact hbefore (.inl ⟨previous, answer, hst, hne⟩)
      · -- main is there while the caller waits
        rw [hm]
        exact headsSince_mono hstep hsince (main_mem h.history hsince)
    · exact hbefore (h.answeredAt (file_of_step hshape hstep hst))
  · subst ha
    have hcall' : call = .readBase true := by
      rw [hinfo] at hcall
      exact hcall
    subst hcall'
    obtain ⟨stage, hst, hhead⟩ :=
      headAnswered_of_answeredAt (answeredAt_of_call hshape hstep hans)
    rw [main_of_join hok (hshape.running hst).1 hst hhead, hinfo]
    exact headsSince_mono hstep le_rfl (main_mem h.history le_rfl)

theorem Heads.step {s s' : State} {a : Act} (h : Heads o s) (hok : s.joinsLeftHead a = false)
    (hstep : s.step o a = some s') : Heads o s' := by
  have hshape := h.inv.shape
  refine ⟨h.inv.step hstep, ?_, h.step_since hstep, fun id previous m => h.step_served hstep,
    fun id c hans caller hc => h.step_known hok hstep hans hc, ?_⟩
  · rcases history_of_step hstep with hh | ⟨c, hh⟩
    · rw [hh]
      exact h.history
    · rw [hh]
      simp
  · refine flow_step hshape h.flow hstep ?_ ?_ ?_ ?_
    · intro info resp hq hcall hfresh
      obtain ⟨hsince, hmem⟩ := hq hcall hfresh
      exact ⟨hsince.trans (history_le hstep), headsSince_mono hstep hsince hmem⟩
    · -- a fresh call gets no response at once
      intro call r resp ha honce hcall
      rw [show call = .readBase true from hcall] at honce
      simp only [atOnce, Core.getFresh] at honce
      split_ifs at honce
      cases honce
    · intro call r id resp ha honce hin hst hcall hfresh
      subst ha
      rw [show call = .readBase true from hcall] at hok
      have hmain : resp.commitSha = s.main := by
        refine main_of_join hok hin hst ?_
        simp [headAnswered, hfresh]
      refine ⟨history_le hstep, ?_⟩
      rw [hmain]
      exact headsSince_mono hstep le_rfl (main_mem h.history le_rfl)
    · intro id resp hnone hst c hc hw hcall hfresh
      have hsince := h.since c hc
      refine ⟨hsince.trans (history_le hstep), headsSince_mono hstep hsince ?_⟩
      obtain ⟨r, -, ⟨commitSha, hknown, hconf⟩ | ⟨hstale, -⟩⟩ :=
        ended_of_step hshape hstep hnone hst
      · rw [hconf.commit]
        exact h.known id commitSha (h.answeredAt hknown) c hc hcall hw
      · have hs := hstale.stale
        rw [hfresh] at hs
        cases hs

/-- In every run in which no fresh call joins a refresh whose head read was answered with a commit
that main has left: what a fresh `readBase` returns is a commit that main was at since the
call. -/
theorem fresh_base_head {commitSha : String} {s : State}
    (h : Machine.Reaches (M := adapterMachine o) (fun s a => !joinsLeftHead s a)
      (start commitSha) s) :
    ∀ c ∈ s.callers, c.info.call = .readBase true → ∀ b resp,
      c.stage = .returned (.ok (.base b resp)) → b.commitSha ∈ s.headsSince c.info.since := by
  have hg : Heads o s := by
    refine h.induct (.start commitSha) ?_
    intro s₁ s₂ a _ hg hok hstep
    exact hg.step (by simpa using hok) hstep
  intro c hc hcall b resp hstage
  obtain ⟨-, hcommit, hfresh⟩ := (hg.inv.callers c hc).base b resp hstage
  rw [hcommit]
  exact (hg.flow.held c hc resp (by rw [hstage]; rfl) hcall hfresh).2

/-! ## Runs -/

/-- A fresh call at 0 asks for the head while main is at `a`. -/
def firstFresh : List Act :=
  [.call (.readBase true) (at_ 0), .serveHead 0 (.sha none)]

/-- The rest of the refresh at 10, for caller `i`. -/
def restOfFresh (i : Nat) : List Act :=
  [.deliverHead 0 (at_ 10), .deliverFile 0 (.ok ("blob", sampleFileText "[ \"admins\" ]")) (at_ 10),
    .finish 0, .resume i (at_ 10), .deliverGroups i (.ok ("blob", sampleGroupsText)) (at_ 10)]

/-- Main moves to `b` after the head read of a first call was answered; a second call joins, and
gets the commit `a` that main had left before it. -/
theorem fresh_base_left : ∃ s,
    Machine.Reachable (M := adapterMachine sampleOptions) (start "a") s ∧
      ∃ c ∈ s.callers, ∃ b resp, c.stage = .returned (.ok (.base b resp)) ∧
        c.info.call = .readBase true ∧ b.commitSha ∉ s.headsSince c.info.since := by
  have hrun : (Machine.run (M := adapterMachine sampleOptions) (start "a")
      (firstFresh ++ [.push "b", .call (.readBase true) (at_ 10)] ++ restOfFresh 1)).any
        (fun s => hasBase (fun info b => decide (info.call = .readBase true ∧
          b.commitSha ∉ s.headsSince info.since)) s) = true := by
    decide +kernel
  obtain ⟨s, hreach, hcheck⟩ := exists_run hrun
  obtain ⟨c, hc, b, resp, hstage, h⟩ := hasBase_iff.mp hcheck
  obtain ⟨hcall, hleft⟩ := of_decide_eq_true h
  exact ⟨s, hreach, c, hc, b, resp, hstage, hcall, hleft⟩

/-- The call joins before main moves, and its commit is one main was at then. -/
theorem fresh_base_head_sample : ∃ s,
    Machine.Reaches (M := adapterMachine sampleOptions) (fun s a => !joinsLeftHead s a)
      (start "a") s ∧
      ∃ c ∈ s.callers, ∃ b resp, c.stage = .returned (.ok (.base b resp)) ∧
        b.commitSha ≠ s.main ∧ b.commitSha ∈ s.headsSince c.info.since := by
  have hrun : (Machine.runWith (M := adapterMachine sampleOptions)
      (fun s a => !joinsLeftHead s a) (start "a")
      (firstFresh ++ [.call (.readBase true) (at_ 10), .push "b"] ++ restOfFresh 1)).any
        (fun s => hasBase (fun info b => decide (info.call = .readBase true ∧
          b.commitSha ≠ s.main)) s) = true := by
    decide +kernel
  obtain ⟨s, hreach, hcheck⟩ := exists_runWith hrun
  obtain ⟨c, hc, b, resp, hstage, h⟩ := hasBase_iff.mp hcheck
  obtain ⟨hcall, hmoved⟩ := of_decide_eq_true h
  exact ⟨s, hreach, c, hc, b, resp, hstage, hmoved,
    fresh_base_head hreach c hc hcall b resp hstage⟩

end State

end Sso.GithubSsoAdapter
