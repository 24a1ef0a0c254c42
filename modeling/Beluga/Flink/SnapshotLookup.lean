import Beluga.Flink.SnapshotAnswers

/-! # Lookups of a pipeline

A job that the overview lists is looked up in the snapshot by its id. Only the first
`MAX_JOBS` jobs have a place there.

* `getPipeline_listed`: one of these that is a pipeline is not reported as unknown;
* `late_job_unknown`: one that is listed behind them is.
-/

namespace Flink

open Interact Js

variable {lower : String → String} {config : FlinkAdapterConfig}

/-! ## What an answer says -/

/-- The build that a call is answered from. -/
def Call.load? (c : Call) : Option Nat :=
  match c.source with
  | none => none
  | some (.cached b _) => some b
  | some (.promise b) => some b

/-- What a lookup says about a job, given the build that it was answered from. -/
structure Speaks (lower : String → String) (config : FlinkAdapterConfig) (build : Build)
    (jid : String) (l : PipelineLookup) : Prop where
  unknown : (l.response (pipelineIdFor jid)).status = 404 →
    ∃ summaries now, build.overview = some (.ok summaries) ∧ build.finishedAt = some now ∧
      ∀ i job, i < MAX_JOBS → summaries[i]? = some job → job.jid = jid →
        ∃ outcome, build.pool.out[i]? = some (some outcome) ∧
          ¬ Mapped lower config now ⟨job, outcome.toOption⟩
  unread : ∀ err, build.overview = some (.error err) →
    (l.response (pipelineIdFor jid)).status = 503
  incomplete : ∀ summaries now i job err, build.overview = some (.ok summaries) →
    build.finishedAt = some now → i < MAX_JOBS → summaries[i]? = some job → job.jid = jid →
      build.pool.out[i]? = some (some (.error err)) → Mapped lower config now ⟨job, none⟩ →
      (l.response (pipelineIdFor jid)).status = 503

/-- A selected job, with what was read of it. -/
theorem mem_jobInputs {summaries : List FlinkJobSummary} {outcomes : List Outcome} {i : Nat}
    {job : FlinkJobSummary} {outcome : Outcome} (hi : i < MAX_JOBS)
    (hjob : summaries[i]? = some job) (houtcome : outcomes[i]? = some outcome) :
    ⟨job, outcome.toOption⟩ ∈ jobInputs summaries outcomes := by
  have hselected : (selected summaries)[i]? = some job := by
    rw [selected, List.getElem?_take_of_lt hi, hjob]
  apply List.mem_of_getElem? (i := i)
  rw [jobInputs, List.getElem?_zipWith, hselected, houtcome]

theorem Build.Sound.speaks {build : Build} (h : build.Sound config) {built : BuiltSnapshot}
    (hbuilt : build.built lower config = some built) (jid : String) :
    Speaks lower config build jid (lookup built.value (pipelineIdFor jid)) := by
  obtain ⟨now, hnow, ⟨err, hread, rfl⟩ | ⟨summaries, outcomes, hread, hresults, rfl⟩⟩ :=
    Build.built_cases hbuilt
  · refine ⟨fun hnotFound => ?_, fun _ _ => status_unavailable.mpr (lookup_unread err _),
      fun _ _ _ _ _ hok => ?_⟩
    · have havailable := (status_notFound.mp hnotFound).2
      rw [lookup_unread] at havailable
      cases havailable
    · rw [hread] at hok
      cases hok
  · have hout := Pool.out_of_results hresults
    have hlength : outcomes.length = (selected summaries).length := by
      have hdetails := h.length _ hread
      rwa [hout, List.length_map] at hdetails
    refine ⟨fun hnotFound => ⟨summaries, now, hread, hnow, fun i job hi hjob hjid => ?_⟩,
      fun err herr => ?_, fun summaries' now' i job err hread' hnow' hi hjob hjid herr hmapped => ?_⟩
    · have hlt : i < outcomes.length := by
        have hbound := (List.getElem?_eq_some_iff.mp hjob).1
        rw [hlength, selected, List.length_take]
        omega
      have houtcome : outcomes[i]? = some outcomes[i] := List.getElem?_eq_getElem hlt
      refine ⟨outcomes[i], ?_, ?_⟩
      · rw [hout, List.getElem?_map, houtcome]
        rfl
      · obtain ⟨hnone, havailable⟩ := status_notFound.mp hnotFound
        exact lookup_none hnone havailable _ (mem_jobInputs hi hjob houtcome) hjid
    · rw [hread] at herr
      cases herr
    · rw [hread] at hread'
      cases hread'
      rw [hnow] at hnow'
      cases hnow'
      have houtcome : outcomes[i]? = some (.error err) := by
        rw [hout, List.getElem?_map] at herr
        obtain ⟨outcome, houtcome, heq⟩ := Option.map_eq_some_iff.mp herr
        rw [houtcome, Option.some.inj heq]
      have hmem := mem_jobInputs hi hjob houtcome
      rw [← hjid]
      exact status_unavailable.mpr (lookup_incomplete hmem rfl hmapped)

/-- An answer that reads a snapshot is that of a build. -/
theorem Adapter.Sound.answer {s : Adapter} (h : s.Sound lower config) {c : Call}
    (hc : c ∈ s.calls) (hreads : c.op.reads = true) {r : Reply}
    (hr : s.answer lower config c = some r) :
    ∃ b t built, c.load? = some b ∧ s.Completed lower config b t built ∧
      r = c.op.reply built.value := by
  have hbacked := h.calls c hc
  unfold Adapter.Backed at hbacked
  obtain ⟨op, source⟩ := c
  rcases source with - | ⟨b, value⟩ | b
  · simp only at hbacked hreads
    rw [hreads] at hbacked
    cases hbacked
  · obtain ⟨-, t, built, hcompleted, rfl⟩ := hbacked
    exact ⟨b, t, built, rfl, hcompleted, (Option.some.inj hr).symm⟩
  · obtain ⟨t, built, hcompleted, heq⟩ := Adapter.answer_promise hr
    exact ⟨b, t, built, rfl, hcompleted, heq⟩

/-- In every run, whatever is answered about a job is true of the build that it was answered from:
unknown is no job that is a pipeline among the first `MAX_JOBS` of the overview, and what was not
read is unavailable. -/
theorem getPipeline_listed (lower : String → String) (config : FlinkAdapterConfig) (now : Int)
    (s : Adapter) (hs : Machine.Reachable (M := adapterMachine lower config) (.start now) s)
    (jid : String) (hjid : isJobId jid = true) (c : Call) (hc : c ∈ s.calls)
    (hop : c.op = .getPipeline (pipelineIdFor jid)) (l : PipelineLookup)
    (hl : s.answer lower config c = some (.lookup l)) :
    ∃ b build, c.load? = some b ∧ s.builds[b]? = some build ∧ build.settledAt.isSome ∧
      Speaks lower config build jid l := by
  have hsound := ((@Adapter.start_sound lower config now).run hs).1
  have hreads : c.op.reads = true := by
    rw [hop, Op.reads, isPipelineId_for]
    exact hjid
  obtain ⟨b, t, built, hload, ⟨build, hb, ht, hbuilt⟩, hreply⟩ := hsound.answer hc hreads hl
  rw [hop, Op.reply] at hreply
  cases hreply
  exact ⟨b, build, hload, hb, by rw [ht]; rfl, (hsound.builds b build hb).speaks hbuilt jid⟩

def earlyJid : String := "0123456789abcdef0123456789abcdef"

/-- `getPipeline_listed` where the overview could not be read. -/
theorem getPipeline_listed_failed : ∃ (b : Nat) (build : Build),
    (failedState.call (.getPipeline (pipelineIdFor earlyJid))).builds[b]? = some build ∧
      Speaks id sampleConfig build earlyJid
        (lookup (failedSnapshot sampleConfig (.client .httpError)).value
          (pipelineIdFor earlyJid)) := by
  have hid : isJobId earlyJid = true := by decide +kernel
  let op : Op := .getPipeline (pipelineIdFor earlyJid)
  let c : Call := ⟨op, some (.cached 0 (failedSnapshot sampleConfig (.client .httpError)).value)⟩
  have hreads : op.reads = true := (isPipelineId_for _).trans hid
  have hcall : failedState.call op = { failedState with calls := failedState.calls ++ [c] } := by
    rw [Adapter.call, if_pos hreads]
    rfl
  have hc : c ∈ (failedState.call op).calls := by
    rw [hcall]
    exact List.mem_append_right _ (List.mem_singleton_self c)
  obtain ⟨b, build, -, hb, -, hspeaks⟩ := getPipeline_listed id sampleConfig 0 (failedState.call op)
    (.tail (.call op) failedState_reachable trivial rfl) _ hid c hc rfl _ rfl
  exact ⟨b, build, hb, hspeaks⟩

/-! ## A job behind the others -/

namespace Adapter

/-- The requests of a build can all time out, one after the other. -/
theorem exists_idle (s : Adapter) {b : Nat} {build : Build} (hb : s.builds[b]? = some build) :
    ∃ pool, pool.running = [] ∧
      Machine.Reachable (M := adapterMachine lower config) s
        { s with builds := s.builds.set b { build with pool := pool } } := by
  cases hrunning : build.pool.running with
  | nil =>
      have hset : s.builds.set b build = s.builds := by
        obtain ⟨hlt, rfl⟩ := List.getElem?_eq_some_iff.mp hb
        exact List.set_getElem_self hlt
      refine ⟨build.pool, hrunning, ?_⟩
      rw [show { build with pool := build.pool } = build from rfl, hset]
      exact .refl
  | cons i rest =>
      have hi : i ∈ build.pool.running := hrunning ▸ List.mem_cons_self
      have hleft := Pool.left_settle (.error (.client .timeout) : Outcome) hi
      let build₁ : Build := { build with pool := build.pool.settle i (.error (.client .timeout)) }
      let s₁ : Adapter := { s with builds := s.builds.set b build₁ }
      have hb₁ : s₁.builds[b]? = some build₁ := (get_set hb).mpr (.inl ⟨rfl, rfl⟩)
      have hbuild : build.step config s.now (.detail i (.error (.client .timeout))) = some build₁ :=
        if_pos ⟨hi, fun _ => rfl⟩
      have hstep : s.step lower config (.build b (.detail i (.error (.client .timeout)))) =
          some s₁ := by
        rw [step, hb]
        simp only [Option.bind_eq_bind, Option.bind_some, hbuild]
        rfl
      obtain ⟨pool, hidle, hreach⟩ := exists_idle s₁ hb₁
      have hfirst : Machine.Reachable (M := adapterMachine lower config) s s₁ :=
        .tail (.build b (.detail i (.error (.client .timeout)))) .refl trivial hstep
      refine ⟨pool, hidle, hfirst.trans ?_⟩
      have hset : (s.builds.set b build₁).set b { build₁ with pool := pool } =
          s.builds.set b { build with pool := pool } := List.set_set _
      rw [← hset]
      exact hreach
termination_by build.pool.left

end Adapter

/-- A job that is listed, but not selected, is unknown. -/
theorem lookup_unselected {summaries : List FlinkJobSummary} {outcomes : List Outcome}
    {aborted : Bool} {now : Int} {jid : String}
    (hjid : ∀ job ∈ selected summaries, job.jid ≠ jid) :
    lookup (builtSnapshot lower config summaries outcomes aborted now).value (pipelineIdFor jid) =
      unknownPipeline := by
  have hfind : ((builtSnapshot lower config summaries outcomes aborted now).value.pipelines.find?
      (·.id = pipelineIdFor jid)) = none := by
    rw [← Option.not_isSome_iff_eq_none, find_pipeline aborted]
    rintro ⟨input, hmem, rfl, -⟩
    obtain ⟨i, hi, hget⟩ := List.mem_iff_getElem.mp hmem
    rw [jobInputs, List.length_zipWith] at hi
    have hjob : (selected summaries)[i] ∈ selected summaries := List.getElem_mem _
    apply hjid _ hjob
    rw [← hget]
    simp only [jobInputs, List.getElem_zipWith]
  rw [lookup_built]
  simp only [hfind]
  rfl

/-- A build, its overview read, for one call. -/
def readState (config : FlinkAdapterConfig) (op : Op) (summaries : List FlinkJobSummary) :
    Adapter where
  builds := [{ Build.start with
    overview := some (.ok summaries)
    pool := Build.requests config (.ok summaries) }]
  cache := { entry := none, inflight := some 0 }
  calls := [⟨op, some (.promise 0)⟩]
  now := 0

theorem readState_reachable {op : Op} (hreads : op.reads = true)
    (summaries : List FlinkJobSummary) :
    Machine.Reachable (M := adapterMachine lower config) (Adapter.start 0)
      (readState config op summaries) := by
  have hcall : (Adapter.start 0).call op =
      { Adapter.start 0 with
        builds := [.start]
        cache := { entry := none, inflight := some 0 }
        calls := [⟨op, some (.promise 0)⟩] } := by
    rw [Adapter.call, if_pos hreads]
    rfl
  have hrun : Machine.run (M := adapterMachine lower config) (Adapter.start 0)
      [.call op, .build 0 (.overview (.ok summaries))] = some (readState config op summaries) := by
    show (some ((Adapter.start 0).call op)).bind _ = _
    rw [hcall]
    rfl
  exact Machine.reaches_of_run hrun

/-- A call can be answered with any overview. -/
theorem exists_answer {op : Op} (hreads : op.reads = true) (summaries : List FlinkJobSummary) :
    ∃ s build outcomes, Machine.Reachable (M := adapterMachine lower config) (Adapter.start 0) s ∧
      s.calls = [⟨op, some (.promise 0)⟩] ∧ s.builds[0]? = some build ∧
      build.overview = some (.ok summaries) ∧
      s.answer lower config ⟨op, some (.promise 0)⟩ =
        some (op.reply (builtSnapshot lower config summaries outcomes false 0).value) := by
  have hread := @readState_reachable lower config op hreads summaries
  obtain ⟨pool, hidle, hreach⟩ := @Adapter.exists_idle lower config
    (readState config op summaries) 0 _ rfl
  have hsound := ((Adapter.start_sound 0).run (hread.trans hreach)).1
  have hpool : pool.Sound := (hsound.builds 0 _ rfl).pool
  obtain ⟨outcomes, hresults⟩ := hpool.done hidle
  -- the build returns and the handler of the cache runs
  let asked : Build := { Build.start with overview := some (.ok summaries), pool := pool }
  let returned : Build := { asked with finishedAt := some 0 }
  let settled : Build := { returned with settledAt := some 0 }
  let snap := builtSnapshot lower config summaries outcomes false 0
  let s₁ : Adapter := { readState config op summaries with builds := [returned] }
  let s₂ : Adapter := { s₁ with
    builds := [settled], cache := s₁.cache.store 0 snap.value snap.ttlMs 0 }
  have hfinish : asked.step config 0 .finish = some returned := if_pos ⟨rfl, hidle, rfl⟩
  have hstep₁ : Adapter.step lower config { readState config op summaries with builds := [asked] }
      (.build 0 .finish) = some s₁ := by
    show (asked.step config 0 .finish).bind _ = _
    rw [hfinish]
    rfl
  have hbuilt : ∀ build : Build, build.finishedAt = some 0 → build.overview = some (.ok summaries) →
      build.aborted = none → build.pool = pool → build.built lower config = some snap := by
    intro build hnow hok haborted heq
    rw [Build.built, hnow, hok, heq, haborted]
    simp only [hresults]
    rfl
  have hstep₂ : Adapter.step lower config s₁ (.settle 0) = some s₂ := by
    show some _ = some _
    rw [hbuilt returned rfl rfl rfl rfl]
    rfl
  refine ⟨s₂, settled, outcomes, ?_, rfl, rfl, rfl, ?_⟩
  · exact .tail (.settle 0) (.tail (.build 0 .finish) (hread.trans hreach) trivial hstep₁) trivial
      hstep₂
  · show (settled.built lower config).bind _ = _
    rw [hbuilt settled rfl rfl rfl rfl]
    rfl

def sampleJob (jid : String) : FlinkJobSummary where
  jid := jid
  name := "beluga-orders"
  state := "RUNNING"
  startTime := 1
  endTime := -1
  lastModification := 1
  tasks := []

def lateJid : String := "fedcba9876543210fedcba9876543210"

/-- `MAX_JOBS` jobs, and another one behind them. -/
def crowdedOverview : List FlinkJobSummary :=
  List.replicate MAX_JOBS (sampleJob earlyJid) ++ [sampleJob lateJid]

/-- A job that the overview lists is unknown, and not unavailable. -/
theorem late_job_unknown : ∃ s build c l,
    Machine.Reachable (M := adapterMachine id sampleConfig) (Adapter.start 0) s ∧
      c ∈ s.calls ∧ c.op = .getPipeline (pipelineIdFor lateJid) ∧ isJobId lateJid = true ∧
      c.load? = some 0 ∧ s.builds[0]? = some build ∧
      build.overview = some (.ok crowdedOverview) ∧ sampleJob lateJid ∈ crowdedOverview ∧
      s.answer id sampleConfig c = some (.lookup l) ∧
      (l.response (pipelineIdFor lateJid)).status = 404 := by
  have hid : isJobId lateJid = true := by decide +kernel
  have hreads : (Op.getPipeline (pipelineIdFor lateJid)).reads = true :=
    (isPipelineId_for lateJid).trans hid
  obtain ⟨s, build, outcomes, hreach, hcalls, hbuild, hoverview, hanswer⟩ :=
    @exists_answer id sampleConfig _ hreads crowdedOverview
  have hselected : ∀ job ∈ selected crowdedOverview, job.jid ≠ lateJid := by
    intro job hjob
    rw [selected, crowdedOverview, List.take_left' List.length_replicate] at hjob
    rw [List.eq_of_mem_replicate hjob]
    decide
  rw [Op.reply, lookup_unselected hselected] at hanswer
  exact ⟨s, build, _, unknownPipeline, hreach, hcalls ▸ List.mem_singleton_self _, rfl, hid, rfl,
    hbuild, hoverview, List.mem_append_right _ (List.mem_singleton_self _), hanswer,
    status_notFound.mpr ⟨rfl, rfl⟩⟩

end Flink
