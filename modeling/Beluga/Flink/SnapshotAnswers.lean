import Beluga.Flink.SnapshotRules

/-! # Answers of the snapshot cache

* `answers_fresh`: at most one build is in flight, and a call waits for it or gets the
  snapshot of the latest completed build within its time to live, which has no transient
  failure;
* `getPipeline_listed`: a job among the first `MAX_JOBS` of the overview that is a pipeline
  is not reported as unknown.
-/

namespace Flink

open Interact Js

variable {lower : String → String} {config : FlinkAdapterConfig}

/-! ## Times to live -/

namespace Build

variable {b : Build}

/-- The requests that failed. -/
def failures (b : Build) : List Failure :=
  (match b.overview with
    | some (.error err) => [err]
    | _ => []) ++
  b.pool.out.filterMap fun outcome => outcome.bind Outcome.failure?

/-- The jobs that were not mapped. -/
def skipped (lower : String → String) (config : FlinkAdapterConfig) (b : Build) : Nat :=
  match b.finishedAt, b.overview, b.pool.results with
  | some now, some (.ok summaries), some outcomes =>
      (buildPipelines lower (jobInputs summaries outcomes) ⟨config.jobNamePrefix, now⟩).skipped
  | _, _, _ => 0

theorem ttlMs_pos {isTransient isGenuine : Bool} (h : 0 < config.ttlMs isTransient isGenuine) :
    isTransient = false := by
  cases isTransient with
  | false => rfl
  | true => exact absurd h (Nat.lt_irrefl 0)

theorem ttlMs_genuine (isTransient : Bool) :
    config.ttlMs isTransient true ≤ NEGATIVE_TTL_CAP_MS := by
  unfold FlinkAdapterConfig.ttlMs
  cases isTransient with
  | true => exact Nat.zero_le _
  | false => exact Nat.min_le_right _ _

/-- An upstream response error. -/
theorem response_error {f : Failure} (h : f.transient = false) :
    f = .client .httpError ∨ f = .client .invalidResponse := by
  cases f with
  | other => cases h
  | client kind =>
      cases kind with
      | httpError => exact .inl rfl
      | invalidResponse => exact .inr rfl
      | unreachable => cases h
      | timeout => cases h
      | overloaded => cases h

theorem failures_ok {summaries : List FlinkJobSummary} {outcomes : List Outcome}
    (hread : b.overview = some (.ok summaries)) (hresults : b.pool.results = some outcomes) :
    b.failures = outcomes.filterMap Outcome.failure? := by
  rw [failures, hread, Pool.out_of_results hresults, List.nil_append, List.filterMap_map]
  rfl

/-- How a build that is completed was made. -/
theorem built_cases {built : BuiltSnapshot}
    (hbuilt : b.built lower config = some built) :
    ∃ now, b.finishedAt = some now ∧
      ((∃ err, b.overview = some (.error err) ∧ built = failedSnapshot config err) ∨
        ∃ summaries outcomes, b.overview = some (.ok summaries) ∧
          b.pool.results = some outcomes ∧
          built = builtSnapshot lower config summaries outcomes b.aborted.isSome now) := by
  unfold Build.built at hbuilt
  split at hbuilt
  · next now summaries hfinished hread =>
      obtain ⟨outcomes, hresults, heq⟩ := Option.map_eq_some_iff.mp hbuilt
      exact ⟨now, hfinished, .inr ⟨summaries, outcomes, hread, hresults, heq.symm⟩⟩
  · next now err hfinished hread =>
      exact ⟨now, hfinished, .inl ⟨err, hread, (Option.some.inj hbuilt).symm⟩⟩
  · cases hbuilt

/-- The overview failed, so no detail was requested. -/
theorem failures_error (h : b.Sound config) {err : Failure}
    (hread : b.overview = some (.error err)) : b.failures = [err] := by
  have hout : b.pool.out = [] := List.eq_nil_of_length_eq_zero (h.length _ hread)
  rw [failures, hread, hout]
  rfl

/-- A snapshot that may be reused has no transient failure. -/
theorem failures_of_ttl (h : b.Sound config) {built : BuiltSnapshot}
    (hbuilt : b.built lower config = some built) (hpos : 0 < built.ttlMs) :
    ∀ f ∈ b.failures, f = .client .httpError ∨ f = .client .invalidResponse := by
  intro f hf
  apply response_error
  obtain ⟨now, -, ⟨err, hread, rfl⟩ | ⟨summaries, outcomes, hread, hresults, rfl⟩⟩ :=
    built_cases hbuilt
  · rw [failures_error h hread] at hf
    rw [List.mem_singleton.mp hf]
    exact ttlMs_pos hpos
  · rw [failures_ok hread hresults] at hf
    exact Bool.eq_false_iff.mpr (List.any_eq_false.mp (ttlMs_pos hpos) f hf)

/-- One with another failure, or with a job that was not mapped, is reused for a second. -/
theorem ttl_of_failures (h : b.Sound config) {built : BuiltSnapshot}
    (hbuilt : b.built lower config = some built) (hpos : 0 < built.ttlMs)
    (hfailed : b.failures ≠ [] ∨ 0 < b.skipped lower config) :
    built.ttlMs ≤ NEGATIVE_TTL_CAP_MS := by
  have hresponses := failures_of_ttl h hbuilt hpos
  have hgenuine : ∀ f ∈ b.failures, f.transient = false := by
    intro f hf
    rcases hresponses f hf with rfl | rfl <;> rfl
  obtain ⟨now, hnow, ⟨err, hread, rfl⟩ | ⟨summaries, outcomes, hread, hresults, rfl⟩⟩ :=
    built_cases hbuilt
  · rw [failures_error h hread] at hgenuine
    rw [failedSnapshot, hgenuine err (List.mem_singleton_self err)]
    exact ttlMs_genuine false
  · rw [failures_ok hread hresults] at hfailed hgenuine
    rw [skipped, hnow, hread, hresults] at hfailed
    have hany : ((outcomes.filterMap Outcome.failure?).any (!·.transient) ||
        decide (0 < (buildPipelines lower (jobInputs summaries outcomes)
          ⟨config.jobNamePrefix, now⟩).skipped)) = true := by
      rcases hfailed with hne | hskipped
      · obtain ⟨f, hf⟩ := List.exists_mem_of_ne_nil _ hne
        rw [Bool.or_eq_true, List.any_eq_true]
        exact .inl ⟨f, hf, by rw [hgenuine f hf]; rfl⟩
      · rw [decide_eq_true hskipped, Bool.or_true]
    unfold builtSnapshot
    simp only
    rw [hany]
    exact ttlMs_genuine _

end Build

/-! ## Answers -/

namespace Adapter

variable {s s' s'' : Adapter} {op : Op} {b : Nat}

theorem answer_promise {reply : Reply}
    (h : s.answer lower config ⟨op, some (.promise b)⟩ = some reply) :
    ∃ t built, s.Completed lower config b t built ∧ reply = op.reply built.value := by
  obtain ⟨build, hb, h⟩ := Option.bind_eq_some_iff.mp h
  obtain ⟨⟨⟩, hguard, h⟩ := Option.bind_eq_some_iff.mp h
  obtain ⟨t, ht⟩ := Option.isSome_iff_exists.mp ((Option.guard_eq_some' ()).mp hguard)
  obtain ⟨built, hbuilt, heq⟩ := Option.bind_eq_some_iff.mp h
  exact ⟨t, built, ⟨build, hb, ht, hbuilt⟩, (Option.some.inj heq).symm⟩

/-- A call with an id that no pipeline has, which reads no snapshot. -/
structure Unread (lower : String → String) (config : FlinkAdapterConfig) (s s' s'' : Adapter)
    (op : Op) : Prop where
  calls : s'.calls.getLast? = some ⟨op, none⟩
  malformed : ∃ id, op = .getPipeline id ∧ isPipelineId id = false
  builds : s'.builds = s.builds
  answer : s''.answer lower config ⟨op, none⟩ = some (.lookup unknownPipeline)

/-- A call that waits for the build `b`, which is in flight. -/
structure Waits (lower : String → String) (config : FlinkAdapterConfig) (s' s'' : Adapter)
    (op : Op) (b : Nat) : Prop where
  calls : s'.calls.getLast? = some ⟨op, some (.promise b)⟩
  inFlight : s'.InFlight b
  answer : ∀ reply, s''.answer lower config ⟨op, some (.promise b)⟩ = some reply →
    ∃ t built, s''.Completed lower config b t built ∧ reply = op.reply built.value

/-- A call that is answered with the snapshot of `build`, completed at `t`. -/
structure Reuses (lower : String → String) (config : FlinkAdapterConfig) (s s' s'' : Adapter)
    (op : Op) (b : Nat) (build : Build) (t : Int) (built : BuiltSnapshot) : Prop where
  calls : s'.calls.getLast? = some ⟨op, some (.cached b built.value)⟩
  place : s.builds[b]? = some build
  time : build.settledAt = some t
  snapshot : build.built lower config = some built
  latest : s.Latest b t
  young : s.now - t < built.ttlMs
  answer : s''.answer lower config ⟨op, some (.cached b built.value)⟩ = some (op.reply built.value)
  responses : ∀ f ∈ build.failures, f = .client .httpError ∨ f = .client .invalidResponse
  brief : build.failures ≠ [] ∨ 0 < build.skipped lower config → s.now - t < 1000

theorem Sound.reuses (h : s.Sound lower config) {e : Entry PipelineSnapshot}
    (he : s.cache.entry = some e) (hfresh : s.now < e.expiresAt)
    (hcalls : s'.calls.getLast? = some ⟨op, some (.cached e.load e.value)⟩) :
    ∃ build t built, Reuses lower config s s' s'' op e.load build t built := by
  obtain ⟨t, built, ⟨build, hb, ht, hbuilt⟩, hvalue, hexpires, hlatest⟩ := h.entry e he
  have hsound := h.builds _ build hb
  have hle : t ≤ s.now := h.times _ build t hb ht
  have hyoung : s.now - t < built.ttlMs := by omega
  have hpos : 0 < built.ttlMs := by omega
  refine ⟨build, t, built, ⟨hvalue ▸ hcalls, hb, ht, hbuilt, hlatest, hyoung, rfl,
    Build.failures_of_ttl hsound hbuilt hpos, fun hfailed => ?_⟩⟩
  have hcap : built.ttlMs ≤ 1000 := Build.ttl_of_failures hsound hbuilt hpos hfailed
  omega

theorem Sound.unique (h : s.Sound lower config) {b b' : Nat} (hb : s.InFlight b)
    (hb' : s.InFlight b') : b = b' := by
  have heq := (h.flying b hb).symm.trans (h.flying b' hb')
  exact Option.some.inj heq

theorem getLast_log (calls : List Call) (c : Call) : (calls ++ [c]).getLast? = some c :=
  List.getLast?_append.trans rfl

theorem unread (s s' : Adapter) (hreads : op.reads = false) :
    Unread lower config s (s.call op) s' op := by
  have hcall : s.call op = { s with calls := s.calls ++ [⟨op, none⟩] } := by
    rw [call, hreads]
    rfl
  rw [hcall]
  refine ⟨getLast_log _ _, ?_, rfl, rfl⟩
  cases op with
  | listPipelines => cases hreads
  | getPipeline id => exact ⟨id, rfl, hreads⟩

end Adapter

/-- In every run at most one build is in flight; and a call that reads a snapshot waits for the
build that is in flight, or gets the snapshot of the latest completed build, at an age below its
time to live. The latter has no transient failure, and is less than a second old if anything else
went wrong. -/
theorem answers_fresh (lower : String → String) (config : FlinkAdapterConfig) (now : Int)
    (s : Adapter) (hs : Machine.Reachable (M := adapterMachine lower config) (.start now) s) :
    (∀ b b', s.InFlight b → s.InFlight b' → b = b') ∧
    ∀ op s' s'', s.step lower config (.call op) = some s' →
      Machine.Reachable (M := adapterMachine lower config) s' s'' →
      Adapter.Unread lower config s s' s'' op ∨ (∃ b, Adapter.Waits lower config s' s'' op b) ∨
        ∃ b build t built, Adapter.Reuses lower config s s' s'' op b build t built := by
  have hsound := ((@Adapter.start_sound lower config now).run hs).1
  refine ⟨fun b b' => hsound.unique, fun op s' s'' hcall hrun => ?_⟩
  cases hcall
  have hsound' := (hsound.call op).1
  by_cases hmalformed : op.reads = false
  · exact .inl (Adapter.unread s s'' hmalformed)
  have hreads : op.reads = true := Bool.eq_true_of_not_eq_false hmalformed
  rcases Adapter.call_cases hsound hreads with ⟨e, he, hfresh, heq⟩ | ⟨b, hb, heq⟩ | ⟨-, heq⟩
  · right; right
    have hlast : (s.call op).calls.getLast? = some ⟨op, some (.cached e.load e.value)⟩ := by
      rw [heq]
      exact Adapter.getLast_log _ _
    exact ⟨e.load, hsound.reuses he hfresh hlast⟩
  · right; left
    have hlast : (s.call op).calls.getLast? = some ⟨op, some (.promise b)⟩ := by
      rw [heq]
      exact Adapter.getLast_log _ _
    have hinflight : (s.call op).cache.inflight = some b := by
      rw [heq]
      exact hb
    exact ⟨b, hlast, (hsound'.last b hinflight).2, fun _ => Adapter.answer_promise⟩
  · right; left
    have hlast : (s.call op).calls.getLast? = some ⟨op, some (.promise s.builds.length)⟩ := by
      rw [heq]
      exact Adapter.getLast_log _ _
    have hinflight : (s.call op).cache.inflight = some s.builds.length := by rw [heq]
    exact ⟨_, hlast, (hsound'.last _ hinflight).2, fun _ => Adapter.answer_promise⟩

def sampleConfig : FlinkAdapterConfig where
  jobNamePrefix := "beluga-"
  cacheTtlMs := 5000
  maxConcurrency := 8
  cacheTtl_le := by omega
  concurrency_pos := by omega
  concurrency_le := by omega

/-- After a build whose overview was answered with an error. -/
def failedState : Adapter where
  builds := [{
    overview := some (.error (.client .httpError))
    pool := { next := 0, running := [], out := [] }
    aborted := none
    finishedAt := some 0
    settledAt := some 0
    cleared := true }]
  cache := {
    entry := some {
      value := (failedSnapshot sampleConfig (.client .httpError)).value, expiresAt := 1000, load := 0 }
    inflight := none }
  calls := [⟨.listPipelines, some (.promise 0)⟩]
  now := 900

theorem failedState_reachable :
    Machine.Reachable (M := adapterMachine id sampleConfig) (Adapter.start 0) failedState := by
  have hrun : Machine.run (M := adapterMachine id sampleConfig) (Adapter.start 0)
      [.call .listPipelines, .build 0 (.overview (.error (.client .httpError))),
        .build 0 .finish, .settle 0, .clear 0, .clock 900] = some failedState := rfl
  exact Machine.reaches_of_run hrun

/-- `answers_fresh` where that snapshot is reused after 900 ms. -/
theorem answers_fresh_failed : ∃ build t built, Adapter.Reuses id sampleConfig failedState
    (failedState.call .listPipelines) (failedState.call .listPipelines) .listPipelines 0 build t
    built := by
  rcases (answers_fresh id sampleConfig 0 failedState failedState_reachable).2 .listPipelines _ _
    rfl .refl with hunread | ⟨b, hwaits⟩ | ⟨b, build, t, built, hreuses⟩
  · cases hunread.calls
  · cases hwaits.calls
  · have hcalls := hreuses.calls
    have hb : (0 : Nat) = b := by
      have hcached : some (Call.mk .listPipelines (some (.cached 0
          (failedSnapshot sampleConfig (.client .httpError)).value))) =
          some (Call.mk .listPipelines (some (.cached b built.value))) := hcalls
      injection hcached with hcall
      injection hcall with _ hsource
      injection hsource with hsource
      injection hsource
    rw [hb]
    exact ⟨build, t, built, hreuses⟩

end Flink
