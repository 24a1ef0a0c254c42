import Beluga.Flink.Mapping

/-! # Snapshots of Flink

`adapter.ts`: what `buildSnapshot` makes of the answers of the JobManager, and what
`getPipeline` and the route read from a snapshot. A job of the overview whose detail is
missing is still a pipeline, but an incomplete one.

* `lookup_none`: no pipeline is found only where none of the selected jobs was mapped;
* `lookup_unread`, `lookup_incomplete`: what was not read is reported as unavailable.
-/

namespace Flink

open Js

/-! ## Failures -/

inductive FlinkErrorKind where
  | unreachable
  | timeout
  | httpError
  | invalidResponse
  | overloaded
  deriving DecidableEq, Repr

/-- What a request ends with: an error of the client, or anything else that is thrown. -/
inductive Failure where
  | client (kind : FlinkErrorKind)
  | other
  deriving DecidableEq, Repr

def TRANSIENT_KINDS : List FlinkErrorKind := [.overloaded, .timeout, .unreachable]

/-- Whether `note` sets `transient`, and not `genuine`. -/
def Failure.transient : Failure → Bool
  | .client kind => kind ∈ TRANSIENT_KINDS
  | .other => true

structure ListWarning where
  code : String
  message : String
  serviceId : String
  deriving DecidableEq, Repr

def FlinkErrorKind.message : FlinkErrorKind → String
  | .unreachable => "Flink JobManager is unreachable; live pipelines are unavailable"
  | .timeout => "Flink JobManager did not respond in time; live pipelines are unavailable"
  | .httpError => "Flink JobManager returned an error response; live pipelines are unavailable"
  | .invalidResponse =>
      "Flink JobManager returned an unexpected response; live pipelines are unavailable"
  | .overloaded =>
      "Too many pending Flink JobManager requests; live pipelines are temporarily unavailable"

def Failure.kind : Failure → FlinkErrorKind
  | .client kind => kind
  | .other => .unreachable

def warningFor (err : Failure) : ListWarning where
  code := "UPSTREAM_UNAVAILABLE"
  message := err.kind.message
  serviceId := FLINK_SERVICE_ID

/-! ## The snapshot -/

/-- As far as snapshots depend on it, with the bounds that `loadFlinkAdapterConfig` checks. -/
structure FlinkAdapterConfig where
  jobNamePrefix : String
  cacheTtlMs : Nat
  maxConcurrency : Nat
  cacheTtl_le : cacheTtlMs ≤ 60000
  concurrency_pos : 1 ≤ maxConcurrency
  concurrency_le : maxConcurrency ≤ 32

structure PipelineSnapshot where
  pipelines : List Pipeline
  warnings : List ListWarning
  incompletePipelineIds : List String
  deriving DecidableEq, Repr

structure BuiltSnapshot where
  value : PipelineSnapshot
  ttlMs : Nat
  deriving DecidableEq, Repr

def MAX_JOBS : Nat := 100

def NEGATIVE_TTL_CAP_MS : Nat := 1000

/-- `transient ? 0 : genuine ? Math.min(cacheTtlMs, NEGATIVE_TTL_CAP_MS) : cacheTtlMs`. -/
def FlinkAdapterConfig.ttlMs (config : FlinkAdapterConfig) (transient genuine : Bool) : Nat :=
  if transient then 0
  else if genuine then min config.cacheTtlMs NEGATIVE_TTL_CAP_MS
  else config.cacheTtlMs

def selected (summaries : List FlinkJobSummary) : List FlinkJobSummary := summaries.take MAX_JOBS

/-- How the request for the detail of a job ends. -/
abbrev Outcome := Except Failure FlinkJobDetail

def Outcome.failure? : Outcome → Option Failure
  | .error err => some err
  | .ok _ => none

/-- The selected jobs, each with its detail if that was read. -/
def jobInputs (summaries : List FlinkJobSummary) (outcomes : List Outcome) : List FlinkJobInput :=
  (selected summaries).zipWith (fun summary outcome => ⟨summary, outcome.toOption⟩) outcomes

def incompleteIds (inputs : List FlinkJobInput) : List String :=
  (inputs.filter (·.detail.isNone)).map (pipelineIdFor ·.summary.jid)

def truncatedWarning (count : Nat) : ListWarning where
  code := "TRUNCATED"
  message := "Flink reports " ++ toString count ++ " jobs; only the first " ++
    toString MAX_JOBS ++ " are shown"
  serviceId := FLINK_SERVICE_ID

def partialWarning (count : Nat) (aborted : Bool) : ListWarning where
  code := "PARTIAL"
  message := "Flink job details were unavailable for " ++ toString count ++ " job(s)" ++
    (if aborted then " (snapshot time budget exceeded)" else "") ++
    "; their sink tables are not shown"
  serviceId := FLINK_SERVICE_ID

def invalidJobWarning (skipped : Nat) : ListWarning where
  code := "INVALID_JOB"
  message := toString skipped ++
    " Flink job(s) could not be mapped to a Pipeline and were skipped"
  serviceId := FLINK_SERVICE_ID

/-- When the overview was not read. -/
def failedSnapshot (config : FlinkAdapterConfig) (err : Failure) : BuiltSnapshot where
  value := { pipelines := [], warnings := [warningFor err], incompletePipelineIds := [] }
  ttlMs := config.ttlMs err.transient (!err.transient)

/-- When it was. `aborted` is the time budget at the end, `now` the time of the mapping. -/
def builtSnapshot (lower : String → String) (config : FlinkAdapterConfig)
    (summaries : List FlinkJobSummary) (outcomes : List Outcome) (aborted : Bool) (now : Int) :
    BuiltSnapshot :=
  let inputs := jobInputs summaries outcomes
  let failures := outcomes.filterMap Outcome.failure?
  let incomplete := incompleteIds inputs
  let built := buildPipelines lower inputs ⟨config.jobNamePrefix, now⟩
  { value :=
      { pipelines := built.pipelines
        warnings :=
          (if MAX_JOBS < summaries.length then [truncatedWarning summaries.length] else []) ++
          (if 0 < incomplete.length then [partialWarning incomplete.length aborted] else []) ++
          (if 0 < built.skipped then [invalidJobWarning built.skipped] else [])
        incompletePipelineIds := incomplete }
    ttlMs :=
      config.ttlMs (failures.any (·.transient))
        (failures.any (!·.transient) || 0 < built.skipped) }

/-! ## Lookups -/

/-- `[0-9a-f]`. -/
def hexDigit (c : Char) : Bool := ('0' ≤ c && c ≤ '9') || ('a' ≤ c && c ≤ 'f')

/-- `[0-9a-f]{32}`. -/
def isJobId (jid : String) : Bool := jid.toList.length = 32 && jid.toList.all hexDigit

/-- `PIPELINE_ID_PATTERN`. -/
def isPipelineId (id : String) : Bool :=
  "pl-flink-".toList.isPrefixOf id.toList &&
    isJobId (String.ofList (id.toList.drop "pl-flink-".toList.length))

structure PipelineLookup where
  pipeline : Option Pipeline
  warnings : List ListWarning
  unavailable : Bool
  deriving DecidableEq, Repr

/-- What `getPipeline` answers without a snapshot. -/
def unknownPipeline : PipelineLookup where
  pipeline := none
  warnings := []
  unavailable := false

/-- What `getPipeline` reads from the snapshot. -/
def lookup (snap : PipelineSnapshot) (id : String) : PipelineLookup :=
  if snap.warnings.any (·.code = "UPSTREAM_UNAVAILABLE") then
    { pipeline := none, warnings := snap.warnings, unavailable := true }
  else
    let pipeline := snap.pipelines.find? (·.id = id)
    if pipeline.isSome && id ∈ snap.incompletePipelineIds then
      { pipeline := none, warnings := snap.warnings.filter (·.code = "PARTIAL")
        unavailable := true }
    else { pipeline := pipeline, warnings := [], unavailable := false }

inductive Response where
  | ok (pipeline : Pipeline)
  | error (status : Nat) (code : String) (message : String)
  deriving DecidableEq, Repr

def Response.status : Response → Nat
  | .ok _ => 200
  | .error status _ _ => status

/-- `GET /pipelines/{id}`. -/
def PipelineLookup.response (l : PipelineLookup) (id : String) : Response :=
  if l.unavailable then
    .error 503 "SERVICE_UNAVAILABLE"
      ((l.warnings.head?.map (·.message)).getD "Upstream pipeline source is unavailable")
  else
    match l.pipeline with
    | some pipeline => .ok pipeline
    | none => .error 404 "NOT_FOUND" ("Pipeline '" ++ id ++ "' was not found")

/-- 404 is what is neither found nor unavailable. -/
theorem status_notFound {l : PipelineLookup} {id : String} :
    (l.response id).status = 404 ↔ l.pipeline = none ∧ l.unavailable = false := by
  unfold PipelineLookup.response
  cases l.unavailable <;> cases l.pipeline <;> simp [Response.status]

theorem status_unavailable {l : PipelineLookup} {id : String} :
    (l.response id).status = 503 ↔ l.unavailable = true := by
  unfold PipelineLookup.response
  cases l.unavailable <;> cases l.pipeline <;> simp [Response.status]

/-! ## What a lookup finds -/

section Lookup

variable {lower : String → String} {config : FlinkAdapterConfig}
  {summaries : List FlinkJobSummary} {outcomes : List Outcome} {aborted : Bool} {now : Int}

/-- Whether the mapping makes a pipeline of a job. -/
def Mapped (lower : String → String) (config : FlinkAdapterConfig) (now : Int)
    (input : FlinkJobInput) : Prop :=
  (candidate lower ⟨config.jobNamePrefix, now⟩ input).valid = true

instance (input : FlinkJobInput) : Decidable (Mapped lower config now input) :=
  inferInstanceAs (Decidable (_ = true))

theorem pipelineIdFor_inj {jid jid' : String} (h : pipelineIdFor jid = pipelineIdFor jid') :
    jid = jid' := by
  have hchars := congrArg String.toList h
  simp only [pipelineIdFor, String.toList_append, List.append_cancel_left_eq] at hchars
  exact String.toList_inj.mp hchars

@[simp] theorem isPipelineId_for (jid : String) :
    isPipelineId (pipelineIdFor jid) = isJobId jid := by
  have hprefix : "pl-flink-".toList.isPrefixOf ("pl-flink-".toList ++ jid.toList) = true :=
    List.isPrefixOf_iff_prefix.mpr (List.prefix_append _ _)
  rw [isPipelineId, pipelineIdFor, String.toList_append, hprefix, List.drop_left,
    String.ofList_toList, Bool.true_and]

/-- The pipelines of a snapshot are the candidates that pass the schema. -/
theorem mem_pipelines {inputs : List FlinkJobInput} {options : Options} {p : Pipeline} :
    p ∈ (buildPipelines lower inputs options).pipelines ↔
      ∃ input ∈ inputs, candidate lower options input = p ∧ p.valid = true := by
  rw [buildPipelines, mem_sortOn, List.mem_filter, List.mem_map]
  constructor
  · rintro ⟨⟨input, hmem, rfl⟩, hvalid⟩
    exact ⟨input, hmem, rfl, hvalid⟩
  · rintro ⟨input, hmem, rfl, hvalid⟩
    exact ⟨⟨input, hmem, rfl⟩, hvalid⟩

/-- Only a failed overview is reported as such. -/
theorem builtSnapshot_read : ((builtSnapshot lower config summaries outcomes aborted now).value
    |>.warnings.any (·.code = "UPSTREAM_UNAVAILABLE")) = false := by
  have hcode : ∀ w ∈ (builtSnapshot lower config summaries outcomes aborted now).value.warnings,
      w.code = "TRUNCATED" ∨ w.code = "PARTIAL" ∨ w.code = "INVALID_JOB" := by
    intro w hw
    simp only [builtSnapshot, List.mem_append, List.mem_ite_nil_right, List.mem_singleton] at hw
    rcases hw with (⟨-, rfl⟩ | ⟨-, rfl⟩) | ⟨-, rfl⟩
    · exact .inl rfl
    · exact .inr (.inl rfl)
    · exact .inr (.inr rfl)
  rw [List.any_eq_false]
  intro w hw
  rcases hcode w hw with h | h | h <;> rw [h] <;> decide

/-- The lookup in a snapshot whose overview was read. -/
theorem lookup_built (id : String) :
    lookup (builtSnapshot lower config summaries outcomes aborted now).value id =
      let snap := (builtSnapshot lower config summaries outcomes aborted now).value
      let pipeline := snap.pipelines.find? (·.id = id)
      if pipeline.isSome && id ∈ snap.incompletePipelineIds then
        { pipeline := none, warnings := snap.warnings.filter (·.code = "PARTIAL")
          unavailable := true }
      else { pipeline := pipeline, warnings := [], unavailable := false } := by
  rw [lookup, builtSnapshot_read]
  rfl

theorem find_pipeline (aborted : Bool) {jid : String} :
    ((builtSnapshot lower config summaries outcomes aborted now).value.pipelines.find?
      (·.id = pipelineIdFor jid)).isSome ↔
    ∃ input ∈ jobInputs summaries outcomes, input.summary.jid = jid ∧
      Mapped lower config now input := by
  rw [List.find?_isSome]
  constructor
  · rintro ⟨p, hp, hid⟩
    obtain ⟨input, hmem, rfl, hvalid⟩ := mem_pipelines.mp hp
    exact ⟨input, hmem, pipelineIdFor_inj (of_decide_eq_true hid), hvalid⟩
  · rintro ⟨input, hmem, rfl, hvalid⟩
    exact ⟨_, mem_pipelines.mpr ⟨input, hmem, rfl, hvalid⟩, decide_eq_true rfl⟩

/-- Nothing is found only where no job was mapped. -/
theorem lookup_none {jid : String}
    (hnone : (lookup (builtSnapshot lower config summaries outcomes aborted now).value
      (pipelineIdFor jid)).pipeline = none)
    (havailable : (lookup (builtSnapshot lower config summaries outcomes aborted now).value
      (pipelineIdFor jid)).unavailable = false) :
    ∀ input ∈ jobInputs summaries outcomes, input.summary.jid = jid →
      ¬ Mapped lower config now input := by
  intro input hmem hjid hmapped
  have hfind := (find_pipeline aborted).mpr ⟨input, hmem, hjid, hmapped⟩
  rw [lookup_built] at hnone havailable
  simp only at hnone havailable
  split_ifs at hnone havailable
  have hnothing : ((builtSnapshot lower config summaries outcomes aborted now).value.pipelines.find?
      (·.id = pipelineIdFor jid)) = none := hnone
  rw [hnothing] at hfind
  cases hfind

/-- A job without its detail is not answered with a pipeline. -/
theorem lookup_incomplete {input : FlinkJobInput}
    (hmem : input ∈ jobInputs summaries outcomes) (hdetail : input.detail = none)
    (hmapped : Mapped lower config now input) :
    (lookup (builtSnapshot lower config summaries outcomes aborted now).value
      (pipelineIdFor input.summary.jid)).unavailable = true := by
  have hfind := (find_pipeline aborted).mpr ⟨input, hmem, rfl, hmapped⟩
  have hids : pipelineIdFor input.summary.jid ∈
      (builtSnapshot lower config summaries outcomes aborted now).value.incompletePipelineIds :=
    List.mem_map.mpr ⟨input, List.mem_filter.mpr ⟨hmem, by rw [hdetail]; rfl⟩, rfl⟩
  rw [lookup_built]
  simp only
  rw [hfind, Bool.true_and, if_pos (decide_eq_true hids)]

/-- Nor is anything answered from an overview that was not read. -/
theorem lookup_unread (err : Failure) (id : String) :
    (lookup (failedSnapshot config err).value id).unavailable = true := by
  rw [lookup, failedSnapshot]
  rfl

end Lookup

end Flink
