import Beluga.Correlation.Rules
import Beluga.Policy.Drift
import Beluga.Text.Scan
import Mathlib.Data.Rat.Floor

/-! # Flink jobs as pipelines

`mapping.ts`: each job of Flink becomes a pipeline of its own, with the tables that its
graph reports as sinks and with the links that the correlation rules find. An instant
stands for its ISO text, and `none` for a value that is not one of an enumeration.
`toLowerCase` is a parameter.
-/

namespace Flink

open Js Text Correlation

/-! ## Jobs -/

structure FlinkJobSummary where
  jid : String
  name : String
  state : String
  startTime : ℚ
  endTime : ℚ
  lastModification : ℚ
  tasks : List (String × ℚ)
  deriving Repr

/-- The names of the vertices. -/
structure FlinkJobDetail where
  vertices : List String
  deriving Repr

structure FlinkJobInput where
  summary : FlinkJobSummary
  detail : Option FlinkJobDetail
  deriving Repr

inductive HealthStatus where
  | healthy
  | degraded
  | stale
  | unknown
  | unavailable
  deriving DecidableEq, Repr

inductive RunResult where
  | running
  | succeeded
  | failed
  | unknown
  deriving DecidableEq, Repr

structure StateMapping where
  health : Option HealthStatus
  result : Option RunResult
  deriving DecidableEq, Repr

def FLINK_STATE_MAPPING : List (String × StateMapping) :=
  [("RUNNING", ⟨some .healthy, some .running⟩),
    ("INITIALIZING", ⟨some .unknown, some .unknown⟩),
    ("CREATED", ⟨some .unknown, some .unknown⟩),
    ("RECONCILING", ⟨some .unknown, some .unknown⟩),
    ("RESTARTING", ⟨some .degraded, some .unknown⟩),
    ("FAILING", ⟨some .degraded, some .unknown⟩),
    ("FAILED", ⟨some .unavailable, some .failed⟩),
    ("CANCELLING", ⟨some .unknown, some .unknown⟩),
    ("CANCELED", ⟨some .unavailable, some .unknown⟩),
    ("SUSPENDED", ⟨some .unavailable, some .unknown⟩),
    ("FINISHED", ⟨some .healthy, some .succeeded⟩)]

def UNKNOWN_STATE : StateMapping := ⟨some .unknown, some .unknown⟩

def FAILURE_STATES : List String := ["RESTARTING", "FAILING", "FAILED"]

/-- A name that the table inherits is found there, without the two fields. -/
def mapState (state : String) (tasks : List (String × ℚ)) : StateMapping :=
  if state = "RUNNING" ∧ 0 < (tasks.lookup "failed").getD 0 then ⟨some .degraded, some .running⟩
  else
    match FLINK_STATE_MAPPING.lookup state with
    | some mapping => mapping
    | none => if state ∈ Policy.OBJECT_PROTOTYPE then ⟨none, none⟩ else UNKNOWN_STATE

/-! ## Names -/

/-- `[a-z0-9]`. -/
def slugChar (c : Char) : Bool := ('a' ≤ c && c ≤ 'z') || ('0' ≤ c && c ≤ '9')

/-- `replace(/[^a-z0-9]+/g, "-")`, inside a run of other characters or not. -/
def dashed : Bool → List Char → List Char
  | _, [] => []
  | inRun, c :: cs =>
      if slugChar c then c :: dashed false cs
      else if inRun then dashed true cs
      else '-' :: dashed true cs

def slug (lower : String → String) (value : String) : String :=
  let s := ((dashed false (lower value).toList).dropWhile (· = '-')).rdropWhile (· = '-')
  if s = [] then "unnamed" else String.ofList s

/-- `[A-Za-z0-9_.-]`. -/
def tableChar (c : Char) : Bool :=
  ('A' ≤ c && c ≤ 'Z') || slugChar c || c = '_' || c = '.' || c = '-'

/-- `/IcebergSink\s+([A-Za-z0-9_.-]+)/g`, from one character on. -/
def sinkStep (found : List String) (c : Char) (cs : List Char) : List String × List Char :=
  let mark := "IcebergSink".toList
  let rest := (c :: cs).drop mark.length
  let behind := rest.dropWhile Regex.space
  let table := behind.takeWhile tableChar
  if mark <+: c :: cs ∧ (rest.takeWhile Regex.space) ≠ [] ∧ table ≠ [] then
    (found ++ [String.ofList table], behind.dropWhile tableChar)
  else (found, cs)

def extractSinkTables (detail : Option FlinkJobDetail) : List String :=
  match detail with
  | none => []
  | some detail =>
      sort ((detail.vertices.flatMap fun name => scan sinkStep [] name.toList).eraseDups)

def stripPrefix (name front : String) : String :=
  if front ≠ "" ∧ front.toList <+: name.toList ∧ length front < length name then
    String.ofList (name.toList.drop front.toList.length)
  else name

/-- The last instant of a `Date`. -/
def MAX_TIME : Int := 8640000000000000

/-- An instant in milliseconds, if it is one of a `Date`. -/
def isoOrNull (ms : ℚ) : Option Int := if ms ≤ 0 ∨ MAX_TIME < ms then none else some ⌊ms⌋

/-- `z.iso.datetime()` knows years of four digits only. -/
def isDatetime (instant : Int) : Bool := instant < 253402300800000

/-! ## Pipelines -/

structure PipelineStage where
  serviceId : String
  serviceType : String
  status : Option HealthStatus
  detail : String
  deriving DecidableEq, Repr

structure JobRun where
  result : Option RunResult
  startedAt : Int
  finishedAt : Option Int
  failureReason : Option String
  deriving DecidableEq, Repr

structure PipelineJob where
  id : String
  name : String
  kind : String
  serviceId : String
  lastRun : Option JobRun
  relatedResourceIds : List String
  deriving DecidableEq, Repr

structure Pipeline where
  id : String
  name : String
  stages : List PipelineStage
  jobs : List PipelineJob
  correlationLinks : List CorrelationLink
  status : Option HealthStatus
  confidence : ℚ
  method : String
  lastUpdatedAt : Int
  deriving DecidableEq, Repr

/-- `pipelineSchema`. -/
def Pipeline.valid (p : Pipeline) : Bool :=
  p.id ≠ "" && p.name ≠ "" &&
    p.stages.all (fun s => s.serviceId ≠ "" && s.status.isSome && s.detail ≠ "") &&
    p.jobs.all (fun j => j.id ≠ "" && j.name ≠ "" && j.serviceId ≠ "" &&
      j.lastRun.all (fun r => r.result.isSome && isDatetime r.startedAt &&
        r.finishedAt.all isDatetime && r.failureReason ≠ some "") &&
      j.relatedResourceIds.all (· ≠ "")) &&
    p.correlationLinks.all (fun l => l.id ≠ "" && l.source.id ≠ "" && l.target.id ≠ "" &&
      0 ≤ l.confidence && l.confidence ≤ 1 && l.evidence.all (· ≠ "")) &&
    p.status.isSome && 0 ≤ p.confidence && p.confidence ≤ 1 && p.method ≠ "" &&
    isDatetime p.lastUpdatedAt

def FLINK_SERVICE_ID : String := "svc-flink"

def ICEBERG_SERVICE_ID : String := "svc-iceberg"

def pipelineIdFor (jid : String) : String := "pl-flink-" ++ jid

structure Options where
  jobNamePrefix : String
  now : Int
  deriving Repr

section Build

variable (lower : String → String) (options : Options) (input : FlinkJobInput)

def FlinkJobInput.sinkTables : List String := extractSinkTables input.detail

def FlinkJobInput.jobId : String := "job-flink-" ++ input.summary.jid

def tableId (table : String) : String := "table-" ++ slug lower table

def jobEntity : CorrelationEntity where
  kind := .flinkJob
  id := input.jobId
  name := stripPrefix input.summary.name options.jobNamePrefix
  labels := []

def tableEntity (table : String) : CorrelationEntity where
  kind := .icebergTable
  id := tableId lower table
  name := table
  labels := []

def entities : List CorrelationEntity :=
  jobEntity options input :: input.sinkTables.map (tableEntity lower)

/-- `tableByEntityId.get(id) ?? id`: of tables with one id the last. -/
def tableByEntityId (id : String) : String :=
  (input.sinkTables.reverse.find? (tableId lower · = id)).getD id

def graphEvidence (table : String) : String :=
  "Flink job graph of '" ++ input.summary.name ++ "' reports an IcebergSink on '" ++ table ++ "'"

def links : List CorrelationLink :=
  (correlate lower (entities lower options input)).map fun link =>
    if link.relation = .jobWritesTable then
      { link with evidence :=
          link.evidence ++ [graphEvidence input (tableByEntityId lower input link.target.id)] }
    else link

def FlinkJobInput.mapped : StateMapping := mapState input.summary.state input.summary.tasks

def FlinkJobInput.job : PipelineJob where
  id := input.jobId
  name := input.summary.name
  kind := "flink"
  serviceId := FLINK_SERVICE_ID
  lastRun := (isoOrNull input.summary.startTime).map fun startedAt =>
    { result := input.mapped.result
      startedAt := startedAt
      finishedAt := isoOrNull input.summary.endTime
      failureReason :=
        if input.summary.state ∈ FAILURE_STATES then
          some ("Flink reported job state " ++ input.summary.state)
        else none }
  relatedResourceIds := []

def FlinkJobInput.stages : List PipelineStage :=
  ⟨FLINK_SERVICE_ID, "flink", input.mapped.health, "Flink job state " ++ input.summary.state⟩ ::
    input.sinkTables.map fun table =>
      ⟨ICEBERG_SERVICE_ID, "iceberg", some .unknown,
        "Sink table " ++ table ++
          " reported by the Flink job graph; not verified against the catalog"⟩

/-- The least confidence of the links. -/
def leastConfidence : List CorrelationLink → ℚ
  | [] => AMBIGUOUS_CONFIDENCE
  | l :: ls => ls.foldl (fun least l' => min least l'.confidence) l.confidence

def candidate : Pipeline where
  id := pipelineIdFor input.summary.jid
  name := input.summary.name
  stages := input.stages
  jobs := [input.job]
  correlationLinks := links lower options input
  status := input.mapped.health
  confidence := leastConfidence (links lower options input)
  method := "inferred"
  lastUpdatedAt :=
    ((isoOrNull input.summary.lastModification).or (isoOrNull input.summary.startTime)).getD
      options.now

end Build

structure Built where
  pipelines : List Pipeline
  skipped : Nat
  deriving Repr

/-- Candidates that do not pass the schema are counted and left out. -/
def buildPipelines (lower : String → String) (inputs : List FlinkJobInput) (options : Options) :
    Built :=
  let candidates := inputs.map (candidate lower options)
  { pipelines := sortOn (·.id) (candidates.filter (·.valid))
    skipped := candidates.countP (!·.valid) }

end Flink
