import Beluga.Js.Strings
import Mathlib.Data.Rat.Init
import Mathlib.Tactic.NormNum

/-! # Correlation rules

`rules.ts`: links between the entities of different services. A label that declares
its partner is trusted alone; without one, names that share a key are linked as a
guess, with less confidence where there is more than one candidate. `toLowerCase` is a
parameter.
-/

namespace Correlation

open Js

inductive CorrelationEntityKind where
  | kafkaTopic
  | flinkJob
  | icebergTable
  | trinoCatalog
  | airflowDag
  deriving DecidableEq, Repr

inductive CorrelationRelation where
  | topicFeedsJob
  | jobWritesTable
  | tableServedByCatalog
  | dagTriggersJob
  deriving DecidableEq, Repr

def CorrelationRelation.text : CorrelationRelation → String
  | .topicFeedsJob => "topic-feeds-job"
  | .jobWritesTable => "job-writes-table"
  | .tableServedByCatalog => "table-served-by-catalog"
  | .dagTriggersJob => "dag-triggers-job"

inductive CorrelationMethod where
  | declaredLabel
  | nameConvention
  | ambiguousNameConvention
  deriving DecidableEq, Repr

structure CorrelationEntityRef where
  kind : CorrelationEntityKind
  id : String
  deriving DecidableEq, Repr

structure CorrelationLink where
  id : String
  source : CorrelationEntityRef
  target : CorrelationEntityRef
  relation : CorrelationRelation
  confidence : ℚ
  method : CorrelationMethod
  evidence : List String
  deriving DecidableEq, Repr

structure CorrelationEntity where
  kind : CorrelationEntityKind
  id : String
  name : String
  labels : List (String × String)
  deriving DecidableEq, Repr

def CorrelationEntity.ref (e : CorrelationEntity) : CorrelationEntityRef := ⟨e.kind, e.id⟩

inductive Side where
  | source
  | target
  deriving DecidableEq, Repr

structure Rule where
  relation : CorrelationRelation
  sourceKind : CorrelationEntityKind
  targetKind : CorrelationEntityKind
  declaredOn : Side
  labelKey : String
  key : CorrelationEntity → String

def DECLARED_CONFIDENCE : ℚ := 95 / 100

def NAME_CONVENTION_CONFIDENCE : ℚ := 6 / 10

def AMBIGUOUS_CONFIDENCE : ℚ := 3 / 10

def GENERIC_TOKENS : List String :=
  ["dag", "job", "sync", "cdc", "daily", "report", "v1", "v2",
    "prod", "production", "dev", "test", "stg", "stage", "staging", "raw", "tmp", "temp", "default",
    "main", "new", "old", "data"]

section Names

variable (lower : String → String)

def tokens (name : String) : List String :=
  (((lower name).toList.splitOnP (· ∈ ['-', '_', '.'])).map String.ofList).filter (· ≠ "")

def firstSignificantToken (name : String) : String :=
  ((tokens lower name).find? (· ∉ GENERIC_TOKENS)).getD ""

def lastSegmentKey (name : String) : String :=
  let segments := ((lower name).toList.splitOn '.').map String.ofList
  firstSignificantToken lower (segments.getLast?.getD "")

def RULES : List Rule :=
  [{ relation := .topicFeedsJob
     sourceKind := .kafkaTopic
     targetKind := .flinkJob
     declaredOn := .target
     labelKey := "beluga.io/source-topic"
     key := fun entity => firstSignificantToken lower entity.name },
   { relation := .jobWritesTable
     sourceKind := .flinkJob
     targetKind := .icebergTable
     declaredOn := .source
     labelKey := "beluga.io/sink-table"
     key := fun entity =>
       if entity.kind = .icebergTable then lastSegmentKey lower entity.name
       else firstSignificantToken lower entity.name },
   { relation := .tableServedByCatalog
     sourceKind := .icebergTable
     targetKind := .trinoCatalog
     declaredOn := .source
     labelKey := "beluga.io/trino-catalog"
     key := fun entity => firstSignificantToken lower
       (if entity.kind = .icebergTable then
         ((entity.name.toList.splitOn '.').map String.ofList).head?.getD ""
       else entity.name) },
   { relation := .dagTriggersJob
     sourceKind := .airflowDag
     targetKind := .flinkJob
     declaredOn := .source
     labelKey := "beluga.io/triggers-job"
     key := fun entity => firstSignificantToken lower entity.name }]

end Names

def link (rule : Rule) (source target : CorrelationEntity) (confidence : ℚ)
    (method : CorrelationMethod) (evidence : String) : CorrelationLink where
  id := rule.relation.text ++ ":" ++ source.id ++ "->" ++ target.id
  source := source.ref
  target := target.ref
  relation := rule.relation
  confidence := confidence
  method := method
  evidence := [evidence]

namespace Rule

variable (rule : Rule)

def declaredLink (source target : CorrelationEntity) (declared : String) : CorrelationLink :=
  link rule source target DECLARED_CONFIDENCE .declaredLabel
    ("label " ++ rule.labelKey ++ "=" ++ declared)

def conventionLink (ambiguous : Bool) (source target : CorrelationEntity) : CorrelationLink :=
  link rule source target (if ambiguous then AMBIGUOUS_CONFIDENCE else NAME_CONVENTION_CONFIDENCE)
    (if ambiguous then .ambiguousNameConvention else .nameConvention)
    ("name key '" ++ rule.key source ++ "' shared by " ++ source.name ++ " and " ++ target.name)

section Links

variable (lower : String → String) (sources targets : List CorrelationEntity)

/-- The entities with the name that a label declares. -/
def matching (declared : String) : List CorrelationEntity :=
  (if rule.declaredOn = .source then targets else sources).filter
    fun entity => lower entity.name = lower declared

def declaring : List CorrelationEntity := if rule.declaredOn = .source then sources else targets

/-- A declaration that does not name exactly one entity makes no link. -/
def declaredLinks : List CorrelationLink :=
  (rule.declaring sources targets).filterMap fun owner =>
    (owner.labels.lookup rule.labelKey).bind fun declared =>
      match rule.matching lower sources targets declared with
      | [other] => some
          (if rule.declaredOn = .source then rule.declaredLink owner other declared
          else rule.declaredLink other owner declared)
      | _ => none

def declaredIds : List String :=
  ((rule.declaring sources targets).filter fun owner =>
    (owner.labels.lookup rule.labelKey).isSome).map (·.id)

/-- The pairs of entities that have not declared anything and share a key. -/
def pairs : List (CorrelationEntity × CorrelationEntity) :=
  let ids := rule.declaredIds sources targets
  let eligibleSources := sources.filter fun source => !(rule.declaredOn = .source && source.id ∈ ids)
  let eligibleTargets := targets.filter fun target => !(rule.declaredOn = .target && target.id ∈ ids)
  eligibleSources.flatMap fun source =>
    if rule.key source = "" then []
    else (eligibleTargets.filter (rule.key · = rule.key source)).map (source, ·)

def conventionLinks : List CorrelationLink :=
  let pairs := rule.pairs sources targets
  let perSource := fun id => pairs.countP (·.1.id = id)
  let perTarget := fun id => pairs.countP (·.2.id = id)
  pairs.map fun pair =>
    rule.conventionLink (1 < perSource pair.1.id || 1 < perTarget pair.2.id) pair.1 pair.2

def links : List CorrelationLink :=
  rule.declaredLinks lower sources targets ++ rule.conventionLinks sources targets

end Links

end Rule

def correlate (lower : String → String) (entities : List CorrelationEntity) :
    List CorrelationLink :=
  let sorted := sortOn (·.id) entities
  sortOn (·.id) ((RULES lower).flatMap fun rule =>
    rule.links lower (sorted.filter (·.kind = rule.sourceKind))
      (sorted.filter (·.kind = rule.targetKind)))

end Correlation
