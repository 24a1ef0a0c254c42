import Beluga.Js.Numbers
import Beluga.Py.Access
import Mathlib.Data.List.Sort

/-! # The sizing report

`generate_sizing_report.py` in exact arithmetic: the requests that rendered documents declare,
per workload and in total, and the profiles whose machines they exceed. -/

namespace Sizing

open Py

/-! ## Documents -/

inductive Field where
  | cpu
  | memory
  deriving DecidableEq

namespace Field

def text : Field → String
  | cpu => "cpu"
  | memory => "memory"

def pick {α : Type} (onCpu onMemory : α) : Field → α
  | cpu => onCpu
  | memory => onMemory

end Field

inductive Section where
  | requests
  | limits

def Section.text : Section → String
  | requests => "requests"
  | limits => "limits"

/-- Declared quantities, by `str(value)`. -/
structure Amounts where
  cpu : Option String := none
  memory : Option String := none

def Amounts.get (a : Amounts) : Field → Option String := Field.pick a.cpu a.memory

structure Resources where
  requests : Option Amounts := none
  limits : Option Amounts := none

def Resources.get (r : Resources) : Section → Option Amounts
  | .requests => r.requests
  | .limits => r.limits

structure Container where
  name : String
  resources : Option Resources := none

structure PodSpec where
  initContainers : List Container := []
  containers : List Container := []

/-- `jobManager` or `taskManager`. An empty resource is none. -/
structure FlinkPart where
  resource : Option Amounts := none
  replicas : Option ℕ := none

inductive Kind where
  | Deployment
  | StatefulSet
  | Job
  | CronJob
  | Cluster
  | KafkaNodePool
  | Kafka
  | FlinkDeployment
  | other (text : String)
  deriving DecidableEq

def Kind.text : Kind → String
  | Deployment => "Deployment"
  | StatefulSet => "StatefulSet"
  | Job => "Job"
  | CronJob => "CronJob"
  | Cluster => "Cluster"
  | KafkaNodePool => "KafkaNodePool"
  | Kafka => "Kafka"
  | FlinkDeployment => "FlinkDeployment"
  | other text => text

/-- What the kinds keep in `spec`. -/
structure Spec where
  replicas : Option ℕ := none
  instances : Option ℕ := none
  /-- `template.spec`. -/
  template : PodSpec := {}
  /-- `jobTemplate.spec.template.spec`. -/
  jobTemplate : PodSpec := {}
  resources : Option Resources := none
  jobManager : FlinkPart := {}
  taskManager : FlinkPart := {}
  /-- What `_find_resources` finds, with the paths. -/
  found : List (String × Resources) := []

structure Doc where
  kind : Kind
  namespaceName : Option String := none
  name : Option String := none
  spec : Spec

def Doc.id (doc : Doc) : String :=
  doc.kind.text ++ "/" ++ doc.namespaceName.getD "default" ++ "/" ++ doc.name.getD "unnamed"

/-! ## Quantities -/

/-- `[0-9]+(\.[0-9]*)?|\.[0-9]+`. -/
def isNumeral (cs : List Char) : Bool :=
  let whole := cs.takeWhile Char.isDigit
  match cs.dropWhile Char.isDigit with
  | [] => !whole.isEmpty
  | c :: part => c = '.' && part.all Char.isDigit && !(whole.isEmpty && part.isEmpty)

def digitsValue (cs : List Char) : ℕ := cs.foldl (fun n c => 10 * n + (c.toNat - 48)) 0

/-- The number that a numeral stands for. -/
def decimal (cs : List Char) : ℚ :=
  let part := (cs.dropWhile Char.isDigit).drop 1
  digitsValue (cs.takeWhile Char.isDigit) + (digitsValue part : ℚ) / 10 ^ part.length

/-- What Python makes of texts and numbers, without rounding. -/
structure Numbers where
  /-- `float(text)`, or the text of its `ValueError`. -/
  float : List Char → Except String ℚ
  repr : String → String
  /-- `str(number)`. -/
  str : ℚ → String
  float_numeral : ∀ cs, isNumeral cs = true → float cs = .ok (decimal cs)

def BIN : List (String × ℚ) :=
  [("Ki", 1024), ("Mi", 1024 ^ 2), ("Gi", 1024 ^ 3), ("Ti", 1024 ^ 4), ("Pi", 1024 ^ 5),
    ("Ei", 1024 ^ 6)]

def DEC : List (String × ℚ) :=
  [("k", 1000), ("M", 1000 ^ 2), ("G", 1000 ^ 3), ("T", 1000 ^ 4), ("P", 1000 ^ 5),
    ("E", 1000 ^ 6)]

def SUFFIXES : List String := "" :: "m" :: (BIN ++ DEC).map Prod.fst

/-- A number ends before the first letter. -/
def numeric (c : Char) : Bool := c.isDigit || c = '.'

/-- The groups of `_QUANTITY.fullmatch(text)`. -/
def quantity (text : String) : Option (List Char × String) :=
  let number := text.toList.takeWhile numeric
  let suffix := String.ofList (text.toList.dropWhile numeric)
  if isNumeral number && suffix ∈ SUFFIXES then some (number, suffix) else none

section

variable (py : Numbers)

def float (cs : List Char) : Try ℚ :=
  match py.float cs with
  | .ok q => .ok q
  | .error message => .error (.invalid message)

def cpu_millicores (text : String) : Try ℚ :=
  if text.toList.getLast? = some 'm' then float py text.toList.dropLast
  else do
    let cores ← float py text.toList
    .ok (cores * 1000)

def memory_mib (text : String) (flink : Bool) : Try ℚ :=
  match quantity text with
  | none =>
      .error (.invalid ("unsupported memory quantity " ++ py.repr text ++
        " (expected number + Ki..Ei / k..E / m, or plain bytes)"))
  | some (digits, suffix) => do
      let number ← float py digits
      if suffix = "m" then .ok (if flink then number else number / 1000 / 1024 ^ 2)
      else .ok (number * (((BIN.lookup suffix).or (DEC.lookup suffix)).getD 1) / 1024 ^ 2)

def amount (flink : Bool) : Field → String → Try ℚ
  | .cpu, text => cpu_millicores py text
  | .memory, text => memory_mib py text flink

/-! ## Workloads -/

def declared (resources : Option Resources) (s : Section) (f : Field) : Option String :=
  (resources.bind (·.get s)).bind (·.get f)

/-- `_res`. -/
def res (resources : Option Resources) (flink : Bool) (s : Section) (f : Field) : Try (Option ℚ) :=
  match declared resources s f with
  | none => .ok none
  | some raw => do
      let value ← amount py flink f raw
      .ok (some value)

def both {α : Type} (g : Field → Try α) : Try (Field → α) := do
  let onCpu ← g .cpu
  let onMemory ← g .memory
  .ok (Field.pick onCpu onMemory)

def SLOTS : List (Section × Field) :=
  [(.requests, .cpu), (.requests, .memory), (.limits, .cpu), (.limits, .memory)]

/-- `_missing`. -/
def missing (resources : Option Resources) : Try (List (Section × Field)) := do
  let values ← SLOTS.mapM fun slot => res py resources false slot.1 slot.2
  .ok (((SLOTS.zip values).filter fun entry => entry.2.isNone).map Prod.fst)

def slotsText (slots : List (Section × Field)) : String :=
  " ".intercalate (slots.map fun slot => slot.1.text ++ "." ++ slot.2.text)

def anyLimit (slots : List (Section × Field)) : Bool :=
  slots.any fun slot => match slot.1 with | .limits => true | .requests => false

inductive Role where
  | init
  | main

def Role.text : Role → String
  | init => "init"
  | main => "main"

structure Pod where
  requests : Field → ℚ := fun _ => 0
  limits : Field → ℚ := fun _ => 0
  initMax : Field → ℚ := fun _ => 0
  gaps : List String := []
  limitsPartial : Bool := false

/-- One turn of the loop over the containers. -/
def Pod.add (role : Role) (pod : Pod) (c : Container) : Try Pod := do
  let slots ← missing py c.resources
  let limit ← both (res py c.resources false .limits)
  let request ← both (res py c.resources false .requests)
  let gaps := if slots.isEmpty then pod.gaps
    else pod.gaps ++ [c.name ++ " (" ++ role.text ++ "): " ++ slotsText slots]
  -- Kubernetes takes the limit for a request that is not given.
  let effective := fun f => ((request f).or (limit f)).getD 0
  match role with
  | .init => .ok { pod with gaps := gaps, initMax := fun f => max (pod.initMax f) (effective f) }
  | .main =>
      .ok { pod with
        gaps := gaps
        limitsPartial := pod.limitsPartial || anyLimit slots
        requests := fun f => pod.requests f + effective f
        limits := fun f => pod.limits f + (limit f).getD 0 }

/-- `_pod`. -/
def pod (spec : PodSpec) : Try Pod := do
  let first ← spec.initContainers.foldlM (Pod.add py .init) {}
  let all ← spec.containers.foldlM (Pod.add py .main) first
  .ok { all with
    requests := fun f => max (all.requests f) (all.initMax f)
    gaps := all.gaps.mergeSort fun a b => decide (a ≤ b) }

structure Block where
  requests : Field → ℚ
  limits : Field → ℚ

/-- `_block`. -/
def block (resources : Option Resources) (count : ℕ) : Try Block := do
  let limit ← both (res py resources false .limits)
  let request ← both (res py resources false .requests)
  .ok { requests := fun f => ((request f).or (limit f)).getD 0 * count
        limits := fun f => (limit f).getD 0 * count }

structure Record where
  id : String
  kind : Kind
  namespaceName : String
  name : String
  isTransient : Bool := false
  notes : List String := []
  replicas : ℕ
  gaps : List String
  limitsPartial : Bool
  requests : Field → ℚ
  limits : Field → ℚ
  podRequests : Field → ℚ

def podRecord (doc : Doc) (spec : PodSpec) (replicas : ℕ) (isTransient : Bool) : Try Record := do
  let pod ← pod py spec
  .ok { id := doc.id, kind := doc.kind, namespaceName := doc.namespaceName.getD "default"
        name := doc.name.getD "unnamed", replicas := replicas, isTransient := isTransient
        gaps := pod.gaps, limitsPartial := pod.limitsPartial
        requests := fun f => pod.requests f * replicas
        limits := fun f => pod.limits f * replicas
        podRequests := pod.requests }

def blockRecord (doc : Doc) (count : ℕ) : Try Record := do
  let block ← block py doc.spec.resources count
  let slots ← missing py doc.spec.resources
  -- A division by zero is no `ValueError`.
  if count = 0 then .error .raised
  else .ok { id := doc.id, kind := doc.kind, namespaceName := doc.namespaceName.getD "default"
             name := doc.name.getD "unnamed", replicas := count
             gaps := if slots.isEmpty then [] else [doc.kind.text ++ ": " ++ slotsText slots]
             limitsPartial := anyLimit slots
             requests := block.requests
             limits := block.limits
             podRequests := fun f => block.requests f / count }

/-- What the pods of a part declare. -/
def flinkAmount (resource : Amounts) (count : ℕ) (f : Field) : Try (Option ℚ) :=
  match resource.get f with
  | none => .ok none
  | some raw => do
      let value ← amount py true f raw
      .ok (some (value * count))

/-- What one part of a Flink deployment adds to the gaps and to the totals. -/
def flinkPart (label : String) (part : FlinkPart) : Try (List String × (Field → ℚ)) :=
  match part.resource with
  | none => .ok ([label ++ ": resource"], fun _ => 0)
  | some resource => do
      let values ← both (flinkAmount py resource (part.replicas.getD 1))
      let absent := [Field.cpu, .memory].filter fun f => (values f).isNone
      .ok (absent.map fun f => label ++ ": resource." ++ f.text, fun f => (values f).getD 0)

def flinkRecord (doc : Doc) : Try Record := do
  let jobManager ← flinkPart py "jobManager" doc.spec.jobManager
  let taskManager ← flinkPart py "taskManager" doc.spec.taskManager
  let gaps := jobManager.1 ++ taskManager.1
  let total := fun f => jobManager.2 f + taskManager.2 f
  .ok { id := doc.id, kind := doc.kind, namespaceName := doc.namespaceName.getD "default"
        name := doc.name.getD "unnamed", replicas := 1
        notes := ["assumes 1 JobManager + 1 TaskManager unless replicas is set (lower bound: the real TaskManager count follows the job parallelism/slots, which the chart does not declare); request == limit (operator default)"]
        gaps := gaps.mergeSort fun a b => decide (a ≤ b)
        limitsPartial := !gaps.isEmpty
        requests := total
        limits := total
        podRequests := total }

def Block.add (b other : Block) : Block where
  requests f := b.requests f + other.requests f
  limits f := b.limits f + other.limits f

def kafkaRecord (doc : Doc) : Try Record := do
  let slots ← doc.spec.found.mapM fun entry => missing py (some entry.2)
  let blocks ← doc.spec.found.mapM fun entry => block py (some entry.2) 1
  let total := blocks.foldl Block.add ⟨fun _ => 0, fun _ => 0⟩
  let named := (doc.spec.found.zip slots).filter fun entry => !entry.2.isEmpty
  let gaps := if doc.spec.found.isEmpty then
      ["Kafka CR: no resources declared (operator-managed pods, e.g. entity operator)"]
    else named.map fun entry => entry.1.1 ++ ": " ++ slotsText entry.2
  .ok { id := doc.id, kind := doc.kind, namespaceName := doc.namespaceName.getD "default"
        name := doc.name.getD "unnamed", replicas := 1
        notes := ["Strimzi-managed non-broker pods are sized by the operator, not declared here"]
        gaps := gaps.mergeSort fun a b => decide (a ≤ b)
        limitsPartial := doc.spec.found.isEmpty || slots.any anyLimit
        requests := total.requests
        limits := total.limits
        podRequests := total.requests }

/-- `_workload_record`. -/
def bareRecord (doc : Doc) : Try (Option Record) :=
  match doc.kind with
  | .Deployment | .StatefulSet =>
      some <$> podRecord py doc doc.spec.template (doc.spec.replicas.getD 1) false
  | .Job => some <$> podRecord py doc doc.spec.template 1 true
  | .CronJob => some <$> podRecord py doc doc.spec.jobTemplate 1 true
  | .Cluster => some <$> blockRecord py doc (doc.spec.instances.getD 1)
  | .KafkaNodePool => some <$> blockRecord py doc (doc.spec.replicas.getD 1)
  | .Kafka => some <$> kafkaRecord py doc
  | .FlinkDeployment => some <$> flinkRecord py doc
  | .other _ => .ok none

/-- A bad quantity is traceable to its workload. -/
def workload_record (doc : Doc) : Try (Option Record) :=
  match bareRecord py doc with
  | .error (.invalid message) => .error (.invalid (doc.id ++ ": " ++ message))
  | answer => answer

/-! ## Summaries -/

/-- `merged.setdefault(r["id"], r)`. -/
def mergeRecord (merged : List Record) (r : Record) : List Record :=
  if r.id ∈ merged.map (·.id) then merged else merged ++ [r]

/-- The order of the keys `(namespace, kind, name)`. -/
def Record.le (a b : Record) : Bool :=
  decide (a.namespaceName < b.namespaceName) || (a.namespaceName = b.namespaceName &&
    (decide (a.kind.text < b.kind.text) || (a.kind.text = b.kind.text && decide (a.name ≤ b.name))))

def collect_render (docs : List Doc) : Try (List Record) := do
  let records ← docs.mapM (workload_record py)
  .ok (((records.filterMap id).foldl mergeRecord []).mergeSort Record.le)

end

/-- `round(value, 1)`. -/
def round1 (value : ℚ) : ℚ := (Js.roundHalfEven (10 * value) : ℚ) / 10

/-- `int(value)`. -/
def truncated (value : ℚ) : ℤ := value.num.tdiv value.den

/-- `_round`. -/
def rounded (value : ℚ) : ℚ := if value ≠ truncated value then round1 value else truncated value

structure NamespaceSummary where
  workloads : ℕ := 0
  limitsPartial : Bool := false
  requests : Field → ℚ := fun _ => 0
  limits : Field → ℚ := fun _ => 0

def NamespaceSummary.add (s : NamespaceSummary) (w : Record) : NamespaceSummary where
  workloads := s.workloads + 1
  limitsPartial := s.limitsPartial || w.limitsPartial
  requests f := s.requests f + w.requests f
  limits f := s.limits f + w.limits f

def NamespaceSummary.clean (s : NamespaceSummary) : NamespaceSummary :=
  { s with requests := fun f => rounded (s.requests f), limits := fun f => rounded (s.limits f) }

/-- The workload's turn at its namespace. -/
def addNamespace (w : Record) : List (String × NamespaceSummary) → List (String × NamespaceSummary)
  | [] => [(w.namespaceName, NamespaceSummary.add {} w)]
  | (n, s) :: rest =>
      if n = w.namespaceName then (n, s.add w) :: rest else (n, s) :: addNamespace w rest

structure Summary where
  namespaces : List (String × NamespaceSummary)
  /-- Of all namespaces. -/
  total : NamespaceSummary

def summarize (workloads : List Record) : Summary :=
  let steady := workloads.filter fun w => !w.isTransient
  let namespaces := steady.foldl (fun acc w => addNamespace w acc) []
  { namespaces := (namespaces.mergeSort fun a b => decide (a.1 ≤ b.1)).map fun entry =>
      (entry.1, entry.2.clean)
    total := (steady.foldl NamespaceSummary.add {}).clean }

/-! ## Profiles -/

structure Capacity where
  cpuMillicores : ℕ
  memoryMiB : ℕ
  workerCpuMillicores : ℕ
  workerMemoryMiB : ℕ

def Capacity.total (c : Capacity) : Field → ℕ := Field.pick c.cpuMillicores c.memoryMiB

def Capacity.worker (c : Capacity) : Field → ℕ :=
  Field.pick c.workerCpuMillicores c.workerMemoryMiB

/-- `docs` are rendered without and with the optional services. -/
inductive Render where
  | base
  | optionalServices

structure Profile where
  /-- The key of the profile, a number of gigabytes. -/
  name : ℕ
  optionalServices : Bool
  workerNodes : ℕ
  capacity : Capacity

def Profile.render (p : Profile) : Render := if p.optionalServices then .optionalServices else .base

structure Evaluation where
  requestsPctOfCapacity : Field → ℚ
  limitsPctOfCapacity : Option (Field → ℚ)
  oversubscribed : Bool
  violations : List String

def unit : Field → String := Field.pick "m" "MiB"

def totalViolation (py : Numbers) (req : Field → ℚ) (cap : Capacity) (f : Field) : List String :=
  if (cap.total f : ℚ) < req f then
    ["requests." ++ f.text ++ " " ++ py.str (rounded (req f)) ++ unit f ++ " > capacity " ++
      toString (cap.total f) ++ unit f]
  else []

def podViolation (cap : Capacity) (w : Record) : List String :=
  if w.isTransient then []
  else if (cap.worker .memory : ℚ) < w.podRequests .memory ∨
      (cap.worker .cpu : ℚ) < w.podRequests .cpu then
    [w.id ++ " per-pod requests exceed one worker VM"]
  else []

def evaluate (py : Numbers) (cap : Capacity) (summary : Summary) (workloads : List Record) :
    Try Evaluation :=
  let req := summary.total.requests
  let violations := totalViolation py req cap .cpu ++ totalViolation py req cap .memory ++
    workloads.flatMap (podViolation cap)
  let pct := fun (sums : Field → ℚ) f => round1 (100 * sums f / cap.total f)
  if cap.total .cpu = 0 ∨ cap.total .memory = 0 then .error .raised
  else .ok {
    requestsPctOfCapacity := pct req
    limitsPctOfCapacity :=
      if summary.total.limitsPartial then none else some (pct summary.total.limits)
    oversubscribed := !violations.isEmpty
    violations := violations }

/-! ## The report -/

/-- What the report shows of a workload. -/
structure PublicRecord where
  id : String
  kind : Kind
  namespaceName : String
  replicas : ℕ
  isTransient : Bool
  gaps : List String
  notes : List String
  limitsPartial : Bool
  requests : Field → ℚ
  limits : Field → ℚ

def published (w : Record) : PublicRecord where
  id := w.id
  kind := w.kind
  namespaceName := w.namespaceName
  replicas := w.replicas
  isTransient := w.isTransient
  gaps := w.gaps
  notes := w.notes
  limitsPartial := w.limitsPartial
  requests f := rounded (w.requests f)
  limits f := rounded (w.limits f)

structure ProfileReport where
  name : ℕ
  render : Render
  capacity : Capacity
  workerNodes : ℕ
  evaluation : Evaluation

structure Report where
  workloads : Render → List PublicRecord
  summaries : Render → Summary
  profiles : List ProfileReport

def Render.pick {α : Type} (onBase onOptional : α) : Render → α
  | base => onBase
  | optionalServices => onOptional

def reportOf (py : Numbers) (workloads : Render → List Record) (p : Profile) : Try ProfileReport := do
  let ws := workloads p.render
  let evaluation ← evaluate py p.capacity (summarize ws) ws
  .ok { name := p.name, render := p.render, capacity := p.capacity, workerNodes := p.workerNodes
        evaluation := evaluation }

/-- `sorted(profiles.items(), key=…)`. -/
def sortedProfiles (profiles : List Profile) : List Profile :=
  profiles.mergeSort fun a b => decide (a.name ≤ b.name)

def build_report (py : Numbers) (rendered : Render → List Doc) (profiles : List Profile) :
    Try Report := do
  let base ← collect_render py (rendered .base)
  let optional ← collect_render py (rendered .optionalServices)
  let workloads := Render.pick base optional
  let out ← (sortedProfiles profiles).mapM (reportOf py workloads)
  .ok { workloads := fun r => (workloads r).map published
        summaries := fun r => summarize (workloads r)
        profiles := out }

end Sizing
