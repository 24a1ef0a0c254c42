import Beluga.Py.Dict
import Beluga.Py.Values
import Mathlib.Data.Finset.Sort
import Mathlib.Data.List.Lex
import Mathlib.Data.List.Sort
import Mathlib.Data.String.Basic

/-! # The live drift report

`check-live-drift.py`: the Applications and workloads of the cluster, as
`kubectl get -A -o json` lists them, against what is declared. An object that cannot be
read is an `InputError`, here its text. -/

namespace Ops

open Py

abbrev InputError := String

/-! ## Findings -/

inductive Check where
  | sync
  | resource
  | image
  | container
  | missing
  | undeclared
  | health
  | source
  deriving DecidableEq

def Check.text : Check → String
  | .sync => "sync"
  | .resource => "resource"
  | .image => "image"
  | .container => "container"
  | .missing => "missing"
  | .undeclared => "undeclared"
  | .health => "health"
  | .source => "source"

inductive Class where
  | expected
  | tolerated
  | unauthorized
  deriving DecidableEq

def Class.text : Class → String
  | .expected => "expected"
  | .tolerated => "tolerated"
  | .unauthorized => "unauthorized"

structure Finding where
  check : Check
  cls : Class
  subject : String
  detail : String
  deriving DecidableEq

/-- What findings are sorted by. -/
def Finding.key (f : Finding) : List String := [f.check.text, f.subject, f.cls.text, f.detail]

def sortFindings (findings : List Finding) : List Finding :=
  findings.insertionSort fun a b => a.key ≤ b.key

/-- `sorted(keys)`. -/
def sorted (keys : List String) : List String := keys.insertionSort (· ≤ ·)

/-! ## Reading objects -/

def WORKLOAD_KINDS : List String := ["Deployment", "StatefulSet", "DaemonSet", "CronJob"]

def isWorkloadKind (kind : Value) : Bool := WORKLOAD_KINDS.any fun k => kind.eq (.str k)

def wid (kind ns name : String) : String := kind ++ "/" ++ ns ++ "/" ++ name

/-- `d[key]` as an object; absent or null is `{}`. -/
def sub (d : Entries) (key what : String) : Except InputError Entries :=
  match get d key with
  | .none => .ok []
  | .dict entries => .ok entries
  | v => .error ("unexpected input: " ++ what ++ "." ++ key ++ " is " ++ v.typeName ++
      ", expected an object")

/-- A list of objects; absent or null is `[]`. -/
def objects (v : Value) (error : InputError) : Except InputError (List Entries) :=
  match v with
  | .none => .ok []
  | .list items => items.mapM fun item => match item with
      | .dict entries => .ok entries
      | _ => .error error
  | _ => .error error

section Reading

variable (py : Text)

/-- The name and the namespace of an object. -/
def metaOf (obj : Entries) (what : String) : Except InputError (String × String) :=
  match get obj "metadata" with
  | .dict m =>
      match get m "name" with
      | .str name =>
          if name = "" then
            .error ("unexpected input: " ++ what ++ " metadata.name missing or not a string")
          else
            let ns := get m "namespace"
            .ok (name, if ns.truthy then ns.text py else "default")
      | _ => .error ("unexpected input: " ++ what ++ " metadata.name missing or not a string")
  | _ => .error ("unexpected input: " ++ what ++ " has no metadata object")

/-- Images by the names of their containers. -/
abbrev Images := Dict String Value

structure Containers where
  containers : Images
  initContainers : Images

/-- One section of a pod. A later container replaces an earlier one with its name. -/
def sectionImages (pod : Entries) (part what : String) : Except InputError Images :=
  match get pod part with
  | .none => .ok ∅
  | .list entries => do
      let pairs ← entries.mapM fun entry => match entry with
        | .dict c => match get c "name" with
            | .str name => .ok (name, get c "image")
            | _ => .error ("unexpected input: " ++ what ++ " " ++ part ++
                " entry without a string name")
        | _ => .error ("unexpected input: " ++ what ++ " " ++ part ++
            " entry without a string name")
      return dictOf pairs
  | v => .error ("unexpected input: " ++ what ++ " " ++ part ++ " is " ++ v.typeName ++
      ", expected a list")

/-- The specification of a workload, of a CronJob that of its jobs. -/
def workloadSpec (obj : Entries) (what : String) : Except InputError Entries :=
  if (get obj "kind").eq (.str "CronJob") then do
    sub (← sub (← sub obj "spec" what) "jobTemplate" what) "spec" what
  else sub obj "spec" what

def podContainers (obj : Entries) (what : String) : Except InputError Containers := do
  let spec ← workloadSpec obj what
  let pod ← sub (← sub spec "template" what) "spec" what
  let containers ← sectionImages pod "containers" what
  let initContainers ← sectionImages pod "initContainers" what
  return { containers, initContainers }

/-! ## The root -/

def DEFAULT_ROOT : Finset String := {"gitops/apps"}

/-- The source paths of the committed roots: the default one, that of Kakao Cloud, and the
default one as the full profile patches it. -/
def rootSources : List (Finset String) :=
  [{"gitops/apps"}, {"gitops/apps", "csp/kakao-cloud/gitops/apps"}, {"gitops/profiles/full"}]

def sourcePath : Value → Option String
  | .dict source => match get source "path" with
      | .str path => some path
      | _ => none
  | _ => none

def sourcePaths (root : Entries) : Except InputError (Finset String) := do
  let spec ← sub root "spec" "Application/beluga-root"
  if (spec.lookup "source").isSome = (spec.lookup "sources").isSome then
    .error ("Application/beluga-root: " ++
      "exactly one of spec.source or spec.sources is required")
  else
    let sources := if (spec.lookup "source").isSome then .list [get spec "source"]
      else get spec "sources"
    let paths := match sources with
      | .list items => items.mapM sourcePath
      | _ => none
    match paths with
    | some paths => .ok paths.toFinset
    | none => .error ("Application/beluga-root: source must be an object; " ++
        "sources must be a list of objects with string path")

/-- The sources of the first Application with the name of the root. -/
def deployedRoot : List Entries → Except InputError (Finset String)
  | [] => .ok DEFAULT_ROOT
  | app :: rest => do
      let (name, _) ← metaOf py app "Application"
      if name = "beluga-root" then sourcePaths app else deployedRoot rest

def rootFindings (paths : Finset String) : List Finding :=
  if paths ∈ rootSources then []
  else
    [⟨.source, .unauthorized, "Application/beluga-root", "unknown root source paths " ++
      (Value.list (paths.sort.map .str)).repr py ++ "; using default Git root render"⟩]

/-! ## One Application -/

/-- `ignored`: a rule with the kind, the group, and the name and namespace that it has. -/
def matchesRule (res rule : Entries) : Bool :=
  (get rule "kind").eq (get res "kind") &&
    (getD rule "group" (.str "")).eq (getD res "group" (.str "")) &&
    ((get rule "name").eq .none || (get rule "name").eq (get res "name")) &&
    ((get rule "namespace").eq .none || (get rule "namespace").eq (get res "namespace"))

def ignored (res : Entries) (rules : List Entries) : Bool := rules.any (matchesRule res)

def resourceId (res : Entries) : String :=
  wid ((getD res "kind" (.str "?")).text py) ((getD res "namespace" (.str "")).text py)
    ((getD res "name" (.str "?")).text py)

/-- What is found about a resource by its sync status. -/
def statusFindings (subject : String) (res : Entries) (rules : List Entries) : List Finding :=
  let status := get res "status"
  if status.eq .none then
    [⟨.resource, .tolerated, subject,
      "no sync status reported (sync-hook / untracked; docs section 2.D)"⟩]
  else if status.eq (.str "OutOfSync") then
    if ignored res rules then
      [⟨.resource, .tolerated, subject,
        "OutOfSync and matches an ignoreDifferences rule by kind/group/name/namespace; " ++
        "Argo applies the rule before computing sync status, but the field-level cause is " ++
        "NOT verified"⟩]
    else
      [⟨.resource, .unauthorized, subject,
        "OutOfSync and not covered by spec.ignoreDifferences"⟩]
  else if status.eq (.str "Synced") then []
  else [⟨.resource, .tolerated, subject, "sync status " ++ status.repr py⟩]

def resourceFindings (name : String) (rules : List Entries) (res : Entries) :
    Except InputError (List Finding) := do
  let subject := resourceId py res ++ " (app " ++ name ++ ")"
  let health := get (← sub res "health" subject) "status"
  let healthFindings := if health.eq .none || health.eq (.str "Healthy") then []
    else [⟨.health, .tolerated, subject, "health is " ++ health.repr py ++ " (not drift)"⟩]
  return healthFindings ++ statusFindings py subject res rules

/-- The revisions that are synced: the list, or the one. -/
def syncedRevisions (sync : Entries) : Value :=
  let revisions := get sync "revisions"
  if !revisions.eq .none then revisions
  else if (get sync "revision").truthy then .list [get sync "revision"]
  else .list []

def revisionList (what : String) (sync : Entries) : Except InputError (List Value) :=
  match syncedRevisions sync with
  | .list revs => .ok revs
  | _ => .error ("unexpected input: " ++ what ++ " status.sync.revisions is not a list")

def syncFindings (what : String) (sync : Entries) (revs : List Value) (revision : String) :
    List Finding :=
  (if (get sync "status").eq (.str "Synced") then []
    else [⟨.sync, .unauthorized, what, "sync status is " ++ (get sync "status").repr py ++
      ", expected 'Synced'"⟩]) ++
  (if revs.any (·.eq (.str revision)) then []
    else [⟨.sync, .unauthorized, what, "synced revision " ++
      (if revs.isEmpty then "None" else (Value.list revs).repr py) ++ " != expected " ++ revision⟩])

/-- What is found about an Application, and its resources. -/
def applicationFindings (name : String) (app : Entries) (revision : String) :
    Except InputError (List Finding × List Entries) := do
  let what := "Application/" ++ name
  let status ← sub app "status" what
  let sync ← sub status "sync" what
  let revs ← revisionList what sync
  let health := get (← sub status "health" what) "status"
  let healthFindings := if health.eq (.str "Healthy") then []
    else [⟨.health, .tolerated, what, "health is " ++ health.repr py ++ " (not drift)"⟩]
  let rules ← objects (get (← sub app "spec" what) "ignoreDifferences")
    ("unexpected input: " ++ what ++ " spec.ignoreDifferences must be a list of objects")
  let resources ← objects (get status "resources")
    ("unexpected input: " ++ what ++ " status.resources must be a list of objects")
  let emptyFindings := if resources.isEmpty then
      [⟨.resource, .tolerated, what,
        "no tracked resources reported (nothing to check; verify the app is populated)"⟩]
    else []
  let found ← resources.mapM (resourceFindings py name rules)
  return (syncFindings py what sync revs revision ++ (healthFindings ++ emptyFindings) ++
    found.flatten, resources)

def expectedFindings (byName : Dict String Entries) (revision name : String) :
    Except InputError (List Finding × List Entries) :=
  match byName.lookup name with
  | none => .ok ([⟨.missing, .unauthorized, "Application/" ++ name,
      "declared in gitops/apps but absent from cluster"⟩], [])
  | some app => applicationFindings py name app revision

/-! ## Workloads -/

/-- One section of a workload, by the names of its containers. -/
def sectionFindings (key label : String) (got want : Images) : List Finding :=
  (sorted (got.keys ++ want.keys).dedup).flatMap fun name =>
    let subject := key ++ " " ++ label ++ "/" ++ name
    match got.lookup name, want.lookup name with
    | none, _ => [⟨.container, .unauthorized, subject,
        "declared container absent from the live workload"⟩]
    | some _, none => [⟨.container, .unauthorized, subject,
        "live container not declared in the chart render"⟩]
    | some g, some w =>
        if g.eq w then []
        else [⟨.image, .unauthorized, subject,
          "live image " ++ g.repr py ++ " != declared " ++ w.repr py⟩]

def containerFindings (key : String) (got want : Containers) : List Finding :=
  sectionFindings py key "container" got.containers want.containers ++
    sectionFindings py key "initContainer" got.initContainers want.initContainers

abbrev Declared := Dict String Containers

def declaredFindings (live : Dict String Entries) (key : String) (want : Containers) :
    Except InputError (List Finding) :=
  match live.lookup key with
  | none => .ok [⟨.missing, .unauthorized, key, "declared workload absent from cluster"⟩]
  | some obj => do return containerFindings py key (← podContainers obj key) want

def workloadKey (w : Entries) : Except InputError String := do
  let (name, ns) ← metaOf py w "workload"
  return wid ((getD w "kind" (.str "?")).text py) ns name

/-! ## The report -/

structure Report where
  expected_revision : String
  expected_revision_source : String
  coverage : String
  live : ℕ
  image_checked : ℕ
  /-- How many findings there are of each class. -/
  summary : Class → ℕ
  findings : List Finding
  skipped : List String

def skippedText (key : String) : String :=
  key ++ ": not rendered by the repo charts and not Argo-tracked (operator/upstream/add-on); " ++
    "image NOT checked"

/-- The keys of the workloads among the resources of Applications. -/
def managedKeys (resources : List Entries) : List String :=
  ((resources.filter fun res => isWorkloadKind (get res "kind")).map (resourceId py)).dedup

/-- What is found about workloads that are tracked and not declared. -/
def trackedFindings (managed live declared : List String) : List Finding :=
  (sorted (managed.filter fun key => key ∉ live ∧ key ∉ declared)).map (⟨.missing, .unauthorized,
    ·, "Argo-tracked workload absent from live workload list"⟩) ++
  (sorted (managed.filter fun key => key ∈ live ∧ key ∉ declared)).map (⟨.undeclared,
    .unauthorized, ·,
    "live and Argo-tracked but absent from the chart render: image cannot be checked"⟩)

/-- The report of what was found, in the order of the findings' keys. -/
def reportOf (revision revisionSource : String) (live : Dict String Entries) (declared : Declared)
    (found : List Finding) (resources : List Entries) : Report :=
  let managed := managedKeys py resources
  let findings := sortFindings (found ++ trackedFindings managed live.keys declared.keys)
  { expected_revision := revision
    expected_revision_source := revisionSource
    coverage := "ArgoCD Applications, tracked-resource sync status, per-container images of " ++
      "workloads rendered from the repo charts. " ++
      "Not RBAC/NetworkPolicy/Service; images of skipped workloads are NOT checked."
    live := live.keys.length
    image_checked := live.keys.countP (· ∈ declared.keys)
    summary := fun cls => findings.countP (·.cls = cls)
    findings
    skipped := (sorted (live.keys.filter fun key => key ∉ declared.keys ∧ key ∉ managed)).map
      skippedText }

def nameApplication (app : Entries) : Except InputError (String × Entries) := do
  return ((← metaOf py app "Application").1, app)

def keyWorkload (w : Entries) : Except InputError (String × Entries) := do
  return (← workloadKey py w, w)

def evaluate (apps workloads : List Entries) (declared : Declared) (expectedApps : List String)
    (revision revisionSource : String) : Except InputError Report := do
  let named ← apps.mapM (nameApplication py)
  let rootPaths ← deployedRoot py apps
  let checked ← expectedApps.mapM (expectedFindings py (dictOf named) revision)
  let keyed ← workloads.mapM (keyWorkload py)
  let live := dictOf keyed
  let compared ← (declared.entries.insertionSort fun a b => a.1 ≤ b.1).mapM
    fun entry => declaredFindings py live entry.1 entry.2
  return reportOf py revision revisionSource live declared
    (rootFindings py rootPaths ++ checked.flatMap Prod.fst ++ compared.flatten)
    (checked.flatMap Prod.snd)

end Reading

end Ops
