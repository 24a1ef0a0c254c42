import Beluga.Py.Access
import Beluga.Py.Json
import Beluga.Py.Strings

/-! # The required checks of a release

The workflow runs and jobs of a commit, from two streams of JSON. The newest run of the workflow has
to have succeeded, with its required jobs. -/

namespace Release

open Py

/-- How values and exceptions are shown. -/
structure Runtime where
  py : Py.Text
  shown : Exn → String

def WORKFLOW_PATH : String := ".github/workflows/sast.yml"

def REQUIRED_JOBS : List String := ["trivy-config", "trivy-secrets"]

/-! ## Streams of JSON -/

/-- A list stands for its items. -/
def itemsOf : Value → List Value
  | .list items => items
  | v => [v]

/-- The values of a text that begins with one; each takes a letter at least. -/
def streamFrom : ℕ → List Char → Try (List Value)
  | _, [] => .ok []
  | 0, _ :: _ => .error .raised
  | n + 1, c :: cs =>
      match Json.rawDecode (c :: cs) with
      | none => .error .raised
      | some r => do
          let more ← streamFrom n (r.2.dropWhile isSpace)
          .ok (itemsOf r.1 ++ more)

def parse_stream (text : String) : Try (List Value) :=
  streamFrom (strip text).toList.length (strip text).toList

/-! ## The newest run -/

/-- `value[key]`. -/
def item (v : Value) (key : String) : Try Value :=
  match v with
  | .dict d =>
      match d.lookup key with
      | some x => .ok x
      | none => .error .raised
  | _ => .error .raised

/-- `text.split("@")[0]`. -/
def beforeAt (text : String) : String := String.ofList (text.toList.takeWhile fun c => c ≠ '@')

mutual
/-- `v > w`. -/
def greater : Value → Value → Try Bool
  | .list xs, w =>
      match w with
      | .list ys => greaterList xs ys
      | _ => .error .raised
  | .str s, w =>
      match w with
      | .str t => .ok (t < s)
      | _ => .error .raised
  | v, w =>
      match v.number, w.number with
      | some a, some b => .ok (b.lt a)
      | _, _ => .error .raised

/-- The first items that differ decide. -/
def greaterList : List Value → List Value → Try Bool
  | [], _ => .ok false
  | x :: xs, ys =>
      match ys with
      | [] => .ok true
      | y :: ys => if x.eq y then greaterList xs ys else greater x y
end

/-- The first of the largest, after `best` with its key. -/
def maxFrom (best key : Value) : List Value → Try Value
  | [] => .ok best
  | r :: rest => do
      let id ← item r "id"
      let larger ← greater id key
      if larger then maxFrom r id rest else maxFrom best key rest

/-- `max(candidates, key=lambda r: r["id"])`. -/
def newest : List Value → Try Value
  | [] => .error .raised
  | r :: rest => do
      let id ← item r "id"
      maxFrom r id rest

section Evaluate

variable (rt : Runtime)

/-- A push run of the workflow on main for the commit. -/
def isCandidate (sha : String) (r : Value) : Try Bool := do
  let path ← item r "path"
  if beforeAt (path.text rt.py) ≠ WORKFLOW_PATH then .ok false
  else do
    let event ← item r "event"
    if !event.eq (.str "push") then .ok false
    else do
      let head_branch ← item r "head_branch"
      if !head_branch.eq (.str "main") then .ok false
      else do
        let head_sha ← item r "head_sha"
        .ok (head_sha.eq (.str sha))

def candidatesOf (sha : String) (runs : List Value) : Try (List Value) := do
  let flags ← runs.mapM (isCandidate rt sha)
  .ok (((runs.zip flags).filter fun entry => entry.2).map fun entry => entry.1)

/-- What keeps the newest run from being accepted. -/
def runError (run : Value) : Try (Option String) := do
  let status ← item run "status"
  let conclusion ← item run "conclusion"
  let id ← item run "id"
  if status.eq (.str "completed") && conclusion.eq (.str "success") then .ok none
  else .ok (some (WORKFLOW_PATH ++ " run " ++ id.text rt.py ++ ": status=" ++ status.text rt.py ++
    " conclusion=" ++ conclusion.text rt.py))

/-- `mine[job["name"]] = job` for a job of the run. -/
def ownEntry (runId job : Value) : Try (List (Value × Value)) := do
  let run_id ← item job "run_id"
  if run_id.eq runId then do
    let name ← item job "name"
    let key ← hashed name
    .ok [(key, job)]
  else .ok []

/-- The last job of a name stays. -/
def mineGet (mine : List (Value × Value)) (name : String) : Option Value :=
  (mine.reverse.find? fun entry => entry.1.eq (.str name)).map fun entry => entry.2

def jobError (runId : Value) (mine : List (Value × Value)) (name : String) : Try (List String) :=
  match mineGet mine name with
  | none => .ok ["required job not found in run " ++ runId.text rt.py ++ ": " ++ name]
  | some job => do
      let conclusion ← item job "conclusion"
      if conclusion.eq (.str "success") then .ok []
      else do
        let status ← item job "status"
        .ok ["required job " ++ name ++ ": status=" ++ status.text rt.py ++ " conclusion=" ++
          conclusion.text rt.py]

def jobErrors (required : List String) (run : Value) (jobs : List Value) : Try (List String) := do
  let runId ← item run "id"
  let mine ← jobs.mapM (ownEntry runId)
  let errors ← required.mapM (jobError rt runId mine.flatten)
  .ok errors.flatten

def evaluateStreams (runs_text jobs_text sha : String) (required : List String) :
    Try (List String) := do
  let runs ← parse_stream runs_text
  let jobs ← parse_stream jobs_text
  let candidates ← candidatesOf rt sha runs
  if candidates.isEmpty then
    .ok ["no " ++ WORKFLOW_PATH ++ " push run on main for commit " ++ sha]
  else do
    let run ← newest candidates
    let failed ← runError rt run
    match failed with
    | some error => .ok [error]
    | none => jobErrors rt required run jobs

def evaluate (runs_text jobs_text sha : String) (required : List String) : List String :=
  match evaluateStreams rt runs_text jobs_text sha required with
  | .ok errors => errors
  | .error e => ["unparsable runs/jobs input: " ++ rt.shown e]

end Evaluate

end Release
