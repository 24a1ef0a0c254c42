import Beluga.Sso.GithubApp
import Beluga.Sso.PrText

/-! # The reconciler

`reconciler.ts` and `compensation.ts`. A tick lists the open requests and moves
each along submitted / unknown_recovering → pr_open → merged → applied by asking
GitHub and ArgoCD; every move is a compare-and-set on the stage that was read.
It then sweeps the recent terminal requests for orphaned pull requests.

The lease and the single-flight guard around `tickBody` are not modelled here:
any number of ticks may run at once. What a reconciler keeps in memory between
ticks is the `ReconcilerMemory` a tick takes and returns. Log lines are left out.
-/

namespace Sso

open Interact

/-- A `submitted` row younger than this may still be inside the submit route's
own GitHub call. -/
def SUBMITTED_GRACE_MS : Int := 120000

def LIST_LIMIT : Nat := 100

def SWEEP_WINDOW_MS : Int := 7 * 24 * 3600000

def SWEEP_BATCH : Nat := 20

def SWEEP_RECHECK_MS : Int := 10 * 60000

/-- A pull request found by branch must have been created no earlier than the
request minus this skew. -/
def PR_ADOPT_SKEW_MS : Int := 5 * 60000

def ARGOCD_APPS : List String := ["beluga-platform", "beluga-data"]

/-- `Date.parse(record.createdAt) - PR_ADOPT_SKEW_MS`. -/
def adoptBound (record : ChangeRecord) : Int := (record.createdAt : Int) - PR_ADOPT_SKEW_MS

variable (deps : Deps)

/-! ## Compensation -/

def isTerminalLoss (stage : ChangeStage) : Bool := stage = .failed ∨ stage = .rejected

structure Actor where
  sub : String
  username : Option String := none

/-- The detail of the event `closeOrphanPr` records. -/
def compensationDetail (closed : Bool) (prNumber : Int) (source : Option String) : Json :=
  .obj ([("compensation", .str (if closed then "closed_orphan_pr" else "close_orphan_pr_failed")),
    ("prNumber", .num prNumber)] ++ (source.map fun s => ("source", .str s)).toList)

/-- Close a pull request that nobody tracks and record it; never throws. -/
def closeOrphanPr (current : ChangeRecord) (prNumber : Int) (actor : Actor)
    (source : Option String) : Async Unit := do
  let closed ← (closePr prNumber).attempt
  let _ ← (callStore (.recordEvent {
    requestId := some current.id
    stage := .change current.stage
    actorSub := actor.sub
    actorUsername := actor.username
    endpoint := some current.endpoint
    prNumber := some prNumber
    detail := some (compensationDetail closed.isOk prNumber source) })).attempt
  return ()

/-! ## One record -/

def reconcilerActor : Actor := { sub := "system:reconciler" }

/-- A lost compare-and-set gives `none`: somebody else moved the request. -/
def move (record : ChangeRecord) (stage : ChangeStage) (fields : TransitionFields)
    (reason : String) (detail : List (String × Json)) : Async (Option ChangeRecord) :=
  callStore (.transition record.id record.stage stage fields
    { reason := some reason
      detail := some (.obj (("source", .str "reconciler") :: detail)) } none)

/-- After a lost compare-and-set: if the request ended failed or rejected
meanwhile, the pull request we hold is an orphan. -/
def closeIfLost (record : ChangeRecord) (prNumber : Int) : Async Unit := do
  match ← callStore (.get record.id) with
  | none => return ()
  | some current =>
      if isTerminalLoss current.stage then closeOrphanPr current prNumber reconcilerActor none
      else return ()

def openPr (record : ChangeRecord) (pr : CreatedPr) (reason : String) (closeIfOrphan : Bool) :
    Async Unit := do
  match ← move record .pr_open { prNumber := some pr.prNumber, prUrl := some pr.prUrl } reason [] with
  | some _ => return ()
  | none => if closeIfOrphan then closeIfLost record pr.prNumber else return ()

/-- What the recovery writes: the change rebuilt from the recorded commit. -/
def rebuiltInput (record : ChangeRecord) (change : BuiltChange) : CreateChangePrInput where
  branch := record.branch
  baseCommitSha := record.sourceCommitSha
  baseBlobSha := record.baseBlobSha
  path := SSO_FILE_PATH
  content := change.editedText
  notBefore := some (adoptBound record)
  title := prTitle record.endpoint
  commitMessage := commitMessage record.endpoint record.actorUsername record.actorSub
  body := prBody {
    username := record.actorUsername
    sub := record.actorSub
    reason := some "(not available: the pull request was recreated by the recovery pass)"
    baseBlobSha := record.baseBlobSha
    sourceCommitSha := record.sourceCommitSha
    diff := change.diff }

/-- The request row does not keep the edited file, so it is rebuilt exactly as
the submit did: same base commit, same patch, same engine. The two reads are
issued together in the code; they are reads, so their order is immaterial. -/
def rebuild (record : ChangeRecord) : Async CreateChangePrInput := do
  let sso ← readFile SSO_FILE_PATH record.sourceCommitSha
  let groups ← readFile GROUPS_FILE_PATH record.sourceCommitSha
  if sso.blobSha ≠ record.baseBlobSha ∨ deps.gitBlobSha sso.text ≠ record.baseBlobSha then
    .raise (.other "base blob at the recorded commit does not match the request")
  else do
    let groupNames ← Prog.ofExcept
      (deps.parseGroupNames groups.text (GROUPS_FILE_PATH ++ " at " ++ record.sourceCommitSha))
    let change ← Prog.ofExcept (deps.buildChange {
      baseText := sso.text
      baseDomain := deps.baseDomain
      groupNames := groupNames
      patch := ⟨record.endpoint, record.allowedGroups.map .str⟩ })
    return rebuiltInput record change

def reRunReason : String := "re-running the idempotent writer"

/-- The audited compare-and-set before the writer: the hop of an
`unknown_recovering` row, the touch of a stale `submitted` one. -/
def startRecovery (record : ChangeRecord) : Async (Option ChangeRecord) :=
  if record.stage = .unknown_recovering then move record .submitted {} reRunReason []
  else move record .submitted {} reRunReason [("recovery", .str "started")]

/-- The writer and what follows it, for the row the touch or hop returned. -/
def recreatePr (current : ChangeRecord) (rebuilt : CreateChangePrInput) : Async Unit := do
  match ← (createChangePr deps rebuilt).attempt with
  | .ok created => openPr current created "pull request recreated" true
  | .error (.gitWrite .conflict _) => do
      let _ ← move current .failed {} "git conflict" []
      return ()
  | .error (.gitWrite .rejected _) => do
      let _ ← move current .failed {} "git write rejected" []
      return ()
  | .error e => .raise e

/-- Branch only: re-run the idempotent writer. -/
def recoverBranchOnly (record : ChangeRecord) : Async Unit := do
  trace (.branchOnly record)
  let rebuilt ← rebuild deps record
  match ← startRecovery record with
  | none => return ()
  | some current => recreatePr deps current rebuilt

/-- `submitted` (the process died mid-call) and `unknown_recovering`: find out
what GitHub actually has. -/
def recover (record : ChangeRecord) : Async Unit := do
  match ← findPrByBranch deps record.branch (some (adoptBound record)) with
  | some pr => do
      trace (.found record.branch pr)
      openPr record ⟨pr.number, pr.url⟩ "pull request found on GitHub" (pr.state = PrState.open)
  | none => do
      match ← findBranch record.branch with
      | none => do
          let _ ← move record .failed {} "not found on GitHub"
            [("reason", .str "not found on GitHub")]
          return ()
      | some _ => recoverBranchOnly deps record

/-- The pull request of a record: by number if we have it, else by branch. -/
def findPrOf (record : ChangeRecord) : Async (Option PrInfo) :=
  match record.prNumber with
  | some number => getPr deps number
  | none => findPrByBranch deps record.branch (some (adoptBound record))

def checkPr (record : ChangeRecord) : Async Unit := do
  match ← findPrOf deps record with
  | none => return ()
  | some pr =>
      if pr.state = PrState.open then return ()
      else if pr.merged then
        match pr.mergeCommitSha with
        | some sha => do
            let _ ← move record .merged { mergeCommitSha := some sha } "pull request merged" []
            return ()
        | none => return ()
      else do
        let _ ← move record .rejected {} "pull request closed without merge" []
        return ()

/-- Every Application from the list on is Synced at `merge` or a descendant. -/
def allSynced (merge : String) : List String → Async Bool
  | [] => return true
  | name :: rest => do
      let app ← getApplication name
      match app.revision with
      | none => return false
      | some revision =>
          if app.syncStatus ≠ "Synced" then return false
          else do
            let relation ← compare merge revision
            if relation = .identical ∨ relation = .ahead then allSynced merge rest
            else return false

def checkApplied (record : ChangeRecord) : Async Unit :=
  match record.mergeCommitSha with
  | none => return ()
  | some merge =>
      if ¬ deps.argocd then return ()
      else do
        if ← allSynced merge ARGOCD_APPS then do
          let _ ← move record .applied {}
            "both Applications synced at or after the merge commit" []
          return ()
        else return ()

def reconcile (record : ChangeRecord) : Async Unit :=
  match record.stage with
  | .submitted => do
      let nowMs ← now
      if (nowMs : Int) - record.updatedAt < SUBMITTED_GRACE_MS then return ()
      else recover deps record
  | .unknown_recovering => recover deps record
  | .pr_open => checkPr deps record
  | .merged => checkApplied deps record
  | _ => return ()

/-! ## The sweep and the orphan log -/

/-- `sweptAt`: when a terminal request was last asked about. -/
abbrev SweptAt := List (Uuid × Nat)

def SweptAt.get (m : SweptAt) (id : Uuid) : Option Nat :=
  (m.find? fun kv => kv.1 = id).map (·.2)

def SweptAt.set (m : SweptAt) (id : Uuid) (at_ : Nat) : SweptAt :=
  (id, at_) :: m.filter fun kv => kv.1 ≠ id

/-- The sweep of one record; errors are logged. -/
def sweepRecord (record : ChangeRecord) : Async Unit := do
  trace (.sweep record)
  match ← findPrByBranch deps record.branch (some (adoptBound record)) with
  | some pr =>
      if pr.state = PrState.open then
        closeOrphanPr record pr.number reconcilerActor (some "sweep")
      else return ()
  | none => return ()

/-- `last !== undefined && now - last < SWEEP_RECHECK_MS`. -/
def sweptRecently (nowMs : Nat) : Option Nat → Bool
  | none => false
  | some last => (nowMs : Int) - last < SWEEP_RECHECK_MS

/-- The records of a sweep in order; the throttle is set before the call. -/
def sweepRecords (nowMs : Nat) : List ChangeRecord → SweptAt → Async SweptAt
  | [], sweptAt => return sweptAt
  | record :: rest, sweptAt =>
      if sweptRecently nowMs (sweptAt.get record.id) then sweepRecords nowMs rest sweptAt
      else do
        let _ ← (sweepRecord deps record).attempt
        trace .leave
        sweepRecords nowMs rest (sweptAt.set record.id nowMs)

def sweepTerminal (sweptAt : SweptAt) : Async SweptAt := do
  let nowMs ← now
  let listed ← (callStore (.listRecentTerminal ((nowMs : Int) - SWEEP_WINDOW_MS) SWEEP_BATCH)).attempt
  match listed with
  | .error _ => return sweptAt
  | .ok records =>
      sweepRecords deps nowMs records
        (sweptAt.filter fun kv => kv.1 ∈ records.map fun r => r.id)

/-- The open `sso/*` pull requests that no request owns, each logged once; a
failing lookup ends the pass, with what was logged before it. -/
def orphansOf (owned : List String) : List OpenSsoPr → List Int → Async (List Int)
  | [], logged => return logged
  | pr :: rest, logged =>
      if pr.branch ∈ owned ∨ pr.number ∈ logged then orphansOf owned rest logged
      else do
        match ← (callStore (.findByBranch pr.branch)).attempt with
        | .error _ => return logged
        | .ok (some _) => orphansOf owned rest logged
        | .ok none => orphansOf owned rest (pr.number :: logged)

def logOrphans (records : List ChangeRecord) (logged : List Int) : Async (List Int) := do
  match ← (listOpenSsoPrs deps).attempt with
  | .error _ => return logged
  | .ok prs => orphansOf (records.map fun r => r.branch) prs logged

/-! ## A tick -/

structure ReconcilerMemory where
  loggedOrphans : List Int := []
  sweptAt : SweptAt := []

/-- One record of a tick; its errors are logged and retried next tick. -/
def reconcileOne (record : ChangeRecord) : Async Unit := do
  trace (.reconcile record)
  let _ ← (reconcile deps record).attempt
  trace .leave

def tickBody (memory : ReconcilerMemory) : Async ReconcilerMemory := do
  match ← (callStore (.listOpen LIST_LIMIT)).attempt with
  | .error _ => return memory
  | .ok records => do
      Prog.each (reconcileOne deps) records
      let sweptAt ← sweepTerminal deps memory.sweptAt
      let loggedOrphans ← logOrphans deps records memory.loggedOrphans
      return { loggedOrphans, sweptAt }

end Sso
