import Beluga.Sso.Reconciler

/-! # The submit and cancel handlers

The bodies of the two writing routes of `routes/ssoChanges.ts`, after the
middleware (group, write-enabled and store-ready gates) and the request
schemas let a request through. Console lines are left out.
-/

namespace Sso

open Interact

structure Principal where
  sub : String
  username : Option String

structure PostRequest where
  principal : Principal
  dryRun : Bool
  key : Option String
  patch : Patch
  reason : Option String
  baseBlobSha : Option String

structure CancelRequest where
  principal : Principal
  id : Uuid
  reason : Option String

inductive Response where
  | failure (status : Nat) (code message : String)
  /-- `view(record, diff)`. -/
  | record (status : Nat) (record : ChangeRecord) (diff : Option String)
  | preview (change : BuiltChange) (base : SsoBase)

variable (deps : Deps)

/-! ## Store errors -/

def storeFailure : JsError → Async Response
  | .store e =>
      match e.code with
      | .OPEN_REQUEST_EXISTS =>
          return .failure 409 "OPEN_REQUEST_EXISTS" "An SSO change request is already open"
      | .IDEMPOTENCY_KEY_COLLISION =>
          return .failure 409 "IDEMPOTENCY_KEY_COLLISION"
            "Idempotency-Key collides with an earlier request; retry with a new key"
      | .IDEMPOTENCY_MISMATCH =>
          return .failure 422 "IDEMPOTENCY_MISMATCH"
            "Idempotency-Key was used with a different payload"
      | .UNAVAILABLE =>
          return .failure 503 "AUDIT_UNAVAILABLE" "Audit store is unavailable; no change was made"
  | e => .raise e

def auditUnavailable : JsError → Async Response
  | .store _ => return .failure 503 "AUDIT_UNAVAILABLE" "Audit store is unavailable"
  | e => .raise e

/-! ## Submit -/

/-- The row as the handler believes it to be when the store does not say. -/
def localRecord (record : ChangeRecord) (stage : ChangeStage) (fields : TransitionFields) :
    ChangeRecord :=
  { record with
    stage := stage
    prNumber := fields.prNumber <|> record.prNumber
    prUrl := fields.prUrl <|> record.prUrl }

/-- A compare-and-set from the record's stage; if it is lost, the row as it is. -/
def transitionOrGet (record : ChangeRecord) (stage : ChangeStage) (fields : TransitionFields)
    (event : TransitionEvent) : Async (Option ChangeRecord) := do
  match ← callStore (.transition record.id record.stage stage fields event none) with
  | some moved => return some moved
  | none => callStore (.get record.id)

/-- Later transitions never alter Git state: if the database fails after GitHub
answered, the caller still gets the truth about GitHub. -/
def transitionOrLocal (record : ChangeRecord) (stage : ChangeStage) (fields : TransitionFields)
    (event : TransitionEvent) : Async ChangeRecord := do
  match ← (transitionOrGet record stage fields event).attempt with
  | .ok (some current) => return current
  | _ => return localRecord record stage fields

/-- What `createChangePr` is called with. -/
def submitWrite (req : PostRequest) (base : SsoBase) (change : BuiltChange) (branch : String)
    (record : ChangeRecord) : CreateChangePrInput where
  branch := branch
  baseCommitSha := base.commitSha
  baseBlobSha := base.blobSha
  path := SSO_FILE_PATH
  content := change.editedText
  notBefore := some (adoptBound record)
  title := prTitle change.endpoint
  commitMessage := commitMessage change.endpoint req.principal.username req.principal.sub
  body := prBody {
    username := req.principal.username
    sub := req.principal.sub
    reason := req.reason
    baseBlobSha := base.blobSha
    sourceCommitSha := base.commitSha
    diff := change.diff }

/-- The `try` body after the row is committed. -/
def writeChange (req : PostRequest) (change : BuiltChange) (record : ChangeRecord)
    (input : CreateChangePrInput) : Async Response := do
  let pr ← createChangePr deps input
  let current ← transitionOrLocal record .pr_open
    { prNumber := some pr.prNumber, prUrl := some pr.prUrl } {}
  if isTerminalLoss current.stage then do
    closeOrphanPr current pr.prNumber ⟨req.principal.sub, req.principal.username⟩ none
    return .failure 409 "REQUEST_NOT_ACTIVE"
      ("Request " ++ toString record.id ++ " was " ++ current.stage.text ++
        " while the pull request was created; the pull request was closed")
  else return .record 201 current (some change.diff)

/-- The `catch` of that `try`: never assume the pull request was not created. -/
def writeFailed (record : ChangeRecord) : JsError → Async Response
  | .gitWrite .conflict _ => do
      let _ ← transitionOrLocal record .failed {} { reason := some "git conflict" }
      return .failure 409 "STALE_BASE" "GitHub reported a conflict; preview again"
  | .gitWrite .rejected _ => do
      let _ ← transitionOrLocal record .failed {} { reason := some "git write rejected" }
      return .failure 502 "GIT_WRITE_FAILED"
        ("GitHub refused the change; request " ++ toString record.id ++ " failed")
  | _ => do
      let _ ← transitionOrLocal record .unknown_recovering {}
        { reason := some "git write outcome unknown" }
      return .failure 502 "GIT_WRITE_UNKNOWN"
        ("GitHub did not confirm the pull request; request " ++ toString record.id ++
          " is recovering")

/-- `sso/${change.endpoint}-${key.slice(0, 12)}`. -/
def branchName (endpoint key : String) : String :=
  "sso/" ++ endpoint ++ "-" ++ String.ofList (key.toList.take 12)

def submitInput (req : PostRequest) (base : SsoBase) (change : BuiltChange) (key : String) :
    SubmitInput where
  filePath := SSO_FILE_PATH
  endpoint := change.endpoint
  idempotencyKey := key
  payloadSha256 := change.payloadSha256
  baseBlobSha := base.blobSha
  sourceCommitSha := base.commitSha
  allowedGroups := change.after
  actorSub := req.principal.sub
  actorUsername := req.principal.username
  branch := branchName change.endpoint key
  reason := req.reason

/-- The row and its event are committed before any GitHub write. -/
def submitChange (req : PostRequest) (base : SsoBase) (change : BuiltChange) (key : String) :
    Async Response := do
  match ← (callStore (.submit (submitInput req base change key))).attempt with
  | .error e => storeFailure e
  | .ok created =>
      if created.replay then return .record 200 created.record none
      else do
        match ← (writeChange deps req change created.record (submitWrite req base change
          (branchName change.endpoint key) created.record)).attempt with
        | .ok response => return response
        | .error e => writeFailed created.record e

/-- A preview is audited before its answer is sent. -/
def previewChange (req : PostRequest) (base : SsoBase) (change : BuiltChange) :
    Async Response := do
  match ← (callStore (.recordEvent {
      stage := .previewed
      actorSub := req.principal.sub
      actorUsername := req.principal.username
      endpoint := some change.endpoint
      baseBlobSha := some base.blobSha
      payloadSha256 := some change.payloadSha256
      reason := req.reason
      detail := some (.obj [
        ("sourceCommitSha", .str base.commitSha),
        ("before", (change.before.map fun b => Json.arr (b.map .str)).getD .null),
        ("after", .arr (change.after.map .str))]) })).attempt with
  | .error e => storeFailure e
  | .ok () => return .preview change base

/-- From the resolved base on. -/
def postOnBase (req : PostRequest) (base : SsoBase) : Async Response :=
  if req.dryRun = false ∧ req.baseBlobSha ≠ some base.blobSha then
    return .failure 409 "STALE_BASE"
      "gitops/values/sso.yaml changed since the preview; preview again"
  else
    match deps.buildChange ⟨base.text, base.baseDomain, base.groupNames, req.patch⟩ with
    | .error (.changeRejection code message) =>
        return .failure 422 (match code with
          | .PATCH_REJECTED => "PATCH_REJECTED"
          | .NO_EFFECTIVE_CHANGE => "NO_EFFECTIVE_CHANGE") message
    | .error e => .raise e
    | .ok change =>
        if req.dryRun then previewChange req base change
        else
          match req.key with
          | none => return .failure 400 "VALIDATION_ERROR" "Idempotency-Key header is required"
          | some key => submitChange deps req base change key

/-- The checks of a submit before anything is read from GitHub. A replay
answers from the record even if main has moved on since. -/
def replayAnswer (req : PostRequest) : Async (Option Response) :=
  if ¬ deps.gitWriter then
    return some (.failure 503 "GIT_WRITER_UNCONFIGURED" "Git write path is not configured")
  else
    match req.key, req.baseBlobSha with
    | none, _ =>
        return some (.failure 400 "VALIDATION_ERROR" "Idempotency-Key header is required")
    | some _, none =>
        return some (.failure 400 "VALIDATION_ERROR" "baseBlobSha (from the preview) is required")
    | some key, some _ => do
        match ← (callStore (.findByKey key)).attempt with
        | .error e => do
            let response ← storeFailure e
            return some response
        | .ok none => return none
        | .ok (some existing) =>
            if existing.payloadSha256 ≠ deps.payloadSha256 req.patch then
              return some (.failure 422 "IDEMPOTENCY_MISMATCH"
                "Idempotency-Key was used with a different payload")
            else return some (.record 200 existing none)

/-- The base commit and blob of a request. -/
def readRequestBase (req : PostRequest) : Async SsoBase :=
  if ¬ deps.readBase then .raise (.ssoConfig "SSO source does not support change requests")
  else readBase (!req.dryRun)

def postAfterReplay (req : PostRequest) : Async Response := do
  match ← (readRequestBase deps req).attempt with
  | .error (.ssoConfig message) => return .failure 503 "SERVICE_UNAVAILABLE" message
  | .error e => .raise e
  | .ok base => postOnBase deps req base

/-- `POST /api/v1/sso/change-requests`. -/
def postChange (req : PostRequest) : Async Response :=
  if req.dryRun then postAfterReplay deps req
  else do
    match ← replayAnswer deps req with
    | some response => return response
    | none => postAfterReplay deps req

/-! ## Cancel -/

/-- The event a cancel records under the stage the request has. -/
def cancelEvent (req : CancelRequest) (record : ChangeRecord) (detail : List (String × String)) :
    NewEvent where
  requestId := some record.id
  stage := .change record.stage
  actorSub := req.principal.sub
  actorUsername := req.principal.username
  endpoint := some record.endpoint
  detail := some (.ofStrings detail)

/-- Find the pull request and close it if it is open; `true` when it is merged. -/
def closeForCancel (record : ChangeRecord) : Async Bool := do
  match ← findPrOf deps record with
  | none => return false
  | some pr =>
      if pr.merged then return true
      else if pr.state = PrState.open then do
        let _ ← closePr pr.number
        return false
      else return false

/-- The compare-and-set on the stage and version that were read. -/
def cancelTransition (req : CancelRequest) (record : ChangeRecord) : Async Response := do
  match ← (callStore (.transition record.id record.stage .failed {}
      { reason := some (req.reason.getD "cancelled by admin")
        detail := some (.ofStrings [("cancelledBy", req.principal.sub)])
        actorSub := some req.principal.sub
        actorUsername := req.principal.username } (some record.version))).attempt with
  | .error e => auditUnavailable e
  | .ok none => return .failure 409 "REQUEST_NOT_ACTIVE" "Request changed state meanwhile"
  | .ok (some done) => return .record 200 done none

/-- The text of a failed close on the record. -/
def closeFailedText : JsError → String
  | .githubUnavailable message => message
  | _ => "unexpected error"

/-- A cancel of an active request that is not in flight: the intent is on the
record before any GitHub call. -/
def cancelActive (req : CancelRequest) (record : ChangeRecord) : Async Response := do
  match ← (callStore (.recordEvent (cancelEvent req record
      [("cancel", "requested"), ("by", req.principal.sub)]))).attempt with
  | .error e => auditUnavailable e
  | .ok () =>
      match ← (closeForCancel deps record).attempt with
      | .error e => do
          let _ ← (callStore (.recordEvent (cancelEvent req record
            [("cancel", "close_failed"), ("error", closeFailedText e)]))).attempt
          return .failure 502 "GITHUB_UNAVAILABLE"
            ("GitHub could not close the pull request; request " ++ toString record.id ++
              " is still active")
      | .ok true => return .failure 409 "REQUEST_NOT_ACTIVE" "The pull request is already merged"
      | .ok false => cancelTransition req record

/-- A young `submitted` row may still be inside the submit route's GitHub call. -/
def inFlight (record : ChangeRecord) : Async Bool :=
  if record.stage = .submitted then do
    let nowMs ← now
    return decide ((nowMs : Int) - record.updatedAt < SUBMITTED_GRACE_MS)
  else return false

/-- `POST /api/v1/sso/change-requests/{id}/cancel`. -/
def cancelChange (req : CancelRequest) : Async Response :=
  if ¬ deps.gitWriter then
    return .failure 503 "GIT_WRITER_UNCONFIGURED" "Git write path is not configured"
  else do
    match ← (callStore (.get req.id)).attempt with
    | .error e => auditUnavailable e
    | .ok none => return .failure 404 "NOT_FOUND" "No such change request"
    | .ok (some record) =>
        if ¬ record.stage.Active then
          return .failure 409 "REQUEST_NOT_ACTIVE"
            ("Request is " ++ record.stage.text ++ ", not active")
        else if ← inFlight record then
          return .failure 409 "REQUEST_IN_FLIGHT"
            ("The request was submitted moments ago and may still be creating its pull " ++
              "request; retry shortly")
        else cancelActive deps req record

end Sso
