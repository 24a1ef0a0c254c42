import Beluga.Sso.Json
import Mathlib.Data.List.Nodup
import Mathlib.Data.List.Perm.Basic

/-! # The audit and current-state store

`ssoChangeStore.ts` over the tables of `0001_sso_change.sql`, one atomic
database operation for each call of the `SsoChangeStore` interface
(`Beluga.Sso.Sql` has the statements `submit` and `transition` are made of).

* `RequestTable` carries the table's unique constraints, so a table that breaks
  one cannot be built;
* `Db` adds the event table and a ghost log of the committed row changes;
* `storeExec` serves one call: the database picks the clock, the new id and
  the order of equal rows, and may fail a call before or after it took effect.

Times are microseconds since the epoch in a row and milliseconds in a record,
as in the code; a row's `version` is its `updated_at` in microseconds.
-/

namespace Sso

/-! ## Rows, records and events -/

inductive ChangeStage where
  | submitted | pr_open | unknown_recovering | merged | applied | rejected | failed
  deriving DecidableEq, Repr

/-- The stage as the database and the messages spell it. -/
def ChangeStage.text : ChangeStage → String
  | .submitted => "submitted"
  | .pr_open => "pr_open"
  | .unknown_recovering => "unknown_recovering"
  | .merged => "merged"
  | .applied => "applied"
  | .rejected => "rejected"
  | .failed => "failed"

inductive EventStage where
  | change (stage : ChangeStage)
  | denied
  | previewed
  deriving DecidableEq, Repr

/-- A row's primary key; the code only compares it. -/
abbrev Uuid := Nat

structure RequestRow where
  id : Uuid
  stage : ChangeStage
  file_path : String
  endpoint : String
  idempotency_key : String
  payload_sha256 : String
  base_blob_sha : String
  source_commit_sha : String
  allowedGroups : List String
  actor_sub : String
  actor_username : Option String
  branch : String
  pr_number : Option Int
  pr_url : Option String
  merge_commit_sha : Option String
  created_at : Nat
  updated_at : Nat
  deriving DecidableEq, Repr

structure ChangeRecord where
  id : Uuid
  stage : ChangeStage
  filePath : String
  endpoint : String
  idempotencyKey : String
  payloadSha256 : String
  baseBlobSha : String
  sourceCommitSha : String
  allowedGroups : List String
  actorSub : String
  actorUsername : Option String
  branch : String
  prNumber : Option Int
  prUrl : Option String
  mergeCommitSha : Option String
  createdAt : Nat
  updatedAt : Nat
  version : Nat
  deriving DecidableEq, Repr

/-- A JavaScript `Date` holds milliseconds, so the microseconds are cut. -/
def toMs (us : Nat) : Nat := us / 1000

def toRecord (row : RequestRow) : ChangeRecord where
  id := row.id
  stage := row.stage
  filePath := row.file_path
  endpoint := row.endpoint
  idempotencyKey := row.idempotency_key
  payloadSha256 := row.payload_sha256
  baseBlobSha := row.base_blob_sha
  sourceCommitSha := row.source_commit_sha
  allowedGroups := row.allowedGroups
  actorSub := row.actor_sub
  actorUsername := row.actor_username
  branch := row.branch
  prNumber := row.pr_number
  prUrl := row.pr_url
  mergeCommitSha := row.merge_commit_sha
  createdAt := toMs row.created_at
  updatedAt := toMs row.updated_at
  version := row.updated_at

/-- A row of `sso_change_event`; a column that is not given is `NULL`. -/
structure NewEvent where
  requestId : Option Uuid := none
  stage : EventStage
  actorSub : String
  actorUsername : Option String := none
  endpoint : Option String := none
  idempotencyKey : Option String := none
  baseBlobSha : Option String := none
  payloadSha256 : Option String := none
  prNumber : Option Int := none
  prUrl : Option String := none
  mergeCommitSha : Option String := none
  reason : Option String := none
  detail : Option Json := none

structure SubmitInput where
  filePath : String
  endpoint : String
  idempotencyKey : String
  payloadSha256 : String
  baseBlobSha : String
  sourceCommitSha : String
  allowedGroups : List String
  actorSub : String
  actorUsername : Option String
  branch : String
  reason : Option String

structure TransitionFields where
  prNumber : Option Int := none
  prUrl : Option String := none
  mergeCommitSha : Option String := none

structure TransitionEvent where
  reason : Option String := none
  detail : Option Json := none
  /-- Defaults to the requester; a cancel records the admin who did it. -/
  actorSub : Option String := none
  actorUsername : Option String := none

inductive StoreErrorCode where
  | OPEN_REQUEST_EXISTS | IDEMPOTENCY_MISMATCH | IDEMPOTENCY_KEY_COLLISION | UNAVAILABLE
  deriving DecidableEq, Repr

structure StoreError where
  code : StoreErrorCode
  message : String
  deriving DecidableEq, Repr

structure SubmitResult where
  record : ChangeRecord
  replay : Bool
  deriving DecidableEq, Repr

/-! ## The request table -/

/-- `ACTIVE_STAGES`: the stages that hold the lock of their file. -/
def activeStages : List ChangeStage := [.submitted, .pr_open, .unknown_recovering]

/-- `OPEN_STAGES`: `merged` still needs the reconciler but holds no lock. -/
def openStages : List ChangeStage := activeStages ++ [.merged]

def ChangeStage.Active (stage : ChangeStage) : Prop := stage ∈ activeStages

instance (stage : ChangeStage) : Decidable stage.Active :=
  inferInstanceAs (Decidable (stage ∈ activeStages))

/-- The files of the rows that the partial unique index covers. -/
def activeFiles (rows : List RequestRow) : List String :=
  (rows.filter fun r => decide r.stage.Active).map (·.file_path)

/-- `sso_change_requests`. -/
structure RequestTable where
  rows : List RequestRow
  pkey : (rows.map (·.id)).Nodup
  idempotency_key_unique : (rows.map (·.idempotency_key)).Nodup
  one_active_per_file : (activeFiles rows).Nodup

/-- The constraint a write would have broken (error 23505). -/
inductive UniqueViolation where
  | pkey | idempotency_key | one_active_per_file
  deriving DecidableEq, Repr

namespace RequestTable

def empty : RequestTable := ⟨[], by simp, by simp, by simp [activeFiles]⟩

/-- The table with these rows, if they meet its constraints. -/
def ofRows (rows : List RequestRow) : Except UniqueViolation RequestTable :=
  if hid : (rows.map (·.id)).Nodup then
    if hkey : (rows.map (·.idempotency_key)).Nodup then
      if hactive : (activeFiles rows).Nodup then .ok ⟨rows, hid, hkey, hactive⟩
      else .error .one_active_per_file
    else .error .idempotency_key
  else .error .pkey

def insert (t : RequestTable) (row : RequestRow) : Except UniqueViolation RequestTable :=
  ofRows (t.rows ++ [row])

/-- `UPDATE ... WHERE id = row.id`. -/
def update (t : RequestTable) (row : RequestRow) : Except UniqueViolation RequestTable :=
  ofRows (t.rows.map fun r => if r.id = row.id then row else r)

def findId (t : RequestTable) (id : Uuid) : Option RequestRow :=
  t.rows.find? fun r => r.id = id

def findKey (t : RequestTable) (key : String) : Option RequestRow :=
  t.rows.find? fun r => r.idempotency_key = key

def findBranch (t : RequestTable) (branch : String) : Option RequestRow :=
  t.rows.find? fun r => r.branch = branch

def findActive (t : RequestTable) (file : String) : Option RequestRow :=
  t.rows.find? fun r => r.file_path = file ∧ r.stage.Active

end RequestTable

/-! ## The database -/

/-- A committed change of one row: an insert has no `source`. A ghost, in
commit order; nothing in the code reads it. -/
structure Commit where
  request : Uuid
  source : Option ChangeStage
  target : ChangeStage
  version : Nat
  key : String
  thread : Nat
  deriving DecidableEq, Repr

structure Db where
  requests : RequestTable
  events : List NewEvent
  log : List Commit

def Db.empty : Db := ⟨.empty, [], []⟩

def unavailable : StoreError := ⟨.UNAVAILABLE, "audit store unavailable"⟩

def openRequestExists : StoreError :=
  ⟨.OPEN_REQUEST_EXISTS, "An SSO change request is already open"⟩

/-- The row `submit` inserts. -/
def newRow (input : SubmitInput) (id : Uuid) (now : Nat) : RequestRow where
  id := id
  stage := .submitted
  file_path := input.filePath
  endpoint := input.endpoint
  idempotency_key := input.idempotencyKey
  payload_sha256 := input.payloadSha256
  base_blob_sha := input.baseBlobSha
  source_commit_sha := input.sourceCommitSha
  allowedGroups := input.allowedGroups
  actor_sub := input.actorSub
  actor_username := input.actorUsername
  branch := input.branch
  pr_number := none
  pr_url := none
  merge_commit_sha := none
  created_at := now
  updated_at := now

/-- The event `submit` writes with it. -/
def submittedEvent (input : SubmitInput) (id : Uuid) : NewEvent where
  requestId := some id
  stage := .change .submitted
  actorSub := input.actorSub
  actorUsername := input.actorUsername
  endpoint := some input.endpoint
  idempotencyKey := some input.idempotencyKey
  baseBlobSha := some input.baseBlobSha
  payloadSha256 := some input.payloadSha256
  reason := input.reason
  detail := some (.obj [("branch", .str input.branch),
    ("sourceCommitSha", .str input.sourceCommitSha),
    ("allowedGroups", .arr (input.allowedGroups.map .str))])

/-- What the unique violation of `submit`'s insert becomes. -/
def insertError : UniqueViolation → StoreError
  | .one_active_per_file => openRequestExists
  | _ => unavailable

/-- `PgSsoChangeStore.submit` as one transaction of thread `thread`. -/
def Db.submit (db : Db) (input : SubmitInput) (id : Uuid) (now thread : Nat) :
    Except StoreError (SubmitResult × Db) :=
  match db.requests.findKey input.idempotencyKey with
  | some found =>
      if found.payload_sha256 ≠ input.payloadSha256 then
        .error ⟨.IDEMPOTENCY_MISMATCH, "Idempotency-Key was used with a different payload"⟩
      else .ok (⟨toRecord found, true⟩, db)
  | none =>
      if (db.requests.findBranch input.branch).isSome then
        .error ⟨.IDEMPOTENCY_KEY_COLLISION,
          "Idempotency-Key collides with an earlier request; use a new key"⟩
      else if (db.requests.findActive input.filePath).isSome then .error openRequestExists
      else
        match db.requests.insert (newRow input id now) with
        | .error v => .error (insertError v)
        | .ok requests =>
            .ok (⟨toRecord (newRow input id now), false⟩,
              { requests := requests
                events := db.events ++ [submittedEvent input id]
                log := db.log ++
                  [⟨id, none, .submitted, now, input.idempotencyKey, thread⟩] })

/-- The row after `transition`'s `UPDATE`. -/
def movedRow (row : RequestRow) (stage : ChangeStage) (fields : TransitionFields) (now : Nat) :
    RequestRow :=
  { row with
    stage := stage
    pr_number := fields.prNumber <|> row.pr_number
    pr_url := fields.prUrl <|> row.pr_url
    merge_commit_sha := fields.mergeCommitSha <|> row.merge_commit_sha
    updated_at := now }

/-- The event `transition` writes for the updated row. -/
def transitionEvent (row : RequestRow) (event : TransitionEvent) : NewEvent where
  requestId := some row.id
  stage := .change row.stage
  actorSub := event.actorSub.getD row.actor_sub
  actorUsername := if event.actorSub.isSome then event.actorUsername else row.actor_username
  endpoint := some row.endpoint
  idempotencyKey := some row.idempotency_key
  baseBlobSha := some row.base_blob_sha
  payloadSha256 := some row.payload_sha256
  prNumber := row.pr_number
  prUrl := row.pr_url
  mergeCommitSha := row.merge_commit_sha
  reason := event.reason
  detail := event.detail

/-- The `WHERE` of `transition`'s `UPDATE`. -/
def casMatches (id : Uuid) (expectedStage : ChangeStage) (expectedVersion : Option Nat)
    (row : RequestRow) : Bool :=
  row.id = id ∧ row.stage = expectedStage ∧
    (expectedVersion = none ∨ expectedVersion = some row.updated_at)

/-- `PgSsoChangeStore.transition` as one transaction of thread `thread`. -/
def Db.transition (db : Db) (id : Uuid) (expectedStage stage : ChangeStage)
    (fields : TransitionFields) (event : TransitionEvent) (expectedVersion : Option Nat)
    (now thread : Nat) : Except StoreError (Option ChangeRecord × Db) :=
  match db.requests.rows.find? (casMatches id expectedStage expectedVersion) with
  | none => .ok (none, db)
  | some row =>
      match db.requests.update (movedRow row stage fields now) with
      | .error _ => .error unavailable
      | .ok requests =>
          .ok (some (toRecord (movedRow row stage fields now)),
            { requests := requests
              events := db.events ++ [transitionEvent (movedRow row stage fields now) event]
              log := db.log ++
                [⟨id, some expectedStage, stage, now, row.idempotency_key, thread⟩] })

/-! ## Serving the calls of the interface -/

/-- The calls of `SsoChangeStore` that the handlers and the reconciler make. -/
inductive StoreOp where
  | submit (input : SubmitInput)
  | findByKey (idempotencyKey : String)
  | get (id : Uuid)
  | findByBranch (branch : String)
  | listOpen (limit : Nat)
  | listRecentTerminal (sinceMs : Int) (limit : Nat)
  | recordEvent (event : NewEvent)
  | transition (id : Uuid) (expectedStage stage : ChangeStage) (fields : TransitionFields)
      (event : TransitionEvent) (expectedVersion : Option Nat)

abbrev StoreOp.Result : StoreOp → Type
  | .submit _ => SubmitResult
  | .findByKey _ => Option ChangeRecord
  | .get _ => Option ChangeRecord
  | .findByBranch _ => Option ChangeRecord
  | .listOpen _ => List ChangeRecord
  | .listRecentTerminal _ _ => List ChangeRecord
  | .recordEvent _ => Unit
  | .transition _ _ _ _ _ _ => Option ChangeRecord

/-- Whether a call takes effect and whether its answer arrives. -/
inductive Fate where
  | served
  /-- The call failed and had no effect. -/
  | failed
  /-- The transaction committed but the connection broke before the answer. -/
  | lost
  deriving DecidableEq, Repr

/-- What the database chooses when it serves a call. `listed` is the order in
which a listing returns its rows. -/
structure DbAnswer where
  fate : Fate := .served
  now : Nat := 0
  id : Uuid := 0
  listed : List RequestRow := []

/-- `listed` is the rows of `ORDER BY key DESC`; equal keys come in any order. -/
def OrderedDesc (key : RequestRow → Nat) (rows listed : List RequestRow) : Prop :=
  listed.Perm rows ∧ listed.Pairwise fun a b => key b ≤ key a

instance (key : RequestRow → Nat) (rows listed : List RequestRow) :
    Decidable (OrderedDesc key rows listed) := by
  unfold OrderedDesc
  infer_instance

def openRows (db : Db) : List RequestRow :=
  db.requests.rows.filter fun r => decide (r.stage ∈ openStages)

/-- `stage IN ('failed', 'rejected') AND updated_at >= sinceMs`. -/
def recentTerminalRows (db : Db) (sinceMs : Int) : List RequestRow :=
  db.requests.rows.filter fun r =>
    decide ((r.stage = .failed ∨ r.stage = .rejected) ∧ sinceMs * 1000 ≤ (r.updated_at : Int))

/-- The result and effect of a call that is not cut short; `none` when the
answer does not fit the call. -/
def storeServe (db : Db) (thread : Nat) (a : DbAnswer) :
    (op : StoreOp) → Option (Except StoreError op.Result × Db)
  | .submit input =>
      match db.submit input a.id a.now thread with
      | .ok (r, db') => some (.ok r, db')
      | .error e => some (.error e, db)
  | .findByKey key => some (.ok ((db.requests.findKey key).map toRecord), db)
  | .get id => some (.ok ((db.requests.findId id).map toRecord), db)
  | .findByBranch branch => some (.ok ((db.requests.findBranch branch).map toRecord), db)
  | .listOpen limit =>
      if OrderedDesc (·.created_at) (openRows db) a.listed then
        some (.ok ((a.listed.take limit).map toRecord), db)
      else none
  | .listRecentTerminal sinceMs limit =>
      if OrderedDesc (·.updated_at) (recentTerminalRows db sinceMs) a.listed then
        some (.ok ((a.listed.take limit).map toRecord), db)
      else none
  | .recordEvent event => some (.ok (), { db with events := db.events ++ [event] })
  | .transition id expectedStage stage fields event expectedVersion =>
      match db.transition id expectedStage stage fields event expectedVersion a.now thread with
      | .ok (r, db') => some (.ok r, db')
      | .error e => some (.error e, db)

/-- One call of the store. -/
def storeExec (db : Db) (thread : Nat) (op : StoreOp) (a : DbAnswer) :
    Option (Except StoreError op.Result × Db) :=
  match a.fate with
  | .served => storeServe db thread a op
  | .failed => some (.error unavailable, db)
  | .lost => (storeServe db thread a op).map fun r => (.error unavailable, r.2)

end Sso
