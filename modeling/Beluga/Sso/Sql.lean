import Beluga.Interact.System
import Beluga.Sso.Lifecycle

/-! # The store's transactions, statement by statement

`PgSsoChangeStore.submit` and `.transition` as the statements they send to
PostgreSQL, each call on a session of its own. `Beluga.Sso.Store` serves the
same calls in one step; `Beluga.Sso.SqlRules` shows that every statement is
invisible to the tables, or is a `COMMIT` with the effect of one such step.

The database runs at READ COMMITTED: a statement sees the committed rows. The
advisory lock of `submit` and the row lock of an `UPDATE` are held to the end of
the transaction; a statement that waits for one has no step until it is free. A
unique violation shows at the statement, or at `COMMIT` when the other row was
not committed yet (where PostgreSQL waits and answers the statement). Any
statement may fail, and any connection may break before or after its effect.
-/

namespace Sso.Pg

open Interact

/-! ## Statements -/

inductive PgError where
  /-- Error 23505 with its constraint. -/
  | unique (v : UniqueViolation)
  | other
  deriving DecidableEq, Repr

inductive Stmt where
  /-- `pool.connect()`. -/
  | connect
  | begin
  /-- `SELECT pg_advisory_xact_lock(SSO_CHANGE_ADVISORY_LOCK_KEY)`. -/
  | advisoryLock
  /-- `SELECT * ... WHERE idempotency_key = $1`. -/
  | selectKey (key : String)
  /-- `SELECT 1 ... WHERE branch = $1 LIMIT 1`. -/
  | selectBranch (branch : String)
  /-- `SELECT 1 ... WHERE file_path = $1 AND stage = ANY(ACTIVE_STAGES) LIMIT 1`. -/
  | selectActive (file : String)
  /-- `INSERT INTO sso_change_requests ... RETURNING *`. -/
  | insertRequest (input : SubmitInput)
  /-- `INSERT_EVENT_SQL`. -/
  | insertEvent (event : NewEvent)
  /-- `UPDATE sso_change_requests ... WHERE id = $1 AND stage = $2 AND ... RETURNING *`. -/
  | updateRequest (id : Uuid) (expectedStage stage : ChangeStage) (fields : TransitionFields)
      (expectedVersion : Option Nat)
  | commit
  | rollback

abbrev Stmt.Result : Stmt → Type
  | .selectKey _ => Option RequestRow
  | .selectBranch _ | .selectActive _ => Bool
  | .insertRequest _ => RequestRow
  | .updateRequest _ _ _ _ _ => Option RequestRow
  | _ => Unit

abbrev sig : Sig := ⟨Stmt, fun stmt => Except PgError stmt.Result⟩

/-! ## Sessions -/

/-- The one row a transaction writes. -/
inductive Write where
  | insert (row : RequestRow)
  | update (row moved : RequestRow)

/-- An open transaction; `now` is its `now()`. -/
structure Tx where
  now : Nat
  write : Option Write := none
  events : List NewEvent := []

inductive Session where
  /-- Not connected, or the connection broke. -/
  | gone
  | idle
  | «open» (tx : Tx)
  /-- A statement failed: nothing but `ROLLBACK` works. -/
  | aborted

structure Shared where
  db : Db
  sessions : Nat → Session
  /-- Who holds the advisory lock. -/
  lock : Option Nat
  rowLock : Uuid → Option Nat

namespace Shared

def setSession (s : Shared) (t : Nat) (session : Session) : Shared :=
  { s with sessions := fun t' => if t' = t then session else s.sessions t' }

/-- The transaction of `t` is over and its locks are free. -/
def finish (s : Shared) (t : Nat) (session : Session) : Shared :=
  { s.setSession t session with
    lock := if s.lock = some t then none else s.lock
    rowLock := fun id => if s.rowLock id = some t then none else s.rowLock id }

/-- A statement of `t` failed; its transaction keeps its locks until `ROLLBACK`. -/
def abort (s : Shared) (t : Nat) : Shared :=
  match s.sessions t with
  | .open _ => s.setSession t .aborted
  | _ => s

end Shared

/-- What `COMMIT` makes of the tables. -/
def commitTx (db : Db) (t : Nat) (tx : Tx) : Except UniqueViolation Db :=
  match tx.write with
  | none => .ok { db with events := db.events ++ tx.events }
  | some (.insert row) =>
      (db.requests.insert row).map fun requests => {
        requests := requests
        events := db.events ++ tx.events
        log := db.log ++ [⟨row.id, none, row.stage, row.updated_at, row.idempotency_key, t⟩] }
  | some (.update row moved) =>
      (db.requests.update moved).map fun requests => {
        requests := requests
        events := db.events ++ tx.events
        log := db.log ++
          [⟨row.id, some row.stage, moved.stage, moved.updated_at, row.idempotency_key, t⟩] }

/-! ## Serving a statement -/

inductive Fate where
  | served
  /-- The statement failed, for example by its timeout. -/
  | failed
  /-- The connection broke before the statement took effect. -/
  | broken
  /-- The connection broke after it. -/
  | lost
  deriving DecidableEq, Repr

structure Answer where
  fate : Fate := .served
  now : Nat := 0
  id : Uuid := 0

/-- A statement that needs an open transaction. -/
def inTx {β : Type} (s : Shared) (t : Nat)
    (f : Tx → Option (Except PgError β × Shared)) : Option (Except PgError β × Shared) :=
  match s.sessions t with
  | .open tx => f tx
  | _ => some (.error .other, s)

/-- The lock is free for `t`. -/
def Free (holder : Option Nat) (t : Nat) : Prop := holder = none ∨ holder = some t

instance (holder : Option Nat) (t : Nat) : Decidable (Free holder t) :=
  inferInstanceAs (Decidable (_ ∨ _))

/-- A statement that is not cut short; `none` while it waits for a lock. -/
def stmtServe (s : Shared) (t : Nat) (a : Answer) :
    (stmt : Stmt) → Option (Except PgError stmt.Result × Shared)
  | .connect => some (.ok (), s.setSession t .idle)
  | .begin =>
      match s.sessions t with
      | .idle => some (.ok (), s.setSession t (.open { now := a.now }))
      | .open _ => some (.ok (), s)
      | _ => some (.error .other, s)
  | .advisoryLock => inTx s t fun _ =>
      if Free s.lock t then some (.ok (), { s with lock := some t }) else none
  | .selectKey key => inTx s t fun _ => some (.ok (s.db.requests.findKey key), s)
  | .selectBranch branch => inTx s t fun _ =>
      some (.ok (s.db.requests.findBranch branch).isSome, s)
  | .selectActive file => inTx s t fun _ => some (.ok (s.db.requests.findActive file).isSome, s)
  | .insertRequest input => inTx s t fun tx =>
      match s.db.requests.insert (newRow input a.id tx.now) with
      | .error v => some (.error (.unique v), s.abort t)
      | .ok _ => some (.ok (newRow input a.id tx.now),
          s.setSession t (.open { tx with write := some (.insert (newRow input a.id tx.now)) }))
  | .insertEvent event => inTx s t fun tx =>
      some (.ok (), s.setSession t (.open { tx with events := tx.events ++ [event] }))
  | .updateRequest id expectedStage stage fields expectedVersion => inTx s t fun tx =>
      match s.db.requests.rows.find? (casMatches id expectedStage expectedVersion) with
      | none => some (.ok none, s)
      | some row =>
          if Free (s.rowLock row.id) t then
            match s.db.requests.update (movedRow row stage fields tx.now) with
            | .error v => some (.error (.unique v), s.abort t)
            | .ok _ => some (.ok (some (movedRow row stage fields tx.now)),
                { s.setSession t (.open { tx with
                    write := some (.update row (movedRow row stage fields tx.now)) }) with
                  rowLock := fun id => if id = row.id then some t else s.rowLock id })
          else none
  | .commit =>
      match s.sessions t with
      | .open tx =>
          match commitTx s.db t tx with
          | .ok db => some (.ok (), { s with db := db }.finish t .idle)
          | .error _ => some (.error .other, s.finish t .idle)
      | .aborted => some (.ok (), s.finish t .idle)
      | .idle => some (.ok (), s)
      | .gone => some (.error .other, s)
  | .rollback =>
      match s.sessions t with
      | .open _ | .aborted => some (.ok (), s.finish t .idle)
      | .idle => some (.ok (), s)
      | .gone => some (.error .other, s)

def serve (s : Shared) (t : Nat) (stmt : Stmt) (a : Answer) :
    Option (Except PgError stmt.Result × Shared) :=
  match a.fate with
  | .served => stmtServe s t a stmt
  | .failed => some (.error .other, s.abort t)
  | .broken => some (.error .other, s.finish t .gone)
  | .lost => (stmtServe s t a stmt).map fun r => (.error .other, r.2.finish t .gone)

/-! ## The transactions -/

inductive Thrown where
  | store (e : StoreError)
  | pg (e : PgError)

abbrev Query (α : Type) := Prog sig Thrown α

/-- `client.query(...)`. -/
def query (stmt : Stmt) : Query stmt.Result := do
  let r ← (Prog.perform (S := sig) stmt)
  Prog.ofExcept (Except.mapError .pg r)

/-- The driver's errors become `UNAVAILABLE`. -/
def run {α : Type} (fn : Query α) : Prog sig StoreError α := do
  match ← (Prog.attempt fn : Prog sig StoreError _) with
  | .ok a => return a
  | .error (.store e) => .raise e
  | .error (.pg _) => .raise unavailable

def idempotencyMismatch : StoreError :=
  ⟨.IDEMPOTENCY_MISMATCH, "Idempotency-Key was used with a different payload"⟩

def idempotencyKeyCollision : StoreError :=
  ⟨.IDEMPOTENCY_KEY_COLLISION, "Idempotency-Key collides with an earlier request; use a new key"⟩

/-- A refusal: the transaction is rolled back before the error is thrown. -/
def refuse {α : Type} (e : StoreError) : Query α := do
  query .rollback
  .raise (.store e)

/-- From the row that was found under the key on. -/
def replay (input : SubmitInput) (found : RequestRow) : Query SubmitResult := do
  query .rollback
  if found.payload_sha256 ≠ input.payloadSha256 then .raise (.store idempotencyMismatch)
  else return ⟨toRecord found, true⟩

/-- The row, its event and the commit. -/
def insertAndCommit (input : SubmitInput) : Query SubmitResult := do
  let row ← query (.insertRequest input)
  query (.insertEvent (submittedEvent input row.id))
  query .commit
  return ⟨toRecord row, false⟩

/-- The checks of a key that is new. -/
def submitNew (input : SubmitInput) : Query SubmitResult := do
  if ← query (.selectBranch input.branch) then refuse idempotencyKeyCollision
  else if ← query (.selectActive input.filePath) then refuse openRequestExists
  else insertAndCommit input

/-- Under the advisory lock. -/
def submitLocked (input : SubmitInput) : Query SubmitResult := do
  match ← query (.selectKey input.idempotencyKey) with
  | some found => replay input found
  | none => submitNew input

/-- The `try` body of `submit`. -/
def submitBody (input : SubmitInput) : Query SubmitResult := do
  query .begin
  query .advisoryLock
  submitLocked input

/-- A partial-index violation is the backstop of the one-active-request rule. -/
def submitThrown : Thrown → Thrown
  | .pg (.unique .one_active_per_file) => .store openRequestExists
  | e => e

/-- The `catch`: roll back, which is a no-op after a refusal. -/
def rollBack {α : Type} (e : Thrown) : Query α := do
  let _ ← (Prog.attempt (query .rollback) : Query _)
  .raise e

def submit (input : SubmitInput) : Prog sig StoreError SubmitResult :=
  run do
    query .connect
    match ← (Prog.attempt (submitBody input) : Query _) with
    | .ok r => return r
    | .error e => rollBack (submitThrown e)

/-- The `try` body of `transition`. -/
def transitionBody (id : Uuid) (expectedStage stage : ChangeStage) (fields : TransitionFields)
    (event : TransitionEvent) (expectedVersion : Option Nat) : Query (Option ChangeRecord) := do
  query .begin
  match ← query (.updateRequest id expectedStage stage fields expectedVersion) with
  | none => do
      query .rollback
      return none
  | some row => do
      query (.insertEvent (transitionEvent row event))
      query .commit
      return some (toRecord row)

def transition (id : Uuid) (expectedStage stage : ChangeStage) (fields : TransitionFields)
    (event : TransitionEvent) (expectedVersion : Option Nat) :
    Prog sig StoreError (Option ChangeRecord) :=
  run do
    query .connect
    match ← (Prog.attempt (transitionBody id expectedStage stage fields event expectedVersion) :
        Query _) with
    | .ok r => return r
    | .error e => rollBack e

/-! ## Any number of calls -/

inductive Task where
  | submit (input : SubmitInput)
  | transition (id : Uuid) (expectedStage stage : ChangeStage) (fields : TransitionFields)
      (event : TransitionEvent) (expectedVersion : Option Nat)

inductive Outcome where
  | submitted (r : SubmitResult)
  | transitioned (r : Option ChangeRecord)

def taskProg : Task → Prog sig StoreError Outcome
  | .submit input => do
      let r ← submit input
      return .submitted r
  | .transition id expectedStage stage fields event expectedVersion => do
      let r ← transition id expectedStage stage fields event expectedVersion
      return .transitioned r

/-- Concurrent calls of `submit` and `transition` over one database. -/
abbrev store : System sig StoreError Outcome where
  Shared := Shared
  Task := Task
  prog := taskProg
  Answer := Answer
  exec := serve
  Env := Empty
  env _ e := nomatch e

def start : Shared := ⟨.empty, fun _ => .gone, none, fun _ => none⟩

abbrev PState := store.State

end Sso.Pg
