import Beluga.Interact.System
import Beluga.Sso.Ports

/-! # The reconciler lease

`withReconcilerLease` of `ssoChangeStore.ts` over the sessions of the database. The
lease is a session lock: it is not undone when the statement that took it fails,
and only one session has it at a time.

The sessions of all pools are one list. Any idle session may be taken for a call,
so what holds here holds however the sessions are spread over the replicas' pools.
-/

namespace Sso

open Interact

/-! ## What the function calls -/

inductive LeaseOp where
  /-- `pool.connect()`; the connection's `error` events are listened to from here. -/
  | connect
  /-- `SELECT pg_try_advisory_lock(...)`. -/
  | lock (client : Nat)
  /-- `fn()`. -/
  | body
  /-- `SELECT pg_advisory_unlock(...)`. -/
  | unlock (client : Nat)
  /-- `unlockFailed = true`. -/
  | noteFailed (client : Nat)
  /-- `client.off(...)` and `client.release(unlockFailed ? true : undefined)`. -/
  | giveBack (client : Nat)
  deriving DecidableEq

abbrev LeaseOp.Rep : LeaseOp → Type
  | .connect => Except String Nat
  | .lock _ => Except String Bool
  | .body => Except JsError Unit
  | .unlock _ => Except String Unit
  | .noteFailed _ => Unit
  | .giveBack _ => Unit

abbrev leaseSig : Sig := ⟨LeaseOp, LeaseOp.Rep⟩

abbrev Lease (α : Type) := Prog leaseSig JsError α

/-- `this.run((pool) => pool.connect())`. -/
def connectClient : Lease Nat := do
  let r ← (Prog.perform (S := leaseSig) .connect)
  Prog.ofExcept (r.mapError fun _ => .store unavailable)

/-- The lock query; its error becomes the store's. -/
def askLock (client : Nat) : Lease Bool := do
  let r ← (Prog.perform (S := leaseSig) (.lock client))
  Prog.ofExcept (r.mapError fun _ => .store unavailable)

/-- `if (!held) return false; await fn(); return true`. -/
def runHeld (held : Bool) : Lease Bool :=
  if held then do
    let r ← (Prog.perform (S := leaseSig) .body)
    Prog.ofExcept (r.map fun _ => true)
  else return false

/-- The outer `finally`. -/
def leaveLease (client : Nat) (held : Bool) : Lease Unit :=
  if held then do
    match ← (Prog.perform (S := leaseSig) (.unlock client)) with
    | .ok _ => Prog.perform (S := leaseSig) (.giveBack client)
    | .error _ => do
        let _ ← (Prog.perform (S := leaseSig) (.noteFailed client))
        Prog.perform (S := leaseSig) (.giveBack client)
  else Prog.perform (S := leaseSig) (.giveBack client)

def withReconcilerLease : Lease Bool := do
  let client ← connectClient
  match ← (askLock client).attempt with
  | .error e => do
      leaveLease client false
      .raise e
  | .ok held => do
      let ran ← (runHeld held).attempt
      leaveLease client held
      Prog.ofExcept ran

/-! ## The sessions -/

inductive Place where
  | idle
  /-- Checked out by a call. -/
  | lent (thread : Nat)
  | destroyed
  deriving DecidableEq, Repr

structure Session where
  place : Place
  /-- How often the session holds the reconciler lock. -/
  locks : Nat := 0
  /-- The server still has the session. -/
  alive : Bool := true
  /-- `unlockFailed` of the call that has the connection. -/
  unlockFailed : Bool := false
  /-- The lock query of that call failed after the server had granted the lock; like
  `heard` a ghost, nothing in the code reads it. -/
  lost : Bool := false
  /-- The connection has emitted an error during that call. -/
  heard : Bool := false
  deriving DecidableEq, Repr

structure Sessions where
  all : List Session := []
  /-- How many connections were given back with an `unnoticed` lock; a ghost. -/
  leaks : Nat := 0
  deriving DecidableEq, Repr

namespace Sessions

def change (g : Sessions) (client : Nat) (f : Session → Session) : Sessions :=
  { g with all := g.all.modify client f }

/-- The server grants the lock when no other session holds it. -/
def grants (g : Sessions) (client : Nat) : Bool :=
  (g.all.eraseIdx client).all fun x => x.locks = 0

end Sessions

namespace Session

variable (x : Session)

/-- Checked out by a call of thread `t`, with variables of its own. -/
def checkedOut (t : Nat) : Session :=
  { x with place := .lent t, unlockFailed := false, lost := false, heard := false }

def locked : Session := { x with locks := x.locks + 1 }

/-- Locked by a query that then failed. -/
def lockedUnseen : Session := { x.locked with lost := true }

def unlocked : Session := { x with locks := x.locks - 1 }

def noted : Session := { x with unlockFailed := true }

/-- The session ends, and with it what it holds. -/
def dies : Session := { x with alive := false, locks := 0, lost := false }

/-- A destroyed connection ends its session. -/
def destroyed : Session := { x.dies with place := .destroyed }

def returned : Session := { x with place := .idle }

/-- The listener hears the errors of a checked-out connection. -/
def errors : Session :=
  match x.place with
  | .lent _ => { x.noted with heard := true }
  | _ => x

/-- The server granted the lock to a query that failed, and no error of the
connection, nor the end of the session, followed. -/
def unnoticed : Bool := x.lost && !x.heard

end Session

inductive LeaseAnswer where
  /-- `connect` takes an idle session, opens one, or fails. -/
  | take (client : Nat)
  | fresh
  | fails
  /-- A query is answered, fails before it took effect, or fails after that. -/
  | served
  | failed
  | lost
  | ran (r : Except JsError Unit)
  | done

/-- Serve one call of thread `t`. -/
def leaseServe (g : Sessions) (t : Nat) :
    (op : LeaseOp) → LeaseAnswer → Option (LeaseOp.Rep op × Sessions)
  | .connect, .take client =>
      match g.all[client]? with
      | some x =>
          if x.place = .idle then
            some (.ok client, g.change client fun x => x.checkedOut t)
          else none
      | none => none
  | .connect, .fresh => some (.ok g.all.length, { g with all := g.all ++ [{ place := .lent t }] })
  | .connect, .fails => some (.error "connect failed", g)
  | .lock client, .served =>
      match g.all[client]? with
      | some x =>
          if x.alive then
            if g.grants client then
              some (.ok true, g.change client Session.locked)
            else some (.ok false, g)
          else none
      | none => none
  | .lock _, .failed => some (.error "query failed", g)
  | .lock client, .lost =>
      match g.all[client]? with
      | some x =>
          if x.alive && g.grants client then
            some (.error "query failed", g.change client Session.lockedUnseen)
          else none
      | none => none
  | .body, .ran r => some (r, g)
  | .unlock client, .served =>
      match g.all[client]? with
      | some x =>
          if x.alive then some (.ok (), g.change client Session.unlocked) else none
      | none => none
  | .unlock _, .failed => some (.error "query failed", g)
  | .unlock client, .lost =>
      match g.all[client]? with
      | some x =>
          if x.alive then some (.error "query failed", g.change client Session.unlocked) else none
      | none => none
  | .noteFailed client, .done => some ((), g.change client Session.noted)
  | .giveBack client, .done =>
      match g.all[client]? with
      | some x =>
          some ((), {
            all := (g.change client fun x =>
              if x.unlockFailed then x.destroyed else x.returned).all
            leaks := g.leaks + if x.unnoticed then 1 else 0 })
      | none => none
  | _, _ => none

/-- What happens to a connection besides. -/
inductive LeaseEnv where
  /-- A checked-out connection emits an error. -/
  | error (client : Nat)
  /-- A session ends at the server. -/
  | dies (client : Nat)

def leaseEnv (g : Sessions) : LeaseEnv → Option Sessions
  | .error client => some (g.change client Session.errors)
  | .dies client => some (g.change client Session.dies)

/-- Any number of calls, of any number of replicas. -/
abbrev leases : System leaseSig JsError Bool where
  Shared := Sessions
  Task := Unit
  prog _ := withReconcilerLease
  Answer := LeaseAnswer
  exec := leaseServe
  Env := LeaseEnv
  env := leaseEnv

/-! ## What a call took and gave back -/

/-- The connections that a call was given, and those it gave back. -/
structure Borrowed where
  taken : List Nat := []
  given : List Nat := []
  deriving DecidableEq, Repr

def Borrowed.upd (m : Borrowed) : (op : LeaseOp) → LeaseOp.Rep op → Borrowed
  | .connect, .ok client => { m with taken := m.taken ++ [client] }
  | .giveBack client, _ => { m with given := m.given ++ [client] }
  | _, _ => m

def borrowed (hist : List (Event leaseSig)) : Borrowed :=
  hist.foldl (fun m e => m.upd e.op e.rep) {}

/-- A call that has returned or thrown. -/
def LeaseEnded (p : Lease Bool) : Prop := (∃ b, p = .ret b) ∨ ∃ e, p = .raise e

/-- A connection in the pool whose session does not hold the lock, or a destroyed one. -/
def SafelyBack (g : Sessions) (client : Nat) : Prop :=
  ∃ x, g.all[client]? = some x ∧ ((x.place = .idle ∧ x.locks = 0) ∨ x.place = .destroyed)

end Sso
