import Beluga.Interact.System
import Beluga.Sso.Routes

/-! # The change-request protocol

Any number of submit handlers, cancel handlers and reconciler ticks, of any
number of replicas, over one store and one GitHub.

GitHub is a `World`: what it holds, what it answers and what people do to it.
The results that hold whatever GitHub answers are stated for every `World`;
`Beluga.Sso.Github` has the documented one. The clock, ArgoCD and the SSO read
source answer anything.
-/

namespace Sso

open Interact

/-- GitHub as the client sees it. `serve` answers one REST call; an error is
the text of a `GithubUnavailableError`. -/
structure World where
  State : Type
  Answer : Type
  serve : State → ApiRequest → Answer → Option (Except String Reply × State)
  /-- What others do on GitHub. -/
  Env : Type
  env : State → Env → Option State

/-- A GitHub that may answer anything at any time. -/
def World.arbitrary : World where
  State := Unit
  Answer := Except String Reply
  serve _ _ a := some (a, ())
  Env := Unit
  env _ _ := some ()

inductive Task where
  | post (req : PostRequest)
  | cancel (req : CancelRequest)
  | tick (memory : ReconcilerMemory)

inductive Outcome where
  | response (r : Response)
  | memory (m : ReconcilerMemory)

/-- The program of a task. -/
def taskProg (deps : Deps) : Task → Async Outcome
  | .post req => do
      let r ← postChange deps req
      return .response r
  | .cancel req => do
      let r ← cancelChange deps req
      return .response r
  | .tick memory => do
      let m ← tickBody deps memory
      return .memory m

structure Shared (W : World) where
  db : Db
  github : W.State

/-- What is chosen when a call is served, one kind for each kind of call. -/
inductive Answer (W : World) where
  | db (a : DbAnswer)
  | github (a : W.Answer)
  | clock (ms : Nat)
  | argocd (r : Except String ArgocdAppStatus)
  | base (r : Except JsError SsoBase)
  | mark

/-- Serve one call of thread `thread`. -/
def serve (W : World) (s : Shared W) (thread : Nat) :
    (op : Op) → Answer W → Option (Op.Rep op × Shared W)
  | .store op, .db a =>
      (storeExec s.db thread op a).map fun r => (r.1, { s with db := r.2 })
  | .api req, .github a =>
      (W.serve s.github req a).map fun r => (r.1, { s with github := r.2 })
  | .now, .clock ms => some (ms, s)
  | .getApplication _, .argocd r => some (r, s)
  | .readBase _, .base r => some (r, s)
  | .trace _, .mark => some ((), s)
  | _, _ => none

/-- The protocol as an interleaved system. -/
abbrev protocol (deps : Deps) (W : World) : System sig JsError Outcome where
  Shared := Shared W
  Task := Task
  prog := taskProg deps
  Answer := Answer W
  exec := serve W
  Env := W.Env
  env s e := (W.env s.github e).map fun g => { s with github := g }

/-- The empty store over GitHub as it stands. -/
def start (W : World) (g : W.State) : Shared W := ⟨.empty, g⟩

/-- The states of the protocol. -/
abbrev PState (deps : Deps) (W : World) := (protocol deps W).State

/-! ## A deployment for runs on fixed inputs

The pure functions of `Deps` are given by what they return on the one change
that these runs submit: flink's `allowedGroups` from admins to admins and
engineers. -/

def sampleBase : SsoBase where
  text := "flink: [admins]"
  baseDomain := "beluga.local"
  groupNames := ["admins", "engineers"]
  blobSha := "c7934d97f71f9a5b4d516f91d4d89aa0c2855534"
  commitSha := "0a1b2c3d4e5f60718293a4b5c6d7e8f901234567"

def sampleChange : BuiltChange where
  endpoint := "flink"
  before := some ["admins"]
  after := ["admins", "engineers"]
  editedText := "flink: [admins, engineers]"
  diff := "-flink: [admins]\n+flink: [admins, engineers]"
  payloadSha256 := "94a469680720d5e6aff4fee7b7b8c048d63e6aa21c1c2e5c79bd570dda8d0b46"

def sampleDeps : Deps where
  target := ⟨"dasomel", "beluga", "main"⟩
  baseDomain := "beluga.local"
  argocd := true
  gitWriter := true
  readBase := true
  buildChange _ := .ok sampleChange
  payloadSha256 _ := sampleChange.payloadSha256
  gitBlobSha _ := sampleBase.blobSha
  parseGroupNames _ _ := .ok sampleBase.groupNames
  dateParse text := if text = "2026-10-17T09:00:00Z" then some 1792227600000 else none

def sampleKey : String := "00112233445566778899aabbccddeeff"

def samplePost : PostRequest where
  principal := ⟨"sub-1", some "alice"⟩
  dryRun := false
  key := some sampleKey
  patch := ⟨"flink", [.str "admins", .str "engineers"]⟩
  reason := none
  baseBlobSha := some sampleBase.blobSha

/-- The submit time of these runs, in microseconds. -/
def sampleTime : Nat := 1792227600000000

end Sso
