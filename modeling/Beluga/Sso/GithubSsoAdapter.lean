import Beluga.Interact.Machine
import Beluga.Sso.Ports
import Beluga.Sso.SsoSchema
import Mathlib.Data.Rat.Defs
import Mathlib.Algebra.Order.Ring.Rat

/-! # The GitHub read adapter (`githubSsoAdapter.ts`)

`GithubSsoAdapter`: the cached snapshot of `sso.yaml`, one shared refresh, the
backoff and the remembered invalid commit.

* `Core`: the fields of the adapter, with the functions that run between two
  awaits. Every clock reading of such a stretch is its own instant (`Reads`);
* `adapterMachine`: callers, the refreshes under way and main. A head request is
  answered (`serveHead`) before the answer is handled (`deliverHead`), a refresh
  that has ended leaves its promise in place until `finish`, and a caller goes
  on in a step of its own.

Instants are rationals, in milliseconds. What the HTTP layer makes of an answer
(status, headers, size, JSON, base64) shows as a value or a `Failure`.
-/

namespace Sso.GithubSsoAdapter

open Interact

def MAX_BACKOFF_MS : ℚ := 60 * 60000

structure Options where
  ttlMs : ℚ
  staleMaxMs : ℚ
  path : String
  baseDomain : String
  /-- `yaml.parse`. -/
  yamlParse : String → Except String Json
  web : Web

/-- What a request throws. -/
inductive Failure where
  /-- `SsoConfigError`. -/
  | config (message : String)
  /-- `TransportError`. -/
  | transport (reason : String) (retryAtMs : Option ℚ)
  | unexpected (message : String)

structure Snapshot where
  commitSha : String
  blobSha : String
  etag : Option String
  config : SsoConfig
  text : String
  groupNames : Option (List String)
  confirmedAt : ℚ

structure Head where
  commitSha : String
  etag : Option String
  deriving DecidableEq, Repr

/-- A snapshot that main is still at. -/
def Snapshot.confirm (snap : Snapshot) (head : Head) (now : ℚ) : Snapshot :=
  { snap with confirmedAt := now, etag := head.etag <|> snap.etag }

def newSnapshot (head : Head) (blobSha text : String) (config : SsoConfig) (now : ℚ) :
    Snapshot where
  commitSha := head.commitSha
  blobSha := blobSha
  etag := head.etag
  config := config
  text := text
  groupNames := none
  confirmedAt := now

/-- A configured response. `stale` is that there is a `staleReason`; `producedAt` is when it was
rendered, for what is proved about it. -/
structure Response where
  commitSha : String
  blobSha : String
  fetchedAt : ℚ
  staleReason : Option String
  config : SsoConfig
  producedAt : ℚ

/-- What `readBase` resolves with. -/
structure Base where
  commitSha : String
  blobSha : String
  text : String
  baseDomain : String
  config : SsoConfig
  groupNames : List String

/-- Successive readings of the clock in one stretch of code. -/
structure Reads where
  a : ℚ
  b : ℚ
  c : ℚ

/-- The readings do not go back, from `now` on. -/
def Reads.After (r : Reads) (now : ℚ) : Prop := now ≤ r.a ∧ r.a ≤ r.b ∧ r.b ≤ r.c

instance (r : Reads) (now : ℚ) : Decidable (r.After now) :=
  inferInstanceAs (Decidable (_ ∧ _ ∧ _))

/-- What GitHub answers to the head request. -/
inductive HeadAnswer where
  /-- 200 with main's commit. -/
  | sha (etag : Option String)
  /-- 304: main is still at the commit asked with. -/
  | notModified
  | failure (f : Failure)

/-- How far a refresh is. -/
inductive Stage where
  /-- The head request is under way, with the snapshot `fetchHead` holds. -/
  | head (previous : Option Nat)
  /-- GitHub has answered it, when main was at `main`. -/
  | headServed (previous : Option Nat) (main : String) (answer : HeadAnswer)
  /-- The file at the head is asked for. -/
  | file (head : Head)
  /-- It has ended, and its promise is still in place. -/
  | ended (result : Except String Response)

inductive Outcome where
  | configured (response : Response)
  /-- What `readBase` returns, and the response it rests on. -/
  | base (base : Base) (response : Response)

/-- How far a caller is. -/
inductive CallerStage where
  /-- It waits for the promise of a refresh. -/
  | waiting (id : Nat)
  /-- `readBase` has its response and goes on. -/
  | ready (response : Except String Response)
  /-- `readBase` has asked for the groups at the commit of this snapshot. -/
  | groups (snap : Nat) (response : Response)
  | returned (outcome : Except String Outcome)

/-! ## What happened -/

inductive Event where
  /-- An answer, handled at `t`, that is rate-limited until `u`. -/
  | limited (t u : ℚ)
  /-- A request to GitHub is started. -/
  | started (t : ℚ)
  deriving DecidableEq

inductive File where
  | sso | groups
  deriving DecidableEq, Repr

/-- A file that GitHub answered with, at a commit. -/
structure FileRead where
  commitSha : String
  file : File
  blobSha : String
  text : String
  deriving DecidableEq, Repr

/-- The fields of the adapter. Snapshots are objects that are changed in place, so they are kept
by their identity. The last five fields are the history: they are only written. -/
structure Core where
  snaps : List Snapshot
  snapshot : Option Nat
  retryAt : ℚ
  lastFailure : String
  invalid : Option (String × String)
  /-- The events so far, newest first. -/
  log : List Event
  reads : List FileRead
  /-- When a refresh ended with a commit that it found on main. -/
  confirmed : List (String × ℚ)
  /-- A read of GitHub has failed. -/
  failed : Bool
  /-- The commit whose file a refresh found invalid, until a head read shows another one. -/
  found : Option String
  /-- How often a head read has shown another commit than `found`. -/
  moves : Nat

namespace Core

def start : Core where
  snaps := []
  snapshot := none
  retryAt := 0
  lastFailure := "unavailable"
  invalid := none
  log := []
  reads := []
  confirmed := []
  failed := false
  found := none
  moves := 0

def note (k : Core) (e : Event) : Core := { k with log := e :: k.log }

def current (k : Core) : Option Snapshot := k.snapshot.bind (k.snaps[·]?)

def render (snap : Snapshot) (staleReason : Option String) (now : ℚ) : Response where
  commitSha := snap.commitSha
  blobSha := snap.blobSha
  fetchedAt := snap.confirmedAt
  staleReason := staleReason
  config := snap.config
  producedAt := now

def unavailable (reason : String) : String := "GitHub SSO source unavailable (" ++ reason ++ ")"

variable (o : Options)

def degraded (k : Core) (reason : String) (now : ℚ) : Except String Response :=
  match k.invalid with
  | some (_, error) => .error error
  | none =>
      match k.current with
      | some previous =>
          if now - previous.confirmedAt ≤ o.staleMaxMs then
            .ok (render previous (some reason) now)
          else .error (unavailable reason)
      | none => .error (unavailable reason)

/-- What `getSsoConfig` does at once: it answers, or goes to the shared refresh. -/
def getSsoConfig (k : Core) (r : Reads) : Option (Except String Response) :=
  if k.current.any fun snap => decide (r.a - snap.confirmedAt < o.ttlMs) then
    k.current.map fun snap => .ok (render snap none r.a)
  else if r.b < k.retryAt then some (k.degraded o k.lastFailure r.c)
  else none

/-- The same for `readBase({ fresh: true })`. -/
def getFresh (k : Core) (r : Reads) : Option (Except String Response) :=
  if r.b < k.retryAt then some (.error (unavailable k.lastFailure)) else none

def backoff (retryAtMs : Option ℚ) (now : ℚ) : ℚ :=
  min (max (retryAtMs.getD 0) (now + o.ttlMs)) (now + MAX_BACKOFF_MS)

/-- The instant of a rate-limited answer goes into the history. -/
def noteLimit (k : Core) (retryAtMs : Option ℚ) (now : ℚ) : Core :=
  match retryAtMs with
  | some u => k.note (.limited now u)
  | none => k

/-- The outer `catch` of `refresh`. -/
def refreshFailed (k : Core) (f : Failure) (r : Reads) : Core × Except String Response :=
  match f with
  | .config message =>
      ({ k with lastFailure := "invalid-source", retryAt := r.a + o.ttlMs, failed := true },
        .error message)
  | .transport reason until_ =>
      let k := { k.noteLimit until_ r.a with
        lastFailure := reason, retryAt := backoff o until_ r.a, failed := true }
      (k, k.degraded o reason r.b)
  | .unexpected _ =>
      let k := { k with
        lastFailure := "unexpected-error", retryAt := backoff o none r.a, failed := true }
      (k, k.degraded o "unexpected-error" r.b)

/-- A head read shows this commit. -/
def shown (k : Core) (commitSha : String) : Core :=
  if k.found.any fun c => c != commitSha then { k with found := none, moves := k.moves + 1 }
  else k

/-- The stage of a refresh that ends so. -/
def ended (x : Core × Except String Response) : Core × Stage := (x.1, .ended x.2)

/-- What `fetchHead` gives for an answer. -/
def headOf (k : Core) (previous : Option Nat) (main : String) :
    HeadAnswer → Except Failure Head
  | .sha etag => .ok ⟨main, etag⟩
  | .notModified =>
      match previous.bind (k.snaps[·]?) with
      | some p => .ok ⟨p.commitSha, p.etag⟩
      | none => .error (.transport "http-304" none)
  | .failure f => .error f

/-- The snapshot, with its identity, when it is at this commit. -/
def currentAt (k : Core) (commitSha : String) : Option (Nat × Snapshot) :=
  (k.snapshot.bind fun p => (k.snaps[p]?).map fun snap => (p, snap)).filter fun x =>
    x.2.commitSha == commitSha

/-- `refresh` after `fetchHead`: it ends, or reads the file at the head. -/
def headRead (k : Core) (answer : Except Failure Head) (r : Reads) : Core × Stage :=
  match answer with
  | .error f => ended (k.refreshFailed o f r)
  | .ok head =>
      let k := k.shown head.commitSha
      match k.invalid.filter fun i => i.1 == head.commitSha with
      | some (_, error) => ended (k.refreshFailed o (.config error) r)
      | none =>
          let k := { k with invalid := none, retryAt := 0 }
          match k.currentAt head.commitSha with
          | some (p, previous) =>
              let updated := previous.confirm head r.a
              ({ k with snaps := k.snaps.set p updated,
                        confirmed := (updated.commitSha, r.a) :: k.confirmed },
                .ended (.ok (render updated none r.a)))
          | none => (k.note (.started r.a), .file head)

/-- `fetchFile` after its `fetchContents`. -/
def parseFile (commitSha text : String) : Except String SsoConfig :=
  match o.yamlParse text with
  | .error _ => .error ("Malformed YAML in " ++ o.path ++ " at " ++ commitSha)
  | .ok raw =>
      match resolveSsoFile o.web raw o.baseDomain with
      | .error summary =>
          .error ("Invalid SSO configuration in " ++ o.path ++ " at " ++ commitSha ++ ": " ++ summary)
      | .ok config => .ok config

/-- The inner `catch`: the commit is remembered. -/
def fileInvalid (k : Core) (commitSha message : String) (r : Reads) :
    Core × Except String Response :=
  { k with invalid := some (commitSha, message), found := some commitSha }.refreshFailed o
    (.config message) r

/-- `refresh` after the contents of the file at `head` were asked for. -/
def fileRead (k : Core) (head : Head) (answer : Except Failure (String × String)) (r : Reads) :
    Core × Except String Response :=
  match answer with
  | .error (.config message) => k.fileInvalid o head.commitSha message r
  | .error f => k.refreshFailed o f r
  | .ok (blobSha, text) =>
      let k := { k with reads := ⟨head.commitSha, .sso, blobSha, text⟩ :: k.reads }
      match parseFile o head.commitSha text with
      | .error message => k.fileInvalid o head.commitSha message r
      | .ok config =>
          let snap := newSnapshot head blobSha text config r.a
          ({ k with snaps := k.snaps ++ [snap], snapshot := some k.snaps.length,
                    confirmed := (head.commitSha, r.a) :: k.confirmed },
            .ok (render snap none r.a))

/-! ### `readBase` -/

def baseOf (snap : Snapshot) (groupNames : List String) : Base where
  commitSha := snap.commitSha
  blobSha := snap.blobSha
  text := snap.text
  baseDomain := o.baseDomain
  config := snap.config
  groupNames := groupNames

/-- `readBase` after its `await` of the response: it returns, or asks for the groups. -/
def baseRead (k : Core) (response : Except String Response) (r : Reads) : Core × CallerStage :=
  match response with
  | .error message => (k, .returned (.error message))
  | .ok response =>
      if response.staleReason.isSome then
        (k, .returned (.error
          "GitHub SSO source is stale or unavailable; refusing to base a change on it"))
      else
        match k.currentAt response.commitSha with
        | none => (k, .returned (.error "GitHub SSO source moved during the read; retry"))
        | some (p, snap) =>
            match snap.groupNames with
            | some groupNames =>
                (k, .returned (.ok (.base (baseOf o snap groupNames) response)))
            | none =>
                if r.a < k.retryAt then
                  (k, .returned (.error (unavailable k.lastFailure)))
                else (k.note (.started r.b), .groups p response)

/-- `names.every(..)` over the groups of `policies/groups.yaml`. -/
def groupNamesOf : List Json → Option (List String)
  | [] => some []
  | g :: rest =>
      match Json.field (some g) "name" with
      | some (.str n) => if n = "" then none else (groupNamesOf rest).map (n :: ·)
      | _ => none

def parseGroupNames (text where_ : String) : Except String (List String) :=
  match o.yamlParse text with
  | .error _ => .error ("Malformed YAML in " ++ where_)
  | .ok raw =>
      match Json.field (some raw) "groups" with
      | some (.arr groups) =>
          match groupNamesOf groups with
          | some names => .ok names
          | none => .error (where_ ++ " has a group without a name")
      | _ => .error (where_ ++ " must contain a groups list")

/-- `readBase` after the groups file was asked for, at the commit of snapshot `p`. -/
def groupsRead (k : Core) (p : Nat) (answer : Except Failure (String × String)) (r : Reads) :
    Core × Except String Base :=
  let invalidSource (k : Core) (message : String) : Core × Except String Base :=
    ({ k with lastFailure := "invalid-source", retryAt := r.a + o.ttlMs, failed := true },
      .error message)
  match answer with
  | .error (.config message) => invalidSource k message
  | .error (.transport reason until_) =>
      ({ k.noteLimit until_ r.a with
          lastFailure := reason, retryAt := backoff o until_ r.a, failed := true },
        .error (unavailable reason))
  | .error (.unexpected message) => ({ k with failed := true }, .error message)
  | .ok (blobSha, text) =>
      match k.snaps[p]? with
      | none => (k, .error "")
      | some snap =>
          let k := { k with reads := ⟨snap.commitSha, .groups, blobSha, text⟩ :: k.reads }
          match parseGroupNames o text (GROUPS_FILE_PATH ++ " at " ++ snap.commitSha) with
          | .error message => invalidSource k message
          | .ok names =>
              ({ k with snaps := k.snaps.set p { snap with groupNames := some names } },
                .ok (baseOf o snap names))

end Core

/-! ## Callers, refreshes and main -/

structure Running where
  id : Nat
  stage : Stage

inductive Call where
  | getSsoConfig
  | readBase (fresh : Bool)
  deriving DecidableEq

/-- A call as it arrived: the instant, how many commits main had had, the number of `moves` if an
invalid commit was known, and the result of the refresh it joined if that had ended. -/
structure CallInfo where
  call : Call
  calledAt : ℚ
  since : Nat
  foundAt : Option Nat
  joined : Option (Except String Response)

structure Caller where
  info : CallInfo
  stage : CallerStage

structure State where
  core : Core
  inflight : Option Nat
  running : List Running
  /-- Refreshes started so far. -/
  started : Nat
  callers : List Caller
  now : ℚ
  /-- The commits main has pointed at, newest first. -/
  history : List String

inductive Act where
  /-- Main moves to a commit. -/
  | push (commitSha : String)
  | call (call : Call) (r : Reads)
  | serveHead (id : Nat) (answer : HeadAnswer)
  | deliverHead (id : Nat) (r : Reads)
  | deliverFile (id : Nat) (answer : Except Failure (String × String)) (r : Reads)
  /-- The `finally` of the promise: callers that wait go on. -/
  | finish (id : Nat)
  | resume (caller : Nat) (r : Reads)
  | deliverGroups (caller : Nat) (answer : Except Failure (String × String)) (r : Reads)

namespace State

def start (commitSha : String) : State where
  core := .start
  inflight := none
  running := []
  started := 0
  callers := []
  now := 0
  history := [commitSha]

variable (o : Options)

def main (s : State) : String := s.history.headD ""

def stageOf (s : State) (id : Nat) : Option Stage :=
  (s.running.find? fun run => run.id == id).map (·.stage)

def setStage (s : State) (id : Nat) (stage : Stage) : State :=
  { s with running := s.running.map fun run => if run.id = id then ⟨id, stage⟩ else run }

/-- The result of the refresh `id`, once it has ended. -/
def resultOf (s : State) (id : Nat) : Option (Except String Response) :=
  match s.stageOf id with
  | some (.ended result) => some result
  | _ => none

/-- `this.inflight ??= this.refresh().finally(..)`. -/
def join (s : State) (r : Reads) : State × Nat :=
  match s.inflight with
  | some id => (s, id)
  | none =>
      ({ s with
          core := s.core.note (.started r.c)
          inflight := some s.started
          running := s.running ++ [⟨s.started, .head s.core.snapshot⟩]
          started := s.started + 1 }, s.started)

def atOnce (s : State) (call : Call) (r : Reads) : Option (Except String Response) :=
  match call with
  | .readBase true => s.core.getFresh r
  | _ => s.core.getSsoConfig o r

/-- A response that is there at once, or with the promise. -/
def received (call : Call) (response : Except String Response) : CallerStage :=
  match call with
  | .getSsoConfig => .returned (response.map .configured)
  | .readBase _ => .ready response

def infoOf (s : State) (call : Call) (r : Reads) : CallInfo where
  call := call
  calledAt := r.a
  since := s.history.length
  foundAt := s.core.found.map fun _ => s.core.moves
  joined := if (s.atOnce o call r).isSome then none else s.inflight.bind s.resultOf

def arrive (s : State) (call : Call) (r : Reads) : State :=
  let info := s.infoOf o call r
  match s.atOnce o call r with
  | some response =>
      { s with now := r.c, callers := s.callers ++ [⟨info, received call response⟩] }
  | none =>
      let (s, id) := s.join r
      { s with now := r.c, callers := s.callers ++ [⟨info, .waiting id⟩] }

/-- The callers after the promise of refresh `id` is settled. -/
def wake (callers : List Caller) (id : Nat) (result : Except String Response) : List Caller :=
  callers.map fun c =>
    match c.stage with
    | .waiting i => if i = id then { c with stage := received c.info.call result } else c
    | _ => c

def callerAt (s : State) (i : Nat) : Option (CallInfo × CallerStage) :=
  (s.callers[i]?).map fun c => (c.info, c.stage)

/-- GitHub can answer so: a 304 needs that main is at the commit asked with. -/
def canAnswer (s : State) (previous : Option Nat) : HeadAnswer → Bool
  | .notModified => (previous.bind (s.core.snaps[·]?)).any fun p => p.commitSha == s.main
  | _ => true

def step (s : State) : Act → Option State
  | .push commitSha => some { s with history := commitSha :: s.history }
  | .call call r => if r.After s.now then some (s.arrive o call r) else none
  | .serveHead id answer =>
      match s.stageOf id with
      | some (.head previous) =>
          if s.canAnswer previous answer then
            some (s.setStage id (.headServed previous s.main answer))
          else none
      | _ => none
  | .deliverHead id r =>
      match s.stageOf id with
      | some (.headServed previous main answer) =>
          if r.After s.now then
            let (core, stage) := s.core.headRead o (s.core.headOf previous main answer) r
            some { s.setStage id stage with core, now := r.c }
          else none
      | _ => none
  | .deliverFile id answer r =>
      match s.stageOf id with
      | some (.file head) =>
          if r.After s.now then
            let (core, result) := s.core.fileRead o head answer r
            some { s.setStage id (.ended result) with core, now := r.c }
          else none
      | _ => none
  | .finish id =>
      match s.resultOf id with
      | some result =>
          some { s with
            inflight := none
            running := s.running.filter fun run => run.id != id
            callers := wake s.callers id result }
      | none => none
  | .resume i r =>
      match s.callerAt i with
      | some (info, .ready response) =>
          if r.After s.now then
            let (core, stage) := s.core.baseRead o response r
            some { s with core, now := r.c, callers := s.callers.set i ⟨info, stage⟩ }
          else none
      | _ => none
  | .deliverGroups i answer r =>
      match s.callerAt i with
      | some (info, .groups p response) =>
          if r.After s.now then
            let (core, base) := s.core.groupsRead o p answer r
            let stage := .returned (base.map fun b => .base b response)
            some { s with core, now := r.c, callers := s.callers.set i ⟨info, stage⟩ }
          else none
      | _ => none

end State

abbrev adapterMachine (o : Options) : Machine where
  State := State
  Act := Act
  step := State.step o

end Sso.GithubSsoAdapter
