import Beluga.Flink.Snapshot
import Beluga.Interact.Machine
import Beluga.Interact.Pool

/-! # The snapshot cache of the Flink adapter

`adapter.ts`: `listPipelines` and `getPipeline` read snapshots through a
`SingleFlightCache`. A load is in flight from its start until the cache takes its promise
out of `inflight`, which is one turn after its value was stored.

A build reads the overview and then the details of the selected jobs, with a bounded
number of requests at a time. Requests end in any order and with anything, the time budget
runs out at any time, and the clock does not go back.
-/

namespace Flink

open Interact Js

/-! ## The cache -/

structure Entry (T : Type) where
  value : T
  expiresAt : Int
  /-- The load that the value is of. -/
  load : Nat
  deriving DecidableEq, Repr

structure SingleFlightCache (T : Type) where
  entry : Option (Entry T)
  /-- The load whose promise this is. -/
  inflight : Option Nat
  deriving DecidableEq, Repr

/-- What `get` returns: a promise of the cached value, or that of a load. -/
inductive Source (T : Type) where
  | cached (load : Nat) (value : T)
  | promise (load : Nat)
  deriving DecidableEq, Repr

namespace SingleFlightCache

variable {T : Type}

/-- `get`, where a load that it starts gets the number `fresh`. -/
def get (c : SingleFlightCache T) (now : Int) (fresh : Nat) : Source T × SingleFlightCache T :=
  match c.entry.filter (now < ·.expiresAt), c.inflight with
  | some e, _ => (.cached e.load e.value, c)
  | none, some load => (.promise load, c)
  | none, none => (.promise fresh, { c with inflight := some fresh })

/-- The handler of a load's value. -/
def store (c : SingleFlightCache T) (load : Nat) (value : T) (ttlMs : Nat) (now : Int) :
    SingleFlightCache T :=
  { c with entry := some { value := value, expiresAt := now + ttlMs, load := load } }

def clear (c : SingleFlightCache T) (load : Nat) : SingleFlightCache T :=
  if c.inflight = some load then { c with inflight := none } else c

end SingleFlightCache

/-! ## Builds -/

/-- `buildSnapshot` and the promise of it. -/
structure Build where
  overview : Option (Except Failure (List FlinkJobSummary))
  pool : Pool Outcome
  /-- When the time budget has run out, how many jobs were taken before. -/
  aborted : Option Nat
  /-- When it has returned, the time of the mapping. -/
  finishedAt : Option Int
  /-- When the handler of the cache has run, its time. -/
  settledAt : Option Int
  cleared : Bool

inductive BuildAct where
  | overview (answer : Except Failure (List FlinkJobSummary))
  | detail (i : Nat) (outcome : Outcome)
  | abort
  | finish

def Outcome.isTimeout : Outcome → Bool
  | .error (.client .timeout) => true
  | _ => false

namespace Build

def start : Build where
  overview := none
  pool := { next := 0, running := [], out := [] }
  aborted := none
  finishedAt := none
  settledAt := none
  cleared := false

/-- The details that are requested once the overview is there. -/
def requests (config : FlinkAdapterConfig) :
    Except Failure (List FlinkJobSummary) → Pool Outcome
  | .ok summaries => Pool.start config.maxConcurrency (selected summaries).length
  | .error _ => { next := 0, running := [], out := [] }

/-- A job that is taken after the time budget has run out is not requested. -/
def refuses (b : Build) (i : Nat) : Bool := b.aborted.any (· ≤ i)

def step (config : FlinkAdapterConfig) (now : Int) (b : Build) : BuildAct → Option Build
  | .overview answer =>
      if b.overview.isNone then
        some { b with overview := some answer, pool := requests config answer }
      else none
  | .detail i outcome =>
      if i ∈ b.pool.running ∧ (b.refuses i = true → outcome.isTimeout = true) then
        some { b with pool := b.pool.settle i outcome }
      else none
  | .abort =>
      if b.finishedAt.isNone then some { b with aborted := some (b.aborted.getD b.pool.next) }
      else none
  | .finish =>
      if b.overview.isSome ∧ b.pool.running = [] ∧ b.finishedAt.isNone then
        some { b with finishedAt := some now }
      else none

/-- What `buildSnapshot` has returned; nothing if it has not, or if an outcome is missing. -/
def built (lower : String → String) (config : FlinkAdapterConfig) (b : Build) :
    Option BuiltSnapshot :=
  match b.finishedAt, b.overview with
  | some now, some (.ok summaries) =>
      b.pool.results.map (builtSnapshot lower config summaries · b.aborted.isSome now)
  | some _, some (.error err) => some (failedSnapshot config err)
  | _, _ => none

end Build

/-! ## The adapter -/

inductive Op where
  | listPipelines
  | getPipeline (id : String)
  deriving DecidableEq, Repr

inductive Reply where
  | snapshot (snap : PipelineSnapshot)
  | lookup (l : PipelineLookup)
  deriving DecidableEq, Repr

/-- An id that is not one of a pipeline is answered without a snapshot. -/
def Op.reads : Op → Bool
  | .listPipelines => true
  | .getPipeline id => isPipelineId id

def Op.reply (snap : PipelineSnapshot) : Op → Reply
  | .listPipelines => .snapshot snap
  | .getPipeline id => .lookup (Flink.lookup snap id)

structure Call where
  op : Op
  source : Option (Source PipelineSnapshot)
  deriving DecidableEq, Repr

structure Adapter where
  builds : List Build
  cache : SingleFlightCache PipelineSnapshot
  calls : List Call
  now : Int

inductive Act where
  | call (op : Op)
  /-- The build `b` goes on. -/
  | build (b : Nat) (act : BuildAct)
  /-- The handler of the cache runs for `b`. -/
  | settle (b : Nat)
  | clear (b : Nat)
  | clock (now : Int)

namespace Adapter

def start (now : Int) : Adapter where
  builds := []
  cache := { entry := none, inflight := none }
  calls := []
  now := now

def call (s : Adapter) (op : Op) : Adapter :=
  if op.reads then
    let got := s.cache.get s.now s.builds.length
    { s with
      -- `load()` runs up to its first request
      builds := if got.1 = .promise s.builds.length then s.builds ++ [.start] else s.builds
      cache := got.2
      calls := s.calls ++ [⟨op, some got.1⟩] }
  else { s with calls := s.calls ++ [⟨op, none⟩] }

def step (lower : String → String) (config : FlinkAdapterConfig) (s : Adapter) :
    Act → Option Adapter
  | .call op => some (s.call op)
  | .build b act => do
      let build ← s.builds[b]?
      let build' ← build.step config s.now act
      return { s with builds := s.builds.set b build' }
  | .settle b => do
      let build ← s.builds[b]?
      guard (build.finishedAt.isSome ∧ build.settledAt.isNone)
      return { s with
        builds := s.builds.set b { build with settledAt := some s.now }
        cache :=
          match build.built lower config with
          | some built => s.cache.store b built.value built.ttlMs s.now
          | none => s.cache }
  | .clear b => do
      let build ← s.builds[b]?
      guard (build.settledAt.isSome ∧ build.cleared = false)
      return { s with
        builds := s.builds.set b { build with cleared := true }
        cache := s.cache.clear b }
  | .clock now => if s.now ≤ now then some { s with now := now } else none

/-- What a call is answered, once its promise has settled. -/
def answer (lower : String → String) (config : FlinkAdapterConfig) (s : Adapter) (c : Call) :
    Option Reply :=
  match c.source with
  | none => some (.lookup unknownPipeline)
  | some (.cached _ value) => some (c.op.reply value)
  | some (.promise b) => do
      let build ← s.builds[b]?
      guard build.settledAt.isSome
      let built ← build.built lower config
      return c.op.reply built.value

end Adapter

def adapterMachine (lower : String → String) (config : FlinkAdapterConfig) : Machine where
  State := Adapter
  Act := Act
  step := Adapter.step lower config

end Flink
