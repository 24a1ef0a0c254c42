import Beluga.Interact.Limiter

/-! # The request limits of the clients

`httpClient.ts` and `flink/client.ts`: each client lets a number of requests run and
a number of requests wait. `UpstreamHttpClient` gives up a waiter by a timer,
`FlinkRestClient` by the abort signal of the request, which its deadline and its
caller may raise at any time. What a request does with its slot is left out: it ends,
in one way or another, and its `finally` releases the slot.

* `FlinkRestClient.reaches_limiter`: a run of the Flink client is a run of the limiter;
* `request_limits`: both clients, in every run.
-/

namespace Upstream

open Interact

/-! ## UpstreamHttpClient -/

namespace UpstreamHttpClient

def DEFAULT_MAX_CONCURRENT : Int := 8

def DEFAULT_MAX_QUEUED : Int := 64

structure Options where
  maxConcurrent : Option Int
  maxQueued : Option Int

/-- `Math.max(1, options.maxConcurrent ?? DEFAULT_MAX_CONCURRENT)`. -/
def maxConcurrent (o : Options) : Nat := (max 1 (o.maxConcurrent.getD DEFAULT_MAX_CONCURRENT)).toNat

/-- `Math.max(0, options.maxQueued ?? DEFAULT_MAX_QUEUED)`. -/
def maxQueued (o : Options) : Nat := (max 0 (o.maxQueued.getD DEFAULT_MAX_QUEUED)).toNat

variable (o : Options)

def acquire (s : Limiter) (id : Nat) : Limiter := s.acquire (maxConcurrent o) (maxQueued o) id

def release (s : Limiter) : Limiter := s.release

inductive Act where
  /-- `getJson` is called. -/
  | getJson
  /-- The budget is over, the path was changed or there is no token. -/
  | refuse (id : Nat)
  | acquire (id : Nat)
  /-- The timer of a waiter fires. -/
  | timeout (id : Nat)
  /-- `await this.acquire(budget)` is over, and `send` starts. -/
  | send (id : Nat)
  /-- `send` has ended, and `finally` runs. -/
  | settle (id : Nat)
  deriving DecidableEq, Repr

def step (s : Limiter) : Act → Option Limiter
  | .getJson => some { s with phases := s.phases ++ [.preparing] }
  | .refuse id => if s.phase id = some .preparing then some (s.setPhase id .ended) else none
  | .acquire id => if s.phase id = some .preparing then some (acquire o s id) else none
  | .timeout id => if id ∈ s.alarms then some (s.alarm id) else none
  | .send id => if s.phase id = some .granted then some (s.setPhase id .running) else none
  | .settle id =>
      if s.phase id = some .running then
        some (release { s.setPhase id .ended with releases := id :: s.releases })
      else none

end UpstreamHttpClient

abbrev httpMachine (o : UpstreamHttpClient.Options) : Machine where
  State := Limiter
  Act := UpstreamHttpClient.Act
  step := UpstreamHttpClient.step o

/-! ## FlinkRestClient -/

namespace FlinkRestClient

def DEFAULT_MAX_CONCURRENCY : Nat := 8

def DEFAULT_MAX_QUEUE : Nat := 64

structure Options where
  maxConcurrency : Option Nat
  maxQueue : Option Nat

def maxConcurrency (o : Options) : Nat := o.maxConcurrency.getD DEFAULT_MAX_CONCURRENCY

def maxQueue (o : Options) : Nat := o.maxQueue.getD DEFAULT_MAX_QUEUE

/-- The limiter, and the requests whose signal is aborted. -/
structure Client where
  limiter : Limiter
  aborted : List Nat
  deriving DecidableEq, Repr

def Client.empty : Client := ⟨.empty, []⟩

variable (o : Options)

/-- An aborted request gets no slot. -/
def acquire (s : Client) (id : Nat) : Limiter :=
  if id ∈ s.aborted then s.limiter.setPhase id .ended
  else s.limiter.acquire (maxConcurrency o) (maxQueue o) id

def release (s : Limiter) : Limiter := s.release

inductive Act where
  /-- `get` is called, with a signal that may be aborted. -/
  | get (aborted : Bool)
  /-- The deadline of a request, or its caller. -/
  | abort (id : Nat)
  /-- `await this.acquire(controller.signal)` is over. -/
  | fetch (id : Nat)
  /-- The rest has ended, and `finally` runs. -/
  | settle (id : Nat)
  deriving DecidableEq, Repr

/-- `get`, as far as `await this.acquire(controller.signal)`. -/
def get (s : Client) (aborted : Bool) : Client :=
  let id := s.limiter.phases.length
  let s : Client := ⟨{ s.limiter with phases := s.limiter.phases ++ [.preparing] },
    if aborted then id :: s.aborted else s.aborted⟩
  { s with limiter := acquire o s id }

/-- The listener of a waiter is called, and no request has one when it has ended. -/
def abort (s : Client) (id : Nat) : Client where
  limiter := if id ∈ s.limiter.alarms then s.limiter.alarm id else s.limiter
  aborted := id :: s.aborted

def step (s : Client) : Act → Option Client
  | .get aborted => some (get o s aborted)
  | .abort id =>
      if s.limiter.phase id ≠ none ∧ s.limiter.phase id ≠ some .ended ∧ id ∉ s.aborted then
        some (abort s id)
      else none
  | .fetch id =>
      if s.limiter.phase id = some .granted then
        some { s with limiter := s.limiter.setPhase id .running }
      else none
  | .settle id =>
      if s.limiter.phase id = some .running then
        let ended : Limiter :=
          { s.limiter.setPhase id .ended with releases := id :: s.limiter.releases }
        some { s with limiter := release ended }
      else none

end FlinkRestClient

abbrev flinkMachine (o : FlinkRestClient.Options) : Machine where
  State := FlinkRestClient.Client
  Act := FlinkRestClient.Act
  step := FlinkRestClient.step o

/-! ## Both are limiters -/

/-- The step of the limiter that a step of the client is. -/
def UpstreamHttpClient.Act.limiter : UpstreamHttpClient.Act → Limiter.Act
  | .getJson => .enter
  | .refuse id => .leave id
  | .acquire id => .acquire id
  | .timeout id => .alarm id
  | .send id => .resume id
  | .settle id => .finish id

theorem UpstreamHttpClient.reaches_limiter {o : UpstreamHttpClient.Options} {s : Limiter}
    (h : Machine.Reachable (M := httpMachine o) .empty s) :
    Machine.Reachable (M := limiterMachine (maxConcurrent o) (maxQueued o)) .empty s := by
  refine h.induct (I := fun s : Limiter => Machine.Reachable
    (M := limiterMachine (maxConcurrent o) (maxQueued o)) .empty s) .refl ?_
  intro s' s'' a _ ih _ hstep
  refine .tail a.limiter ih trivial ?_
  cases a <;> exact hstep

theorem FlinkRestClient.get_reaches {o : FlinkRestClient.Options} (s : FlinkRestClient.Client)
    (aborted : Bool) : Machine.Reachable
      (M := limiterMachine (maxConcurrency o) (maxQueue o)) s.limiter (get o s aborted).limiter := by
  have hphase : Limiter.phase { s.limiter with phases := s.limiter.phases ++ [.preparing] }
      s.limiter.phases.length = some .preparing := by
    rw [Limiter.phase, List.getElem?_append_right (Nat.le_refl _), Nat.sub_self]
    rfl
  have henter : Machine.Reachable (M := limiterMachine (maxConcurrency o) (maxQueue o)) s.limiter
      { s.limiter with phases := s.limiter.phases ++ [.preparing] } :=
    .tail .enter .refl trivial rfl
  simp only [get, acquire]
  by_cases hin : s.limiter.phases.length ∈
      if aborted then s.limiter.phases.length :: s.aborted else s.aborted
  · rw [if_pos hin]
    exact .tail (.leave s.limiter.phases.length) henter trivial (if_pos hphase)
  · rw [if_neg hin]
    exact .tail (.acquire s.limiter.phases.length) henter trivial (if_pos hphase)

theorem FlinkRestClient.reaches_limiter {o : FlinkRestClient.Options} {s : FlinkRestClient.Client}
    (h : Machine.Reachable (M := flinkMachine o) .empty s) :
    Machine.Reachable (M := limiterMachine (maxConcurrency o) (maxQueue o)) .empty s.limiter := by
  refine h.induct (I := fun s : FlinkRestClient.Client => Machine.Reachable
    (M := limiterMachine (maxConcurrency o) (maxQueue o)) .empty s.limiter) .refl ?_
  intro s' s'' a _ ih _ hstep
  cases a with
  | get aborted =>
      cases hstep
      exact ih.trans (get_reaches s' aborted)
  | abort id =>
      obtain ⟨-, heq⟩ := Option.ite_none_right_eq_some.mp hstep
      cases heq
      simp only [abort]
      by_cases halarm : id ∈ s'.limiter.alarms
      · rw [if_pos halarm]
        exact .tail (.alarm id) ih trivial (if_pos halarm)
      · rw [if_neg halarm]
        exact ih
  | fetch id =>
      obtain ⟨hp, heq⟩ := Option.ite_none_right_eq_some.mp hstep
      cases heq
      exact .tail (.resume id) ih trivial (if_pos hp)
  | settle id =>
      obtain ⟨hp, heq⟩ := Option.ite_none_right_eq_some.mp hstep
      cases heq
      exact .tail (.finish id) ih trivial (if_pos hp)

/-- In every run of either client: the counter is the number of slots that are held and stays
within the maximum, the queue is short and holds only requests that still wait, nobody waits while
a slot is free, a granted slot is held or has been released once, and when all requests have ended
nothing is left. -/
theorem request_limits (o : UpstreamHttpClient.Options) (o' : FlinkRestClient.Options) :
    (∀ s : Limiter, Machine.Reachable (M := httpMachine o) .empty s →
      s.Orderly (UpstreamHttpClient.maxConcurrent o) (UpstreamHttpClient.maxQueued o)) ∧
    ∀ s : FlinkRestClient.Client, Machine.Reachable (M := flinkMachine o') .empty s →
      s.limiter.Orderly (FlinkRestClient.maxConcurrency o') (FlinkRestClient.maxQueue o') :=
  ⟨fun _ h => (limiter_balanced (UpstreamHttpClient.reaches_limiter h)).orderly,
    fun _ h => (limiter_balanced (FlinkRestClient.reaches_limiter h)).orderly⟩

/-- With one slot: a slot is handed over to the waiter of the first client and a third request is
refused; the waiter of the second client is aborted, and at the end all is free. -/
theorem request_limits_one :
    (∃ s : Limiter, Machine.Reachable (M := httpMachine ⟨some 1, some 1⟩) .empty s ∧
      s.grants = [1, 0] ∧ s.releases = [0] ∧ s.inFlight = 1 ∧ s.Orderly 1 1) ∧
    ∃ s : FlinkRestClient.Client, Machine.Reachable (M := flinkMachine ⟨some 1, none⟩) .empty s ∧
      s.limiter.phases = [.ended, .ended] ∧ s.limiter.grants = [0] ∧ s.limiter.Orderly 1 64 := by
  have hhttp : (Machine.run (M := httpMachine ⟨some 1, some 1⟩) .empty
      [.getJson, .getJson, .getJson, .acquire 0, .acquire 1, .acquire 2, .send 0, .settle 0]) =
      some ⟨1, [], [], [.ended, .granted, .ended], [1, 0], [0]⟩ := by
    decide
  have hflink : (Machine.run (M := flinkMachine ⟨some 1, none⟩) .empty
      [.get false, .get false, .abort 1, .fetch 0, .settle 0]) =
      some ⟨⟨0, [], [], [.ended, .ended], [0], [0]⟩, [1]⟩ := by
    decide
  have hreach := Machine.reaches_of_run hhttp
  have hreach' := Machine.reaches_of_run hflink
  exact ⟨⟨_, hreach, rfl, rfl, rfl, (request_limits ⟨some 1, some 1⟩ ⟨some 1, none⟩).1 _ hreach⟩,
    _, hreach', rfl, rfl, (request_limits ⟨some 1, some 1⟩ ⟨some 1, none⟩).2 _ hreach'⟩

end Upstream
