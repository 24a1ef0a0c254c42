import Beluga.Interact.Machine
import Beluga.Text.Words

/-! # The isolated provider

`isolatedProvider.ts`: `isolateProvider` wraps a decision provider, so that what the
provider does is answered with an abstention. A call of `decide` starts the provider
if fewer than `maxConcurrent` of its calls have not settled, and is answered with
what comes first, the settlement or the timer.

The provider and what it throws are foreign: its properties, the conversion of a
value to a text and `instanceof` may throw. What zod makes of a foreign result is
part of the input.
-/

namespace Isolation

open Interact

/-! ## Foreign values -/

/-- A value as the boundary sees it: a string, another primitive value with its text, a symbol,
or an object with the outcomes of `instanceof Error`, of reading `message` and of its conversion. -/
inductive Value where
  | string (s : String)
  | primitive (text : String)
  | symbol (description : String)
  | object (isError : Except Value Bool) (message : Except Value Value)
      (text : Except Value String)

namespace Value

/-- An error that the language or a library throws. -/
def errorOf (message : String) : Value := .object (.ok true) (.ok (.string message)) (.ok message)

/-- The value in a template. -/
def toText : Value → Except Value String
  | .string s | .primitive s => .ok s
  | .symbol _ => .error (errorOf "Cannot convert a Symbol value to a string")
  | .object _ _ text => text

/-- `String(value)`. -/
def stringOf : Value → Except Value String
  | .symbol description => .ok ("Symbol(" ++ description ++ ")")
  | v => v.toText

/-- `value instanceof Error`. -/
def isError : Value → Except Value Bool
  | .object isError _ _ => isError
  | _ => .ok false

/-- `value.message`, read of errors only. -/
def message : Value → Except Value Value
  | .object _ message _ => message
  | v => .ok v

end Value

def describeError (err : Value) : Except Value Value := do
  if ← err.isError then err.message else return .string (← err.stringOf)

/-! ## Results -/

inductive Decision where
  | normal
  | computeBound
  | memoryBound
  | storageBound
  | networkBound
  | queryProblem
  | escalate
  | abstain
  deriving DecidableEq, Repr

inductive AbstainCode where
  | noTelemetry
  | missingRequiredSignal
  | staleTelemetry
  | isolationTimeout
  | isolationProviderError
  | isolationInvalidShape
  | isolationOverloaded
  deriving DecidableEq, Repr

/-- A date is `none` when it is invalid. -/
structure EvidenceRef where
  source : String
  observedAt : Option Int
  ingestedAt : Option Int
  freshnessDeadline : Option Int
  contentHash : String
  deriving DecidableEq, Repr

structure DecisionResult where
  decision : Decision
  confidence : Rat
  abstained : Bool
  abstainCode : Option AbstainCode
  abstainReason : Option String
  evidenceRefs : List EvidenceRef
  provider : String
  providerVersion : String
  policyVersion : String
  decidedAt : Option Int
  latencyMs : Rat
  deriving DecidableEq, Repr

/-- `evidenceRefSchema`. -/
def EvidenceRef.valid (e : EvidenceRef) : Bool :=
  e.source ≠ "" && e.observedAt.isSome && e.ingestedAt.isSome && e.freshnessDeadline.isSome &&
    e.contentHash ≠ ""

/-- `decisionResultSchema`. -/
def DecisionResult.valid (r : DecisionResult) : Bool :=
  0 ≤ r.confidence && r.confidence ≤ 1 && r.abstainReason ≠ some "" &&
    r.evidenceRefs.all EvidenceRef.valid && r.provider ≠ "" && r.providerVersion ≠ "" &&
    r.policyVersion ≠ "" && r.decidedAt.isSome && 0 ≤ r.latencyMs

/-- `decisionResultSchema.parse(result)`; `issues` is the message of the error. -/
def parse (issues : DecisionResult → String) (r : DecisionResult) : Except Value DecisionResult :=
  if r.valid then .ok r else .error (.errorOf (issues r))

/-- What `decisionResultSchema.safeParse` does with a foreign result. -/
inductive SafeParse where
  | throws (err : Value)
  | failure (message : String)
  | success (data : { r : DecisionResult // r.valid = true })

/-! ## Abstentions -/

def ISOLATION_POLICY_VERSION : String := "isolation-boundary/v1"

/-- `typeof value === "string" && value.trim().length > 0 ? value : fallback`. -/
def safeIdentity (value : Value) (fallback : String) : String :=
  match value with
  | .string s => if Text.trim s.toList ≠ [] then s else fallback
  | _ => fallback

/-- The properties of the provider as an abstention reads them: `id` for the reason, then `id` and
`version` for the result. -/
structure Identity where
  shown : Except Value Value
  id : Except Value Value
  version : Except Value Value

/-- What a call of `decide` meets: the date of its context, the properties of the provider and the
clock at the first and at the second abstention, and zod's messages. -/
structure Setting where
  requested : Option Int
  startedAt : Int
  identity : Fin 2 → Identity
  clock : Fin 2 → Int
  issues : DecisionResult → String
  budgetMs : String
  maxConcurrent : Nat

namespace Setting

/-- The first abstention of a call, and the one of the `catch` block behind it. -/
abbrev first : Fin 2 := 0
abbrev second : Fin 2 := 1

variable (c : Setting)

/-- `fallbackCtx.now`. -/
def now : Int := c.requested.getD c.startedAt

/-- The result that says why there is none. -/
def abstention (k : Fin 2) (abstainCode : AbstainCode) (reason : String) (id version : Value) :
    DecisionResult where
  decision := .abstain
  confidence := 0
  abstained := true
  abstainCode := some abstainCode
  abstainReason := some reason
  evidenceRefs := []
  provider := safeIdentity id "unknown-provider"
  providerVersion := safeIdentity version "unknown-version"
  policyVersion := ISOLATION_POLICY_VERSION
  decidedAt := some c.now
  latencyMs := (c.clock k - c.startedAt : Int)

def isolationAbstain (k : Fin 2) (abstainCode : AbstainCode) (reason : String) :
    Except Value DecisionResult := do
  let id ← (c.identity k).id
  let version ← (c.identity k).version
  parse c.issues (c.abstention k abstainCode reason id version)

/-- `provider.id` in a template. -/
def shownId (k : Fin 2) : Except Value String := do (← (c.identity k).shown).toText

end Setting

/-- What a call of the provider settles with. -/
inductive Outcome where
  | returned (outcome : SafeParse)
  | rejected (err : Value)

/-- How the race between the provider and the timer ends. -/
inductive Ending where
  | timeout
  | settled (outcome : Outcome)

/-- What a call is answered with. -/
inductive Reply where
  | overloaded
  | ended (ending : Ending)

namespace Setting

variable (c : Setting)

def overloadedReason (id : String) : String :=
  "ISOLATION_OVERLOADED: provider '" ++ id ++ "' 동시 실행 상한(" ++ toString c.maxConcurrent ++
    ")에 도달했다"

def timeoutReason (id : String) : String :=
  "ISOLATION_TIMEOUT: provider '" ++ id ++ "'가 budget(" ++ c.budgetMs ++ "ms)을 초과했다"

def invalidShapeReason (message id : String) : String :=
  "ISOLATION_INVALID_SHAPE: provider '" ++ id ++ "'의 반환값이 decision schema를 어겼다 — " ++ message

def providerErrorReason (description id : String) : String :=
  "ISOLATION_PROVIDER_ERROR: provider '" ++ id ++ "'가 실패했다 — " ++ description

def overloaded : Except Value DecisionResult := do
  let id ← c.shownId 0
  c.isolationAbstain 0 .isolationOverloaded (c.overloadedReason id)

/-- The `try` block after the race. -/
def tryBlock : Ending → Except Value DecisionResult
  | .settled (.rejected err) => .error err
  | .timeout => do
      let id ← c.shownId 0
      c.isolationAbstain 0 .isolationTimeout (c.timeoutReason id)
  | .settled (.returned (.throws err)) => .error err
  | .settled (.returned (.failure message)) => do
      let id ← c.shownId 0
      c.isolationAbstain 0 .isolationInvalidShape (invalidShapeReason message id)
  | .settled (.returned (.success data)) => .ok data

def catchBlock (err : Value) : Except Value DecisionResult := do
  let id ← c.shownId 1
  let v ← describeError err
  let description ← v.toText
  c.isolationAbstain 1 .isolationProviderError (providerErrorReason description id)

/-- How the promise of `decide` settles. -/
def conclude : Reply → Except Value DecisionResult
  | .overloaded => c.overloaded
  | .ended ending => tryCatch (c.tryBlock ending) c.catchBlock

end Setting

/-! ## Calls -/

def DEFAULT_MAX_CONCURRENT : Nat := 32

/-- `Number.isSafeInteger(maxConcurrent) && maxConcurrent >= 1`. -/
def MaxConcurrent : Type := { n : Nat // 1 ≤ n ∧ n < Nat.pow 2 53 }

/-- A call of `decide`: whether the provider was started, what its call has settled with, what has
decided the race, and the reply. -/
structure Call where
  started : Bool
  settled : Option Outcome
  race : Option Ending
  reply : Option Reply

/-- The counter and the calls by their number; which calls have freed a slot. -/
structure Bulkhead where
  activeCalls : Int
  calls : List Call
  freed : List Nat

namespace Bulkhead

def empty : Bulkhead := ⟨0, [], []⟩

/-- `decide`, as far as the race. -/
def decide (maxConcurrent : Nat) (s : Bulkhead) : Bulkhead :=
  if s.activeCalls ≥ maxConcurrent then
    { s with calls := s.calls ++ [⟨false, none, none, some .overloaded⟩] }
  else
    { s with activeCalls := s.activeCalls + 1, calls := s.calls ++ [⟨true, none, none, none⟩] }

inductive Act where
  | decide
  /-- `providerCall` settles: its first reaction frees the slot, the second is the race. -/
  | settle (id : Nat) (outcome : Outcome)
  /-- The timer fires. -/
  | timer (id : Nat)
  /-- The continuation after the race. -/
  | conclude (id : Nat)

def setCall (s : Bulkhead) (id : Nat) (c : Call) : Bulkhead := { s with calls := s.calls.set id c }

def step (maxConcurrent : Nat) (s : Bulkhead) : Act → Option Bulkhead
  | .decide => some (s.decide maxConcurrent)
  | .settle id outcome =>
      match s.calls[id]? with
      | some ⟨true, none, race, reply⟩ => some {
          s.setCall id ⟨true, some outcome, race.orElse fun _ => some (.settled outcome), reply⟩ with
          activeCalls := s.activeCalls - 1, freed := id :: s.freed }
      | _ => none
  | .timer id =>
      match s.calls[id]? with
      | some ⟨true, settled, race, none⟩ =>
          some (s.setCall id ⟨true, settled, race.orElse fun _ => some .timeout, none⟩)
      | _ => none
  | .conclude id =>
      match s.calls[id]? with
      | some ⟨true, settled, some ending, none⟩ =>
          some (s.setCall id ⟨true, settled, some ending, some (.ended ending)⟩)
      | _ => none

end Bulkhead

abbrev bulkheadMachine (maxConcurrent : MaxConcurrent) : Machine where
  State := Bulkhead
  Act := Bulkhead.Act
  step := Bulkhead.step maxConcurrent.1

end Isolation
