import Beluga.Interact.Machine
import Beluga.Js.Numbers

/-! # The memo of the upstream adapters

`memo.ts`: `createMemo`, a single-flight, short-TTL LRU memo. A load is started by
`memo` and settles later, whenever; the clock shows anything. What is modelled is
the accounting: the entries with their weights, the map from keys to entries in
the order of use, and `totalWeight`. The values are left out.
-/

namespace Upstream

open Interact Js

structure MemoOptions where
  ttlMs : Js.Num
  negativeTtlMs : Js.Num
  maxEntries : Js.Num
  maxWeight : Js.Num

/-! ## Weights -/

/-- A value as `normalizeWeight` sees it. -/
inductive Weight where
  | number (w : Js.Num)
  | other
  deriving DecidableEq

/-- NaN, no number or less than 1 is 1; a fraction is rounded up. -/
def normalizeWeight : Weight → Js.Num
  | .other => .fin 1
  | .number .nan => .fin 1
  | .number w => if w.lt (.fin 1) then .fin 1 else w.ceil

/-- How `o.weight?.(value)` ends. -/
inductive WeightCall where
  | nullish
  | value (w : Weight)
  | throws
  deriving DecidableEq

/-- `normalizeWeight(o.weight?.(value) ?? 1)`, or 1 when that throws. -/
def WeightCall.weight : WeightCall → Js.Num
  | .nullish => normalizeWeight (.number (.fin 1))
  | .value w => normalizeWeight w
  | .throws => .fin 1

/-! ## The memo -/

/-- An entry, with the key and the `ttlMs` that its handlers close on. -/
structure Entry where
  key : String
  ttlMs : Option Js.Num
  pending : Bool
  expires : Js.Num
  weight : Js.Num
  deriving DecidableEq

/-- The entries made so far, by their identity; the map of the live ones, oldest
first; the total; the clock. -/
structure Memo where
  entries : List Entry
  cache : List (String × Nat)
  totalWeight : Js.Num
  now : Js.Num
  deriving DecidableEq

namespace Memo

def empty (now : Js.Num) : Memo := ⟨[], [], .fin 0, now⟩

/-- `cache.get(key)`. -/
def get (s : Memo) (key : String) : Option Nat :=
  (s.cache.find? fun kv => kv.1 = key).map (·.2)

/-- `cache.set(key, entry)`: a key that is there keeps its place. -/
def set (s : Memo) (key : String) (id : Nat) : Memo :=
  if (s.get key).isSome then
    { s with cache := s.cache.map fun kv => if kv.1 = key then (key, id) else kv }
  else { s with cache := s.cache ++ [(key, id)] }

/-- `cache.delete(key)`. -/
def delete (s : Memo) (key : String) : Memo :=
  { s with cache := s.cache.filter fun kv => kv.1 ≠ key }

def entry (s : Memo) (id : Nat) : Entry := s.entries.getD id ⟨"", none, false, .fin 0, .fin 0⟩

def update (s : Memo) (id : Nat) (f : Entry → Entry) : Memo :=
  { s with entries := s.entries.modify id f }

def isLive (s : Memo) (key : String) (id : Nat) : Bool := s.get key = some id

def link (s : Memo) (key : String) (id : Nat) : Memo :=
  { s.set key id with totalWeight := s.totalWeight.add (s.entry id).weight }

def unlink (s : Memo) (key : String) (id : Nat) : Memo :=
  if s.isLive key id then
    { s.delete key with totalWeight := s.totalWeight.sub (s.entry id).weight }
  else s

def reweigh (s : Memo) (key : String) (id : Nat) (weight : Js.Num) : Memo :=
  if s.isLive key id then
    { s.update id fun e => { e with weight } with
      totalWeight := s.totalWeight.add (weight.sub (s.entry id).weight) }
  else s

variable (options : MemoOptions)

/-- `cache.size > options.maxEntries || totalWeight > options.maxWeight`. -/
def exceeds (s : Memo) : Bool :=
  options.maxEntries.lt (.fin s.cache.length) || options.maxWeight.lt s.totalWeight

/-- The loop of `evict`, at most `n` times. -/
def evictLoop : Nat → Memo → Memo
  | 0, s => s
  | n + 1, s =>
      if s.exceeds options then
        match s.cache with
        | [] => s
        | (key, id) :: _ => evictLoop n (s.unlink key id)
      else s

/-- Every round unlinks one entry. -/
def evict (s : Memo) : Memo := evictLoop options s.cache.length s

/-- The part of `memo` after the lookup; `starts` says that `load()` does not throw. -/
def load (s : Memo) (key : String) (ttlMs : Option Js.Num) (starts : Bool) : Memo :=
  if starts then
    let id := s.entries.length
    let entry : Entry := { key, ttlMs, pending := true, expires := .fin 0, weight := .fin 1 }
    let s := { s with entries := s.entries ++ [entry] }
    (s.link key id).evict options
  else s

def memo (s : Memo) (key : String) (ttlMs : Option Js.Num) (starts : Bool) : Memo :=
  match s.get key with
  | none => s.load options key ttlMs starts
  | some hit =>
      if (s.entry hit).pending || s.now.lt (s.entry hit).expires then
        (s.delete key).set key hit
      else (s.unlink key hit).load options key ttlMs starts

/-- The load of entry `id` succeeds. -/
def resolve (s : Memo) (id : Nat) (call : WeightCall) : Memo :=
  let entry := s.entry id
  let s := s.update id fun e => { e with pending := false }
  if ¬ s.isLive entry.key id then s
  else
    let ttl := entry.ttlMs.getD options.ttlMs
    if ttl.le (.fin 0) || options.maxWeight.lt call.weight then s.unlink entry.key id
    else
      ((s.reweigh entry.key id call.weight).update id fun e =>
        { e with expires := s.now.add ttl }).evict options

/-- The load of entry `id` fails. -/
def reject (s : Memo) (id : Nat) (cacheable : Bool) : Memo :=
  let entry := s.entry id
  let s := s.update id fun e => { e with pending := false }
  if ¬ s.isLive entry.key id then s
  else if (Js.Num.fin 0).lt options.negativeTtlMs && cacheable then
    s.update id fun e => { e with expires := s.now.add options.negativeTtlMs }
  else s.unlink entry.key id

def invalidate (s : Memo) (key : String) : Memo :=
  match s.get key with
  | some id => s.unlink key id
  | none => s

end Memo

inductive MemoAct where
  | memo (key : String) (ttlMs : Option Js.Num) (starts : Bool)
  | resolve (id : Nat) (call : WeightCall)
  | reject (id : Nat) (cacheable : Bool)
  | invalidate (key : String)
  | clock (now : Js.Num)

/-- The memo with its callers. A load settles once. -/
abbrev memoMachine (options : MemoOptions) : Machine where
  State := Memo
  Act := MemoAct
  step s
    | .memo key ttlMs starts => some (s.memo options key ttlMs starts)
    | .resolve id call => if (s.entry id).pending then some (s.resolve options id call) else none
    | .reject id cacheable =>
        if (s.entry id).pending then some (s.reject options id cacheable) else none
    | .invalidate key => some (s.invalidate key)
    | .clock now => some { s with now }

end Upstream
