import Beluga.Apisix.RouteEntries
import Mathlib.Data.List.Sort
import Mathlib.Data.String.Basic

/-! # The rate limit ratchet

Routes are kept in dicts by their identity: within a render the last one of an identity stays, and
of several renders the first one, or the first one that is not compliant. What is kept is audited
against a baseline. -/

namespace Apisix

open Py

/-! ## Routes -/

inductive Classification where
  | ip_restricted
  | rate_limited
  | unprotected_external
  deriving DecidableEq

structure Route where
  entry : Entry
  compliant : Bool
  classification : Classification
  reason : String

abbrev Routes := Dict String Route

section Collect

variable (rt : Runtime)

def routeOf (entry : Entry) : Route :=
  let lead := (entry.entry_name.map fun name => shown rt name ++ ": ").getD ""
  let ip := check_ip_restriction rt entry.effective
  if ip.1 then ⟨entry, true, .ip_restricted, lead ++ ip.2⟩
  else
    let limited := check_rate_limiting rt entry.effective
    ⟨entry, limited.1, if limited.1 then .rate_limited else .unprotected_external, lead ++ limited.2⟩

/-- `routes[identity] = ...` for each entry in turn. -/
def routesOf (list : List Entry) : Routes := dictOf (list.map fun e => (e.identity, routeOf rt e))

/-- The routes of a document. -/
def extractRoutes (g : Globals) (doc : Entries) : Try Routes := do
  let list ← docEntries rt g doc
  .ok (routesOf rt list)

/-- `routes.update(...)` for each document in turn. -/
def updateAll (parts : List Routes) : Routes := parts.foldl (fun routes part => part ∪ routes) ∅

def extract_routes_from_docs (g : Globals) (docs : List Entries) : Try Routes := do
  let parts ← docs.mapM (extractRoutes rt g)
  .ok (updateAll parts)

/-- A route of a render that others came before. -/
def keepRoute (all : Routes) (identity : String) (route : Route) : Routes :=
  match all.lookup identity with
  | some old => if old.compliant && !route.compliant then all.insert identity route else all
  | none => all.insert identity route

def keepRoutes (all part : Routes) : Routes :=
  part.entries.foldl (fun all item => keepRoute all item.1 item.2) all

/-- `render_all_routes`, from the documents of each render. -/
def render_all_routes (combos : List (List Entries)) : Try Routes := do
  let g ← extract_globals rt combos.flatten
  let parts ← combos.mapM (extract_routes_from_docs rt g)
  .ok (parts.foldl keepRoutes ∅)

end Collect

/-! ## The audit -/

structure BaselineEntry where
  issue : String
  reason : String
  hosts : List String
  paths : List String
  plugins : List String

abbrev Baseline := Dict String BaselineEntry

structure Report where
  errors : List String
  notices : List String

/-- `sorted(d.items())`. -/
def sortedItems {α : Type} (d : Dict String α) : List (String × α) :=
  (d.entries.map fun item => (item.1, item.2)).insertionSort fun a b => a.1 ≤ b.1

/-- `set(values) == set(names)`. -/
def sameSet (values : List Value) (names : List String) : Bool :=
  (values.all fun v => names.any fun name => v.eq (.str name)) &&
    names.all fun name => contains values (.str name)

/-- The items of a field as a set. -/
def setOf (v : Value) : Try (List Value) := do
  let items ← iter v
  items.mapM hashed

section Audit

variable (rt : Runtime)

/-- What has changed of a field, if it has. -/
def fieldDiff (label : String) (got : Value) (expected : List String) : Try (List String) := do
  let items ← setOf got
  if sameSet items expected then .ok []
  else do
    let want ← rt.sorted (expected.map .str)
    let found ← rt.sorted items
    .ok [label ++ " changed (expected " ++ (Value.list want).text rt.py ++ ", got " ++
      (Value.list found).text rt.py ++ ")"]

def diffsOf (e : Entry) (base : BaselineEntry) : Try (List String) := do
  let hosts ← fieldDiff rt "hosts" e.hosts base.hosts
  let paths ← fieldDiff rt "paths" e.paths base.paths
  let plugins ← fieldDiff rt "plugin set" (.list e.plugins) base.plugins
  .ok (hosts ++ paths ++ plugins)

def violationReport (baseline : Baseline) (item : String × Route) : Try Report :=
  match baseline.lookup item.1 with
  | none => .ok ⟨["NEW VIOLATION: route '" ++ item.1 ++
      "' lacks required rate limiting and is not in frozen baseline: " ++ item.2.reason], []⟩
  | some base => do
      let diffs ← diffsOf rt item.2.entry base
      if diffs.isEmpty then .ok ⟨[], ["BASELINE VIOLATION: " ++ item.1 ++ " (" ++ base.issue ++ "): " ++
        item.2.reason]⟩
      else .ok ⟨["BASELINE DRIFT: route '" ++ item.1 ++
        "' attributes modified while remaining non-compliant: " ++ "; ".intercalate diffs], []⟩

def staleErrors (rendered_routes : Routes) (identity : String) : List String :=
  match rendered_routes.lookup identity with
  | none => ["STALE BASELINE: route '" ++ identity ++
      "' is in baseline but no longer exists in rendered charts; remove from baseline"]
  | some route =>
      if route.compliant then ["STALE BASELINE: route '" ++ identity ++ "' is now compliant (" ++
        route.reason ++ "); ratchet requires removing it from baseline"]
      else []

def audit_routes (rendered_routes : Routes) (baseline : Baseline) : Try Report :=
  let items := sortedItems rendered_routes
  if items.isEmpty then .ok
    ⟨["fail closed: zero relevant APISIX route objects found in rendered manifests"], []⟩
  else do
    let reports ← (items.filter fun item => !item.2.compliant).mapM (violationReport rt baseline)
    let stale := (sortedItems baseline).flatMap fun item => staleErrors rendered_routes item.1
    .ok ⟨reports.flatMap (·.errors) ++ stale, reports.flatMap (·.notices)⟩

/-- The gate, from the documents of each render. -/
def gate (combos : List (List Entries)) (baseline : Baseline) : Try Report := do
  let rendered_routes ← render_all_routes rt combos
  audit_routes rt rendered_routes baseline

end Audit

end Apisix
