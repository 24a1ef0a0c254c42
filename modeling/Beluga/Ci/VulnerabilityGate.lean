import Beluga.Js.Values

/-! # The vulnerability gate

The report of `npm audit` against the exceptions of the policy: each entry of the report gives its
findings, and a finding of a failing severity needs an exception that has not expired. -/

namespace Ci

open Js

/-- `toLowerCase`, and the time that `new Date` reads from a text. -/
structure Runtime where
  lower : String → String
  lower_lower : ∀ s, lower (lower s) = lower s
  getTime : String → Option ℤ

structure Exception where
  advisoryId : String
  package : String
  reason : String
  reviewedBy : String
  expiresAt : String

structure Finding where
  package : String
  severity : String
  title : Value
  url : Value
  advisoryIds : List String
  range : Value

structure AuditResult where
  ok : Bool
  prodDepsCount : Value
  vulnCounts : Value
  /-- With the reason of the failure, where an exception has expired. -/
  unsuppressedFindings : List (Finding × Option String)
  suppressedFindings : List (Finding × Exception)
  expiredExceptions : List (Exception × String)

/-! ## Identifiers of an advisory -/

def idChar (c : Char) : Bool := c.isAlphanum || c = '-'

/-- `/GHSA-[a-z0-9-]+/i` at the beginning of a text. -/
def ghsaAt (cs : List Char) : Option String :=
  let run := (cs.drop 5).takeWhile idChar
  if (cs.take 5).map Char.toUpper = ['G', 'H', 'S', 'A', '-'] ∧ run ≠ [] then
    some (String.ofList (cs.take 5 ++ run))
  else none

/-- The first match of `/GHSA-[a-z0-9-]+/i`. -/
def matchGhsa : List Char → Option String
  | [] => none
  | c :: cs => (ghsaAt (c :: cs)).or (matchGhsa cs)

def urlIds : Option Value → List String
  | some (.str url) => (matchGhsa url.toList).toList
  | _ => []

def sourceIds : Option Value → Try (List String)
  | none | some .null => .ok []
  | some source => do
      let id ← source.text
      .ok [id]

def ownIds : Option Value → List String
  | some (.str id) => [id]
  | some (.num id) => [id.toText]
  | _ => []

def extractAdvisoryIds (viaItem : Value) : Try (List String) :=
  if viaItem.isObject then do
    let source ← sourceIds (viaItem.member "source")
    .ok (urlIds (viaItem.member "url") ++ source ++ ownIds (viaItem.member "id"))
  else .ok []

/-! ## Findings -/

section Evaluate

variable (rt : Runtime)

/-- `(value || default).toLowerCase()`. -/
def lowerOr (v : Option Value) (default : String) : Try String :=
  match orElse v (.str default) with
  | .str s => .ok (rt.lower s)
  | _ => .error .typeError

def viasOf (vuln : Value) : List Value :=
  match vuln.member "via" with
  | some (.arr vias) => vias
  | _ => []

def advisoryObjects (vuln : Value) : List Value := (viasOf vuln).filter Value.isObject

def advisoryFinding (pkgName severity : String) (vuln adv : Value) : Try Finding := do
  let advIds ← extractAdvisoryIds adv
  let own ← lowerOr rt (adv.member "severity") severity
  .ok
    { package := pkgName
      severity := own
      title := orElse (adv.member "title") (orElse (vuln.member "name") (.str pkgName))
      url := orElse (adv.member "url") (.str "")
      advisoryIds := advIds
      range := orElse (adv.member "range") (orElse (vuln.member "range") (.str "")) }

def chainFinding (pkgName severity : String) (vuln : Value) : Try Finding := do
  let vias ← Value.join ", " (viasOf vuln)
  .ok
    { package := pkgName
      severity := severity
      title := .str ("Vulnerable dependency in chain (" ++ vias ++ ")")
      url := .str ""
      advisoryIds := []
      range := orElse (vuln.member "range") (.str "") }

def findingsForPkg (pkgName : String) (vuln : Value) : Try (List Finding) := do
  let own ← vuln.get "severity"
  let severity ← lowerOr rt own ""
  if (advisoryObjects vuln).isEmpty then do
    let finding ← chainFinding pkgName severity vuln
    .ok [finding]
  else (advisoryObjects vuln).mapM (advisoryFinding rt pkgName severity vuln)

/-! ## Exceptions -/

/-- `new Date(exception.expiresAt).getTime() <= now.getTime()`. -/
def expired (now : ℤ) (exception : Exception) : Bool :=
  (rt.getTime exception.expiresAt).any fun time => time ≤ now

def isHighOrCritical (severity : String) : Bool := severity = "high" || severity = "critical"

def matchesFinding (finding : Finding) (exc : Exception) : Bool :=
  exc.package = finding.package && (exc.advisoryId = "*" ||
    finding.advisoryIds.any fun id => rt.lower id = rt.lower exc.advisoryId)

/-- The findings that no exception suppresses, or only an expired one. -/
def unsuppressed (exceptions : List Exception) (now : ℤ) (finding : Finding) :
    Option (Finding × Option String) :=
  match exceptions.find? (matchesFinding rt finding) with
  | none => some (finding, none)
  | some exc =>
      if expired rt now exc then some (finding, some ("Exception EXPIRED on " ++ exc.expiresAt))
      else none

def suppressed (exceptions : List Exception) (now : ℤ) (finding : Finding) :
    Option (Finding × Exception) :=
  match exceptions.find? (matchesFinding rt finding) with
  | none => none
  | some exc => if expired rt now exc then none else some (finding, exc)

def expiredReason (exception : Exception) : String :=
  "Policy exception for " ++ exception.package ++ " (" ++ exception.advisoryId ++ ") EXPIRED on " ++
    exception.expiresAt

/-! ## The report -/

def noCounts : Value :=
  .obj [("info", .num (.fin 0)), ("low", .num (.fin 0)), ("moderate", .num (.fin 0)),
    ("high", .num (.fin 0)), ("critical", .num (.fin 0)), ("total", .num (.fin 0))]

/-- `meta.dependencies?.prod ?? 'unknown'`. -/
def prodDeps (metadata : Value) : Value :=
  match (metadata.member "dependencies").bind (Value.member "prod") with
  | none | some .null => .str "unknown"
  | some count => count

def evaluateAudit (report : Value) (exceptions : List Exception) (now : ℤ) : Try AuditResult := do
  let found ← report.get "metadata"
  let metadata := orElse found (.obj [])
  let expiredExceptions := (exceptions.filter (expired rt now)).map fun e => (e, expiredReason e)
  let vulnerabilities := orElse (report.member "vulnerabilities") (.obj [])
  let lists ← vulnerabilities.entries.mapM fun entry => findingsForPkg rt entry.1 entry.2
  let failing := lists.flatten.filter fun finding => isHighOrCritical finding.severity
  let unsuppressedFindings := failing.filterMap (unsuppressed rt exceptions now)
  .ok
    { ok := unsuppressedFindings.isEmpty && expiredExceptions.isEmpty
      prodDepsCount := prodDeps metadata
      vulnCounts := orElse (metadata.member "vulnerabilities") noCounts
      unsuppressedFindings := unsuppressedFindings
      suppressedFindings := failing.filterMap (suppressed rt exceptions now)
      expiredExceptions := expiredExceptions }

end Evaluate

end Ci
