import Beluga.Js.Strings
import Beluga.Js.Values
import Beluga.Text.Split
import Beluga.Text.Words

/-! # The license policy

The licenses that the installed production packages declare, against the approved ones. -/

namespace Ci

open Js

open Text (trim split includes)

/-! ## Declared licenses -/

/-- `s.trim()`, where anything is left of it. -/
def trimmed (s : String) : Option String :=
  if trim s.toList = [] then none else some (String.ofList (trim s.toList))

def declaredType (item : Value) : Option String :=
  match item.member "type" with
  | some (.str type) => trimmed type
  | _ => none

def declaredItem : Value → Option String
  | .str item => trimmed item
  | item => declaredType item

/-- The licenses of the older form. -/
def declaredItems : Option Value → List String
  | some (.arr items) => items.filterMap declaredItem
  | _ => []

def extractDeclaredLicenses (pkgJson : Value) : Try (List String) := do
  let license ← pkgJson.get "license"
  let items := declaredItems (pkgJson.member "licenses")
  match license with
  | some (.str license) =>
      match trimmed license with
      | some license => .ok [license]
      | none => .ok items
  | some (.obj fields) =>
      match fields.lookup "type" with
      | some (.str type) => .ok (trimmed type).toList
      | _ => .ok items
  | _ => .ok items

/-! ## Approved licenses -/

def dropOpen : List Char → List Char
  | '(' :: cs => cs
  | cs => cs

def dropClose (cs : List Char) : List Char :=
  if cs.getLast? = some ')' then cs.dropLast else cs

/-- `text.replace(/^\(|\)$/g, '')`. -/
def stripParens (cs : List Char) : List Char := dropClose (dropOpen cs)

def OR : List Char := " OR ".toList

def AND : List Char := " AND ".toList

/-- `approvedSet.has(part.trim().replace(/^\(|\)$/g, ''))`. -/
def partApproved (approvedSet : List String) (part : List Char) : Bool :=
  String.ofList (stripParens (trim part)) ∈ approvedSet

def isLicenseApproved (licenseStr : String) (approvedSet : List String) : Bool :=
  if licenseStr ∈ approvedSet then true
  else
    let clean := trim (stripParens licenseStr.toList)
    if includes OR clean then (split OR clean).any (partApproved approvedSet)
    else if includes AND clean then (split AND clean).all (partApproved approvedSet)
    else false

/-! ## The check of the packages -/

structure LicenseException where
  package : String
  reason : String
  reviewedBy : String
  expiresAt : String

inductive PolicyStatus where
  | missing_package
  | invalid_package_json
  | missing_license
  | approved
  | expired_exception
  | approved_exception
  | unapproved
  deriving DecidableEq

structure InventoryItem where
  package : String
  version : Value
  licenses : List String
  policyStatus : PolicyStatus

structure LicenseReport where
  diagnostics : List String
  inventory : List InventoryItem

/-- `JSON.stringify(texts)`. -/
def stringifyAll (texts : List String) : String := "[" ++ ",".intercalate (texts.map stringify) ++ "]"

/-- What is installed, `JSON.parse(fs.readFileSync(path, 'utf8'))` with the message of its error, and
the time that `new Date` reads from a text. -/
structure Installation where
  installedMap : List (String × String)
  readJson : String → Except String Value
  getTime : String → Option ℤ

section Check

variable (inst : Installation) (approvedSet : List String) (exceptions : List LicenseException)
  (now : ℤ)

/-- The verdict on the licenses that no reader approved. -/
def judgeUnapproved (pkgName : String) (unapproved : List String) : String × PolicyStatus :=
  match exceptions.find? fun e => e.package = pkgName with
  | some e =>
      if (inst.getTime e.expiresAt).any fun time => time ≤ now then
        ("FAIL: unapproved license " ++ stringifyAll unapproved ++ " - exception EXPIRED on " ++
          e.expiresAt, .expired_exception)
      else ("OK (reviewed exception by " ++ e.reviewedBy ++ ", expires " ++ e.expiresAt ++ ": " ++
        e.reason ++ ")", .approved_exception)
  | none => ("FAIL: unapproved license " ++ stringifyAll unapproved, .unapproved)

def judge (pkgName : String) (declaredLicenses : List String) : String × PolicyStatus :=
  if declaredLicenses = [] then ("FAIL: missing or unparseable license", .missing_license)
  else
    let unapproved := declaredLicenses.filter fun lic => !isLicenseApproved lic approvedSet
    if unapproved = [] then ("OK (" ++ ", ".intercalate declaredLicenses ++ ")", .approved)
    else judgeUnapproved inst exceptions now pkgName unapproved

/-- The package that is installed at a path. -/
def checkInstalled (pkgName : String) (pkgJson : Value) : Try (String × InventoryItem) := do
  let found ← pkgJson.get "version"
  let version := orElse found (.str "unknown")
  let declaredLicenses ← extractDeclaredLicenses pkgJson
  let shown ← version.text
  let verdict := judge inst approvedSet exceptions now pkgName declaredLicenses
  .ok ("[" ++ pkgName ++ "@" ++ shown ++ "] " ++ verdict.1,
    { package := pkgName, version := version, licenses := declaredLicenses, policyStatus := verdict.2 })

def checkPackage (pkgName : String) : Try (String × InventoryItem) :=
  match (inst.installedMap.lookup pkgName).filter (· ≠ "") with
  | none => .ok ("[" ++ pkgName ++ "] FAIL: package not found in node_modules",
      { package := pkgName, version := .str "unknown", licenses := [],
        policyStatus := .missing_package })
  | some pkgJsonPath =>
      match inst.readJson pkgJsonPath with
      | .error message => .ok ("[" ++ pkgName ++ "] FAIL: invalid package.json: " ++ message,
          { package := pkgName, version := .str "unknown", licenses := [],
            policyStatus := .invalid_package_json })
      | .ok pkgJson => checkInstalled inst approvedSet exceptions now pkgName pkgJson

def checkLicenses (prodPkgs : List String) : Try LicenseReport := do
  let checked ← (sort prodPkgs).mapM (checkPackage inst approvedSet exceptions now)
  .ok { diagnostics := checked.map Prod.fst, inventory := checked.map Prod.snd }

end Check

end Ci
