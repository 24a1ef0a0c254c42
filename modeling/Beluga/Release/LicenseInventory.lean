import Beluga.Release.Versions
import Mathlib.Data.List.Dedup
import Mathlib.Data.List.Sort

/-! # The license inventory of a release

The rows of `VERSIONS.md` with what the policy says of their licenses, as JSON and as Markdown. -/

namespace Release

open Py

namespace LicenseInventory

/-- What is approved, the marker of own projects, and the class of each license. -/
structure Policy where
  approved : List Value
  marker : String
  classes : Entries

def policyOf (approved marker classes : Value) : Try Policy :=
  match approved, marker, classes with
  | .list approved, .str marker, .dict classes =>
      if classes.all fun entry => LicensePolicy.isText entry.2 then do
        let approved ← approved.mapM hashed
        .ok ⟨approved, marker, classes⟩
      else .error (.invalid
        "license_classifications must map license names to non-empty classifications")
  | _, _, _ => .error (.invalid
      "policy requires approved_licenses, own_project_marker.value, and license_classifications")

def load_policy (tools : Tools) (path : File) : Try Policy := do
  let text ← path.read_text
  let data ← tools.safe_load text
  match data with
  | .dict d =>
      let marker := match Py.get d "own_project_marker" with
        | .dict own => Py.get own "value"
        | _ => .none
      policyOf (Py.get d "approved_licenses") marker (Py.get d "license_classifications")
  | _ => .error (.invalid "license policy must be a mapping")

/-- An item of the inventory. -/
structure Item where
  component : String
  version : String
  image_chart : String
  license : String
  license_policy_classification : String
  notice_obligation : String
  named_in_notice : Bool

def Item.value (x : Item) : Value :=
  .dict [("component", .str x.component), ("version", .str x.version),
    ("image_chart", .str x.image_chart), ("license", .str x.license),
    ("license_policy_classification", .str x.license_policy_classification),
    ("notice_obligation", .str x.notice_obligation), ("named_in_notice", .bool x.named_in_notice)]

/-- `classes[license]`. -/
def classOf (classes : Entries) (license : String) : Option String :=
  match classes.lookup license with
  | some (.str s) => some s
  | _ => none

/-- `list(dict.fromkeys(xs))`. -/
def unique (xs : List String) : List String := xs.reverse.dedup.reverse

def reprStrings (tools : Tools) (xs : List String) : String := (Value.list (xs.map .str)).repr tools.py

/-- The classes of the licenses of a row that is not an own project. -/
def componentClasses (tools : Tools) (policy : Policy) (component : String) (parts : List String) :
    Try (List String) := do
  let missing_classes := parts.filter fun part => (classOf policy.classes part).isNone
  demand missing_classes.isEmpty ("no license classification for " ++ component ++ ": " ++
    reprStrings tools missing_classes)
  let unapproved := parts.filter fun part => !contains policy.approved (.str part)
  demand unapproved.isEmpty ("unapproved license(s) for " ++ component ++ ": " ++
    reprStrings tools unapproved)
  .ok (parts.filterMap (classOf policy.classes))

def classificationOf (classes : List String) : String :=
  if 1 < classes.length then "dual (" ++ "; ".intercalate (unique classes) ++ ")"
  else classes.headD ""

def obligationOf (classification : String) (classes : List String) : String :=
  if classification = "own-project" then "none (Beluga-owned)"
  else if classes.any fun value => hasText "weak-copyleft" value || hasText "strong-copyleft" value then
    "license text + source availability"
  else "attribution + license text"

def itemOf (tools : Tools) (policy : Policy) (notice_names : List String)
    (row : LicensePolicy.Row) : Try Item := do
  let own := beginsWith policy.marker row.license_cell
  let classes ←
    if own then .ok []
    else componentClasses tools policy row.component (LicensePolicy.partsOf row.license_cell)
  let classification := if own then "own-project" else classificationOf classes
  let named := notice_names.contains row.component || (notice_names.map
    Notice.strip_parenthetical).contains (Notice.strip_parenthetical row.component)
  .ok ⟨row.component, row.version, row.image, row.license_cell, classification,
    obligationOf classification classes, named⟩

/-- `sorted(inventory, key=lambda item: item["component"].casefold())`. -/
def sortedItems (tools : Tools) (items : List Item) : List Item :=
  items.insertionSort fun x y => tools.casefold x.component ≤ tools.casefold y.component

def build_inventory (tools : Tools) (versions_path notice_path policy_path : File) :
    Try (List Item) := do
  let policy ← load_policy tools policy_path
  let versions ← LicensePolicy.parse_versions_md versions_path
  let notice ← Notice.parse_notice tools notice_path
  let inventory ← versions.mapM (itemOf tools policy (notice.1 ++ notice.2.1 ++ notice.2.2))
  .ok (sortedItems tools inventory)

/-- `value.replace("|", "\\|")`. -/
def escapePipes (value : String) : String :=
  String.ofList (value.toList.flatMap fun c => if c = '|' then ['\\', '|'] else [c])

def lineOf (x : Item) : String :=
  "| " ++ " | ".intercalate ([x.component, x.version, x.image_chart, x.license,
    x.license_policy_classification, x.notice_obligation,
    if x.named_in_notice then "Yes" else "No"].map escapePipes) ++ " |"

def render_markdown (inventory : List Item) : String :=
  joinLines (["# Release Third-Party License Inventory", "",
    "Generated from `VERSIONS.md`, `NOTICE`, and `policies/license-policy.yaml`.", "",
    "| Component | Version | Image / chart | License | Policy classification | NOTICE obligation | Named in NOTICE |",
    "|---|---|---|---|---|---|---|"] ++ inventory.map lineOf)

end LicenseInventory

end Release
