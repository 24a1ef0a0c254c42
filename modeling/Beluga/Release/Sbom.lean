import Beluga.Release.Images
import Beluga.Release.Versions

/-! # The bill of materials of a release

A CycloneDX document of the rows of `VERSIONS.md` and of the images of the rendered charts, and
what a document has to look like. -/

namespace Release

open Py

namespace Sbom

def SPEC_VERSION : String := "1.5"

/-- The component of the row with this index. -/
def versionsComponent (marker : String) (idx : ℕ) (row : LicensePolicy.Row) : Value :=
  .dict ([("type", .str "application"),
      ("bom-ref", .str ("versions-md:" ++ toString idx ++ ":" ++ row.component)),
      ("name", .str row.component),
      ("properties", .list [property "beluga:image-or-chart" row.image,
        property "beluga:source" "VERSIONS.md"])] ++
    (if row.version ≠ "" ∧ row.version ≠ "-" then [("version", .str row.version)] else []) ++
    if beginsWith marker row.license_cell then []
    else [("licenses", .list ((LicensePolicy.partsOf row.license_cell).map fun part =>
      .dict [("license", .dict [("name", .str part)])]))])

def versions_components (tools : Tools) (versions_md policy_yaml : File) : Try (List Value) := do
  let policy ← LicensePolicy.load_policy tools policy_yaml
  let rows ← LicensePolicy.parse_versions_md versions_md
  demand (!rows.isEmpty) ("no component rows parsed from " ++ versions_md.path)
  .ok (rows.mapIdx (versionsComponent policy.2))

/-! ## Documents -/

/-- `{key(x): value(x) for x in xs}.get(name)`: the last pair stays. -/
def lastOf (pairs : List (Value × Value)) (name : String) : Option Value :=
  (pairs.reverse.find? fun pair => pair.1.eq (.str name)).map fun pair => pair.2

/-- `[0-9a-f]`. -/
def hexLetter (c : Char) : Bool := c.isDigit || ('a' ≤ c && c ≤ 'f')

/-- `re.fullmatch(r"[0-9a-f]{40}", text)`. -/
def isCommit (text : String) : Bool := text.toList.length = 40 && text.toList.all hexLetter

/-- The reference of a component, with those before it. -/
def componentRef (tools : Tools) (refs : List Value) (comp : Value) : Try Value := do
  let malformed := "component missing name/type/bom-ref: " ++ comp.repr tools.py
  match comp with
  | .dict c => do
      demand ((Py.get c "name").truthy && (Py.get c "type").truthy && (Py.get c "bom-ref").truthy)
        malformed
      let ref ← hashed (Py.get c "bom-ref")
      demand (!contains refs ref) ("duplicate bom-ref " ++ ref.text tools.py)
      .ok ref
  | _ => .error (.invalid malformed)

/-- The components in turn, after those with these references. -/
def checkComponents (tools : Tools) : List Value → List Value → Try Unit
  | _, [] => .ok ()
  | refs, comp :: rest => do
      let ref ← componentRef tools refs comp
      checkComponents tools (ref :: refs) rest

/-- `(p.get("name"), p.get("value"))`. -/
def propertyPair (p : Value) : Try (Value × Value) := do
  let d ← entries p
  let name ← hashed (Py.get d "name")
  .ok (name, Py.get d "value")

/-- `{p.get("name"): p.get("value") for p in bom.get("metadata", {}).get("properties", [])}`. -/
def propertiesOf (bom : Entries) : Try (List (Value × Value)) := do
  let metadata ← entries (getD bom "metadata" (.dict []))
  let properties ← iter (getD metadata "properties" (.list []))
  properties.mapM propertyPair

def validate_bom (tools : Tools) (bom : Value) : Try Unit :=
  match bom with
  | .dict d => do
      demand ((Py.get d "bomFormat").eq (.str "CycloneDX")) "not a CycloneDX document"
      match Py.get d "specVersion", Py.get d "components" with
      | .str _, .list components => do
          demand (!components.isEmpty) "SBOM has no components"
          checkComponents tools [] components
          let props ← propertiesOf d
          demand (isCommit (((lastOf props "beluga:source-commit").getD (.str "")).text tools.py))
            "metadata lacks a 40-hex beluga:source-commit"
      | _, _ => .error (.invalid "missing specVersion/components")
  | _ => .error (.invalid "not a CycloneDX document")

def serialNumber (tools : Tools) (version commit : String) (components : List Value) : String :=
  "urn:uuid:" ++ tools.uuid5 ("beluga:" ++ version ++ ":" ++ commit ++ ":" ++
    tools.dumps (.list components))

def metadataOf (version commit : String) (timestamp : Option String) : Entries :=
  [("component", .dict [("type", .str "application"), ("bom-ref", .str "beluga"),
      ("name", .str "beluga"), ("version", .str version)]),
    ("properties", .list [property "beluga:source-commit" commit])] ++
  match timestamp with
  | some time => if time = "" then [] else [("timestamp", .str time)]
  | none => []

def bomOf (tools : Tools) (version commit : String) (timestamp : Option String)
    (components : List Value) : Entries :=
  [("bomFormat", .str "CycloneDX"), ("specVersion", .str SPEC_VERSION), ("version", .int 1),
    ("serialNumber", .str (serialNumber tools version commit components)),
    ("metadata", .dict (metadataOf version commit timestamp)), ("components", .list components)]

/-- `c["bom-ref"]`. -/
def refOf (comp : Value) : Try Value := do
  let ref ← item comp "bom-ref"
  hashed ref

/-- `len(refs) != len(set(refs))`. -/
def repeated : List Value → Bool
  | [] => false
  | ref :: refs => contains refs ref || repeated refs

def build_bom (tools : Tools) (version commit : String) (versions_md policy_yaml : File)
    (rendered : String) (timestamp : Option String) : Try Value := do
  let versions ← versions_components tools versions_md policy_yaml
  let images ← image_components tools.py rendered
  let refs ← (versions ++ images).mapM refOf
  demand (!repeated refs) "duplicate bom-ref in generated components"
  let bom := .dict (bomOf tools version commit timestamp (versions ++ images))
  validate_bom tools bom
  .ok bom

end Sbom

end Release
