import Beluga.Py.Dict
import Beluga.Py.JsonText
import Beluga.Py.Lines
import Beluga.Release.AssetInventory
import Beluga.Release.LicenseInventory
import Beluga.Release.Sbom
import Mathlib

/-! # The evidence bundle of a release

`build` writes the bundle from a checkout; `verify` compares a bundle with itself and with a
checkout. A directory is the bytes of its files, none of which is a symbolic link. -/

namespace Release

open Py

namespace EvidenceBundle

abbrev Bundle := Py.Dict String ByteArray

def SUMS : String := "SHA256SUMS"

def MANIFEST : String := "manifest.json"

def SBOM : String := "sbom.cdx.json"

def INV_JSON : String := "release-license-inventory.json"

def INV_MD : String := "release-license-inventory.md"

def ASSET_JSON : String := "platform-asset-inventory.json"

def ASSET_MD : String := "platform-asset-inventory.md"

def NOTICE_NAME : String := "NOTICE"

def LICENSE_NAME : String := "LICENSE"

def REQUIRED : List String :=
  [MANIFEST, SBOM, INV_JSON, INV_MD, ASSET_JSON, ASSET_MD, NOTICE_NAME, LICENSE_NAME]

/-- `sorted(names)`. -/
def sortedNames (names : List String) : List String := names.insertionSort (· ≤ ·)

/-- `[0-9A-Za-z.]`. -/
def versionLetter (c : Char) : Bool :=
  Text.Regex.digit c || ('A' ≤ c && c ≤ 'Z') || ('a' ≤ c && c ≤ 'z') || c = '.'

/-- `v[0-9]+\.[0-9]+\.[0-9]+(?:-[0-9A-Za-z.]+)?`. -/
def VERSION_RE : Text.Regex :=
  let number := Text.Regex.plus (.char Text.Regex.digit)
  let dot := Text.Regex.char (· = '.')
  .seq (.char (· = 'v')) (.cat [number, dot, number, dot, number,
    .opt (.seq (.char (· = '-')) (.plus (.char versionLetter)))])

/-- The files of a checkout. -/
structure Inputs where
  notice : File
  license_file : File
  versions_md : File
  policy : File
  asset_md : File

section Bundle

variable (tools : Tools)

def check_identity (version commit : String) : Try Unit := do
  demand (VERSION_RE.test version)
    ("version " ++ tools.py.quote version ++ " is not vMAJOR.MINOR.PATCH")
  demand (Sbom.isCommit commit) ("commit " ++ tools.py.quote commit ++ " is not a 40-hex sha")

/-! ## The builder -/

/-- A value as a file. -/
def jsonFile (v : Value) : ByteArray := write_text (Json.dumps tools.py v ++ "\n")

/-- What the manifest says. All its letters are ASCII, which `ensure_ascii` leaves as they are. -/
def manifestOf (version commit : String) : Value :=
  .dict [("schema", .str "beluga-release-evidence/v1"), ("version", .str version),
    ("commit", .str commit), ("sbom", .str SBOM),
    ("license_inventory", .list [.str INV_JSON, .str INV_MD]),
    ("asset_inventory", .list [.str ASSET_JSON, .str ASSET_MD]),
    ("notice", .list [.str NOTICE_NAME, .str LICENSE_NAME])]

/-- The line of a file in `SHA256SUMS`. -/
def sumLine (digest name : String) : String := digest ++ "  " ++ name

def sumOf (files : Bundle) (name : String) : Try String :=
  match files.lookup name with
  | some data => .ok (sumLine (tools.sha256 data) name)
  | none => .error .raised

/-- The files with their checksums. -/
def sealed (files : Bundle) : Try Bundle := do
  let lines ← (sortedNames REQUIRED).mapM (sumOf tools files)
  .ok (files.insert SUMS (write_text (joinLines lines)))

/-- What is left in an empty directory; `rendered` and `asset_inventory` are given, or what helm and
the generator of the inventory make. -/
def build (version commit : String) (inputs : Inputs) (rendered : String)
    (asset_inventory : Entries) : Try Bundle := do
  check_identity tools version commit
  let inventory ← LicenseInventory.build_inventory tools inputs.versions_md inputs.notice
    inputs.policy
  let bom ← Sbom.build_bom tools version commit inputs.versions_md inputs.policy rendered none
  let notice ← inputs.notice.read_bytes
  let license ← inputs.license_file.read_bytes
  let markdown ← AssetInventory.render_markdown_en tools.py asset_inventory
  sealed tools (Py.dictOf [(NOTICE_NAME, notice), (LICENSE_NAME, license),
    (SBOM, jsonFile tools bom),
    (INV_JSON, jsonFile tools (.list (inventory.map LicenseInventory.Item.value))),
    (INV_MD, write_text (LicenseInventory.render_markdown inventory)),
    (ASSET_JSON, jsonFile tools (.dict asset_inventory)), (ASSET_MD, write_text markdown),
    (MANIFEST, jsonFile tools (manifestOf version commit))])

/-! ## The checksums -/

/-- `[A-Za-z0-9._-]`. -/
def nameLetter (c : Char) : Bool := versionLetter c || c = '_' || c = '-'

/-- The groups of `([0-9a-f]{64})  ([A-Za-z0-9._-]+)`. -/
def readSum (line : String) : Option (String × String) :=
  let digest := line.toList.take 64
  let name := line.toList.drop 66
  if digest.length = 64 ∧ digest.all Sbom.hexLetter = true ∧
      (line.toList.drop 64).take 2 = [' ', ' '] ∧ name ≠ [] ∧ name.all nameLetter = true then
    some (String.ofList digest, String.ofList name)
  else none

/-- The names and digests of the lines, after those that are `listed`. -/
def readSums (listed : List (String × String)) : List String → Try (List (String × String))
  | [] => .ok listed
  | line :: rest =>
      match readSum line with
      | some (digest, name) => do
          demand (!(listed.map Prod.fst).contains name && name ≠ SUMS)
            ("duplicate/illegal SHA256SUMS entry: " ++ name)
          readSums (listed ++ [(name, digest)]) rest
      | none => .error (.invalid ("malformed SHA256SUMS line: " ++ tools.py.quote line))

def checkFile (bundle : Bundle) (entry : String × String) : Try Unit :=
  match bundle.lookup entry.1 with
  | some data => demand (tools.sha256 data = entry.2) ("checksum mismatch: " ++ entry.1)
  | none => .error (.invalid ("listed file missing: " ++ entry.1))

def reprNames (names : List String) : String :=
  (Value.list ((sortedNames names).map .str)).repr tools.py

def checkSums (bundle : Bundle) : Try Unit := do
  match bundle.lookup SUMS with
  | some data => do
      let text ← Py.read_text data
      let listed ← readSums tools [] (splitlines text)
      let names := listed.map Prod.fst
      demand (names.all REQUIRED.contains && REQUIRED.all names.contains)
        ("SHA256SUMS must list exactly " ++ reprNames tools REQUIRED ++ ", got " ++
          reprNames tools names)
      let extra := bundle.keys.filter fun name => !names.contains name && name ≠ SUMS
      demand extra.isEmpty ("unlisted files in bundle: " ++ reprNames tools extra)
      let _ ← listed.mapM (checkFile tools bundle)
      .ok ()
  | none => .error (.invalid "SHA256SUMS missing")

/-! ## The contents -/

def readText (bundle : Bundle) (name : String) : Try String :=
  match bundle.lookup name with
  | some data => Py.read_text data
  | none => .error .raised

/-- `json.loads((bundle / name).read_text(encoding="utf-8"))`. -/
def readJson (bundle : Bundle) (name : String) : Try Value := do
  let text ← readText bundle name
  match Json.loads text with
  | some v => .ok v
  | none => .error .raised

structure Contents where
  manifest : Value
  bom : Value
  inventory : Value
  assets : Value
  assets_md : String

def readContents (bundle : Bundle) : Try Contents := do
  let manifest ← readJson bundle MANIFEST
  let bom ← readJson bundle SBOM
  let inventory ← readJson bundle INV_JSON
  let assets ← readJson bundle ASSET_JSON
  let assets_md ← readText bundle ASSET_MD
  .ok ⟨manifest, bom, inventory, assets, assets_md⟩

def checkExpected (manifest : Value) : Option String → Try Unit
  | none => .ok ()
  | some expect_commit => do
      let commit ← item manifest "commit"
      demand (commit.eq (.str expect_commit))
        ("manifest commit " ++ commit.text tools.py ++ " != expected " ++ expect_commit)

def checkManifest (manifest : Value) (expect_commit : Option String) : Try Unit :=
  match manifest with
  | .dict m => do
      demand ((Py.get m "schema").eq (.str "beluga-release-evidence/v1")) "manifest schema mismatch"
      check_identity tools ((Py.get m "version").text tools.py) ((Py.get m "commit").text tools.py)
      checkExpected tools manifest expect_commit
  | _ => .error (.invalid "manifest schema mismatch")

/-- `(p["name"], p["value"])`. -/
def namedProperty (p : Value) : Try (Value × Value) := do
  let name ← item p "name"
  let name ← hashed name
  let value ← item p "value"
  .ok (name, value)

/-- The commit and the version of the bill of materials. -/
def sbomIdentity (bom : Value) : Try (Value × Value) := do
  let metadata ← item bom "metadata"
  let properties ← item metadata "properties"
  let items ← iter properties
  let props ← items.mapM namedProperty
  let component ← item metadata "component"
  let version ← item component "version"
  match Sbom.lastOf props "beluga:source-commit" with
  | some commit => .ok (commit, version)
  | none => .error .raised

def matchesManifest (bom manifest : Value) : Try Bool := do
  let identity ← sbomIdentity bom
  let commit ← item manifest "commit"
  if identity.1.eq commit then do
    let version ← item manifest "version"
    .ok (identity.2.eq version)
  else .ok false

def checkSbom (bom manifest : Value) : Try Unit := do
  caught (fun e => "SBOM invalid: " ++ tools.shown e) (Sbom.validate_bom tools bom)
  let same ← caught (fun e => "SBOM metadata malformed: " ++ tools.repr e)
    (matchesManifest bom manifest)
  demand same "SBOM metadata does not match manifest version/commit"

def checkInventory : Value → Try Unit
  | .list (_ :: _) => .ok ()
  | _ => .error (.invalid "license inventory empty")

/-! ## The asset inventory -/

def SECTIONS : List String := ["workloads", "customResources", "images", "storage"]

/-- The keys of the summary, with the section that each counts. -/
def COUNTS : List (String × String) :=
  [("workloads", "workloads"), ("customResources", "customResources"), ("images", "images"),
    ("storageAssets", "storage")]

def filled : Value → Bool
  | .list items => !items.isEmpty
  | _ => false

def listLength : Value → ℕ
  | .list items => items.length
  | _ => 0

def countsMatch (assets summary : Entries) : Bool :=
  COUNTS.all fun count =>
    (Py.get summary count.1).eq (.int (listLength (Py.get assets count.2)))

def strList (xs : List String) : Value := .list (xs.map .str)

def generatorLists (assets : Entries) : Bool :=
  (Py.get assets "charts").eq (strList AssetInventory.CHARTS) &&
    (Py.get assets "profiles").eq (strList AssetInventory.PROFILES)

def check_asset_inventory (assets : Value) (assets_md : String) : Try Unit :=
  match assets with
  | .dict d =>
      match Py.get d "summary" with
      | .dict summary => do
          demand (generatorLists d) "asset inventory charts/profiles do not match the generator"
          let _ ← SECTIONS.mapM fun key => demand (filled (Py.get d key))
            ("asset inventory section empty or malformed: " ++ key)
          demand (countsMatch d summary) "asset inventory summary does not match its sections"
          let rendered ← caught (fun e => "asset inventory cannot be rendered: " ++ tools.repr e)
            (AssetInventory.render_markdown_en tools.py d)
          demand (rendered = assets_md) "asset inventory Markdown does not match its JSON"
      | _ => .error (.invalid "asset inventory malformed")
  | _ => .error (.invalid "asset inventory malformed")

/-! ## The checkout -/

def checkSame (bundle : Bundle) (name : String) (source : File) (message : String) : Try Unit := do
  let data ← caught (fun e => "cannot compare " ++ name ++ " with checkout: " ++ tools.shown e) <|
    source.read_bytes
  match bundle.lookup name with
  | some shipped => demand (shipped = data) message
  | none => .error .raised

/-- Whether a property of a component says that it comes from `VERSIONS.md`. -/
def fromVersions : List Value → Try Bool
  | [] => .ok false
  | p :: rest => do
      let d ← entries p
      if (Py.get d "name").eq (.str "beluga:source") && (Py.get d "value").eq (.str "VERSIONS.md") then
        .ok true
      else fromVersions rest

def isShipped (c : Value) : Try Bool := do
  let d ← entries c
  let properties ← iter (getD d "properties" (.list []))
  fromVersions properties

/-- The components whose source is `VERSIONS.md`. -/
def shippedComponents (bom : Value) : Try (List Value) := do
  let components ← item bom "components"
  let comps ← iter components
  let flags ← comps.mapM isShipped
  .ok (((comps.zip flags).filter fun entry => entry.2).map fun entry => entry.1)

def insertValue (v : Value) : List Value → Try (List Value)
  | [] => .ok [v]
  | w :: ws => do
      let later ← greater v w
      if later then do
        let rest ← insertValue v ws
        .ok (w :: rest)
      else .ok (v :: w :: ws)

/-- `sorted(values)`. -/
def sortedValues : List Value → Try (List Value)
  | [] => .ok []
  | v :: vs => do
      let rest ← sortedValues vs
      insertValue v rest

/-- `sorted(c["name"] for c in comps)`. -/
def namesOf (comps : List Value) : Try (List Value) := do
  let names ← comps.mapM fun c => item c "name"
  sortedValues names

def checkComponents (bom : Value) (inputs : Inputs) : Try Unit := do
  let expected ← caught (fun e => "cannot parse checked-out VERSIONS.md: " ++ tools.shown e) do
    let comps ← Sbom.versions_components tools inputs.versions_md inputs.policy
    namesOf comps
  let comps ← shippedComponents bom
  let shipped ← namesOf comps
  demand (eqList shipped expected)
    "SBOM VERSIONS.md components do not match the checked-out VERSIONS.md"

def verify (bundle : Bundle) (expect_commit : Option String) (inputs : Inputs) : Try Unit := do
  checkSums tools bundle
  let contents ← caught (fun e => "unparsable evidence file: " ++ tools.shown e)
    (readContents bundle)
  checkManifest tools contents.manifest expect_commit
  checkSbom tools contents.bom contents.manifest
  checkInventory contents.inventory
  check_asset_inventory tools contents.assets contents.assets_md
  checkSame tools bundle ASSET_MD inputs.asset_md
    (ASSET_MD ++ " differs from the checked-out docs/" ++ ASSET_MD ++
      " (stale inventory; verify from the release commit)")
  checkSame tools bundle NOTICE_NAME inputs.notice
    (NOTICE_NAME ++ " differs from the checked-out " ++ NOTICE_NAME ++
      " (verify from the release commit)")
  checkSame tools bundle LICENSE_NAME inputs.license_file
    (LICENSE_NAME ++ " differs from the checked-out " ++ LICENSE_NAME ++
      " (verify from the release commit)")
  checkComponents tools contents.bom inputs

end Bundle

end EvidenceBundle

end Release
