import Beluga.Release.Images
import Beluga.Release.Versions

/-! # The Markdown of the asset inventory

The English document that is generated from the inventory of the declared assets. -/

namespace Release

open Py

namespace AssetInventory

def CHARTS : List String := ["beluga-platform", "beluga-data"]

def PROFILES : List String := ["default", "48GB+", "oauth", "acl", "external", "all-enabled"]

/-! ## The fixed lines -/

def WORKLOADS_INTRO : List String :=
  ["# Beluga Platform Asset Inventory & Lifecycle Governance",
    "",
    "English | [한국어](platform-asset-inventory-ko.md)",
    "",
    "This document establishes the declared-state operational platform asset inventory for the Beluga data platform, fulfilling the baseline requirements of [Issue #42](https://github.com/dasomel/beluga/issues/42) (\"Establish platform asset inventory and lifecycle governance\").",
    "",
    "> [!IMPORTANT]",
    "> **Declared-State Scope Disciplinary Invariant**",
    "> This inventory is a **declared-state baseline** from GitOps Helm manifests rendered with `KUBECONFIG=/dev/null` across the profiles below and [VERSIONS.md](../VERSIONS.md). It covers workloads, custom resources, container images, and declared storage. Live cluster state and image support/EOL dates are not assessed; lifecycle means declared pin only. Runtime reconciliation and EOL review require separate evidence.",
    "> Profiles: `default` (32GB), `48GB+` (`openmetadata.enabled=true`, `trino.workerEnabled=true`), `oauth` (`strimzi.oauthListener=true`), `acl` (`strimzi.aclAuthorizer=true`), `external` (`strimzi.externalListenerEnabled=true`), and `all-enabled` (all flags true). Reproducibility checks are scoped to CI-pinned Helm v3.16.4; local Helm versions may render differently.",
    "",
    "---",
    "",
    "## 1. Workloads Inventory",
    ""]

def WORKLOADS_HEAD : List String :=
  ["",
    "| Workload (Stable Identifier) | Kind | Namespace | Chart | Declared Replicas / Mode | Images | Profile | Declared Source |",
    "|---|---|---|---|---|---|---|---|"]

def CUSTOM_RESOURCES_INTRO : List String :=
  ["",
    "---",
    "",
    "## 2. Custom Resources & Operator Managed Assets",
    ""]

def CUSTOM_RESOURCES_HEAD : List String :=
  ["",
    "| Custom Resource Identifier | Kind | API Version | Namespace | Controlling Operator | Profile | Declared Source |",
    "|---|---|---|---|---|---|---|"]

def IMAGES_INTRO : List String :=
  ["",
    "---",
    "",
    "## 3. Container Images & Version Source of Truth",
    ""]

def IMAGES_HEAD : List String :=
  ["",
    "| Component | Declared Image Tag | Expected Version in VERSIONS.md | License | Lifecycle | Profile | Consumer Workloads |",
    "|---|---|---|---|---|---|---|"]

def STORAGE_INTRO : List String :=
  ["",
    "---",
    "",
    "## 4. Persistent Storage Assets & Volume Claims",
    ""]

def STORAGE_HEAD : List String :=
  ["",
    "| Asset Name | Storage Type | Namespace | Declared Capacity | Consumer Workload | Profile | Declared Source |",
    "|---|---|---|---|---|---|---|"]

def TAIL_INTRO : List String :=
  ["",
    "---",
    "",
    "## 5. Profile-Gated & Conditional Workloads",
    "",
    "These identifiers are derived from rendered manifests; the Profile column above records each gate:",
    ""]

def TAIL_END : List String :=
  ["",
    "---",
    "",
    "## 6. Lifecycle Governance & Operational Policies",
    "",
    "### A. Version Pinning and Immutability Invariant",
    "- All deployed images MUST specify an explicit version tag or immutable SHA256 digest; the `:latest` tag is forbidden in platform manifests (enforced by `scripts/ci/check-image-tag-immutability.py`).",
    "- Component versions and license compliance are strictly governed by [VERSIONS.md](../VERSIONS.md) and [policies/license-policy.yaml](../policies/license-policy.yaml) (enforced by `scripts/ci/check-version-consistency.py` and `scripts/ci/check-license-policy.py`).",
    "",
    "### B. Asset Onboarding & Offboarding Lifecycle",
    "1. **Onboarding**: Introducing a new platform asset requires: (1) Registering the component version and license in `VERSIONS.md`; (2) Declaring the Helm chart template with dedicated labels, resource limits, and NetworkPolicy; (3) Adding ApisixRoute and TLS Certificate if exposed externally; (4) Updating and verifying this asset inventory via `python3 scripts/generate_platform_asset_inventory.py --check`.",
    "2. **Offboarding / Deprecation**: Deprecating or removing an asset requires: (1) Annotating the deprecation in `VERSIONS.md`; (2) Removing the Helm chart manifest; (3) Decommissioning associated PVCs and secrets; (4) Regenerating this inventory.",
    "",
    "---",
    "",
    "## 7. Issue #42 Acceptance Status",
    "",
    "| Acceptance Criterion | Status | Implementation Evidence |",
    "|---|---|---|",
    "| **Criterion 1**: Critical assets are inventoried with stable identifiers. | **Complete** | Documented in this file (`docs/platform-asset-inventory.md` / `docs/platform-asset-inventory-ko.md`) with `<kind>/<namespace>/<name>` stable identifiers. |",
    "| **Criterion 2**: Inventory can be generated from a clean deployment and compared with Git declarations. | **Static complete** | Generated from the listed Helm profiles with `KUBECONFIG=/dev/null`; `make validate` checks drift. Live cluster reconciliation remains unverified. |",
    "| **Criterion 3**: Unsupported/EOL assets are flagged. | **Open** | Declared pins are listed; EOL/support dates are not assessed by this generator. |",
    "| **Criterion 4**: Asset ownership and lifecycle status are visible. | **Partial** | Namespace and operator are listed; lifecycle is declared pin only, with EOL unassessed. |",
    "| **Criterion 5**: Release inventory is retained as an operational artifact. | **Complete** | Maintained as version-controlled operational documents in `docs/platform-asset-inventory.md` and `docs/platform-asset-inventory-ko.md`, checked continuously in CI; each release also ships `platform-asset-inventory.\x7bjson,md\x7d` in its attested evidence bundle (`docs/development.md`, Release evidence). No owner, EOL or retention-period data is included. |",
    ""]
/-! ## Rows -/

/-- `len(value)`. -/
def len : Value → Try ℕ
  | .list items => .ok items.length
  | .str s => .ok s.length
  | .dict d => .ok d.length
  | _ => .error .raised

/-- The items of `value[:3]`. -/
def firstThree : Value → Try (List Value)
  | .list items => .ok (items.take 3)
  | .str s => iter (.str (String.ofList (s.toList.take 3)))
  | _ => .error .raised

/-- A string, where only a string will do. -/
def string : Value → Try String
  | .str s => .ok s
  | _ => .error .raised

/-- `sep.join(value)`. -/
def join (sep : String) (v : Value) : Try String := do
  let items ← iter v
  let strings ← items.mapM string
  .ok (sep.intercalate strings)

def profile_label (asset : Value) : Try String := do
  let profiles ← item asset "profiles"
  let byDefault ← inValue "default" profiles
  if byDefault then .ok "default"
  else do
    let names ← join ", " profiles
    .ok ("Conditional: " ++ names)

def code (text : String) : String := "`" ++ text ++ "`"

def row (cells : List String) : String := "| " ++ " | ".intercalate cells ++ " |"

section Render

variable (py : Py.Text)

def source_link (source : Value) : String :=
  "[" ++ code (source.text py) ++ "](../gitops/charts/" ++ source.text py ++ ")"

/-- What an f-string shows of `asset[key]`. -/
def field (asset : Value) (key : String) : Try String := do
  let v ← item asset key
  .ok (v.text py)

def sourceOf (asset : Value) : Try String := do
  let source ← item asset "source"
  .ok (source_link py source)

def imagesOf (w : Value) : Try String := do
  let images ← item w "images"
  if images.truthy then do
    let items ← iter images
    .ok ("<br>".intercalate (items.map fun img => code (img.text py)))
  else .ok "-"

def workloadRow (w : Value) : Try String := do
  let images_str ← imagesOf py w
  let id ← field py w "id"
  let kind ← field py w "kind"
  let «namespace» ← field py w "namespace"
  let chart ← field py w "chart"
  let replicas ← field py w "replicas"
  let profile ← profile_label w
  let source ← sourceOf py w
  .ok (row [code id, kind, code «namespace», code chart, replicas, images_str, profile, source])

def customResourceRow (cr : Value) : Try String := do
  let id ← field py cr "id"
  let kind ← field py cr "kind"
  let apiVersion ← field py cr "apiVersion"
  let «namespace» ← field py cr "namespace"
  let operator ← field py cr "operator"
  let profile ← profile_label cr
  let source ← sourceOf py cr
  .ok (row [code id, kind, code apiVersion, code «namespace», operator, profile, source])

/-- `c.split('/')[-1]`. -/
def consumerName (c : Value) : Try String := do
  let text ← string c
  .ok (code (String.ofList (lastSegment text.toList)))

def consumersOf (img : Value) : Try String := do
  let consumers ← item img "consumers"
  let three ← firstThree consumers
  let names ← three.mapM consumerName
  let count ← len consumers
  .ok (", ".intercalate names ++
    if 3 < count then " (+" ++ toString (count - 3) ++ " more)" else "")

def imageRow (img : Value) : Try String := do
  let consumers_str ← consumersOf img
  let component ← field py img "component"
  let image ← field py img "image"
  let version ← field py img "version"
  let license ← field py img "license"
  let profile ← profile_label img
  .ok (row ["**" ++ component ++ "**", code image, code version, license,
    "Declared pin only; EOL not assessed", profile, consumers_str])

def storageRow (st : Value) : Try String := do
  let name ← field py st "name"
  let type ← field py st "type"
  let «namespace» ← field py st "namespace"
  let capacity ← field py st "capacity"
  let consumer ← field py st "consumer"
  let profile ← profile_label st
  let source ← sourceOf py st
  .ok (row [code name, type, code «namespace», code capacity, code consumer, profile, source])

/-- The line of an asset that the default profile has not. -/
def conditionalLine (asset : Value) : Try (List String) := do
  let profiles ← item asset "profiles"
  let byDefault ← inValue "default" profiles
  if byDefault then .ok []
  else do
    let id ← field py asset "id"
    let profile ← profile_label asset
    let source ← sourceOf py asset
    .ok ["- " ++ code id ++ " — " ++ profile ++ " (" ++ source ++ ")"]

/-- A section: the lines before its count, the count, the lines after it, and a row for each item. -/
def tableOf (inventory : Entries) (key : String) (intro : List String) (before after : String)
    (head : List String) (rowOf : Value → Try String) : Try (List String) := do
  let items ← item (.dict inventory) key
  let count ← len items
  let values ← iter items
  let rows ← values.mapM rowOf
  .ok (intro ++ [before ++ toString count ++ after] ++ head ++ rows)

def render_markdown_en (inventory : Entries) : Try String := do
  let workloads ← tableOf inventory "workloads" WORKLOADS_INTRO "A total of "
    " distinct declared workloads are rendered across the listed profiles. `Conditional` means absent from the default profile." WORKLOADS_HEAD (workloadRow py)
  let customResources ← tableOf inventory "customResources" CUSTOM_RESOURCES_INTRO "A total of "
    " distinct custom resources are declared across the listed profiles." CUSTOM_RESOURCES_HEAD
    (customResourceRow py)
  let images ← tableOf inventory "images" IMAGES_INTRO "All "
    " distinct container images from the listed profiles appear below. Matching expected versions come from [VERSIONS.md](../VERSIONS.md); `Unmapped` means no matching row pin." IMAGES_HEAD
    (imageRow py)
  let storage ← tableOf inventory "storage" STORAGE_INTRO "A total of "
    " persistent volume claims, volume claim templates, and operator-managed cluster storage specifications are cataloged." STORAGE_HEAD (storageRow py)
  let ws ← item (.dict inventory) "workloads"
  let crs ← item (.dict inventory) "customResources"
  let assets ← concat ws crs
  let conditional ← assets.mapM (conditionalLine py)
  .ok ("\n".intercalate (workloads ++ customResources ++ images ++ storage ++ TAIL_INTRO ++
    conditional.flatten ++ TAIL_END))

end Render

end AssetInventory

end Release
