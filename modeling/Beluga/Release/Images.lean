import Beluga.Py.Access
import Beluga.Py.Strings
import Beluga.Text.Findall
import Mathlib.Data.List.Sort

/-! # The images of a release

Three readings of what is deployed: the lines of the rendered text that the bill of materials is
made of, the workloads of the asset inventory, and the `image` keys that the tag gate walks to. -/

namespace Release

open Py

/-! ## The bill of materials -/

def isQuote (c : Char) : Bool := c = '"' || c = '\''

/-- `[^"'\s#]`. -/
def imageLetter (c : Char) : Bool := !isQuote c && !isSpace c && c ≠ '#'

def IMAGE_RE : Text.Matcher (List Char) :=
  Text.Matcher.star isSpace >>= fun _ => Text.Matcher.optional (· = '-') >>= fun _ =>
    Text.Matcher.star isSpace >>= fun _ => Text.Matcher.exactly "image:".toList >>= fun _ =>
      Text.Matcher.star isSpace >>= fun _ => Text.Matcher.optional isQuote >>= fun _ =>
        Text.Matcher.plus imageLetter

/-- `IMAGE_RE.findall(rendered)`. -/
def imageRefs (rendered : String) : List String :=
  (Text.Matcher.findall IMAGE_RE rendered.toList).map String.ofList

/-- `text.split(c, 1)` where the text has a `c`. -/
def cutFirst (c : Char) (cs : List Char) : List Char × List Char :=
  (cs.takeWhile (· ≠ c), (cs.dropWhile (· ≠ c)).tail)

/-- `text.rsplit(c, 1)` where the text has a `c`. -/
def cutLast (c : Char) (cs : List Char) : List Char × List Char :=
  ((cs.reverse.dropWhile (· ≠ c)).tail.reverse, (cs.reverse.takeWhile (· ≠ c)).reverse)

/-- `text.rsplit("/", 1)[-1]`. -/
def lastSegment (cs : List Char) : List Char := (cutLast '/' cs).2

/-- The name and the tag or digest. -/
def split_image (py : Py.Text) (ref : String) : Try (String × String) := do
  let cs := ref.toList
  let parts ←
    if '@' ∈ cs then
      let cut := cutFirst '@' cs
      .ok (if ':' ∈ lastSegment cut.1 then (cutLast ':' cut.1).1 else cut.1, cut.2)
    else if ':' ∈ lastSegment cs then .ok (cutLast ':' cs)
    else .error (.invalid ("image reference without tag or digest: " ++ py.quote ref))
  if parts.1 = [] ∨ parts.2 = [] ∨ hasText "\x7b\x7b" ref = true then
    .error (.invalid ("unresolvable image reference: " ++ py.quote ref))
  else .ok (String.ofList parts.1, String.ofList parts.2)

def property (name value : String) : Value := .dict [("name", .str name), ("value", .str value)]

def imageComponent (py : Py.Text) (ref : String) : Try Value := do
  let parts ← split_image py ref
  .ok (.dict [("type", .str "container"), ("bom-ref", .str ("image:" ++ ref)),
    ("name", .str parts.1), ("version", .str parts.2),
    ("properties", .list [property "beluga:image-reference" ref,
      property "beluga:source" "helm-template"])])

def image_components (py : Py.Text) (rendered : String) : Try (List Value) :=
  let refs := (imageRefs rendered).dedup.insertionSort (· ≤ ·)
  if refs = [] then .error (.invalid "no container images found in rendered charts")
  else refs.mapM (imageComponent py)

/-! ## The asset inventory -/

/-- `v + w`, where one goes through the items of the sum. -/
def concat : Value → Value → Try (List Value)
  | .list vs, .list ws => .ok (vs ++ ws)
  | .str s, .str t => iter (.str (s ++ t))
  | _, _ => .error .raised

/-- `container["image"]`, where it has one. -/
def containerImage (container : Value) : Try (List Value) := do
  let has ← inValue "image" container
  if has then
    match container with
    | .dict d => .ok [Py.get d "image"]
    | _ => .error .raised
  else .ok []

/-- `value.get(key, {})`. -/
def part (v : Value) (key : String) : Try Value := do
  let d ← entries v
  .ok (getD d key (.dict []))

def podImages (pod_spec : Value) : Try (List Value) := do
  let d ← entries pod_spec
  let containers ← concat (getD d "initContainers" (.list [])) (getD d "containers" (.list []))
  let images ← containers.mapM containerImage
  .ok images.flatten

/-- An image that the resource names itself, where it does. -/
def ownImage (spec : Value) (key : String) : Try (List Value) := do
  let d ← entries spec
  let image := Py.get d key
  .ok (if image.truthy then [image] else [])

def extract_workload_images (resource : Value) : Try (List Value) := do
  let d ← entries resource
  let spec := getD d "spec" (.dict [])
  if (Py.get d "kind").eq (.str "CronJob") then do
    let jobTemplate ← part spec "jobTemplate"
    let jobSpec ← part jobTemplate "spec"
    let template ← part jobSpec "template"
    let pod_spec ← part template "spec"
    podImages pod_spec
  else do
    let has ← inValue "template" spec
    if has then
      match spec with
      | .dict d => do
          let pod_spec ← part (Py.get d "template") "spec"
          podImages pod_spec
      | _ => .error .raised
    else if (Py.get d "kind").eq (.str "FlinkDeployment") then ownImage spec "image"
    else if (Py.get d "kind").eq (.str "Cluster") then ownImage spec "imageName"
    else .ok []

/-! ## The tag gate -/

/-- The string of an entry `image`. -/
def imageString (key : String) : Value → Option String
  | .str s => if key = "image" then some s else none
  | _ => none

mutual
/-- The strings under a key `image`. -/
def walk_image_keys : Value → List String
  | .dict es => walkEntries es
  | .list vs => walkItems vs
  | _ => []

def walkEntries : List (String × Value) → List String
  | [] => []
  | (key, v) :: rest =>
      match imageString key v with
      | some s => s :: walkEntries rest
      | none => walk_image_keys v ++ walkEntries rest

def walkItems : List Value → List String
  | [] => []
  | v :: vs => walk_image_keys v ++ walkItems vs
end

/-- Each once, where the text loads. -/
def extract_images_from_yaml (safe_load_all : String → Try (List Value)) (text : String) :
    Try (List String) := do
  let docs ← safe_load_all text
  .ok (docs.flatMap walk_image_keys).reverse.dedup.reverse

end Release
