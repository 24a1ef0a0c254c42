import Beluga.Sso.Ports
import Beluga.Sso.SsoSchema

/-! # The edit engine (`editEngine.ts`)

`buildChange`: base YAML text and a patch to the edited text, or a rejection.
The YAML library is a parameter (`Yaml`): what it parses, what it prints and
what its values are is open. The syntax tree (`Node`) has what the engine
touches; `σ` is the rest of a node (comments, anchors, tags, flow style).
-/

namespace Sso

open Js

/-! ## Documents of the YAML library -/

inductive ScalarType where
  | PLAIN | QUOTE_SINGLE | QUOTE_DOUBLE | BLOCK_FOLDED | BLOCK_LITERAL
  deriving DecidableEq, Repr

inductive Node (σ : Type) where
  | scalar (value : Json) (type : ScalarType) (rest : σ)
  | seq (items : List (Node σ)) (rest : σ)
  | map (items : List (Node σ × Option (Node σ))) (rest : σ)
  | alias (source : String) (rest : σ)

structure Document (σ : Type) where
  errors : List String
  contents : Option (Node σ)
  rest : σ

/-- The library, with `lineWidth: 0` in `print`. Its errors are the texts it throws. -/
structure Yaml (σ : Type) where
  parseDocument : String → Document σ
  toJS : Document σ → Except String Json
  parse : String → Except String Json
  print : Document σ → Except String String
  /-- What a node made by the engine has besides. -/
  fresh : σ

variable {σ : Type}

/-- `parse` is `parseDocument` and `toJS`, with the errors of the document thrown. -/
def Yaml.ParsesAlike (yaml : Yaml σ) : Prop :=
  ∀ text value, yaml.parse text = .ok value ↔
    (yaml.parseDocument text).errors = [] ∧ yaml.toJS (yaml.parseDocument text) = .ok value

/-- A list whose first item with `p` was changed. -/
def changeFirst {α : Type} (p : α → Bool) (f : α → α) : List α → List α
  | [] => []
  | x :: rest => if p x then f x :: rest else x :: changeFirst p f rest

namespace Node

def isScalar : Node σ → Bool
  | .scalar .. => true
  | _ => false

def isMap : Node σ → Bool
  | .map .. => true
  | _ => false

/-- The value of a scalar is this string. -/
def hasValue (s : String) : Node σ → Bool
  | .scalar (.str t) _ _ => t == s
  | _ => false

/-- `node.get(key, true)`. -/
def get (key : String) : Node σ → Option (Node σ)
  | .map items _ => (items.find? fun pair => pair.1.hasValue key).bind (·.2)
  | _ => none

/-- `node.set(key, value)`. -/
def set (node : Node σ) (fresh : σ) (key : String) (value : Node σ) : Node σ :=
  match node with
  | .map items rest =>
      if items.any fun pair => pair.1.hasValue key then
        .map (changeFirst (fun pair => pair.1.hasValue key) (fun pair => (pair.1, some value))
          items) rest
      else .map (items ++ [(.scalar (.str key) .PLAIN fresh, some value)]) rest
  | _ => node

/-- The node under a path of keys. -/
def getIn : List String → Node σ → Option (Node σ)
  | [], node => some node
  | key :: path, node => (node.get key).bind (getIn path)

/-- The tree after the node under a path of keys was changed in place. -/
def changeIn (f : Node σ → Node σ) : List String → Node σ → Node σ
  | [], node => f node
  | key :: path, .map items rest =>
      .map (changeFirst (fun pair => pair.1.hasValue key)
        (fun pair => (pair.1, pair.2.map (changeIn f path))) items) rest
  | _ :: _, node => node

end Node

/-! ## The patch -/

def EDITABLE_ENDPOINTS : List String := ["flink", "filer"]

def REQUIRED_GROUP : String := "admins"

def reject {α : Type} (message : String) : Except JsError α :=
  .error (.changeRejection .PATCH_REJECTED message)

/-- `if (!ok) reject(message)`. -/
def require (ok : Bool) (message : String) : Except JsError Unit :=
  if ok then .ok () else reject message

def orReject {α : Type} (x : Option α) (message : String) : Except JsError α :=
  match x with
  | some a => .ok a
  | none => reject message

/-- The loop of `validatePatch` over the entries, from index `i` on. -/
def validateEntries (knownGroups : List String) : Nat → List Json → Except JsError (List String)
  | _, [] => .ok []
  | i, .str entry :: rest =>
      let at_ := "allowedGroups[" ++ toString i ++ "]: "
      if !allowedGroup entry then
        reject (at_ ++ "\"" ++ entry ++ "\" must match [a-z0-9-]+")
      else if entry ∉ knownGroups then
        reject (at_ ++ "unknown group \"" ++ entry ++ "\" (not in policies/groups.yaml)")
      else (validateEntries knownGroups (i + 1) rest).map (entry :: ·)
  | i, _ :: _ => reject ("allowedGroups[" ++ toString i ++ "]: must be a string")

def validatePatch (patch : Patch) (knownGroups : List String) : Except JsError (List String) := do
  require (decide (patch.endpoint ∈ EDITABLE_ENDPOINTS))
    ("endpoint: \"" ++ patch.endpoint ++ "\" is not editable (allowed: " ++
      ", ".intercalate EDITABLE_ENDPOINTS ++ ")")
  require (patch.allowedGroups.length != 0) "allowedGroups: must be a non-empty list"
  let groups ← validateEntries knownGroups 0 patch.allowedGroups
  require (groups.eraseDups.length == groups.length) "allowedGroups: must not contain duplicates"
  require (decide (REQUIRED_GROUP ∈ groups))
    ("allowedGroups: must include \"" ++ REQUIRED_GROUP ++ "\" (anti lock-out)")
  return groups

def sameSet (a b : List String) : Bool :=
  decide (a.length = b.length) && a.all fun x => decide (x ∈ b)

/-! ## The edit of the tree -/

/-- A new entry, quoted as an existing one is. -/
def newScalar (fresh : σ) (value : String) : Option (Node σ) → Node σ
  | some (.scalar _ type _) => .scalar (.str value) type fresh
  | _ => .scalar (.str value) .QUOTE_DOUBLE fresh

/-- The new items of the list: entries that stay keep their node, the last one of their
value. -/
def newItems (fresh : σ) (current : List (Node σ)) (after : List String) : List (Node σ) :=
  after.map fun g =>
    ((current.filter Node.isScalar).reverse.find? (Node.hasValue g)).getD
      (newScalar fresh g (current.find? Node.isScalar))

/-- The node of the endpoint after the edit. -/
def editNode (fresh : σ) (after : List String) (node : Node σ) : Node σ :=
  match node.get "allowedGroups" with
  | some (.seq items rest) =>
      node.set fresh "allowedGroups" (.seq (newItems fresh items after) rest)
  | _ =>
      node.set fresh "allowedGroups"
        (.seq (after.map fun g => newScalar fresh g none) fresh)

/-- `isMap(item) && item.get("name") === endpoint`. -/
def namedNode (endpoint : String) (item : Node σ) : Bool :=
  item.isMap && (item.get "name").any (Node.hasValue endpoint)

def missing (endpoint : String) : String :=
  "endpoint: \"" ++ endpoint ++ "\" does not exist in sso.yaml"

def editDocument (yaml : Yaml σ) (doc : Document σ) (endpoint : String) (after : List String) :
    Except JsError (Document σ) :=
  match doc.contents.bind (Node.getIn ["sso", "endpoints"]) with
  | some (.seq items rest) =>
      if items.any (namedNode endpoint) then
        let edited := Node.seq
          (changeFirst (namedNode endpoint) (editNode yaml.fresh after) items) rest
        .ok { doc with
          contents := doc.contents.map (Node.changeIn (fun _ => edited) ["sso", "endpoints"]) }
      else reject (missing endpoint)
  | _ => reject "sso.endpoints is not a list"

/-! ## `buildChange` -/

/-- What the engine uses besides the library. -/
structure Engine (σ : Type) where
  yaml : Yaml σ
  web : Web
  /-- The hex digest. -/
  sha256 : String → String
  createTwoFilesPatch : String → String → String → String → String

variable (eng : Engine σ)

/-- `JSON.stringify({ endpoint, allowedGroups })`. -/
def payloadText (endpoint : String) (allowedGroups : List Json) : String :=
  Js.stringifyJson (.obj [("endpoint", .str endpoint), ("allowedGroups", .arr allowedGroups)])

def Engine.payloadSha256 (patch : Patch) : String :=
  eng.sha256 (payloadText patch.endpoint patch.allowedGroups)

/-- `patch.replace(/^=+\n/, "")`. -/
def withoutSeparator (patch : String) : String :=
  match patch.toList.dropWhile (· == '=') with
  | '\n' :: rest => if patch.toList.head? = some '=' then String.ofList rest else patch
  | _ => patch

/-- An error of the library goes through as it is. -/
def thrown {α : Type} (x : Except String α) : Except JsError α := x.mapError .other

def hasName (endpoint : String) (e : SsoEndpoint) : Bool := e.name == endpoint

/-- The file with another list of allowed groups at the endpoint. -/
def withGroups (endpoint : String) (after : List String) (file : RawSsoFile) : RawSsoFile :=
  { file with sso := { file.sso with
      endpoints := changeFirst (hasName endpoint)
        (fun e => { e with allowedGroups := some after }) file.sso.endpoints } }

/-- `doc` and `baseParsed.data`: the base text parsed, as a tree and as a file. -/
def Engine.parseBase (baseText : String) : Except JsError (Document σ × RawSsoFile) := do
  let doc := eng.yaml.parseDocument baseText
  require (doc.errors.length == 0) "base sso.yaml is not valid YAML"
  let baseObj ← thrown (eng.yaml.toJS doc)
  let base ← orReject ((rawSsoFileSchema eng.web).read baseObj)
    "base sso.yaml does not satisfy the SSO schema"
  return (doc, base)

/-- `before`: the list of the endpoint now, which `after` has to change. -/
def currentGroups (base : RawSsoFile) (endpoint : String) (after : List String) :
    Except JsError (Option (List String)) := do
  let endpointObj ← orReject (base.sso.endpoints.find? (hasName endpoint)) (missing endpoint)
  let before := endpointObj.allowedGroups
  if before.any fun list => sameSet list after then
    .error (.changeRejection .NO_EFFECTIVE_CHANGE
      "allowedGroups is unchanged (same set of groups)")
  else return before

/-- `editedText`: the edit of the tree, printed. The base text must print as it is. -/
def Engine.edit (baseText : String) (doc : Document σ) (endpoint : String)
    (after : List String) : Except JsError String := do
  let rendered ← thrown (eng.yaml.print (eng.yaml.parseDocument baseText))
  require (rendered == baseText)
    "sso.yaml formatting cannot be preserved by the editor; refusing to rewrite it"
  let editedDoc ← editDocument eng.yaml doc endpoint after
  thrown (eng.yaml.print editedDoc)

/-- Invariant 4: the text is parsed again and compared with the file that is expected. -/
def Engine.checkEdited (base : RawSsoFile) (endpoint : String) (after : List String)
    (baseDomain editedText : String) : Except JsError Unit := do
  let editedObj ← thrown (eng.yaml.parse editedText)
  let edited ← orReject ((rawSsoFileSchema eng.web).read editedObj)
    "edited sso.yaml does not satisfy the SSO schema"
  require (base.sso.endpoints.any (hasName endpoint)) (missing endpoint)
  require (withGroups endpoint after base == edited)
    ("the edit changed something other than allowedGroups of \"" ++ endpoint ++ "\"")
  match resolveSsoFile eng.web editedObj baseDomain with
  | .error summary => reject ("edited sso.yaml violates the SSO rules: " ++ summary)
  | .ok _ => return

def Engine.buildChange (input : BuildInput) : Except JsError BuiltChange := do
  let endpoint := input.patch.endpoint
  let after ← validatePatch input.patch input.groupNames
  let (doc, base) ← eng.parseBase input.baseText
  let before ← currentGroups base endpoint after
  let editedText ← eng.edit input.baseText doc endpoint after
  eng.checkEdited base endpoint after input.baseDomain editedText
  let diff := withoutSeparator (eng.createTwoFilesPatch ("a/" ++ SSO_FILE_PATH)
    ("b/" ++ SSO_FILE_PATH) input.baseText editedText)
  return { endpoint, before, after, editedText, diff,
           payloadSha256 := eng.payloadSha256 ⟨endpoint, after.map .str⟩ }

end Sso
