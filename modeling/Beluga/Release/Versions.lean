import Beluga.Py.Lines
import Beluga.Release.RequiredChecks
import Beluga.Text.Search
import Beluga.Text.Split

/-! # VERSIONS.md, the license policy and NOTICE

The rows of the tables of `VERSIONS.md`, what the policy approves, and the projects that `NOTICE`
names, as the license checks read them. -/

namespace Release

open Py

/-- What is used of Python and of its libraries. -/
structure Tools extends Runtime where
  /-- `repr(exc)`. -/
  repr : Exn → String
  /-- The text of a float is on one line. -/
  float_line : ∀ x, '\r' ∉ (py.float x).toList
  /-- `yaml.safe_load(text)`. -/
  safe_load : String → Try Value
  /-- `json.dumps(value, sort_keys=True)`. -/
  dumps : Value → String
  /-- `uuid.uuid5(uuid.NAMESPACE_URL, name)`. -/
  uuid5 : String → String
  casefold : String → String
  /-- `hashlib.sha256(data).hexdigest()`. -/
  sha256 : ByteArray → String
  sha256_hex : ∀ data, (sha256 data).toList.length = 64 ∧
    ∀ c ∈ (sha256 data).toList, c.isDigit = true ∨ ('a' ≤ c ∧ c ≤ 'f')

/-- A path, and what is there. -/
structure File where
  path : String
  data : Option ByteArray

/-- `path.read_bytes()`. -/
def File.read_bytes (file : File) : Try ByteArray :=
  match file.data with
  | some data => .ok data
  | none => .error .raised

/-- `path.read_text(encoding="utf-8")`. -/
def File.read_text (file : File) : Try String := do
  let data ← file.read_bytes
  Py.read_text data

/-- `if not test: raise ValueError(message)`. -/
def demand (test : Bool) (message : String) : Try Unit :=
  if test then .ok () else .error (.invalid message)

/-- `except Exception as exc: raise ValueError(message)`. -/
def caught {α : Type} (message : Exn → String) : Try α → Try α
  | .ok a => .ok a
  | .error e => .error (.invalid (message e))

@[simp] theorem demand_ok {test : Bool} {message : String} {u : Unit} :
    demand test message = .ok u ↔ test = true := by
  cases test <;> simp [demand]

@[simp] theorem caught_ok {α : Type} {message : Exn → String} {x : Try α} {a : α} :
    caught message x = .ok a ↔ x = .ok a := by
  cases x <;> simp [caught]

/-- `text.split(c)`. -/
def splitAt (c : Char) (s : String) : List String := (s.toList.splitOn c).map String.ofList

/-- `text.strip(letters)`, where `p` holds of the letters. -/
def stripLetters (p : Char → Bool) (s : String) : String :=
  String.ofList ((s.toList.dropWhile p).reverse.dropWhile p).reverse

/-- `text.lstrip(letters)`. -/
def lstripLetters (p : Char → Bool) (s : String) : String := String.ofList (s.toList.dropWhile p)

def beginsWith (front s : String) : Bool := front.toList.isPrefixOf s.toList

/-! ## The license policy -/

namespace LicensePolicy

/-- `\s*\([^)]*\)`. -/
def PARENTHETICAL : Text.Matcher Unit :=
  Text.Matcher.star isSpace >>= fun _ => Text.Matcher.exactly ['('] >>= fun _ =>
    Text.Matcher.star (· ≠ ')') >>= fun _ => Text.Matcher.exactly [')']

def PARENTHETICAL_SUFFIX_RE : Text.Matcher Unit :=
  PARENTHETICAL >>= fun _ => Text.Matcher.star isSpace >>= fun _ => Text.Matcher.atEnd

/-- A non-empty string that is not blank. -/
def isText : Value → Bool
  | .str s => !blank s
  | _ => false

def strings (vs : List Value) : List String :=
  vs.filterMap fun
    | .str s => some s
    | _ => none

/-- The approved licenses. -/
def approvedOf (approved : Value) : Try (List String) :=
  match approved with
  | .list items =>
      if items ≠ [] ∧ items.all isText = true ∧ (strings items).Nodup then .ok (strings items)
      else .error (.invalid "approved_licenses must be a non-empty list of unique strings")
  | _ => .error (.invalid "approved_licenses must be a non-empty list of unique strings")

/-- The marker of Beluga's own projects. -/
def markerOf (marker : Value) : Try String :=
  match marker with
  | .dict d =>
      match Py.get d "value" with
      | .str value =>
          if blank value = false ∧ isText (Py.get d "rationale") = true then .ok value
          else .error (.invalid "own_project_marker requires non-empty value and rationale strings")
      | _ => .error (.invalid "own_project_marker requires non-empty value and rationale strings")
  | _ => .error (.invalid "own_project_marker requires non-empty value and rationale strings")

def load_policy (tools : Tools) (path : File) : Try (List String × String) := do
  let data ← caught (fun e => "cannot load license policy " ++ path.path ++ ": " ++ tools.shown e) do
    let text ← path.read_text
    tools.safe_load text
  match data with
  | .dict d => do
      let approved ← approvedOf (Py.get d "approved_licenses")
      let marker ← markerOf (Py.get d "own_project_marker")
      .ok (approved, marker)
  | _ => .error (.invalid "policy must be a mapping")

def normalize_license_part (part : String) : String :=
  let part := strip part
  let stripped := strip (String.ofList (PARENTHETICAL_SUFFIX_RE.erase part.toList))
  if stripped = "" then part else stripped

/-- A row of a table of `VERSIONS.md`. -/
structure Row where
  component : String
  version : String
  image : String
  license_cell : String

/-- `set(cell) <= {"-", ":"}`. -/
def ruled (cell : String) : Bool := cell.toList.all fun c => c = '-' || c = ':'

def rowOf (line : String) : Option Row :=
  if !beginsWith "|" line then none
  else
    match (splitAt '|' (stripLetters (· = '|') (strip line))).map strip with
    | component :: version :: image :: license_cell :: _ =>
        if component = "컴포넌트" ∨ component = "" ∨ ruled component = true ∨ ruled version = true then
          none
        else some ⟨component, version, image, license_cell⟩
    | _ => none

def parse_versions_md (path : File) : Try (List Row) := do
  let text ← path.read_text
  .ok ((splitlines text).filterMap rowOf)

/-- `license_cell.split(" / ")`, with each part normalized. -/
def partsOf (license_cell : String) : List String :=
  (Text.split " / ".toList license_cell.toList).map fun part =>
    normalize_license_part (String.ofList part)

end LicensePolicy

/-! ## NOTICE -/

namespace Notice

/-- `ANY_PARENTHETICAL_RE.sub("", text).strip()`. -/
def strip_parenthetical (text : String) : String :=
  strip (String.ofList (LicensePolicy.PARENTHETICAL.erase text.toList))

def anything (_ : Char) : Bool := true

/-- `The large majority are Apache License 2\.0 \(([^)]+)\)`. -/
def APACHE_RE : Text.Matcher (List Char) :=
  Text.Matcher.exactly "The large majority are Apache License 2.0 (".toList >>= fun _ =>
    Text.Matcher.plus (· ≠ ')') >>= fun names => Text.Matcher.exactly [')'] >>= fun _ => pure names

/-- `Exceptions worth\s+naming directly:\s*\n(.*?)(?=\n\n[^\s-])`. -/
def EXCEPTIONS_RE : Text.Matcher (List Char) :=
  Text.Matcher.exactly "Exceptions worth".toList >>= fun _ =>
    Text.Matcher.plus isSpace >>= fun _ =>
      Text.Matcher.exactly "naming directly:".toList >>= fun _ =>
        Text.Matcher.star isSpace >>= fun _ => Text.Matcher.exactly ['\n'] >>= fun _ =>
          (Text.Matcher.starLazy anything).group >>= fun bullets =>
            Text.Matcher.ahead (Text.Matcher.exactly ['\n', '\n'] >>= fun _ =>
              Text.Matcher.one fun c => !isSpace c && c ≠ '-') >>= fun _ => pure bullets

/-- `Sibling projects\s*\n=+\s*\n.*?\n\n(.*?)(?=\n\n=|\Z)`. -/
def SIBLINGS_RE : Text.Matcher (List Char) :=
  Text.Matcher.exactly "Sibling projects".toList >>= fun _ =>
    Text.Matcher.star isSpace >>= fun _ => Text.Matcher.exactly ['\n'] >>= fun _ =>
      Text.Matcher.plus (· = '=') >>= fun _ => Text.Matcher.star isSpace >>= fun _ =>
        Text.Matcher.exactly ['\n'] >>= fun _ => Text.Matcher.starLazy anything >>= fun _ =>
          Text.Matcher.exactly ['\n', '\n'] >>= fun _ =>
            (Text.Matcher.starLazy anything).group >>= fun bullets =>
              Text.Matcher.ahead (Text.Matcher.either (Text.Matcher.exactly ['\n', '\n', '='])
                Text.Matcher.close) >>= fun _ => pure bullets

/-- `\n(?=- )`. -/
def BULLET_RE : Text.Matcher Unit :=
  Text.Matcher.exactly ['\n'] >>= fun _ => Text.Matcher.ahead (Text.Matcher.exactly ['-', ' '])

/-- `\s+—\s+`. -/
def DASH_RE : Text.Matcher Unit :=
  Text.Matcher.plus isSpace >>= fun _ => Text.Matcher.exactly ['—'] >>= fun _ =>
    Text.Matcher.plus isSpace >>= fun _ => pure ()

/-- `\s+server binary.*`. -/
def SERVER_RE : Text.Matcher Unit :=
  Text.Matcher.plus isSpace >>= fun _ => Text.Matcher.exactly "server binary".toList >>= fun _ =>
    Text.Matcher.star (· ≠ '\n')

/-- The capture of a section. -/
def sectionOf (re : Text.Matcher (List Char)) (message text : String) : Try String :=
  match re.search text.toList with
  | some found => .ok (String.ofList found.2.1)
  | none => .error (.invalid message)

/-- The bullets of a section. -/
def bulletsOf (text : String) : List String :=
  (BULLET_RE.pieces (strip text).toList).map fun bullet =>
    strip (lstripLetters (fun c => c = '-' || c = ' ') (String.ofList bullet))

/-- What a bullet says before its dash, on one line. -/
def described (message bullet : String) : Try String :=
  match DASH_RE.search bullet.toList with
  | some found =>
      .ok (String.ofList ((strip (String.ofList found.1)).toList.map fun c =>
        if c = '\n' then ' ' else c))
  | none => .error (.invalid message)

variable (tools : Tools)

def exceptionName (bullet : String) : Try String := do
  let comp_desc ← described ("Malformed exception bullet in NOTICE: " ++ tools.py.quote bullet) bullet
  .ok (strip_parenthetical (String.ofList (SERVER_RE.erase comp_desc.toList)))

def siblingName (bullet : String) : Try String := do
  let proj_desc ←
    described ("Malformed sibling project bullet in NOTICE: " ++ tools.py.quote bullet) bullet
  .ok (strip_parenthetical proj_desc)

/-- The names of the Apache components, the exceptions and the siblings. -/
def parse_notice (path : File) : Try (List String × List String × List String) := do
  let text ← path.read_text
  let list ← sectionOf APACHE_RE "Could not find Apache License 2.0 list in NOTICE" text
  let apache := ((splitAt ',' list).map strip).filter fun x => x ≠ "" && !beginsWith "and " x
  let exceptions_text ← sectionOf EXCEPTIONS_RE
    "Could not find 'Exceptions worth naming directly' section in NOTICE" text
  let exceptions ← (bulletsOf exceptions_text).mapM (exceptionName tools)
  let siblings_text ← sectionOf SIBLINGS_RE "Could not find 'Sibling projects' section in NOTICE" text
  let siblings ← (bulletsOf siblings_text).mapM (siblingName tools)
  .ok (apache, exceptions, siblings)

end Notice

end Release
