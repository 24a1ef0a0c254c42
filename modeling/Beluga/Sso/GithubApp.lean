import Beluga.Sso.Ports

/-! # The GitHub App client

`githubApp.ts`: the methods of `GithubAppClient` as programs over the REST
calls. Branches must match `BRANCH_RE`, the written path is the constant
`SSO_FILE_PATH`, and no call merges anything.
-/

namespace Sso

open Interact

/-! ## Strings -/

def isLowerHex (c : Char) : Bool :=
  ('0' ≤ c ∧ c ≤ '9') ∨ ('a' ≤ c ∧ c ≤ 'f')

/-- `SHA_RE = /^[0-9a-f]{40}$/`. -/
def isSha (s : String) : Bool := s.toList.length = 40 ∧ s.toList.all isLowerHex

/-- `BRANCH_RE = /^sso\/(flink|filer)-[0-9a-f]{12}$/`. -/
def isSsoBranch (branch : String) : Bool :=
  ["sso/flink-", "sso/filer-"].any fun stem =>
    stem.toList.isPrefixOf branch.toList ∧
      (branch.toList.drop stem.toList.length).length = 12 ∧
      (branch.toList.drop stem.toList.length).all isLowerHex

/-- A regular expression without operators matches somewhere in `text`. -/
def hasText (pattern text : List Char) : Bool := text.tails.any pattern.isPrefixOf

/-- The same with the flag `i`. -/
def hasTextIgnoreCase (pattern text : String) : Bool :=
  hasText (pattern.toList.map Char.toLower) (text.toList.map Char.toLower)

/-- `slice(0, n)`, counted in UTF-16 code units. -/
def utf16Take : Nat → List Char → List Char
  | _, [] => []
  | 0, _ => []
  | n + 1, c :: rest =>
      if c.toNat < 0x10000 then c :: utf16Take n rest
      else if n = 0 then [] else c :: utf16Take (n - 1) rest

/-- The text of one entry of `errors`. -/
def errorEntryText (e : Json) : String :=
  match Json.asString (some e) with
  | some s => s
  | none => Json.textOrEmpty (Json.field (some e) "message")

/-- GitHub puts the useful text either in `message` or in `errors[].message`. -/
def errorText (json : Option Json) : String :=
  let message := (Json.asString (Json.field json "message")).toList
  let errors := ((Json.asArray (Json.field json "errors")).getD []).map errorEntryText
  String.ofList (utf16Take 300 (" | ".intercalate (message ++ errors)).toList)

/-! ## Pull requests -/

def toPrState (json : Option Json) : Option PrState :=
  match Json.asString json with
  | some "open" => some PrState.open
  | some "closed" => some .closed
  | _ => none

def toPr (json : Option Json) : Option PrInfo := do
  let number ← Json.asNumber (Json.field json "number")
  let url ← Json.asString (Json.field json "html_url")
  let state ← toPrState (Json.field json "state")
  let merged := (Json.asString (Json.field json "merged_at")).isSome ||
    match Json.field json "merged" with
    | some (.bool true) => true
    | _ => false
  return {
    number, url, state, merged
    createdAt := Json.asString (Json.field json "created_at")
    mergeCommitSha :=
      if merged then (Json.asString (Json.field json "merge_commit_sha")).filter isSha else none }

variable (deps : Deps)

/-- `owner/repo` in lower case. -/
def ourFullName : List Char :=
  (deps.target.owner ++ "/" ++ deps.target.repo).toList.map Char.toLower

/-- A pull request is ours only when its head lives in the configured
repository: a fork may reuse a branch name. -/
def isOurs (json : Option Json) : Bool :=
  match Json.asString (Json.field (Json.field (Json.field json "head") "repo") "full_name") with
  | some fullName => fullName.toList.map Char.toLower = ourFullName deps
  | none => false

/-- `notBefore === undefined || Date.parse(p.createdAt ?? "") >= notBefore`. -/
def notOlder (notBefore : Option Int) (pr : PrInfo) : Bool :=
  match notBefore with
  | none => true
  | some bound =>
      match deps.dateParse (pr.createdAt.getD "") with
      | some created => bound ≤ created
      | none => false

/-- The pull requests of a listing that can be the request's. -/
def ourPrs (notBefore : Option Int) (items : List Json) : List PrInfo :=
  ((items.filter fun p => isOurs deps (some p)).filterMap fun p => toPr (some p)).filter
    (notOlder deps notBefore)

/-- `prs.find((p) => p.state === "open") ?? prs[0]`. -/
def preferOpen (prs : List PrInfo) : Option PrInfo :=
  (prs.find? fun p => p.state = PrState.open) <|> prs.head?

/-! ## Reads -/

def guardBranch (branch : String) : Async Unit :=
  if isSsoBranch branch then .ret ()
  else .raise (.gitWrite .rejected "branch name is not an allowed sso/* branch")

def statusText (label : String) (status : Nat) : JsError :=
  .githubUnavailable (label ++ "-" ++ toString status)

def findBranch (branch : String) : Async (Option String) := do
  guardBranch branch
  let res ← api (.getRef branch)
  if res.status = 404 then return none
  else
    match (Json.asString (Json.field (Json.field res.json "object") "sha")).filter isSha with
    | some sha => if res.status = 200 then return some sha else .raise (statusText "ref" res.status)
    | none => .raise (statusText "ref" res.status)

/-- What `findPrByBranch` makes of its reply. -/
def pickPr (notBefore : Option Int) (res : Reply) : Except JsError (Option PrInfo) :=
  match Json.asArray res.json with
  | some items =>
      if res.status = 200 then .ok (preferOpen (ourPrs deps notBefore items))
      else .error (statusText "pulls" res.status)
  | none => .error (statusText "pulls" res.status)

def findPrByBranch (branch : String) (notBefore : Option Int) : Async (Option PrInfo) := do
  guardBranch branch
  let res ← api (.listPulls deps.target.owner branch)
  Prog.ofExcept (pickPr deps notBefore res)

/-- What `getPr` makes of its reply. -/
def readPr (res : Reply) : Except JsError (Option PrInfo) :=
  if res.status = 404 then .ok none
  else
    match toPr res.json with
    | some pr =>
        if res.status = 200 then .ok (if isOurs deps res.json then some pr else none)
        else .error (statusText "pull" res.status)
    | none => .error (statusText "pull" res.status)

def getPr (number : Int) : Async (Option PrInfo) :=
  if number ≤ 0 then .raise (.githubUnavailable "invalid-pr-number")
  else do
    let res ← api (.getPull number)
    Prog.ofExcept (readPr deps res)

def toCompareStatus (json : Option Json) : Option CompareStatus :=
  match Json.asString json with
  | some "identical" => some .identical
  | some "ahead" => some .ahead
  | some "behind" => some .behind
  | some "diverged" => some .diverged
  | _ => none

def compare (base head : String) : Async CompareStatus :=
  if ¬ (isSha base ∧ isSha head) then .raise (.githubUnavailable "invalid-sha")
  else do
    let res ← api (.compare base head)
    match toCompareStatus (Json.field res.json "status") with
    | some status =>
        if res.status = 200 then return status else .raise (statusText "compare" res.status)
    | none => .raise (statusText "compare" res.status)

structure OpenSsoPr where
  number : Int
  branch : String
  deriving DecidableEq, Repr

/-- One entry of the open-PR listing, when it is an `sso/*` PR of our repository. -/
def toOpenSsoPr (json : Json) : Option OpenSsoPr := do
  let ref ← Json.asString (Json.field (Json.field (some json) "head") "ref")
  let number ← Json.asNumber (Json.field (some json) "number")
  if "sso/".toList.isPrefixOf ref.toList ∧ isOurs deps (some json) then
    return { number, branch := ref }
  else none

def MAX_PR_PAGES : Nat := 5

/-- The pages from `page` on, `left` of them at most. -/
def listOpenPages (out : List OpenSsoPr) (page : Nat) : Nat → Async (List OpenSsoPr)
  | 0 => return out
  | left + 1 => do
      let res ← api (.listOpenPulls page)
      match Json.asArray res.json with
      | none => .raise (statusText "pulls" res.status)
      | some items =>
          if res.status ≠ 200 then .raise (statusText "pulls" res.status)
          else if hasText "rel=\"next\"".toList (res.link.getD "").toList then
            listOpenPages (out ++ items.filterMap (toOpenSsoPr deps)) (page + 1) left
          else return out ++ items.filterMap (toOpenSsoPr deps)

def listOpenSsoPrs : Async (List OpenSsoPr) := listOpenPages deps [] 1 MAX_PR_PAGES

structure FileOnRef where
  blobSha : String
  text : String
  deriving DecidableEq, Repr

/-- What `readContents` makes of its reply; `none` is a 404. -/
def toFile (path : String) (res : Reply) : Except JsError (Option FileOnRef) :=
  if res.status = 404 then .ok none
  else
    match (Json.asString (Json.field res.json "sha")).filter isSha,
      Json.asString (Json.field res.json "content") with
    | some sha, some content =>
        if res.status = 200 ∧ Json.asString (Json.field res.json "path") = some path then
          .ok (some ⟨sha, content⟩)
        else .error (statusText "contents" res.status)
    | _, _ => .error (statusText "contents" res.status)

def readContents (path ref : String) : Async (Option FileOnRef) := do
  let res ← api (.getContents path ref)
  Prog.ofExcept (toFile path res)

def readFile (path ref : String) : Async FileOnRef :=
  if path ∉ [SSO_FILE_PATH, GROUPS_FILE_PATH] then .raise (.githubUnavailable "path-not-readable")
  else do
    match ← readContents path ref with
    | some file => return file
    | none => .raise (.githubUnavailable "contents-404")

/-! ## Writes -/

def closePr (number : Int) : Async PrInfo := do
  trace (.closePr number)
  if number ≤ 0 then .raise (.githubUnavailable "invalid-pr-number")
  else do
    let res ← api (.closePull number)
    match toPr res.json with
    | some pr => if res.status = 200 then return pr else .raise (statusText "close" res.status)
    | none => .raise (statusText "close" res.status)

def refuse {α : Type} (reply : Reply) (step : String) : Async α :=
  .raise (.gitWrite (if reply.status = 409 then .conflict else .rejected)
    (step ++ " refused (" ++ toString reply.status ++ ")"))

/-- Step 1 of `createChangePr`: the branch. 422 "Reference already exists" is
fine when the branch is really there. -/
def ensureBranch (input : CreateChangePrInput) : Async Unit := do
  let ref ← api (.createRef ("refs/heads/" ++ input.branch) input.baseCommitSha)
  if ref.status = 201 then return ()
  else if ref.status = 422 ∧ hasTextIgnoreCase "reference already exists" (errorText ref.json) then
    match ← findBranch input.branch with
    | some _ => return ()
    | none => refuse ref "branch"
  else refuse ref "branch"

/-- The `PUT` of step 2, over the branch blob that was read. -/
def putFile (input : CreateChangePrInput) (blobSha : String) : Async Unit := do
  let put ← api (.putContents input.path input.commitMessage input.content blobSha input.branch)
  if put.status = 200 ∨ put.status = 201 then return ()
  else if put.status = 409 ∨ put.status = 422 then
    -- another instance may have written the very same content meanwhile
    match ← readContents input.path input.branch with
    | some file =>
        if file.text = input.content then return ()
        else .raise (.gitWrite .conflict
          ("content write refused (" ++ toString put.status ++ ")"))
    | none => .raise (.gitWrite .conflict
        ("content write refused (" ++ toString put.status ++ ")"))
  else refuse put "content write"

/-- Step 2: the file. Equal to the target is a replay; neither base nor target
is somebody else's content, which is never overwritten. -/
def ensureFile (input : CreateChangePrInput) : Async Unit := do
  match ← readContents input.path input.branch with
  | none => .raise (.gitWrite .rejected "sso.yaml is missing on the branch")
  | some onBranch =>
      if onBranch.text = input.content then return ()
      else if onBranch.blobSha ≠ input.baseBlobSha then
        .raise (.gitWrite .conflict "branch content changed outside this request")
      else putFile input onBranch.blobSha

/-- Step 3: the pull request. 422 "A pull request already exists" is looked up
by head and returned. -/
def ensurePull (input : CreateChangePrInput) : Async CreatedPr := do
  let created ← api (.createPull input.title input.branch deps.target.branch input.body)
  if created.status = 201 then
    match toPr created.json with
    | none => .raise (.githubUnavailable "pull-malformed")
    | some pr => do
        trace (.opened input.branch pr.number)
        return ⟨pr.number, pr.url⟩
  else if created.status = 422 ∧
      hasTextIgnoreCase "pull request already exists" (errorText created.json) then
    match ← findPrByBranch deps input.branch input.notBefore with
    | some existing => do
        trace (.adopted input.branch existing.number)
        return ⟨existing.number, existing.url⟩
    | none => refuse created "pull request"
  else refuse created "pull request"

def createChangePrUnguarded (input : CreateChangePrInput) : Async CreatedPr := do
  guardBranch input.branch
  if input.path ≠ SSO_FILE_PATH then
    .raise (.gitWrite .rejected "path is not the allowed sso.yaml")
  else if ¬ (isSha input.baseCommitSha ∧ isSha input.baseBlobSha) then
    .raise (.gitWrite .rejected "malformed base SHA")
  else do
    ensureBranch input
    ensureFile input
    ensurePull deps input

/-- Every error that is not a `GitWriteError` leaves the outcome unknown. -/
def createChangePr (input : CreateChangePrInput) : Async CreatedPr := do
  trace (.createChangePr input)
  match ← (createChangePrUnguarded deps input).attempt with
  | .ok pr => return pr
  | .error (.gitWrite kind message) => .raise (.gitWrite kind message)
  | .error (.githubUnavailable message) => .raise (.gitWrite .unknown message)
  | .error _ => .raise (.gitWrite .unknown "unexpected error")

end Sso
