import Beluga.Interact.Prog
import Beluga.Sso.Store

/-! # What the change-request code calls

The operations of the handlers, the reconciler and the GitHub client: the
store, the GitHub REST API, the clock, ArgoCD and the SSO read source. A reply
that the code sees as a rejected promise is an `Except` error.

A GitHub call is one `ApiRequest`. The transport under it (installation token,
one retry after 401, rate-limit backoff, timeout and overall deadline) shows
only as the error text of the `GithubUnavailableError` it ends in. The base64
of file contents is left out: requests and replies carry the decoded text.

`Mark`s are calls without effect that name a point of the code: a run's
history then shows which method was entered and what it handed back.
-/

namespace Sso

open Interact

/-! ## Errors -/

inductive GitWriteErrorKind where
  | conflict | rejected | unknown
  deriving DecidableEq, Repr

inductive RejectionCode where
  | PATCH_REJECTED | NO_EFFECTIVE_CHANGE
  deriving DecidableEq, Repr

/-- What the code can throw. -/
inductive JsError where
  | store (e : StoreError)
  | gitWrite (kind : GitWriteErrorKind) (message : String)
  | githubUnavailable (message : String)
  | ssoConfig (message : String)
  | changeRejection (code : RejectionCode) (message : String)
  | other (message : String)
  deriving DecidableEq, Repr

/-! ## GitHub -/

structure GithubTarget where
  owner : String
  repo : String
  branch : String

/-- The calls `GithubAppClient` makes, all below `/repos/{owner}/{repo}`. -/
inductive ApiRequest where
  /-- `POST /git/refs`. -/
  | createRef (ref sha : String)
  /-- `GET /git/ref/heads/{branch}`. -/
  | getRef (branch : String)
  /-- `GET /contents/{path}?ref={ref}`. -/
  | getContents (path ref : String)
  /-- `PUT /contents/{path}`. -/
  | putContents (path message content sha branch : String)
  /-- `POST /pulls` with `maintainer_can_modify: false`. -/
  | createPull (title head base body : String)
  /-- `GET /pulls?head={owner}:{branch}&state=all&per_page=5`. -/
  | listPulls (owner branch : String)
  /-- `GET /pulls?state=open&per_page=100&page={page}`. -/
  | listOpenPulls (page : Nat)
  /-- `GET /pulls/{number}`. -/
  | getPull (number : Int)
  /-- `PATCH /pulls/{number}` with `state: closed`. -/
  | closePull (number : Int)
  /-- `GET /compare/{base}...{head}?per_page=1`. -/
  | compare (base head : String)
  deriving DecidableEq, Repr

/-- The calls that change something on GitHub. -/
def ApiRequest.IsWrite : ApiRequest → Prop
  | .createRef .. | .putContents .. | .createPull .. | .closePull .. => True
  | _ => False

instance (req : ApiRequest) : Decidable req.IsWrite := by
  cases req <;> unfold ApiRequest.IsWrite <;> infer_instance

structure Reply where
  status : Nat
  json : Option Json
  link : Option String := none

inductive PrState where
  | «open» | closed
  deriving DecidableEq, Repr

structure PrInfo where
  number : Int
  url : String
  createdAt : Option String
  state : PrState
  merged : Bool
  mergeCommitSha : Option String
  deriving DecidableEq, Repr

structure CreatedPr where
  prNumber : Int
  prUrl : String
  deriving DecidableEq, Repr

structure CreateChangePrInput where
  branch : String
  baseCommitSha : String
  baseBlobSha : String
  path : String
  content : String
  title : String
  body : String
  notBefore : Option Int
  commitMessage : String
  deriving DecidableEq, Repr

inductive CompareStatus where
  | identical | ahead | behind | diverged
  deriving DecidableEq, Repr

/-! ## ArgoCD and the SSO source -/

structure ArgocdAppStatus where
  syncStatus : String
  revision : Option String

structure SsoBase where
  text : String
  baseDomain : String
  groupNames : List String
  blobSha : String
  commitSha : String

structure Patch where
  endpoint : String
  allowedGroups : List Json

structure BuildInput where
  baseText : String
  baseDomain : String
  groupNames : List String
  patch : Patch

structure BuiltChange where
  endpoint : String
  before : Option (List String)
  after : List String
  editedText : String
  diff : String
  payloadSha256 : String

/-- The configuration, and the pure functions the handlers call that live in
other files (`editEngine.ts`, `ssoAdapter.ts`) or in the runtime. -/
structure Deps where
  target : GithubTarget
  baseDomain : String
  /-- The ArgoCD reader is configured. -/
  argocd : Bool
  /-- The GitHub App client is configured. -/
  gitWriter : Bool
  /-- The SSO source has `readBase`. -/
  readBase : Bool
  buildChange : BuildInput → Except JsError BuiltChange
  payloadSha256 : Patch → String
  gitBlobSha : String → String
  parseGroupNames : String → String → Except JsError (List String)
  /-- `Date.parse`, `none` for `NaN`. -/
  dateParse : String → Option Int

def SSO_FILE_PATH : String := "gitops/values/sso.yaml"

def GROUPS_FILE_PATH : String := "policies/groups.yaml"

/-! ## The operations -/

inductive Mark where
  /-- `reconcile(record)` is entered. -/
  | reconcile (record : ChangeRecord)
  /-- `recover` found the branch without a pull request. -/
  | branchOnly (record : ChangeRecord)
  /-- The sweep looks at a terminal record. -/
  | sweep (record : ChangeRecord)
  /-- The run about one record is over. -/
  | leave
  | createChangePr (input : CreateChangePrInput)
  /-- `createChangePr` returns the pull request of its own 201 answer. -/
  | opened (branch : String) (number : Int)
  /-- `createChangePr` returns a pull request it looked up. -/
  | adopted (branch : String) (number : Int)
  /-- `recover` found this pull request on the record's branch. -/
  | found (branch : String) (pr : PrInfo)
  | closePr (number : Int)

inductive Op where
  | store (op : StoreOp)
  | api (req : ApiRequest)
  | now
  | getApplication (name : String)
  | readBase (fresh : Bool)
  | trace (mark : Mark)

abbrev Op.Rep : Op → Type
  | .store op => Except StoreError op.Result
  | .api _ => Except String Reply
  | .now => Nat
  | .getApplication _ => Except String ArgocdAppStatus
  | .readBase _ => Except JsError SsoBase
  | .trace _ => Unit

abbrev sig : Sig := ⟨Op, Op.Rep⟩

/-- An `async` function of the code. -/
abbrev Async (α : Type) := Prog sig JsError α

/-- The body of a `try`. -/
abbrev Async.attempt {α : Type} (p : Async α) : Async (Except JsError α) := Prog.attempt p

def callStore (op : StoreOp) : Async op.Result := do
  let r ← (Prog.perform (S := sig) (.store op))
  Prog.ofExcept (Except.mapError .store r)

/-- `this.api(...)`. -/
def api (req : ApiRequest) : Async Reply := do
  let r ← (Prog.perform (S := sig) (.api req))
  Prog.ofExcept (Except.mapError .githubUnavailable r)

def now : Async Nat := Prog.perform (S := sig) .now

def getApplication (name : String) : Async ArgocdAppStatus := do
  let r ← (Prog.perform (S := sig) (.getApplication name))
  Prog.ofExcept (Except.mapError .other r)

def readBase (fresh : Bool) : Async SsoBase := do
  let r ← (Prog.perform (S := sig) (.readBase fresh))
  Prog.ofExcept r

def trace (mark : Mark) : Async Unit := Prog.perform (S := sig) (.trace mark)

end Sso
