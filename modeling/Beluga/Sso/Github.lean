import Beluga.Sso.Protocol

/-! # GitHub

The REST calls of `githubApp.ts` as GitHub documents them, each atomic: the
pull requests and branches of one repository, the contents of its commits, and
what people do to them between two calls.

* a call is served, refused (5xx, 403, 429 ...), or cut off before or after its
  effect; 404 is only answered for what is not there;
* a branch of a pull request, its repository, its number and its creation time
  never change; a merged pull request stays merged;
* `PUT /contents` replaces a file only when the blob it names is the file's.
-/

namespace Sso

/-! ## The repository -/

inductive PullStatus where
  | «open»
  | closed
  | merged (at_ mergeCommitSha : String)
  deriving DecidableEq, Repr

/-- A pull request; `headRepo` is `none` when the head repository was deleted. -/
structure Pull where
  number : Int
  url : String
  createdAt : String
  headOwner : String
  headRepo : Option String
  headRef : String
  status : PullStatus := .open
  deriving DecidableEq, Repr

namespace Pull

/-- `head.repo`. -/
def repoJson (pull : Pull) : Json :=
  match pull.headRepo with
  | some repo => .obj [("full_name", .str (pull.headOwner ++ "/" ++ repo))]
  | none => .null

def json (pull : Pull) : Json :=
  .obj [("number", .num pull.number), ("html_url", .str pull.url),
    ("created_at", .str pull.createdAt),
    ("state", .str (match pull.status with | .open => "open" | _ => "closed")),
    ("merged_at", match pull.status with | .merged at_ _ => .str at_ | _ => .null),
    ("merge_commit_sha", match pull.status with | .merged _ sha => .str sha | _ => .null),
    ("head", .obj [("ref", .str pull.headRef), ("repo", pull.repoJson)])]

/-- The head is in the configured repository. -/
def Ours (deps : Deps) (pull : Pull) : Prop := isOurs deps (some pull.json)

instance (deps : Deps) (pull : Pull) : Decidable (pull.Ours deps) :=
  inferInstanceAs (Decidable (_ = true))

def Merged (pull : Pull) : Prop := ∃ at_ sha, pull.status = .merged at_ sha

instance (pull : Pull) : Decidable pull.Merged :=
  match h : pull.status with
  | .merged at_ sha => isTrue ⟨at_, sha, h⟩
  | .open | .closed => isFalse (by rintro ⟨at_, sha, h'⟩; simp [h] at h')

/-- What the client reads of it. -/
def info (pull : Pull) : PrInfo where
  number := pull.number
  url := pull.url
  createdAt := some pull.createdAt
  state := match pull.status with | .open => PrState.open | _ => .closed
  merged := match pull.status with | .merged _ _ => true | _ => false
  mergeCommitSha := match pull.status with | .merged _ sha => some sha |>.filter isSha | _ => none

theorem toPr_json (pull : Pull) : toPr (some pull.json) = some pull.info := by
  unfold toPr json info
  cases pull.status <;>
    simp [Json.field, Json.asNumber, Json.asString, toPrState, bind, Option.bind]

end Pull

/-- A branch, with the content of `gitops/values/sso.yaml` on it. -/
structure Branch where
  name : String
  tip : String
  file : Option String
  deriving DecidableEq, Repr

/-- The pull requests in the order they were opened, and the branches. -/
structure Hub (deps : Deps) where
  pulls : List Pull
  branches : List Branch
  numbers : (pulls.map (·.number)).Nodup
  owners : ∀ pull ∈ pulls, pull.Ours deps → pull.headOwner = deps.target.owner

/-- What the commits and blobs of the repository are; `tree sha path` is a file
at a commit. -/
structure Contents where
  tree : String → String → Option String
  blobSha : String → String
  blobSha_isSha : ∀ text, isSha (blobSha text)

namespace Hub

variable {deps : Deps}

/-- A new pull request, if its number is new. -/
def addPull (hub : Hub deps) (pull : Pull) : Option (Hub deps) :=
  if h : pull.number ∉ hub.pulls.map (·.number) ∧
      (pull.Ours deps → pull.headOwner = deps.target.owner) then
    some { hub with
      pulls := hub.pulls ++ [pull]
      numbers := by
        rw [List.map_append, List.nodup_append]
        refine ⟨hub.numbers, by simp, ?_⟩
        rintro n hn n' hn' hsame
        have hnew : n = pull.number := hsame.trans (List.mem_singleton.mp hn')
        exact h.1 (hnew ▸ hn)
      owners := by
        intro p hp hours
        rcases List.mem_append.mp hp with hp | hp
        · exact hub.owners p hp hours
        · rw [List.mem_singleton.mp hp] at hours ⊢
          exact h.2 hours }
  else none

def setStatus (hub : Hub deps) (number : Int) (status : PullStatus) : Hub deps where
  pulls := hub.pulls.map fun p => if p.number = number then { p with status := status } else p
  branches := hub.branches
  numbers := by
    have hsame : (hub.pulls.map fun p =>
        if p.number = number then { p with status := status } else p).map (·.number) =
        hub.pulls.map (·.number) := by
      rw [List.map_map]
      refine List.map_congr_left fun p _ => ?_
      by_cases hn : p.number = number <;> simp [hn]
    rw [hsame]
    exact hub.numbers
  owners := by
    intro p hp hours
    obtain ⟨p₀, hp₀, rfl⟩ := List.mem_map.mp hp
    split_ifs at hours ⊢ with hn
    · exact hub.owners p₀ hp₀ hours
    · exact hub.owners p₀ hp₀ hours

def findPull (hub : Hub deps) (number : Int) : Option Pull :=
  hub.pulls.find? fun p => p.number = number

def findRef (hub : Hub deps) (branch : String) : Option Branch :=
  hub.branches.find? fun b => b.name = branch

/-- The page that lists the pull requests of a head, newest first. -/
def listed (hub : Hub deps) (owner branch : String) : List Pull :=
  (hub.pulls.filter fun p => p.headOwner = owner ∧ p.headRef = branch).reverse.take 5

/-- The branch with new content. -/
def setFile (hub : Hub deps) (branch tip : String) (content : Option String) : Hub deps :=
  { hub with branches := hub.branches.map fun b =>
      if b.name = branch then { b with tip := tip, file := content } else b }

def addBranch (hub : Hub deps) (branch : Branch) : Hub deps :=
  { hub with branches := hub.branches ++ [branch] }

def dropBranch (hub : Hub deps) (branch : String) : Hub deps :=
  { hub with branches := hub.branches.filter fun b => b.name ≠ branch }

end Hub

/-! ## The calls -/

inductive GithubFate where
  | served
  /-- An answer that is no success and not 404, and no effect. -/
  | refused (reply : Reply)
  /-- The call did not arrive. -/
  | failed (text : String)
  /-- The answer did not arrive. -/
  | lost (text : String)

/-- What GitHub chooses when it serves a call. -/
structure GithubAnswer where
  fate : GithubFate := .served
  /-- The number, page and time of a new pull request. -/
  number : Int := 0
  url : String := ""
  createdAt : String := ""
  /-- The commit of a content write. -/
  tip : String := ""
  /-- A content write over another blob is answered 409, or else 422. -/
  conflict : Bool := true
  compare : String := "diverged"

def messageJson (message : String) : Json := .obj [("message", .str message)]

def notFound : Reply := { status := 404, json := some (messageJson "Not Found") }

/-- `refs/heads/{branch}` without its prefix. -/
def refBranch (ref : String) : String :=
  String.ofList (ref.toList.drop "refs/heads/".toList.length)

variable {deps : Deps}

/-- The file at `path` on a branch or at a commit. -/
def Contents.read (contents : Contents) (hub : Hub deps) (path ref : String) : Option String :=
  match hub.findRef ref with
  | some branch => if path = SSO_FILE_PATH then branch.file else contents.tree branch.tip path
  | none => contents.tree ref path

/-- A call that arrives and is not refused. -/
def hubServe (contents : Contents) (hub : Hub deps) (a : GithubAnswer) :
    ApiRequest → Option (Reply × Hub deps)
  | .createRef ref sha =>
      match hub.findRef (refBranch ref) with
      | some _ => some ({ status := 422, json := some (messageJson "Reference already exists") }, hub)
      | none => some ({ status := 201, json := none },
          hub.addBranch ⟨refBranch ref, sha, contents.tree sha SSO_FILE_PATH⟩)
  | .getRef branch =>
      match hub.findRef branch with
      | some b => some ({ status := 200, json := some (.obj [("object", .obj [("sha", .str b.tip)])]) },
          hub)
      | none => some (notFound, hub)
  | .getContents path ref =>
      match contents.read hub path ref with
      | some text => some ({ status := 200, json := some (.obj [("path", .str path),
          ("sha", .str (contents.blobSha text)), ("content", .str text)]) }, hub)
      | none => some (notFound, hub)
  | .putContents path _ content sha branch =>
      match hub.findRef branch with
      | none => some (notFound, hub)
      | some b =>
          if path = SSO_FILE_PATH ∧ b.file.map contents.blobSha = some sha then
            if isSha a.tip then
              some ({ status := 200, json := none }, hub.setFile branch a.tip (some content))
            else none
          else
            some ({ status := if a.conflict then 409 else 422,
                    json := some (messageJson "does not match") }, hub)
  | .createPull _ head _ _ =>
      if (hub.findRef head).isNone then
        some ({ status := 422, json := some (messageJson "Validation Failed") }, hub)
      else if hub.pulls.any fun p => decide (p.Ours deps ∧ p.headRef = head ∧ p.status = .open) then
        some ({ status := 422, json := some (.obj [("message", .str "Validation Failed"),
          ("errors", .arr [messageJson ("A pull request already exists for " ++ head ++ ".")])]) }, hub)
      else
        let pull : Pull := ⟨a.number, a.url, a.createdAt, deps.target.owner, some deps.target.repo,
          head, .open⟩
        (hub.addPull pull).map fun hub' => ({ status := 201, json := some pull.json }, hub')
  | .listPulls owner branch =>
      some ({ status := 200, json := some (.arr ((hub.listed owner branch).map Pull.json)) }, hub)
  | .listOpenPulls page =>
      let open_ := (hub.pulls.filter fun p => p.status = .open).reverse.drop (100 * (page - 1))
      some ({ status := 200, json := some (.arr ((open_.take 100).map Pull.json)),
              link := if 100 < open_.length then some "rel=\"next\"" else none }, hub)
  | .getPull number =>
      match hub.findPull number with
      | some pull => some ({ status := 200, json := some pull.json }, hub)
      | none => some (notFound, hub)
  | .closePull number =>
      match hub.findPull number with
      | none => some (notFound, hub)
      | some pull =>
          match pull.status with
          | .merged _ _ => some ({ status := 200, json := some pull.json }, hub)
          | _ => some ({ status := 200, json := some { pull with status := .closed }.json },
              hub.setStatus number .closed)
  | .compare _ _ =>
      some ({ status := 200, json := some (.obj [("status", .str a.compare)]) }, hub)

/-- A refusal. -/
def Reply.Refusal (reply : Reply) : Prop :=
  reply.status ≠ 200 ∧ reply.status ≠ 201 ∧ reply.status ≠ 404

instance (reply : Reply) : Decidable reply.Refusal :=
  inferInstanceAs (Decidable (_ ∧ _ ∧ _))

def githubServe (contents : Contents) (hub : Hub deps) (req : ApiRequest) (a : GithubAnswer) :
    Option (Except String Reply × Hub deps) :=
  match a.fate with
  | .served => (hubServe contents hub a req).map fun r => (.ok r.1, r.2)
  | .refused reply => if reply.Refusal then some (.ok reply, hub) else none
  | .failed text => some (.error text, hub)
  | .lost text => (hubServe contents hub a req).map fun r => (.error text, r.2)

/-! ## What people do -/

inductive HubEnv where
  /-- Anyone opens a pull request, also from a fork. -/
  | openPull (pull : Pull)
  | merge (number : Int) (at_ sha : String)
  | close (number : Int)
  | reopen (number : Int)
  | push (branch tip : String) (content : Option String)
  | createBranch (branch : Branch)
  | deleteBranch (branch : String)

def hubEnv (hub : Hub deps) : HubEnv → Option (Hub deps)
  | .openPull pull => hub.addPull { pull with status := .open }
  | .merge number at_ sha =>
      (hub.findPull number).bind fun p =>
        if p.status = .open then some (hub.setStatus number (.merged at_ sha)) else none
  | .close number =>
      (hub.findPull number).bind fun p =>
        if p.status = .open then some (hub.setStatus number .closed) else none
  | .reopen number =>
      (hub.findPull number).bind fun p =>
        if p.status = .closed then some (hub.setStatus number .open) else none
  | .push branch tip content => some (hub.setFile branch tip content)
  | .createBranch branch => some (hub.addBranch branch)
  | .deleteBranch branch => some (hub.dropBranch branch)

/-! ## What changes -/

/-- `pull'` is `pull` later: only the status can differ, and a merge is final. -/
structure Pull.Later (pull pull' : Pull) : Prop where
  same : pull' = { pull with status := pull'.status }
  merged : pull.Merged → pull'.status = pull.status

namespace Pull.Later

variable {pull pull' : Pull}

theorem refl (pull : Pull) : pull.Later pull := ⟨rfl, fun _ => rfl⟩

theorem number (h : pull.Later pull') : pull'.number = pull.number := by rw [h.same]

theorem headRef (h : pull.Later pull') : pull'.headRef = pull.headRef := by rw [h.same]

theorem createdAt (h : pull.Later pull') : pull'.createdAt = pull.createdAt := by rw [h.same]

theorem ours (h : pull.Later pull') : pull'.Ours deps ↔ pull.Ours deps := by
  rw [h.same]
  rfl

end Pull.Later

theorem Hub.eq_of_number {hub : Hub deps} {p p' : Pull} (h : p ∈ hub.pulls) (h' : p' ∈ hub.pulls)
    (hnumber : p.number = p'.number) : p = p' :=
  List.inj_on_of_nodup_map hub.numbers h h' hnumber

theorem Hub.findPull_some {hub : Hub deps} {number : Int} {pull : Pull}
    (h : hub.findPull number = some pull) : pull ∈ hub.pulls ∧ pull.number = number :=
  ⟨List.mem_of_find?_eq_some h, by simpa using List.find?_some h⟩

theorem Hub.findPull_of_mem {hub : Hub deps} {pull : Pull} (h : pull ∈ hub.pulls) :
    hub.findPull pull.number = some pull := by
  cases hfind : hub.findPull pull.number with
  | none => simp [findPull] at hfind; exact absurd rfl (hfind pull h)
  | some found =>
      obtain ⟨hmem, hnumber⟩ := findPull_some hfind
      rw [eq_of_number hmem h hnumber]

theorem Hub.addPull_pulls {hub hub' : Hub deps} {pull : Pull} (h : hub.addPull pull = some hub') :
    hub'.pulls = hub.pulls ++ [pull] ∧ hub'.branches = hub.branches := by
  unfold addPull at h
  split_ifs at h
  cases h
  exact ⟨rfl, rfl⟩

/-- What a call or a person does to the pull requests. -/
inductive PullsStep (hub hub' : Hub deps) : Prop where
  | same (h : hub'.pulls = hub.pulls)
  | opened (pull : Pull) (hopen : pull.status = .open) (h : hub'.pulls = hub.pulls ++ [pull])
  /-- The status of one that is not merged. -/
  | moved (pull : Pull) (status : PullStatus) (hpull : pull ∈ hub.pulls)
      (hmerged : ¬ pull.Merged) (h : hub' = hub.setStatus pull.number status)

variable {contents : Contents} {hub hub' : Hub deps} {a : GithubAnswer} {req : ApiRequest}

/-- A call that is served opens a pull request of ours, closes one, or leaves all of them. -/
theorem hubServe_cases {reply : Reply} (h : hubServe contents hub a req = some (reply, hub')) :
    hub'.pulls = hub.pulls ∨
    (∃ title head base body pull, req = .createPull title head base body ∧
      pull = ⟨a.number, a.url, a.createdAt, deps.target.owner, some deps.target.repo, head, .open⟩ ∧
      reply = { status := 201, json := some pull.json } ∧ hub'.pulls = hub.pulls ++ [pull]) ∨
    ∃ pull, req = .closePull pull.number ∧ pull ∈ hub.pulls ∧ ¬ pull.Merged ∧
      hub' = hub.setStatus pull.number .closed := by
  unfold hubServe at h
  cases req with
  | createPull title head base body =>
      simp only at h
      split_ifs at h
      · cases h
        exact .inl rfl
      · cases h
        exact .inl rfl
      · obtain ⟨hub₁, hadd, heq⟩ := Option.map_eq_some_iff.mp h
        cases heq
        exact .inr (.inl ⟨title, head, base, body, _, rfl, rfl, rfl, (Hub.addPull_pulls hadd).1⟩)
  | closePull number =>
      simp only at h
      split at h
      · cases h
        exact .inl rfl
      · next pull hfind =>
          obtain ⟨hmem, rfl⟩ := Hub.findPull_some hfind
          split at h
          · cases h
            exact .inl rfl
          · next hopen =>
              cases h
              refine .inr (.inr ⟨pull, rfl, hmem, ?_, rfl⟩)
              rintro ⟨at_, sha, hmerged⟩
              exact hopen at_ sha hmerged
  | putContents path message content sha branch =>
      simp only at h
      split at h
      · cases h
        exact .inl rfl
      · split_ifs at h
        all_goals
          cases h
          exact .inl rfl
  | createRef _ _ | getRef _ | getContents _ _ | getPull _ =>
      simp only at h
      split at h
      all_goals
        cases h
        exact .inl rfl
  | listPulls _ _ | listOpenPulls _ | compare _ _ =>
      cases h
      exact .inl rfl

/-- Any call that had an effect was served. -/
theorem githubServe_cases {r : Except String Reply}
    (h : githubServe contents hub req a = some (r, hub')) :
    (hub' = hub ∧ ∀ reply, r = .ok reply → reply.Refusal) ∨
    ∃ reply, hubServe contents hub a req = some (reply, hub') ∧
      (r = .ok reply ∨ ∃ text, r = .error text) := by
  unfold githubServe at h
  split at h
  · obtain ⟨⟨reply, hub₁⟩, hserve, heq⟩ := Option.map_eq_some_iff.mp h
    cases heq
    exact .inr ⟨reply, hserve, .inl rfl⟩
  · split_ifs at h with hrefusal
    cases h
    refine .inl ⟨rfl, ?_⟩
    rintro _ ⟨⟩
    exact hrefusal
  · cases h
    exact .inl ⟨rfl, by simp⟩
  · obtain ⟨⟨reply, hub₁⟩, hserve, heq⟩ := Option.map_eq_some_iff.mp h
    cases heq
    exact .inr ⟨reply, hserve, .inr ⟨_, rfl⟩⟩

theorem githubServe_ok {reply : Reply}
    (h : githubServe contents hub req a = some (.ok reply, hub')) :
    (hub' = hub ∧ reply.Refusal) ∨ hubServe contents hub a req = some (reply, hub') := by
  rcases githubServe_cases h with ⟨rfl, hrefusal⟩ | ⟨reply', hserve, heq | ⟨text, heq⟩⟩
  · exact .inl ⟨rfl, hrefusal reply rfl⟩
  · cases heq
    exact .inr hserve
  · cases heq

theorem githubServe_step {r : Except String Reply}
    (h : githubServe contents hub req a = some (r, hub')) : PullsStep hub hub' := by
  rcases githubServe_cases h with ⟨rfl, -⟩ | ⟨reply, hserve, -⟩
  · exact .same rfl
  · rcases hubServe_cases hserve with hsame | ⟨_, _, _, _, pull, -, rfl, -, hpulls⟩ |
      ⟨pull, -, hpull, hmerged, rfl⟩
    · exact .same hsame
    · exact .opened _ rfl hpulls
    · exact .moved pull .closed hpull hmerged rfl

theorem hubEnv_step {e : HubEnv} (h : hubEnv hub e = some hub') : PullsStep hub hub' := by
  unfold hubEnv at h
  cases e with
  | openPull pull => exact .opened _ rfl (Hub.addPull_pulls h).1
  | push _ _ _ | createBranch _ | deleteBranch _ =>
      cases h
      exact .same rfl
  | merge number _ _ | close number | reopen number =>
      obtain ⟨pull, hfind, h⟩ := Option.bind_eq_some_iff.mp h
      obtain ⟨hmem, rfl⟩ := Hub.findPull_some hfind
      split_ifs at h with hstatus
      cases h
      exact .moved pull _ hmem (by rintro ⟨_, _, hm⟩; rw [hstatus] at hm; cases hm) rfl

theorem Hub.mem_setStatus {number : Int} {status : PullStatus} {p : Pull} :
    p ∈ (hub.setStatus number status).pulls ↔ ∃ p₀ ∈ hub.pulls,
      (if p₀.number = number then { p₀ with status := status } else p₀) = p := List.mem_map

/-- Every pull request stays, with its head, number and time. -/
theorem PullsStep.later (h : PullsStep hub hub') :
    ∀ pull ∈ hub.pulls, ∃ pull' ∈ hub'.pulls, pull.Later pull' := by
  intro p hp
  cases h with
  | same h => exact ⟨p, h ▸ hp, .refl p⟩
  | opened pull hopen h => exact ⟨p, by simp [h, hp], .refl p⟩
  | moved pull status hpull hmerged h =>
      subst h
      refine ⟨_, Hub.mem_setStatus.mpr ⟨p, hp, rfl⟩, ?_⟩
      split_ifs with hnumber
      · obtain rfl := Hub.eq_of_number hp hpull hnumber
        exact ⟨rfl, fun h => absurd h hmerged⟩
      · exact .refl p

/-- GitHub with the configured repository. -/
abbrev github (deps : Deps) (contents : Contents) : World where
  State := Hub deps
  Answer := GithubAnswer
  serve := githubServe contents
  Env := HubEnv
  env := hubEnv

end Sso
