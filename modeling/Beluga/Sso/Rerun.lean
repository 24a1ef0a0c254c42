import Beluga.Interact.Trace
import Beluga.Sso.Client
import Beluga.Sso.Github

/-! # Rerunning `createChangePr`

Any number of runs of `createChangePr` with one input, over one repository. A run
may stop anywhere, and any answer may be lost after its effect. What a run does
depends only on what it finds, so one can start where another stopped.

* `RunsInv`: the branch holds the base or the target, and one pull request at most
  was opened for it; every call and what others do elsewhere keep it (`exec_keeps`,
  `env_keeps`);
* `permitted_createChangePr`, `atMost_createChangePr`: what a run may call, and how often.
-/

namespace Sso

open Interact

/-! ## The runs -/

section Model

variable (deps : Deps) (contents : Contents) (input : CreateChangePrInput)

/-- Serve one call. -/
def serveRun (hub : Hub deps) : (op : Op) → Answer (github deps contents) →
    Option (Op.Rep op × Hub deps)
  | .api req, .github a => githubServe contents hub req a
  | .now, .clock ms => some (ms, hub)
  | .getApplication _, .argocd r => some (r, hub)
  | .readBase _, .base r => some (r, hub)
  | .trace _, .mark => some ((), hub)
  | _, _ => none

/-- The pull request that a run opens. -/
def runPull (a : GithubAnswer) : Pull :=
  ⟨a.number, a.url, a.createdAt, deps.target.owner, some deps.target.repo, input.branch, .open⟩

/-- The call is served, or it or its answer is lost; a pull request is dated after
`notBefore`. -/
def documented : Op → Answer (github deps contents) → Bool
  | .api req, .github a =>
      (match a.fate with | .refused _ => false | _ => true) &&
        match req with
        | .createPull _ _ _ _ => notOlder deps input.notBefore (runPull deps input a).info
        | _ => true
  | _, _ => true

/-- A pull request whose head is the branch, in a repository of the owner. -/
def atHead (pull : Pull) : Bool :=
  pull.headOwner = deps.target.owner ∧ pull.headRef = input.branch

/-- What others do that touches neither the branch nor its pull requests. -/
def elsewhere (hub : Hub deps) : HubEnv → Bool
  | .openPull pull => !atHead deps input pull
  | .merge number _ _ | .close number | .reopen number =>
      hub.pulls.all fun p => p.number ≠ number || !atHead deps input p
  | .push branch _ _ | .deleteBranch branch => branch ≠ input.branch
  | .createBranch branch => branch.name ≠ input.branch

/-- The runs among others who may do anything, also to the branch. -/
abbrev rerunsAmongWriters : System sig JsError CreatedPr where
  Shared := Hub deps
  Task := Unit
  prog _ := createChangePr deps input
  Answer := Answer (github deps contents)
  exec hub _ := serveRun deps contents hub
  Env := HubEnv
  env := hubEnv

/-- The runs when nobody else touches the branch or its pull request. -/
abbrev reruns : System sig JsError CreatedPr where
  Shared := Hub deps
  Task := Unit
  prog _ := createChangePr deps input
  Answer := Answer (github deps contents)
  exec hub _ op a :=
    if documented deps contents input op a then serveRun deps contents hub op a else none
  Env := HubEnv
  env hub e := if elsewhere deps input hub e then hubEnv hub e else none

/-- The pull requests whose head is the branch, in the order they were opened. -/
def heads (hub : Hub deps) : List Pull := hub.pulls.filter (atHead deps input)

/-- What the input says of the repository. -/
structure Grounded (base : String) : Prop where
  branch : isSsoBranch input.branch
  path : input.path = SSO_FILE_PATH
  commit : isSha input.baseCommitSha
  /-- The base blob is the file's at the base commit. -/
  tree : contents.tree input.baseCommitSha SSO_FILE_PATH = some base
  blob : contents.blobSha base = input.baseBlobSha

/-- Neither the branch nor an open pull request for it is there. -/
structure Fresh (hub : Hub deps) : Prop where
  branch : hub.findRef input.branch = none
  pulls : ∀ p ∈ heads deps input hub, p.Ours deps → p.status ≠ .open

end Model

variable {deps : Deps} {contents : Contents} {input : CreateChangePrInput} {base : String}
  {g hub hub' : Hub deps}

/-- The branch holds the base or the target, and one pull request at most was
opened for it, which is still open. -/
structure RunsInv (deps : Deps) (input : CreateChangePrInput) (base : String) (g hub : Hub deps) :
    Prop where
  branch : ∀ b, hub.findRef input.branch = some b →
    isSha b.tip ∧ (b.file = some base ∨ b.file = some input.content)
  pulls : heads deps input hub = heads deps input g ∨
    ∃ p, heads deps input hub = heads deps input g ++ [p] ∧ p.Ours deps ∧ p.status = .open ∧
      notOlder deps input.notBefore p.info

/-- What the others of these runs leave: the branch, a written file and an opened
pull request. -/
structure RunsRely (deps : Deps) (input : CreateChangePrInput) (g hub hub' : Hub deps) : Prop where
  branch : (hub.findRef input.branch).isSome → (hub'.findRef input.branch).isSome
  file : (∃ b, hub.findRef input.branch = some b ∧ b.file = some input.content) →
    ∃ b, hub'.findRef input.branch = some b ∧ b.file = some input.content
  pulls : ∀ p, heads deps input hub = heads deps input g ++ [p] →
    heads deps input hub' = heads deps input g ++ [p]

theorem RunsRely.refl (hub : Hub deps) : RunsRely deps input g hub hub :=
  ⟨fun h => h, fun h => h, fun _ h => h⟩

theorem RunsRely.trans {hub'' : Hub deps} (h : RunsRely deps input g hub hub')
    (h' : RunsRely deps input g hub' hub'') : RunsRely deps input g hub hub'' :=
  ⟨fun hb => h'.branch (h.branch hb), fun hf => h'.file (h.file hf),
    fun p hp => h'.pulls p (h.pulls p hp)⟩

/-! ## Steps -/

/-- What a step leaves alone. -/
theorem RunsInv.of_same (h : RunsInv deps input base g hub)
    (hbranch : hub'.findRef input.branch = hub.findRef input.branch)
    (hheads : heads deps input hub' = heads deps input hub) :
    RunsInv deps input base g hub' ∧ RunsRely deps input g hub hub' := by
  refine ⟨⟨?_, ?_⟩, ⟨?_, ?_, ?_⟩⟩
  · rw [hbranch]
    exact h.branch
  · rw [hheads]
    exact h.pulls
  · rw [hbranch]
    exact fun h => h
  · rw [hbranch]
    exact fun h => h
  · rw [hheads]
    exact fun _ h => h

theorem heads_append {pull : Pull} (h : hub'.pulls = hub.pulls ++ [pull]) :
    heads deps input hub' = heads deps input hub ++ [pull].filter (atHead deps input) := by
  rw [heads, h, List.filter_append]
  rfl

/-- A status that changes elsewhere does not show in the pull requests of the branch. -/
theorem heads_setStatus {number : Int} {status : PullStatus}
    (h : ∀ p ∈ hub.pulls, p.number = number → atHead deps input p = false) :
    heads deps input (hub.setStatus number status) = heads deps input hub := by
  have hpulls : (hub.setStatus number status).pulls =
      hub.pulls.map fun p => if p.number = number then { p with status := status } else p := rfl
  rw [heads, heads, hpulls]
  generalize hub.pulls = pulls at h
  induction pulls with
  | nil => rfl
  | cons p ps ih =>
      have hrest := ih fun q hq => h q (List.mem_cons_of_mem _ hq)
      by_cases hn : p.number = number
      · have hp := h p List.mem_cons_self hn
        have hp' : atHead deps input { p with status := status } = false := hp
        rw [List.map_cons, if_pos hn, List.filter_cons_of_neg (by simp [hp']),
          List.filter_cons_of_neg (by simp [hp]), hrest]
      · rw [List.map_cons, if_neg hn, List.filter_cons, List.filter_cons, hrest]

theorem findRef_append {branch : String} {b : Branch} :
    (hub.addBranch b).findRef branch =
      (hub.findRef branch).or (if b.name = branch then some b else none) := by
  simp only [Hub.findRef, Hub.addBranch, List.find?_append, List.find?_singleton,
    decide_eq_true_eq]

theorem findRef_setFile {branch name tip : String} {content : Option String} :
    (hub.setFile name tip content).findRef branch =
      (hub.findRef branch).map fun b =>
        if b.name = name then { b with tip := tip, file := content } else b := by
  have hname : (fun b : Branch => decide (b.name = branch)) ∘ (fun b =>
      if b.name = name then { b with tip := tip, file := content } else b) =
      fun b => decide (b.name = branch) := by
    funext b
    by_cases hb : b.name = name <;> simp [hb]
  rw [Hub.findRef, Hub.setFile, List.find?_map, hname]
  rfl

/-- What a run may write, and where. -/
def OwnWrite (input : CreateChangePrInput) : ApiRequest → Prop
  | .createRef ref sha => ref = "refs/heads/" ++ input.branch ∧ sha = input.baseCommitSha
  | .putContents _ _ content sha branch =>
      content = input.content ∧ sha = input.baseBlobSha ∧ branch = input.branch
  | .createPull _ head _ _ => head = input.branch
  | _ => False

/-- What a run may call. -/
def Permitted (input : CreateChangePrInput) : Op → Prop
  | .trace _ => True
  | op => Plain (OwnWrite input) op

theorem refBranch_append (branch : String) : refBranch ("refs/heads/" ++ branch) = branch := by
  simp [refBranch, String.toList_append]

theorem mem_heads {p : Pull} : p ∈ heads deps input hub ↔
    p ∈ hub.pulls ∧ p.headOwner = deps.target.owner ∧ p.headRef = input.branch := by
  simp [heads, atHead]

/-- An open pull request of ours on the branch is the one that was created. -/
theorem RunsInv.of_open (h : RunsInv deps input base g hub) (hfresh : Fresh deps input g)
    {p : Pull} (hp : p ∈ hub.pulls) (hours : p.Ours deps) (href : p.headRef = input.branch)
    (hopen : p.status = .open) :
    ∃ q, heads deps input hub = heads deps input g ++ [q] := by
  rcases h.pulls with hsame | ⟨q, hq, -⟩
  · have hmem : p ∈ heads deps input g := by
      rw [← hsame]
      exact mem_heads.mpr ⟨hp, hub.owners p hp hours, href⟩
    exact absurd hopen (hfresh.pulls p hmem hours)
  · exact ⟨q, hq⟩

theorem createRef_keeps (hground : Grounded contents input base)
    (h : RunsInv deps input base g hub) {a : GithubAnswer} {reply : Reply}
    (hx : hubServe contents hub a (.createRef ("refs/heads/" ++ input.branch)
      input.baseCommitSha) = some (reply, hub')) :
    RunsInv deps input base g hub' ∧ RunsRely deps input g hub hub' := by
  simp only [hubServe, refBranch_append, hground.tree] at hx
  split at hx
  · cases hx
    exact ⟨h, .refl _⟩
  · next hnone =>
      -- the new branch is at the base commit
      cases hx
      refine ⟨⟨?_, h.pulls⟩, ⟨?_, ?_, fun _ hp => hp⟩⟩
      · intro b hb
        rw [findRef_append, hnone, Option.none_or, if_pos rfl] at hb
        cases hb
        exact ⟨hground.commit, .inl rfl⟩
      · intro hsome
        rw [hnone] at hsome
        cases hsome
      · rintro ⟨b, hb, -⟩
        rw [hnone] at hb
        cases hb

theorem putContents_keeps (h : RunsInv deps input base g hub) {a : GithubAnswer} {reply : Reply}
    {path message sha : String}
    (hx : hubServe contents hub a (.putContents path message input.content sha input.branch) =
      some (reply, hub')) :
    RunsInv deps input base g hub' ∧ RunsRely deps input g hub hub' := by
  simp only [hubServe] at hx
  split at hx
  · cases hx
    exact ⟨h, .refl _⟩
  · next b hb =>
      split_ifs at hx with hblob htip
      · -- the target is written
        cases hx
        have hset : (hub.setFile input.branch a.tip (some input.content)).findRef input.branch =
            some { b with tip := a.tip, file := some input.content } := by
          have hname : b.name = input.branch := by
            simpa using List.find?_some hb
          rw [findRef_setFile, hb, Option.map_some, if_pos hname]
        refine ⟨⟨?_, h.pulls⟩, ⟨?_, ?_, fun _ hp => hp⟩⟩
        · intro b' hb'
          rw [hset] at hb'
          cases hb'
          exact ⟨htip, .inr rfl⟩
        · intro _
          rw [hset]
          rfl
        · intro _
          exact ⟨_, hset, rfl⟩
      all_goals
        cases hx
        exact ⟨h, .refl _⟩

theorem createPull_keeps (h : RunsInv deps input base g hub)
    {a : GithubAnswer} {reply : Reply} {title target body : String}
    (hnew : notOlder deps input.notBefore (runPull deps input a).info)
    (hx : hubServe contents hub a (.createPull title input.branch target body) =
      some (reply, hub')) :
    RunsInv deps input base g hub' ∧ RunsRely deps input g hub hub' := by
  simp only [hubServe] at hx
  split_ifs at hx with hbranch hany
  · cases hx
    exact ⟨h, .refl _⟩
  · cases hx
    exact ⟨h, .refl _⟩
  · obtain ⟨hub₁, hadd, heq⟩ := Option.map_eq_some_iff.mp hx
    cases heq
    obtain ⟨hpulls, hbranches⟩ := Hub.addPull_pulls hadd
    have hheads : heads deps input hub' = heads deps input hub ++ [runPull deps input a] := by
      rw [heads_append hpulls]
      simp [atHead, runPull]
    have hbranch : ∀ branch, hub'.findRef branch = hub.findRef branch := by
      intro branch
      rw [Hub.findRef, hbranches]
      rfl
    -- no pull request of a run is there yet, it would be open
    have hsame : heads deps input hub = heads deps input g := by
      rcases h.pulls with hsame | ⟨p, hp, hours, hopen, -⟩
      · exact hsame
      · have hmem : p ∈ heads deps input hub := by
          rw [hp]
          exact List.mem_append_right _ List.mem_cons_self
        obtain ⟨hin, -, href⟩ := mem_heads.mp hmem
        exact absurd (List.any_eq_true.mpr ⟨p, hin, decide_eq_true ⟨hours, href, hopen⟩⟩) hany
    refine ⟨⟨?_, .inr ⟨runPull deps input a, ?_, ?_, rfl, hnew⟩⟩, ⟨?_, ?_, ?_⟩⟩
    · rw [hbranch]
      exact h.branch
    · rw [hheads, hsame]
    · simp [Pull.Ours, isOurs, Pull.json, Pull.repoJson, Json.field, Json.asString, ourFullName,
        runPull]
    · rw [hbranch]
      exact fun hsome => hsome
    · rw [hbranch]
      exact fun hfile => hfile
    · intro p hp
      rw [hsame] at hp
      exact absurd (congrArg List.length hp) (by simp)

/-- A call that only reads changes nothing. -/
theorem hubServe_read {req : ApiRequest} {a : GithubAnswer} {reply : Reply}
    (hread : ¬ req.IsWrite) (hx : hubServe contents hub a req = some (reply, hub')) :
    hub' = hub := by
  cases req with
  | createRef _ _ | putContents _ _ _ _ _ | createPull _ _ _ _ | closePull _ =>
      exact absurd trivial hread
  | getRef _ | getContents _ _ | getPull _ =>
      simp only [hubServe] at hx
      split at hx
      all_goals
        cases hx
        rfl
  | listPulls _ _ | listOpenPulls _ | compare _ _ =>
      cases hx
      rfl

/-- A call that is served keeps the invariant. -/
theorem permitted_keeps (hground : Grounded contents input base)
    (h : RunsInv deps input base g hub) {req : ApiRequest} {a : GithubAnswer} {reply : Reply}
    (hok : Permitted input (.api req)) (hdoc : documented deps contents input (.api req) (.github a))
    (hx : hubServe contents hub a req = some (reply, hub')) :
    RunsInv deps input base g hub' ∧ RunsRely deps input g hub hub' := by
  cases req with
  | createRef ref sha =>
      obtain ⟨rfl, rfl⟩ := hok trivial
      exact createRef_keeps hground h hx
  | putContents path message content sha branch =>
      obtain ⟨rfl, -, rfl⟩ := hok trivial
      exact putContents_keeps h hx
  | createPull title head target body =>
      obtain rfl : head = input.branch := hok trivial
      have hnew : notOlder deps input.notBefore (runPull deps input a).info := by
        simp only [documented, Bool.and_eq_true] at hdoc
        exact hdoc.2
      exact createPull_keeps h hnew hx
  | closePull number => exact (hok trivial).elim
  | getRef _ | getContents _ _ | listPulls _ _ | listOpenPulls _ | getPull _ | compare _ _ =>
      cases hubServe_read (by simp [ApiRequest.IsWrite]) hx
      exact ⟨h, .refl _⟩

/-- What serves a call of a run, and the loss of its answer. -/
theorem reruns_exec_api {req : ApiRequest} {a : Answer (github deps contents)}
    {r : Except String Reply} {t : Nat}
    (hx : (reruns deps contents input).exec hub t (.api req) a = some (r, hub')) :
    ∃ a', documented deps contents input (.api req) (.github a') = true ∧
      ((hub' = hub ∧ ∃ text, r = .error text) ∨
        ∃ reply, hubServe contents hub a' req = some (reply, hub') ∧
          (r = .ok reply ∨ ∃ text, r = .error text)) := by
  simp only at hx
  split_ifs at hx with hdoc
  cases a with
  | github a' =>
      refine ⟨a', hdoc, ?_⟩
      have hserve : githubServe contents hub req a' = some (r, hub') := hx
      rcases githubServe_cases hserve with ⟨rfl, hrefusal⟩ | hserved
      · cases r with
        | error text => exact .inl ⟨rfl, text, rfl⟩
        | ok reply =>
            -- refusals are not among the documented answers
            unfold githubServe at hserve
            split at hserve
            · obtain ⟨⟨reply', hub₁⟩, hserved, heq⟩ := Option.map_eq_some_iff.mp hserve
              cases heq
              exact .inr ⟨_, hserved, .inl rfl⟩
            · next reply' hfate =>
                simp [documented, hfate] at hdoc
            · cases hserve
            · obtain ⟨⟨reply', hub₁⟩, hserved, heq⟩ := Option.map_eq_some_iff.mp hserve
              cases heq
      · exact .inr hserved
  | _ => simp [serveRun] at hx

/-- The call of a run keeps the invariant, and what the other runs rely on. -/
theorem exec_keeps (hground : Grounded contents input base) (h : RunsInv deps input base g hub)
    {op : Op} {a : Answer (github deps contents)} {r : Op.Rep op} {t : Nat}
    (hok : Permitted input op)
    (hx : (reruns deps contents input).exec hub t op a = some (r, hub')) :
    RunsInv deps input base g hub' ∧ RunsRely deps input g hub hub' := by
  cases op with
  | api req =>
      obtain ⟨a', hdoc, ⟨rfl, -⟩ | ⟨reply, hserve, -⟩⟩ := reruns_exec_api hx
      · exact ⟨h, .refl _⟩
      · exact permitted_keeps hground h hok hdoc hserve
  | trace mark =>
      simp only at hx
      split_ifs at hx
      cases a with
      | mark =>
          cases hx
          exact ⟨h, .refl _⟩
      | _ => simp [serveRun] at hx
  | store _ => exact hok.elim
  | now | getApplication _ | readBase _ =>
      simp only at hx
      split_ifs at hx
      cases a
      all_goals
        cases hx
        try exact ⟨h, .refl _⟩

/-- What others do elsewhere keeps it too. -/
theorem env_keeps (h : RunsInv deps input base g hub) {e : HubEnv}
    (hx : (reruns deps contents input).env hub e = some hub') :
    RunsInv deps input base g hub' ∧ RunsRely deps input g hub hub' := by
  simp only at hx
  split_ifs at hx with helse
  cases e with
  | openPull pull =>
      obtain ⟨hpulls, hbranches⟩ := Hub.addPull_pulls hx
      refine h.of_same (by simp only [Hub.findRef, hbranches]) ?_
      have hat : atHead deps input { pull with status := .open } = false := by
        simpa [elsewhere, atHead, imp_iff_not_or] using helse
      rw [heads_append hpulls, List.filter_cons_of_neg (by simp [hat]), List.filter_nil,
        List.append_nil]
  | merge number at_ sha | close number | reopen number =>
      obtain ⟨pull, -, hx⟩ := Option.bind_eq_some_iff.mp hx
      split_ifs at hx
      cases hx
      refine h.of_same rfl (heads_setStatus fun p hp hn => ?_)
      have hall := List.all_eq_true.mp helse p hp
      simpa [hn] using hall
  | push branch tip content =>
      cases hx
      refine h.of_same ?_ rfl
      have hne : branch ≠ input.branch := by simpa [elsewhere] using helse
      rw [findRef_setFile]
      cases hb : hub.findRef input.branch with
      | none => rfl
      | some b =>
          have hname : b.name = input.branch := by simpa using List.find?_some hb
          rw [Option.map_some, if_neg (by rw [hname]; exact fun h => hne h.symm)]
  | createBranch branch =>
      cases hx
      refine h.of_same ?_ rfl
      have hne : branch.name ≠ input.branch := by simpa [elsewhere] using helse
      rw [findRef_append, if_neg hne, Option.or_none]
  | deleteBranch branch =>
      cases hx
      refine h.of_same ?_ rfl
      have hne : branch ≠ input.branch := by simpa [elsewhere] using helse
      rw [Hub.findRef, Hub.dropBranch, List.find?_filter]
      refine congrArg (List.find? · hub.branches) (funext fun b => ?_)
      by_cases hb : b.name = input.branch
      · simp [hb, Ne.symm hne]
      · simp [hb]

/-! ## The calls of a run -/

/-- A program that writes only what a run may, and marks no point. -/
abbrev Own (input : CreateChangePrInput) : Op → Prop := Plain (OwnWrite input)

theorem Own.permitted {op : Op} (h : Own input op) : Permitted input op := by
  cases op with
  | trace _ => trivial
  | _ => exact h

theorem own_ensureBranch : (ensureBranch input).Calls (Own input) := by
  refine Prog.Calls.bind (calls_api fun _ => ⟨rfl, rfl⟩) fun ref => ?_
  split_ifs
  · trivial
  · refine Prog.Calls.bind (calls_findBranch input.branch) fun found => ?_
    cases found <;> trivial
  · trivial

theorem own_putFile : (putFile input input.baseBlobSha).Calls (Own input) := by
  refine Prog.Calls.bind (calls_api fun _ => ⟨rfl, rfl, rfl⟩) fun put => ?_
  split_ifs
  · trivial
  · refine Prog.Calls.bind (calls_readContents _ _) fun file => ?_
    cases file with
    | none => trivial
    | some file => dsimp only; split_ifs <;> trivial
  · trivial

theorem own_ensureFile : (ensureFile input).Calls (Own input) := by
  refine Prog.Calls.bind (calls_readContents _ _) fun file => ?_
  cases file with
  | none => trivial
  | some file =>
      dsimp only
      split_ifs with htext hblob
      · trivial
      · trivial
      · -- the write goes on only over the base blob
        rw [not_not.mp hblob]
        exact own_putFile

theorem permitted_ensurePull : (ensurePull deps input).Calls (Permitted input) := by
  have hcreate (req : ApiRequest) (h : OwnWrite input req) : (api req).Calls (Permitted input) :=
    (calls_api fun _ => h).mono fun _ => Own.permitted
  refine Prog.Calls.bind (hcreate _ rfl) fun created => ?_
  split_ifs
  · split
    · trivial
    · exact ⟨trivial, fun _ => trivial⟩
  · refine Prog.Calls.bind ((calls_findPrByBranch _ _).mono fun _ => Own.permitted) fun found => ?_
    cases found with
    | none => trivial
    | some pr => exact ⟨trivial, fun _ => trivial⟩
  · trivial

theorem permitted_createChangePr : (createChangePr deps input).Calls (Permitted input) := by
  refine Prog.Calls.bind (Prog.Calls.perform trivial) fun _ =>
    Prog.Calls.bind (Prog.Calls.attempt ?_) fun r => ?_
  · refine Prog.Calls.bind ((calls_guardBranch _).mono fun _ => Own.permitted) fun _ => ?_
    split_ifs
    · trivial
    · refine Prog.Calls.bind (own_ensureBranch.mono fun _ => Own.permitted) fun _ => ?_
      exact Prog.Calls.bind (own_ensureFile.mono fun _ => Own.permitted) fun _ =>
        permitted_ensurePull
    · trivial
  · cases r with
    | ok pr => trivial
    | error e => cases e <;> trivial

/-! ## How many -/

theorem atMost_api (req : ApiRequest) : (api req).AtMost 1 :=
  (Prog.AtMost.perform _).bind fun _ => .ofExcept _

theorem atMost_guardBranch (branch : String) : (guardBranch branch).AtMost 0 := by
  unfold guardBranch
  split <;> trivial

theorem atMost_readContents (path ref : String) : (readContents path ref).AtMost 1 :=
  (atMost_api _).bind fun _ => .ofExcept _

theorem atMost_findBranch (branch : String) : (findBranch branch).AtMost 1 := by
  refine (atMost_guardBranch branch).bind fun _ => (atMost_api _).bind (m := 0) fun res => ?_
  repeat' split
  all_goals trivial

theorem atMost_findPrByBranch (branch : String) (notBefore : Option Int) :
    (findPrByBranch deps branch notBefore).AtMost 1 :=
  (atMost_guardBranch branch).bind fun _ => (atMost_api _).bind fun _ => .ofExcept _

theorem atMost_ensureBranch : (ensureBranch input).AtMost 2 := by
  refine (atMost_api _).bind (m := 1) fun ref => ?_
  split_ifs
  · trivial
  · refine (atMost_findBranch _).bind (m := 0) fun found => ?_
    cases found <;> trivial
  · trivial

theorem atMost_putFile (blobSha : String) : (putFile input blobSha).AtMost 2 := by
  refine (atMost_api _).bind (m := 1) fun put => ?_
  split_ifs
  · trivial
  · refine (atMost_readContents _ _).bind (m := 0) fun file => ?_
    cases file with
    | none => trivial
    | some file => dsimp only; split_ifs <;> trivial
  · trivial

theorem atMost_ensureFile : (ensureFile input).AtMost 3 := by
  refine (atMost_readContents _ _).bind (m := 2) fun file => ?_
  cases file with
  | none => trivial
  | some file =>
      dsimp only
      split_ifs
      · trivial
      · trivial
      · exact atMost_putFile _

theorem atMost_ensurePull : (ensurePull deps input).AtMost 3 := by
  refine (atMost_api _).bind (m := 2) fun created => ?_
  split_ifs
  · split
    · trivial
    · refine Prog.AtMost.mono ((Prog.AtMost.perform _).bind (m := 0) fun _ => ?_) (by omega)
      trivial
  · refine (atMost_findPrByBranch _ _).bind (m := 1) fun found => ?_
    cases found with
    | none => trivial
    | some pr => exact (Prog.AtMost.perform _).bind (m := 0) fun _ => trivial
  · trivial

theorem atMost_createChangePr : (createChangePr deps input).AtMost 9 := by
  refine (Prog.AtMost.perform _).bind (m := 8) fun _ => ?_
  refine (Prog.AtMost.attempt ?_).bind (m := 0) fun r => ?_
  · refine (atMost_guardBranch _).bind (m := 8) fun _ => ?_
    split_ifs
    · trivial
    · exact atMost_ensureBranch.bind fun _ => atMost_ensureFile.bind fun _ => atMost_ensurePull
    · trivial
  · cases r with
    | ok pr => trivial
    | error e => cases e <;> trivial

end Sso
