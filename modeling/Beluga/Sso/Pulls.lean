import Beluga.Sso.Github
import Beluga.Sso.Ledger

/-! # Whose pull request a row carries

A row's pull request number is written by `pr_open` transitions only, from a 201
answer or from a lookup by branch. Over GitHub as documented, with any other pull
requests on it:

* `facts`: what the client makes of an answer is a pull request of the configured
  repository, on the branch it asked for, and not older than it asked for;
* `pr_number_owned`: so the number of a row is one of its own branch, and no two
  rows carry the same one.
-/

namespace Sso

open Interact

variable {deps : Deps} {contents : Contents} {hub hub' : Hub deps}

/-! ## What the client makes of an answer -/

/-- `n` is a pull request of ours on `branch`, not older than `bound`. -/
def Hub.Owns (hub : Hub deps) (branch : String) (bound : Option Int) (n : Int) : Prop :=
  ∃ pull ∈ hub.pulls, pull.number = n ∧ pull.Ours deps ∧ pull.headRef = branch ∧
    notOlder deps bound pull.info

theorem Pull.Later.notOlder {pull pull' : Pull} (h : pull.Later pull') {bound : Option Int} :
    notOlder deps bound pull'.info = notOlder deps bound pull.info := by
  simp only [Sso.notOlder, Pull.info, h.createdAt]

theorem PullsStep.owns {branch : String} {bound : Option Int} {n : Int} (h : PullsStep hub hub')
    (howns : hub.Owns branch bound n) : hub'.Owns branch bound n := by
  obtain ⟨pull, hpull, hnumber, hours, href, hbound⟩ := howns
  obtain ⟨pull', hpull', hlater⟩ := h.later pull hpull
  exact ⟨pull', hpull', hlater.number.trans hnumber, hlater.ours.mpr hours,
    hlater.headRef.trans href, by rwa [hlater.notOlder]⟩

theorem mem_of_preferOpen {prs : List PrInfo} {pr : PrInfo} (h : preferOpen prs = some pr) :
    pr ∈ prs := by
  unfold preferOpen at h
  cases hfind : prs.find? fun p => p.state = PrState.open with
  | some found =>
      rw [hfind] at h
      cases h
      exact List.mem_of_find?_eq_some hfind
  | none =>
      rw [hfind] at h
      exact List.mem_of_mem_head? h

/-- The pull requests of ours in a listing. -/
theorem mem_ourPrs {bound : Option Int} {pulls : List Pull} {pr : PrInfo} :
    pr ∈ ourPrs deps bound (pulls.map Pull.json) ↔ ∃ pull ∈ pulls, pull.Ours deps ∧
      pull.info = pr ∧ notOlder deps bound pr := by
  simp only [ourPrs, List.mem_filter, List.mem_filterMap, List.mem_map]
  constructor
  · rintro ⟨⟨_, ⟨⟨pull, hpull, rfl⟩, hours⟩, hpr⟩, hbound⟩
    rw [Pull.toPr_json] at hpr
    exact ⟨pull, hpull, hours, Option.some.inj hpr, hbound⟩
  · rintro ⟨pull, hpull, hours, rfl, hbound⟩
    exact ⟨⟨_, ⟨⟨pull, hpull, rfl⟩, hours⟩, pull.toPr_json⟩, hbound⟩

theorem Hub.mem_listed {owner branch : String} {pull : Pull} (h : pull ∈ hub.listed owner branch) :
    pull ∈ hub.pulls ∧ pull.headRef = branch := by
  have hmem := List.mem_of_mem_take h
  simp only [List.mem_reverse, List.mem_filter, decide_eq_true_eq] at hmem
  exact ⟨hmem.1, hmem.2.2⟩

theorem hub_listed {a : GithubAnswer} {res : Reply} {branch : String} {bound : Option Int}
    {pr : PrInfo} (h : githubServe contents hub (.listPulls deps.target.owner branch) a =
      some (.ok res, hub')) (hpick : pickPr deps bound res = .ok (some pr)) :
    hub'.Owns branch bound pr.number := by
  rcases githubServe_ok h with ⟨-, hstatus, -⟩ | hserve
  · -- a refusal is no listing
    unfold pickPr at hpick
    split at hpick
    · rw [if_neg hstatus] at hpick
      cases hpick
    · cases hpick
  · cases hserve
    simp only [pickPr, Json.asArray, if_true, Except.ok.injEq] at hpick
    obtain ⟨pull, hpull, hours, rfl, hbound⟩ := mem_ourPrs.mp (mem_of_preferOpen hpick)
    obtain ⟨hmem, href⟩ := Hub.mem_listed hpull
    exact ⟨pull, hmem, rfl, hours, href, hbound⟩

theorem hub_opened {a : GithubAnswer} {res : Reply} {title head base body : String}
    {pr : PrInfo} (h : githubServe contents hub (.createPull title head base body) a =
      some (.ok res, hub')) (hstatus : res.status = 201) (hpr : toPr res.json = some pr) :
    hub'.Owns head none pr.number := by
  rcases githubServe_ok h with ⟨-, -, hrefused, -⟩ | hserve
  · exact absurd hstatus hrefused
  · rcases hubServe_cases hserve with hsame | ⟨_, _, _, _, pull, heq, rfl, rfl, hpulls⟩ |
      ⟨_, heq, -⟩
    · -- only a new pull request is answered 201
      simp only [hubServe] at hserve
      split_ifs at hserve
      · cases hserve
        cases hstatus
      · cases hserve
        cases hstatus
      · obtain ⟨hub₁, hadd, heq⟩ := Option.map_eq_some_iff.mp hserve
        cases heq
        rw [(Hub.addPull_pulls hadd).1] at hsame
        exact absurd (congrArg List.length hsame) (by simp)
    · cases heq
      rw [Pull.toPr_json] at hpr
      cases hpr
      refine ⟨_, hpulls ▸ List.mem_append_right _ List.mem_cons_self, rfl, ?_, rfl, rfl⟩
      simp [Pull.Ours, isOurs, Pull.json, Pull.repoJson, Json.asString, ourFullName]
    · cases heq

/-- What GitHub guarantees about the pull requests it hands out. -/
def facts (deps : Deps) (contents : Contents) : Facts deps (github deps contents) where
  owns := Hub.Owns
  serve_owns h := (githubServe_step h).owns
  env_owns h := (hubEnv_step h).owns
  listed := hub_listed
  opened := hub_opened

/-! ## Who wrote the number of a row -/

/-- Thread `t` of task `task`, after the calls `p`, wrote number `n` to row `id`. -/
def Wrote (s : PState deps (github deps contents)) (t : Nat) (task : Task)
    (p : List (Event sig)) (id : Uuid) (n : Int) : Prop :=
  ∃ th q expected stage fields event version r, s.threads[t]? = some th ∧ th.task = task ∧
    th.hist = p ++ ⟨.store (.transition id expected stage fields event version), r⟩ :: q ∧
    fields.prNumber = some n

section Runs

variable {s s' : PState deps (github deps contents)} {g : Hub deps}

theorem Wrote.mono {t : Nat} {task : Task} {p : List (Event sig)} {id : Uuid} {n : Int}
    (hreach : System.Reaches s s') (h : Wrote s t task p id n) : Wrote s' t task p id n := by
  obtain ⟨th, q, expected, stage, fields, event, version, r, hth, htask, hhist, hn⟩ := h
  obtain ⟨th', hth', htask', q', hq'⟩ := hreach.thread hth
  refine ⟨th', q ++ q', expected, stage, fields, event, version, r, hth', htask'.trans htask, ?_, hn⟩
  rw [← hq', hhist]
  simp

/-- Every number in a row was written by a thread. -/
theorem number_wrote
    (h : (protocol deps (github deps contents)).Reachable (start (github deps contents) g) s) :
    ∀ row ∈ s.shared.db.requests.rows, ∀ n, row.pr_number = some n →
      ∃ t task p, Wrote s t task p row.id n := by
  refine System.Reachable.induct (I := fun (s : PState deps (github deps contents)) =>
    ∀ row ∈ s.shared.db.requests.rows, ∀ n, row.pr_number = some n →
      ∃ t task p, Wrote s t task p row.id n) ?_ ?_ h
  · intro row hrow
    simp [System.init, start, Db.empty, RequestTable.empty] at hrow
  · intro s s' a hreach ih hstep row hrow n hn
    have hold : ∀ row ∈ s.shared.db.requests.rows, row.pr_number = some n →
        ∃ t task p, Wrote s' t task p row.id n := by
      intro row hrow hn
      obtain ⟨t, task, p, hwrote⟩ := ih row hrow n hn
      exact ⟨t, task, p, hwrote.mono (.single hstep)⟩
    obtain ⟨k, -, rfl⟩ | ⟨t, ans, th, op, k, r, g', -, hth, hrest, hx, rfl⟩ |
      ⟨e, g', -, hx, rfl⟩ := System.step_cases hstep
    · exact hold row hrow hn
    · rcases serve_cases hx with ⟨op, rfl, -, heffect⟩ | ⟨_, _, _, -, hdb, -⟩ | ⟨rfl, -⟩
      · rcases heffect.mem_rows hrow with hrow | ⟨input, id, now, rfl⟩ |
          ⟨row, stage, fields, event, version, now, hrow₀, rfl, rfl⟩
        · exact hold row hrow hn
        · cases hn
        · -- the row that moved: the call gave it the number, or it had it
          cases hfields : fields.prNumber with
          | none => exact hold row hrow₀ (by simpa [movedRow, hfields] using hn)
          | some m =>
              obtain rfl : m = n := by simpa [movedRow, hfields] using hn
              have hlt : t < s.threads.length := (List.getElem?_eq_some_iff.mp hth).1
              exact ⟨t, th.task, th.hist, th.advance _ k r, [], row.stage, stage, fields, event,
                version, r, by simp [hlt], rfl, rfl, hfields⟩
      · exact hold row (hdb ▸ hrow) hn
      · exact hold row hrow hn
    · simp only [protocol, Option.map_eq_some_iff] at hx
      obtain ⟨github, hx, rfl⟩ := hx
      exact hold row hrow hn

/-- Whatever number a thread wrote to a row is a pull request of the row's branch:
the run opened it, or it is not older than the row. -/
theorem wrote_owned
    (h : (protocol deps (github deps contents)).Reachable (start (github deps contents) g) s)
    {t : Nat} {task : Task} {p : List (Event sig)} {id : Uuid} {n : Int}
    (hwrote : Wrote s t task p id n) : ∃ row ∈ s.shared.db.requests.rows, row.id = id ∧
      (((⟨.trace (.opened row.branch n), ()⟩ : Event sig) ∈ (currentRun task p).calls ∧
          s.shared.github.Owns row.branch none n) ∨
        s.shared.github.Owns row.branch (some (adoptBound (toRecord row))) n) := by
  obtain ⟨th, q, expected, stage, fields, event, version, r, hth, rfl, hhist, hn⟩ := hwrote
  have hholds : ∀ s, (protocol deps (github deps contents)).Reachable (start _ g) s →
      (discipline (facts deps contents)).Holds Run.ofTask taskPost s := fun _ hs => protocol_holds hs
  have hok := Logic.sound_hist (L := discipline (facts deps contents)) (Q := taskPost)
    (P := fun run op (s : Shared (github deps contents)) =>
      ∀ op', op = .store op' → NumberOk (facts deps contents) run s op') ?_ ?_
    hholds h (List.mem_of_getElem? hth) hhist
  · exact (hok _ rfl n hn).2
  · rintro t run s₁ op ans r s₂ hs₁ hok hx op' rfl
    have hok : Disciplined (facts deps contents) run s₁ (.store op') := hok
    exact hok.2.2.1.mono (hok.rely hx)
  · intro s₁ s₂ a run op hs₁ hstep hok op' hop
    exact (hok op' hop).mono (protocol_rely (facts deps contents) hs₁ (.single hstep))

/-- The number of a row is a pull request of its branch. -/
theorem number_owned
    (h : (protocol deps (github deps contents)).Reachable (start (github deps contents) g) s)
    {row : RequestRow} (hrow : row ∈ s.shared.db.requests.rows) {n : Int}
    (hn : row.pr_number = some n) : s.shared.github.Owns row.branch none n := by
  obtain ⟨t, task, p, hwrote⟩ := number_wrote h row hrow n hn
  obtain ⟨row', hrow', hid, hown⟩ := wrote_owned h hwrote
  obtain rfl := RequestTable.eq_of_id hrow' hrow hid
  rcases hown with ⟨-, hown⟩ | ⟨pull, hpull, hnumber, hours, href, -⟩
  · exact hown
  · exact ⟨pull, hpull, hnumber, hours, href, rfl⟩

end Runs

/-- The number of a row is a pull request of the row's own branch; a run that wrote
it had opened it, or it is not older than the row less the skew; and no two rows
carry the same one. -/
theorem pr_number_owned (deps : Deps) (contents : Contents) (g : Hub deps)
    (s : PState deps (github deps contents))
    (h : (protocol deps (github deps contents)).Reachable (start (github deps contents) g) s) :
    (∀ row ∈ s.shared.db.requests.rows, ∀ n, row.pr_number = some n →
      ∃ pull ∈ s.shared.github.pulls, pull.number = n ∧ pull.Ours deps ∧
        pull.headRef = row.branch ∧ (∃ t task p, Wrote s t task p row.id n) ∧
        ∀ t task p, Wrote s t task p row.id n →
          (⟨.trace (.opened row.branch n), ()⟩ : Event sig) ∈ (currentRun task p).calls ∨
          ∃ created, deps.dateParse pull.createdAt = some created ∧
            adoptBound (toRecord row) ≤ created) ∧
    (∀ row ∈ s.shared.db.requests.rows, ∀ row' ∈ s.shared.db.requests.rows, ∀ n,
      row.pr_number = some n → row'.pr_number = some n → row = row') := by
  refine ⟨?_, ?_⟩
  · intro row hrow n hn
    obtain ⟨pull, hpull, hnumber, hours, href, -⟩ := number_owned h hrow hn
    refine ⟨pull, hpull, hnumber, hours, href, number_wrote h row hrow n hn, ?_⟩
    intro t task p hwrote
    obtain ⟨row', hrow', hid, hown⟩ := wrote_owned h hwrote
    obtain rfl := RequestTable.eq_of_id hrow' hrow hid
    refine hown.imp And.left ?_
    rintro ⟨pull', hpull', hnumber', -, -, hbound⟩
    -- the number names one pull request
    obtain rfl := Hub.eq_of_number hpull' hpull (hnumber'.trans hnumber.symm)
    simp only [notOlder, Pull.info, Option.getD_some] at hbound
    split at hbound
    · next created hparse => exact ⟨created, hparse, by simpa using hbound⟩
    · cases hbound
  · intro row hrow row' hrow' n hn hn'
    obtain ⟨pull, hpull, hnumber, -, href, -⟩ := number_owned h hrow hn
    obtain ⟨pull', hpull', hnumber', -, href', -⟩ := number_owned h hrow' hn'
    obtain rfl := Hub.eq_of_number hpull' hpull (hnumber'.trans hnumber.symm)
    exact (protocol_consistent h).eq_of_branch hrow hrow' (href.symm.trans href')

/-! ## A run that adopts -/

/-- One file at every commit. -/
def sampleContents : Contents where
  tree _ path := if path = SSO_FILE_PATH then some sampleBase.text else none
  blobSha _ := sampleBase.blobSha
  blobSha_isSha _ := by decide

def sampleBranch : String := "sso/flink-001122334455"

/-- A fork has a pull request from a branch of that name. -/
def sampleHub : Hub sampleDeps where
  pulls := [{ number := 7, url := "u7", createdAt := "2026-10-17T09:00:00Z"
              headOwner := "mallory", headRepo := some "beluga", headRef := sampleBranch }]
  branches := [⟨"main", sampleBase.commitSha, some sampleBase.text⟩]
  numbers := by decide
  owners := by decide

abbrev sampleGithub : World := github sampleDeps sampleContents

abbrev SampleState : Type := PState sampleDeps sampleGithub

/-- Submit up to the pull request. -/
def submitRun : List (protocol sampleDeps sampleGithub).Act :=
  [.spawn (.post samplePost), .act 0 (.db {}), .act 0 (.base (.ok sampleBase)),
    .act 0 (.db { now := sampleTime, id := 1 }), .act 0 .mark,
    .act 0 (.github {}), .act 0 (.github {}), .act 0 (.github { tip := sampleBase.commitSha })]

/-- What GitHub gives the pull request of the submit. -/
def samplePull : GithubAnswer where
  number := 8
  url := "u8"
  createdAt := "2026-10-17T09:00:00Z"

/-- The answer of `POST /pulls` is lost, and the request is recovering. -/
def lostRun : List (protocol sampleDeps sampleGithub).Act :=
  submitRun ++ [.act 0 (.github { samplePull with fate := .lost "timeout" }),
    .act 0 (.db { now := sampleTime + 10000000 }), .spawn (.tick {})]

theorem lostRun_isSome :
    (System.run (System.init (start sampleGithub sampleHub)) lostRun).isSome := by
  decide +kernel

def recovering : SampleState :=
  (System.run (System.init (start sampleGithub sampleHub)) lostRun).get lostRun_isSome

/-- A tick finds the pull request by its branch. -/
def adoptRun : List (protocol sampleDeps sampleGithub).Act :=
  [.act 1 (.db { listed := recovering.shared.db.requests.rows }), .act 1 .mark,
    .act 1 (.github {}), .act 1 .mark, .act 1 (.db { now := sampleTime + 20000000 })]

theorem adoptRun_isSome : (System.run recovering adoptRun).isSome := by decide +kernel

def adopted : SampleState := (System.run recovering adoptRun).get adoptRun_isSome

/-- `pr_number_owned` where a tick has adopted number 8. -/
theorem pr_number_owned_adopted :
    adopted.shared.db.requests.rows.map (fun row => (row.stage, row.pr_number)) =
        [(.pr_open, some 8)] ∧
      ∀ row ∈ adopted.shared.db.requests.rows, ∀ row' ∈ adopted.shared.db.requests.rows, ∀ n,
        row.pr_number = some n → row'.pr_number = some n → row = row' := by
  refine ⟨by decide +kernel, (pr_number_owned sampleDeps sampleContents sampleHub adopted ?_).2⟩
  exact System.Reaches.trans (System.reachable_get lostRun_isSome)
    (System.reaches_of_run (Option.some_get adoptRun_isSome).symm)

end Sso
