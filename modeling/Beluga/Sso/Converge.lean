import Beluga.Sso.RerunRules
import Mathlib.Data.Fintype.EquivFin

/-! # Runs of `createChangePr` converge

* `reruns_converge`: the branch holds the base or the target, one pull request at most
  is opened, every run that returns names it, and a run that loses no answer returns;
* `only_base_replaced`: whoever else writes, a run replaces the base only.
-/

namespace Sso

open Interact

variable {deps : Deps} {contents : Contents} {input : CreateChangePrInput} {base : String}
  {g hub hub' : Hub deps}

/-! ## All runs -/

theorem runs_hold (hground : Grounded contents input base) (hfresh : Fresh deps input g)
    {s : (reruns deps contents input).State}
    (h : (reruns deps contents input).Reachable g s) :
    (rerunLogic deps contents input base g).Holds (fun _ => false)
      (fun _ => OrLost fun pr hub => OpenedAs deps input g pr.prNumber hub) s := by
  refine Logic.sound ?_ ?_ ?_ ?_ h
  · refine ⟨?_, .inl rfl⟩
    intro b hb
    rw [hfresh.branch] at hb
    cases hb
  · intro s k _ _
    exact rerun_createChangePr hground hfresh
  · intro s t ans th op k r g' _ hinv _ _ hok hx
    obtain ⟨hinv', hrely⟩ := exec_keeps hground hinv hok hx
    exact ⟨hinv', fun _ _ => hrely⟩
  · intro s e g' _ hinv hx
    obtain ⟨hinv', hrely⟩ := env_keeps hinv hx
    exact ⟨hinv', fun _ => hrely⟩

/-- The repository serves every call, if the number of a new pull request is new. -/
theorem hubServe_total {req : ApiRequest} {a : GithubAnswer}
    (hnumber : a.number ∉ hub.pulls.map (·.number)) (htip : isSha a.tip) :
    ∃ reply hub', hubServe contents hub a req = some (reply, hub') := by
  cases req with
  | createPull title head target body =>
      simp only [hubServe]
      split_ifs
      · exact ⟨_, _, rfl⟩
      · exact ⟨_, _, rfl⟩
      · rw [Hub.addPull, dif_pos ⟨hnumber, fun _ => rfl⟩]
        exact ⟨_, _, rfl⟩
  | putContents path message content sha branch =>
      simp only [hubServe]
      split
      · exact ⟨_, _, rfl⟩
      · rw [if_pos htip]
        split_ifs
        · exact ⟨_, _, rfl⟩
        · exact ⟨_, _, rfl⟩
        · exact ⟨_, _, rfl⟩
  | closePull number =>
      simp only [hubServe]
      split
      · exact ⟨_, _, rfl⟩
      · split
        · exact ⟨_, _, rfl⟩
        · exact ⟨_, _, rfl⟩
  | createRef _ _ | getRef _ | getContents _ _ | getPull _ =>
      simp only [hubServe]
      split
      · exact ⟨_, _, rfl⟩
      · exact ⟨_, _, rfl⟩
  | listPulls _ _ | listOpenPulls _ | compare _ _ => exact ⟨_, _, rfl⟩

/-- A call of a run can be served and answered. -/
theorem permitted_served (hnew : ∃ a, notOlder deps input.notBefore (runPull deps input a).info)
    {op : Op} (hok : Permitted input op) (hub : Hub deps) (t : Nat) :
    ∃ a r hub', (reruns deps contents input).exec hub t op a = some (r, hub') ∧
      answerLost op r = false := by
  cases op with
  | store _ => exact hok.elim
  | now => exact ⟨.clock 0, 0, hub, rfl, rfl⟩
  | getApplication name => exact ⟨.argocd (.error ""), .error "", hub, rfl, rfl⟩
  | readBase fresh => exact ⟨.base (.error (.other "")), .error (.other ""), hub, rfl, rfl⟩
  | trace mark => exact ⟨.mark, (), hub, rfl, rfl⟩
  | api req =>
      obtain ⟨a₀, hnew⟩ := hnew
      obtain ⟨n, hn⟩ := Infinite.exists_notMem_finset (hub.pulls.map (·.number)).toFinset
      rw [List.mem_toFinset] at hn
      -- a new number, a time that is not before the runs, a commit for a content write
      let a : GithubAnswer := { number := n, createdAt := a₀.createdAt, tip := contents.blobSha "" }
      have hdoc : documented deps contents input (.api req) (.github a) = true := by
        cases req with
        | createPull title head target body =>
            have hsame : notOlder deps input.notBefore (runPull deps input a).info =
                notOlder deps input.notBefore (runPull deps input a₀).info := rfl
            rw [hnew] at hsame
            simp only [documented, hsame, Bool.and_true, a]
        | _ => rfl
      obtain ⟨reply, hub', hserve⟩ : ∃ reply hub', hubServe contents hub a req = some (reply, hub') :=
        hubServe_total hn (contents.blobSha_isSha "")
      refine ⟨.github a, .ok reply, hub', ?_, rfl⟩
      have hserve' : serveRun deps contents hub (.api req) (.github a) =
          (hubServe contents hub a req).map fun r => (.ok r.1, r.2) := rfl
      simp only [hdoc, if_true, hserve', hserve, Option.map_some]

/-- The run has got an answer to every call so far. -/
def NoneLost (hist : List (Event sig)) : Prop := ∀ e ∈ hist, answerLost e.op e.rep = false

theorem monitor_noneLost {hist : List (Event sig)} (h : NoneLost hist) :
    (rerunLogic deps contents input base g).monitor false hist = false := by
  induction hist with
  | nil => rfl
  | cons e hist ih =>
      rw [Logic.monitor_cons]
      show (rerunLogic deps contents input base g).monitor
        (false || answerLost e.op e.rep) hist = false
      rw [h e List.mem_cons_self]
      exact ih fun e' he' => h e' (List.mem_cons_of_mem _ he')

/-- In every reachable state: the branch holds the base or the target, one pull
request at most was opened for it, every run that has returned names it, and a run
that lost no answer has returned or is at a call, one of nine at most, that can be
served and answered. -/
theorem reruns_converge (hground : Grounded contents input base) (hfresh : Fresh deps input g)
    (hnew : ∃ a, notOlder deps input.notBefore (runPull deps input a).info)
    {s : (reruns deps contents input).State} (h : (reruns deps contents input).Reachable g s) :
    (∀ b, s.shared.findRef input.branch = some b → b.file = some base ∨ b.file = some input.content) ∧
    ∃ opened, heads deps input s.shared = heads deps input g ++ opened ∧ opened.length ≤ 1 ∧
      ∀ t th, s.threads[t]? = some th →
        (∀ pr, th.rest = .ret pr → ∃ p, opened = [p] ∧ p.number = pr.prNumber) ∧
        (NoneLost th.hist → (∃ pr, th.rest = .ret pr) ∨ th.hist.length < 9 ∧
          ∃ op k a r hub', th.rest = .call op k ∧
            (reruns deps contents input).exec s.shared t op a = some (r, hub') ∧
            answerLost op r = false) := by
  have hholds := runs_hold hground hfresh h
  refine ⟨fun b hb => (hholds.1.branch b hb).2, ?_⟩
  obtain ⟨opened, hopened, hlength⟩ : ∃ opened,
      heads deps input s.shared = heads deps input g ++ opened ∧ opened.length ≤ 1 := by
    rcases hholds.1.pulls with hsame | ⟨p, hp, -⟩
    · exact ⟨[], by rw [hsame, List.append_nil], Nat.zero_le 1⟩
    · exact ⟨[p], hp, Nat.le_refl 1⟩
  refine ⟨opened, hopened, hlength, fun t th hth => ⟨?_, ?_⟩⟩
  · intro pr hret
    obtain ⟨p, hp, hnumber⟩ := hholds.post hth hret
    rw [hopened] at hp
    exact ⟨p, List.append_cancel_left hp, hnumber⟩
  · intro hlost
    have hmonitor : (rerunLogic deps contents input base g).monitor false th.hist = false :=
      monitor_noneLost hlost
    cases hrest : th.rest with
    | ret pr => exact .inl ⟨pr, rfl⟩
    | raise e =>
        have hpost : (rerunLogic deps contents input base g).monitor false th.hist = true :=
          hholds.post_error hth hrest
        rw [hmonitor] at hpost
        cases hpost
    | call op k =>
        have htraced := h.traced (P := fun _ hist _ => hist.length < 9) (Q := fun _ _ _ => True)
          (fun _ => atMost_createChangePr.traced (Nat.le_refl 9)) hth
        rw [hrest] at htraced
        obtain ⟨a, r, hub', hx, hr⟩ := permitted_served hnew (hholds.ok hth hrest) s.shared t
        exact .inr ⟨htraced.1, op, k, a, r, hub', rfl, hx, hr⟩

/-! ## Among other writers -/

/-- `text` is still on the branch, or the target took the place of the base. -/
def KeptOrBase (contents : Contents) (input : CreateChangePrInput) (branch text : String)
    (hub : Hub deps) : Prop :=
  ∃ b, hub.findRef branch = some b ∧ (b.file = some text ∨
    contents.blobSha text = input.baseBlobSha ∧ branch = input.branch ∧
      b.file = some input.content)

theorem permitted_replaces {req : ApiRequest} {a : GithubAnswer} {reply : Reply}
    (hok : Permitted input (.api req)) (hx : hubServe contents hub a req = some (reply, hub'))
    {branch text : String} {b : Branch} (hb : hub.findRef branch = some b)
    (htext : b.file = some text) : KeptOrBase contents input branch text hub' := by
  cases req with
  | createRef ref sha =>
      simp only [hubServe] at hx
      split at hx
      · cases hx
        exact ⟨b, hb, .inl htext⟩
      · cases hx
        refine ⟨b, ?_, .inl htext⟩
        rw [findRef_append, hb, Option.some_or]
  | putContents path message content sha name =>
      obtain ⟨rfl, rfl, rfl⟩ := hok trivial
      simp only [hubServe] at hx
      split at hx
      · cases hx
        exact ⟨b, hb, .inl htext⟩
      · next b₀ hb₀ =>
          split_ifs at hx with hblob
          · cases hx
            by_cases hbranch : b.name = input.branch
            · -- the branch of the run: its blob was the one named
              have hname : b.name = branch := by simpa using List.find?_some hb
              obtain rfl : branch = input.branch := hname.symm.trans hbranch
              rw [hb] at hb₀
              cases hb₀
              rw [htext, Option.map_some, Option.some.injEq] at hblob
              refine ⟨{ b with tip := a.tip, file := some input.content }, ?_,
                .inr ⟨hblob.2, rfl, rfl⟩⟩
              rw [findRef_setFile, hb, Option.map_some, if_pos hbranch]
            · refine ⟨b, ?_, .inl htext⟩
              rw [findRef_setFile, hb, Option.map_some, if_neg hbranch]
          all_goals
            cases hx
            exact ⟨b, hb, .inl htext⟩
  | createPull title head target body =>
      simp only [hubServe] at hx
      split_ifs at hx
      · cases hx
        exact ⟨b, hb, .inl htext⟩
      · cases hx
        exact ⟨b, hb, .inl htext⟩
      · obtain ⟨hub₁, hadd, heq⟩ := Option.map_eq_some_iff.mp hx
        cases heq
        refine ⟨b, ?_, .inl htext⟩
        rw [Hub.findRef, (Hub.addPull_pulls hadd).2]
        exact hb
  | closePull number => exact (hok trivial).elim
  | getRef _ | getContents _ _ | listPulls _ _ | listOpenPulls _ | getPull _ | compare _ _ =>
      cases hubServe_read (by simp [ApiRequest.IsWrite]) hx
      exact ⟨b, hb, .inl htext⟩

/-- Whoever else writes: what a call of a run replaces is the base, on the branch, and
the target is put in its place. -/
theorem only_base_replaced {s s' : (rerunsAmongWriters deps contents input).State}
    (h : (rerunsAmongWriters deps contents input).Reachable g s) {t : Nat}
    {a : Answer (github deps contents)} (hstep : System.step s (.act t a) = some s')
    {branch text : String} {b : Branch} (hb : s.shared.findRef branch = some b)
    (htext : b.file = some text) : KeptOrBase contents input branch text s'.shared := by
  obtain ⟨_, hact, -⟩ | ⟨t, a, th, op, k, r, hub', -, hth, hrest, hx, rfl⟩ | ⟨_, _, hact, -⟩ :=
    System.step_cases hstep
  · cases hact
  · have htraced := h.traced (P := fun _ _ => Permitted input) (Q := fun _ _ _ => True)
      (fun _ => permitted_createChangePr.traced) hth
    rw [hrest] at htraced
    cases op with
    | api req =>
        cases a with
        | github a =>
            have hserve : githubServe contents s.shared req a = some (r, hub') := hx
            rcases githubServe_cases hserve with ⟨rfl, -⟩ | ⟨reply, hserved, -⟩
            · exact ⟨b, hb, .inl htext⟩
            · exact permitted_replaces htraced.1 hserved hb htext
        | _ => simp [serveRun] at hx
    | store _ => exact htraced.1.elim
    | now | getApplication _ | readBase _ | trace _ =>
        cases a
        all_goals
          cases hx
          try exact ⟨b, hb, .inl htext⟩
  · cases hact

/-- `createChangePr` may be run any number of times with one input: one pull request
comes of it, and nobody's content is lost. -/
theorem create_change_pr_idempotent (deps : Deps) (contents : Contents)
    (input : CreateChangePrInput) (base : String) (g : Hub deps)
    (hground : Grounded contents input base) (hfresh : Fresh deps input g)
    (hnew : ∃ a, notOlder deps input.notBefore (runPull deps input a).info) :
    (∀ s, (reruns deps contents input).Reachable g s →
      (∀ b, s.shared.findRef input.branch = some b →
        b.file = some base ∨ b.file = some input.content) ∧
      ∃ opened, heads deps input s.shared = heads deps input g ++ opened ∧ opened.length ≤ 1 ∧
        ∀ t th, s.threads[t]? = some th →
          (∀ pr, th.rest = .ret pr → ∃ p, opened = [p] ∧ p.number = pr.prNumber) ∧
          (NoneLost th.hist → (∃ pr, th.rest = .ret pr) ∨ th.hist.length < 9 ∧
            ∃ op k a r hub', th.rest = .call op k ∧
              (reruns deps contents input).exec s.shared t op a = some (r, hub') ∧
              answerLost op r = false)) ∧
    ∀ g' s s' t a, (rerunsAmongWriters deps contents input).Reachable g' s →
      System.step s (.act t a) = some s' → ∀ branch b text,
        s.shared.findRef branch = some b → b.file = some text →
        ∃ b', s'.shared.findRef branch = some b' ∧ (b'.file = some text ∨
          contents.blobSha text = input.baseBlobSha ∧ branch = input.branch ∧
            b'.file = some input.content) := by
  refine ⟨fun s h => reruns_converge hground hfresh hnew h, ?_⟩
  intro g' s s' t a h hstep branch b text hb htext
  exact only_base_replaced h hstep hb htext

/-! ## A run that was interrupted -/

def rerunInput : CreateChangePrInput where
  branch := "sso/flink-001122334455"
  baseCommitSha := sampleBase.commitSha
  baseBlobSha := sampleBase.blobSha
  path := SSO_FILE_PATH
  content := sampleChange.editedText
  title := "sso: flink"
  body := ""
  notBefore := some 1792227600000
  commitMessage := "sso: flink"

/-- One file at every commit, and two blobs. -/
def rerunContents : Contents where
  tree _ path := if path = SSO_FILE_PATH then some sampleBase.text else none
  blobSha text := if text = sampleBase.text then sampleBase.blobSha else sampleBase.commitSha
  blobSha_isSha text := by
    split
    · exact (by decide : isSha sampleBase.blobSha)
    · exact (by decide : isSha sampleBase.commitSha)

/-- Nothing but the main branch. -/
def rerunHub : Hub sampleDeps where
  pulls := []
  branches := [⟨"main", sampleBase.commitSha, some sampleBase.text⟩]
  numbers := List.nodup_nil
  owners := by simp

abbrev rerunSystem : System sig JsError CreatedPr := reruns sampleDeps rerunContents rerunInput

/-- What GitHub gives the pull request. -/
def rerunPull : GithubAnswer where
  number := 8
  url := "u8"
  createdAt := "2026-10-17T09:00:00Z"

/-- One run loses the answer of `POST /pulls`, and a second one starts. -/
def lostThenRerun : List rerunSystem.Act :=
  [.spawn (), .act 0 .mark, .act 0 (.github {}), .act 0 (.github {}),
    .act 0 (.github { tip := sampleBase.commitSha }),
    .act 0 (.github { rerunPull with fate := .lost "timeout" }),
    .spawn (), .act 1 .mark, .act 1 (.github {}), .act 1 (.github {}), .act 1 (.github {}),
    .act 1 (.github rerunPull), .act 1 (.github {}), .act 1 .mark]

abbrev rerunStart : rerunSystem.State := System.init rerunHub

theorem lostThenRerun_isSome : (System.run rerunStart lostThenRerun).isSome := by
  decide +kernel

def rerunState : rerunSystem.State :=
  (System.run rerunStart lostThenRerun).get lostThenRerun_isSome

/-- What a thread has returned. -/
def returned (th : rerunSystem.Thread) : Option CreatedPr :=
  match th.rest with
  | .ret pr => some pr
  | _ => none

/-- `create_change_pr_idempotent` where the second run finds the pull request of the first. -/
theorem create_change_pr_idempotent_lost :
    rerunState.threads.map returned = [none, some ⟨8, "u8"⟩] ∧
    (∀ b, rerunState.shared.findRef rerunInput.branch = some b →
      b.file = some sampleBase.text ∨ b.file = some rerunInput.content) ∧
    ∃ opened, heads sampleDeps rerunInput rerunState.shared = opened ∧ opened.length ≤ 1 := by
  have hground : Grounded rerunContents rerunInput sampleBase.text :=
    ⟨by decide, rfl, by decide, rfl, rfl⟩
  have hfresh : Fresh sampleDeps rerunInput rerunHub :=
    ⟨by decide, fun p hp => absurd hp List.not_mem_nil⟩
  have hall := create_change_pr_idempotent sampleDeps rerunContents rerunInput sampleBase.text
    rerunHub hground hfresh ⟨{ createdAt := "2026-10-17T09:00:00Z" }, by decide⟩
  obtain ⟨hfile, opened, hopened, hlength, -⟩ :=
    hall.1 rerunState (System.reachable_get lostThenRerun_isSome)
  refine ⟨by decide +kernel, hfile, opened, ?_, hlength⟩
  rw [hopened]
  rfl

end Sso
