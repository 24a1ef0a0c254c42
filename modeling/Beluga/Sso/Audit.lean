import Beluga.Sso.Ledger

/-! # Audit before write

No GitHub write of the submit handler, the cancel handler or the branch-only
recovery comes before the audit event of its request (D-MSSO-11), whichever
store calls fail:

* `WriteAudited`, `CreateAudited`: what a run must have on record when it writes;
* `Refused`, `IntentLost`: the answers after which a handler must not write;
* `audit_before_write`: the rule, at every write and over every history.
-/

namespace Sso

open Interact

variable {deps : Deps} {W : World} {g : W.State} {s : PState deps W} {t : Nat}
  {th : (protocol deps W).Thread}

/-! ## The rule -/

/-- The write `req` is for a request with an audit event, committed in this run;
reconciling a found pull request and sweeping only close orphans. -/
def WriteAudited (run : Run) (db : Db) (req : ApiRequest) : Prop :=
  match run.scope with
  | .post _ | .branchOnly _ | .cancel _ => ∃ id, run.About id ∧ run.Audited id ∧
      (∃ event ∈ db.events, event.requestId = some id) ∧
      ∀ branch, req.branch? = some branch → ∃ row ∈ db.requests.rows,
        row.id = id ∧ row.branch = branch
  | .reconcile _ | .sweep _ => ∃ n, req = .closePull n
  | .idle => False

/-- The insert or the recovery's touch or hop is committed, by this thread, with
its event. -/
def CreateAudited (run : Run) (thread : Nat) (db : Db) (input : CreateChangePrInput) : Prop :=
  match run.scope with
  | .post key => ∃ submitted r,
      (⟨.store (.submit submitted), .ok r⟩ : Event sig) ∈ run.calls ∧ r.replay = false ∧
      key = some submitted.idempotencyKey ∧ r.record.branch = input.branch ∧
      (∃ event ∈ db.events, event.requestId = some r.record.id) ∧
      ⟨r.record.id, none, .submitted, r.record.version, submitted.idempotencyKey, thread⟩ ∈ db.log
  | .branchOnly record => record.branch = input.branch ∧ ∃ expected fields event version r,
      (⟨.store (.transition record.id expected .submitted fields event version),
        .ok (some r)⟩ : Event sig) ∈ run.calls ∧
      (∃ event ∈ db.events, event.requestId = some record.id) ∧
      ∃ key, ⟨record.id, some expected, .submitted, r.version, key, thread⟩ ∈ db.log
  | _ => False

/-- A call of `submit` that failed or was a replay. -/
def Refused : Event sig → Prop
  | ⟨.store (.submit _), .error _⟩ => True
  | ⟨.store (.submit _), .ok r⟩ => r.replay = true
  | _ => False

/-- The first event a cancel records, its intent, failed to insert. -/
def IntentLost (hist : List (Event sig)) : Prop :=
  ∃ h₁ event e h₂, hist = h₁ ++ ⟨.store (.recordEvent event), .error e⟩ :: h₂ ∧
    ∀ event' r, (⟨.store (.recordEvent event'), r⟩ : Event sig) ∉ h₁

/-- A GitHub write in a history. -/
def Writes (hist : List (Event sig)) : Prop :=
  ∃ req r, (⟨.api req, r⟩ : Event sig) ∈ hist ∧ req.IsWrite

/-! ## Events on record -/

theorem audits_event {id : Uuid} {e : Event sig} (ha : Audits id e)
    (hon : OnRecord t s.shared.db e) : ∃ event ∈ s.shared.db.events, event.requestId = some id := by
  unfold Audits at ha
  split at ha
  · obtain ⟨hreplay, rfl⟩ := ha
    exact (hon hreplay).1
  · exact ⟨_, hon, ha⟩
  · obtain ⟨hr, hevent, -⟩ := hon
    rwa [← ha, hr]
  · exact ha.elim

section Reachable

variable (h : (protocol deps W).Reachable (start W g) s) (hth : s.threads[t]? = some th)
include h hth

/-- An audit event of the run is in the event table. -/
theorem Run.Audited.event {id : Uuid} (ha : (currentRun th.task th.hist).Audited id) :
    ∃ event ∈ s.shared.db.events, event.requestId = some id := by
  obtain ⟨e, he, haudits⟩ := ha
  exact audits_event haudits (told_onRecord h hth (mem_hist_of_calls he))

/-! ## Refused requests -/

/-- A submit handler that was refused has not written and will not. -/
theorem refused_writes_not {req : PostRequest} (htask : th.task = .post req) {e : Event sig}
    (he : e ∈ th.hist) (hrefused : Refused e) : ¬ Writes th.hist := by
  rintro ⟨api, r, hmem, hwrite⟩
  have hhandler : ¬ (Run.ofTask th.task).Ticking := by
    rw [htask]
    exact id
  -- the write comes after a `submit` that was no replay
  obtain ⟨p, q, hsplit⟩ := List.append_of_mem hmem
  have hp := handler h hth hhandler hsplit
  obtain ⟨s₁, hok⟩ := was_disciplined h hth hsplit
  have hok := hok hwrite
  have hscope : (currentRun th.task p).scope = .post req.key := by rw [hp.scope, htask]; rfl
  simp only [WriteOk, hscope] at hok
  obtain ⟨-, id, habout, -⟩ := hok
  simp only [Run.About, hscope] at habout
  obtain ⟨input, r', hsubmit, hreplay, -⟩ := habout
  have hsubmit : (⟨.store (.submit input), .ok r'⟩ : Event sig) ∈ th.hist :=
    hsplit ▸ List.mem_append_left _ (mem_hist_of_calls hsubmit)
  -- and a handler submits only once
  unfold Refused at hrefused
  split at hrefused
  · cases (submitted_once h hth hhandler hsubmit he).2
  · cases (submitted_once h hth hhandler hsubmit he).2
    rw [hreplay] at hrefused
    cases hrefused
  · exact hrefused

/-- A cancel whose intent was not recorded has not written and will not. -/
theorem intentLost_writes_not {req : CancelRequest} (htask : th.task = .cancel req)
    (hlost : IntentLost th.hist) : ¬ Writes th.hist := by
  rintro ⟨api, r, hmem, hwrite⟩
  obtain ⟨h₁, event, e, h₂, hhist, hfirst⟩ := hlost
  have hhandler : ¬ (Run.ofTask th.task).Ticking := by
    rw [htask]
    exact id
  obtain ⟨p, q, hsplit⟩ := List.append_of_mem hmem
  have hp := handler h hth hhandler hsplit
  obtain ⟨s₁, hok⟩ := was_disciplined h hth hsplit
  have hok := hok hwrite
  have hscope : (currentRun th.task p).scope = .cancel req.id := by rw [hp.scope, htask]; rfl
  simp only [WriteOk, hscope] at hok
  obtain ⟨hclean, ⟨event', r', hrecorded, -⟩, -⟩ := hok
  have hrecorded := mem_hist_of_calls hrecorded
  rcases List.append_eq_append_iff.mp (hhist.symm.trans hsplit) with ⟨l, rfl, hl⟩ | ⟨l, rfl, -⟩
  · -- the write comes after the failed insert, in a run that is clean
    rcases l with _ | ⟨x, l⟩
    · exact hfirst event' (.ok r') (by simpa using hrecorded)
    · obtain ⟨rfl, -⟩ := List.cons.inj hl
      have hfailed : (⟨.store (.recordEvent event), .error e⟩ : Event sig) ∈
          h₁ ++ ⟨.store (.recordEvent event), .error e⟩ :: l := by simp
      exact hclean _ (hp.calls _ _ hfailed) trivial
  · -- the write comes before it, after an event that was recorded
    exact hfirst event' (.ok r') (List.mem_append_left _ hrecorded)

/-! ## Writes -/

theorem write_audited {req : ApiRequest} {k : Op.Rep (.api req) → Async Outcome}
    (hrest : th.rest = .call (.api req) k) (hwrite : req.IsWrite) :
    WriteAudited (currentRun th.task th.hist) s.shared.db req := by
  have hok := is_disciplined h hth hrest hwrite
  have hevent : ∀ id, (currentRun th.task th.hist).Audited id →
      ∃ event ∈ s.shared.db.events, event.requestId = some id :=
    fun _ => Run.Audited.event h hth
  generalize currentRun th.task th.hist = run at hok hevent ⊢
  unfold WriteAudited
  cases hscope : run.scope with
  | post _ | branchOnly _ =>
      simp only [WriteOk, hscope] at hok
      obtain ⟨-, id, habout, haudited, hbranch⟩ := hok
      exact ⟨id, habout, haudited, hevent id haudited, hbranch⟩
  | cancel id =>
      simp only [WriteOk, hscope] at hok
      obtain ⟨-, hrecorded, hbranch⟩ := hok
      refine ⟨id, by simp [Run.About, hscope], hrecorded.audited, hevent id hrecorded.audited, ?_⟩
      rintro branch hsome
      rw [hbranch] at hsome
      cases hsome
  | reconcile _ | sweep _ =>
      simp only [WriteOk, hscope] at hok
      cases req <;> simp_all [ApiRequest.branch?, ApiRequest.IsWrite]
  | idle => simp [WriteOk, hscope] at hok

theorem create_audited {input : CreateChangePrInput}
    {k : Op.Rep (.trace (.createChangePr input)) → Async Outcome}
    (hrest : th.rest = .call (.trace (.createChangePr input)) k) :
    CreateAudited (currentRun th.task th.hist) t s.shared.db input := by
  have hok : CreateOk (currentRun th.task th.hist) input := is_disciplined h hth hrest
  have hon : ∀ e ∈ (currentRun th.task th.hist).calls, OnRecord t s.shared.db e :=
    fun e he => told_onRecord h hth (mem_hist_of_calls he)
  generalize currentRun th.task th.hist = run at hok hon ⊢
  unfold CreateOk at hok
  unfold CreateAudited
  cases hscope : run.scope with
  | post key =>
      simp only [hscope] at hok
      obtain ⟨submitted, r, hmem, hreplay, hkey, hbranch⟩ := hok
      obtain ⟨hevent, hlog⟩ := hon _ hmem hreplay
      exact ⟨submitted, r, hmem, hreplay, hkey, hbranch, hevent, hlog⟩
  | branchOnly record =>
      simp only [hscope] at hok
      obtain ⟨hbranch, expected, fields, event, version, r, hmem, -⟩ := hok
      obtain ⟨-, hevent, hlog⟩ := hon _ hmem
      exact ⟨hbranch, expected, fields, event, version, r, hmem, hevent, hlog⟩
  | _ => simp [hscope] at hok

end Reachable

/-- The audit event comes first: at every write, at every call of
`createChangePr`, and never after a refused submit or a lost intent. -/
theorem audit_before_write (deps : Deps) (W : World) (g : W.State) (s : PState deps W)
    (h : (protocol deps W).Reachable (start W g) s) (t : Nat) (th : (protocol deps W).Thread)
    (hth : s.threads[t]? = some th) :
    (∀ req, th.task = .post req →
      (currentRun th.task th.hist).scope = .post req.key ∧
      ((∃ e ∈ th.hist, Refused e) → ¬ Writes th.hist)) ∧
    (∀ req, th.task = .cancel req →
      (currentRun th.task th.hist).scope = .cancel req.id ∧
      (IntentLost th.hist → ¬ Writes th.hist)) ∧
    (∀ req k, th.rest = .call (.api req) k → req.IsWrite →
      WriteAudited (currentRun th.task th.hist) s.shared.db req) ∧
    (∀ input k, th.rest = .call (.trace (.createChangePr input)) k →
      CreateAudited (currentRun th.task th.hist) t s.shared.db input) := by
  refine ⟨fun req htask => ⟨?_, ?_⟩, fun req htask => ⟨?_, ?_⟩, ?_, ?_⟩
  · rw [(handler h hth (by rw [htask]; exact id) (List.append_nil _).symm).scope, htask]
    rfl
  · rintro ⟨e, he, hrefused⟩
    exact refused_writes_not h hth htask he hrefused
  · rw [(handler h hth (by rw [htask]; exact id) (List.append_nil _).symm).scope, htask]
    rfl
  · exact intentLost_writes_not h hth htask
  · exact fun req k hrest hwrite => write_audited h hth hrest hwrite
  · exact fun input k hrest => create_audited h hth hrest

/-- A submit up to its first GitHub write. -/
def firstWriteRun : List (protocol sampleDeps .arbitrary).Act :=
  [.spawn (.post samplePost), .act 0 (.db {}), .act 0 (.base (.ok sampleBase)),
    .act 0 (.db { now := sampleTime, id := 1 }), .act 0 .mark]

theorem firstWriteRun_isSome :
    (System.run (System.init (start .arbitrary ())) firstWriteRun).isSome := by decide

/-- `audit_before_write` at that write. -/
theorem audit_before_write_submit :
    let s := (System.run (System.init (start .arbitrary ())) firstWriteRun).get firstWriteRun_isSome
    ∃ th req k, s.threads[0]? = some th ∧ th.rest = .call (.api req) k ∧ req.IsWrite ∧
      WriteAudited (currentRun th.task th.hist) s.shared.db req :=
  ⟨_, _, _, rfl, rfl, trivial, (audit_before_write _ _ _ _
    (System.reachable_get firstWriteRun_isSome) 0 _ rfl).2.2.1 _ _ rfl trivial⟩

end Sso
