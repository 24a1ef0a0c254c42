import Beluga.Sso.TickRules

/-! # The handlers follow the discipline

The submit handler (`wp_postChange`) submits once, writes to GitHub only after
its own insert committed, and accounts for the pull request it got. The cancel
handler (`wp_cancelChange`) writes only after its intent is on record, and moves
the row from the stage and version it read. `protocol_holds` puts the handlers
and the ticks together: the discipline holds in every reachable state.
-/

namespace Sso

open Interact Interact.Logic

variable {deps : Deps} {W : World} {F : Facts deps W} {t : Nat} {run run' : Run}
  {s s' : Shared W} {record : ChangeRecord} {key : String}

/-! ## Submit -/

/-- A submit handler's run whose insert committed. -/
structure Submitted (run : Run) (key : String) (record : ChangeRecord) : Prop where
  scope : run.scope = .post (some key)
  inserted : ∃ input, (⟨.store (.submit input), .ok ⟨record, false⟩⟩ : Event sig) ∈ run.calls ∧
    input.idempotencyKey = key
  stage : record.stage = .submitted
  clean : run.Clean

theorem Submitted.mono (h : Submitted run key record) (hrun : run.Extends run')
    (hclean : run'.Clean) : Submitted run' key record where
  clean := hclean
  scope := hrun.scope.trans h.scope
  inserted := by
    obtain ⟨input, hmem, hkey⟩ := h.inserted
    exact ⟨input, hrun.calls hmem, hkey⟩
  stage := h.stage

theorem Submitted.working (h : Submitted run key record) : run.Working := by
  simp [Run.Working, h.scope]

theorem Submitted.about (h : Submitted run key record) : run.About record.id := by
  obtain ⟨input, hmem, -⟩ := h.inserted
  unfold Run.About
  rw [h.scope]
  exact ⟨input, _, hmem, rfl, rfl⟩

theorem Submitted.writeOk (h : Submitted run key record) (hknown : Known s record)
    {req : ApiRequest} (hreq : ∀ branch, req.branch? = some branch → branch = record.branch) :
    WriteOk run s req := by
  obtain ⟨input, hmem, -⟩ := h.inserted
  obtain ⟨row, hrow, hid, hbranch, -⟩ := hknown.row
  unfold WriteOk
  rw [h.scope]
  refine ⟨h.clean, record.id, h.about, ⟨_, hmem, rfl, rfl⟩, fun branch hb => ⟨row, hrow, hid, ?_⟩⟩
  rw [hreq branch hb, hbranch]

theorem wp_transitionOrLocal {stage : ChangeStage} {fields : TransitionFields}
    {event : TransitionEvent} (hs : Consistent s.db) (hrun : run.Working) (hknown : Known s record)
    (hallowed : Allowed record.stage stage)
    (hnumber : ∀ s₁, Rely F s s₁ →
      NumberOk F run s₁ (.transition record.id record.stage stage fields event none)) :
    (discipline F).wp t (transitionOrLocal record stage fields event) (fun r run' s' =>
      run.Grows run' ∧ Rely F s s' ∧ ∃ current, r = .ok current ∧
        ((run'.Failed ∧ current = localRecord record stage fields) ∨
          (Known s' current ∧ current.id = record.id ∧ (run.Clean → run'.Clean) ∧
            run'.lastSeen = some (record.id, current.stage)))) run s := by
  refine wp_try hs (R := fun r run' s' => run.Grows run' ∧ Rely F s s' ∧
    match r with
    | .ok none => False
    | .ok (some current) => Known s' current ∧ current.id = record.id ∧
        (run.Clean → run'.Clean) ∧ run'.lastSeen = some (record.id, current.stage)
    | .error _ => run'.Failed) ?_ ?_
  · -- the compare-and-set, then the row as it is
    set op : StoreOp := .transition record.id record.stage stage fields event none
    refine wp_seq hs (wp_transition hallowed (hrun.cancelOk _) hnumber (Q := fun r run' s' =>
      Rely F s s' ∧ ∃ r', r = Except.mapError .store r' ∧ run' = run.call op r' ∧
        ∀ current, r' = .ok (some current) →
          current.id = record.id ∧ current.stage = stage ∧ Known s' current)
      fun r _ _ hr hmoved => ⟨hr, r, rfl, rfl, hmoved⟩) ?_ ?_
    · rintro moved run₁ s₁ hs₁ ⟨hr₁, (e | r), hr, rfl, hmoved⟩
      · cases hr
      obtain rfl : moved = r := by cases hr; rfl
      cases moved with
      | some current =>
          obtain ⟨hid, -, hknown₁⟩ := hmoved current rfl
          refine wp_ret fun s₂ _ hr₂ =>
            ⟨run.grows_call _ _, hr₁.trans hr₂, hknown₁.mono hr₂, hid, fun h => h.call _ _, ?_⟩
          exact Run.lastSeen_call_some (by simp [op, rowSeen, hid])
      | none =>
          refine wp_get ((hrun.mono (run.extends_call op _)).cancelOk _)
            fun r s₂ _ hr₂ hread hnone => ?_
          have hgrows := (run.grows_call op (.ok none)).trans (Run.grows_call _ (.get record.id) r)
          refine ⟨hgrows, hr₁.trans hr₂, ?_⟩
          cases r with
          | error e => exact Run.failed_call _ _ _
          | ok found =>
              cases found with
              | none =>
                  obtain ⟨row, hrow, hid, -⟩ := (hknown.mono hr₁).row
                  exact hnone rfl row hrow hid
              | some current =>
                  obtain ⟨hid, hknown₂⟩ := hread current rfl
                  exact ⟨hknown₂, hid, fun h => (h.call _ _).call _ _,
                    Run.lastSeen_call_some (by simp [rowSeen, hid])⟩
    · rintro e run₁ s₁ _ ⟨hr₁, (e' | r), hr, rfl, -⟩
      · exact ⟨run.grows_call _ _, hr₁, run.failed_call _ _⟩
      · cases hr
  · rintro (e | (_ | current)) run₁ s₁ _ ⟨hgrows, hr₁, hcase⟩
    · exact wp_ret fun s₂ _ hr₂ => ⟨hgrows, hr₁.trans hr₂, _, rfl, .inl ⟨hcase, rfl⟩⟩
    · exact hcase.elim
    · obtain ⟨hknown₁, hid, hclean, hseen⟩ := hcase
      exact wp_ret fun s₂ _ hr₂ =>
        ⟨hgrows, hr₁.trans hr₂, _, rfl, .inr ⟨hknown₁.mono hr₂, hid, hclean, hseen⟩⟩

theorem wp_writeChange {req : PostRequest} {change : BuiltChange} {input : CreateChangePrInput}
    (hs : Consistent s.db) (hrun : Submitted run key record) (hsilent : run.Silent)
    (hknown : Known s record) (hbranch : input.branch = record.branch)
    (hbound : input.notBefore = some (adoptBound record)) :
    (discipline F).wp t (writeChange deps req change record input) (fun r run' s' =>
      Rely F s s' ∧ match r with
      | .ok _ => run'.Accounted
      | .error _ => run.Grows run' ∧ run'.Silent ∧ run'.Clean) run s := by
  have hwrite : ∀ s₁, Rely F s s₁ → ∀ req, req.branch? = some input.branch → WriteOk run s₁ req := by
    intro s₁ hr req hreq
    refine hrun.writeOk (hknown.mono hr) fun branch hb => ?_
    rw [hreq] at hb
    cases hb
    exact hbranch
  have hcreate : CreateOk run input := by
    unfold CreateOk
    rw [hrun.scope]
    obtain ⟨submitted, hmem, hkey⟩ := hrun.inserted
    exact ⟨submitted, _, hmem, rfl, by rw [hkey], hbranch.symm⟩
  refine wp_seq hs (wp_with_rely (wp_createChangePr hcreate hwrite)) ?_ ?_
  swap
  · -- the writer failed
    rintro e run₁ s₁ _ ⟨⟨rfl, -⟩, hr₁⟩
    exact ⟨hr₁, run.grows_createChangePr input, hsilent.grows (run.grows_createChangePr input),
      hrun.clean.mark _⟩
  rintro pr run₁ s₁ hs₁ ⟨hcreated, hr₁⟩
  obtain ⟨hext, hclean, m, hout⟩ := hcreated.handedOut hsilent hbranch hbound
  have hknown₁ := hknown.mono hr₁
  refine wp_seq hs₁ (wp_transitionOrLocal hs₁ (hrun.working.mono hext) hknown₁
    (by rw [hrun.stage]; decide) fun _ hr₂ => hout.numberOk hknown₁ hr₂ rfl rfl) ?_ ?_
  · rintro _ run₂ s₂ hs₂ ⟨hgrows, hr₂, current, ⟨⟩, hcase⟩
    have hr := hr₁.trans hr₂
    have habout₂ := (hrun.about.mono hext).mono hgrows.ext
    split_ifs with hlost
    · -- the row was lost meanwhile: close the pull request
      rcases hcase with ⟨-, rfl⟩ | ⟨hcurrent, hid, hclean₂, hseen⟩
      · simp [localRecord, isTerminalLoss] at hlost
      have hrun₂ := hrun.mono (hext.trans hgrows.ext) (hclean₂ (hclean hrun.clean))
      obtain ⟨hsame, -⟩ := (hknown.mono hr).same hcurrent hid
      obtain ⟨bound, howns⟩ := hout.bound
      refine wp_seq hs₂ (wp_closeOrphanPr hs₂ hrun₂.working hcurrent (hid ▸ habout₂) hlost
        ⟨bound, hsame ▸ hr₂.owns howns⟩ fun s₃ hr₃ => hrun₂.writeOk ((hknown.mono hr).mono hr₃)
          (by simp [ApiRequest.branch?])) ?_ ?_
      · rintro ⟨⟩ run₃ s₃ _ ⟨-, hgrows₃, hseen₃, hclosed, hr₃⟩
        refine wp_ret fun s₄ _ hr₄ => ⟨(hr.trans hr₃).trans hr₄, ?_⟩
        refine (hgrows.trans hgrows₃).accounted hout.only (.inr ?_)
        exact Run.settled_of_seen (habout₂.mono hgrows₃.ext) (hseen₃.trans hseen)
          fun _ => hclosed
      · rintro e run₃ s₃ _ ⟨herr, -⟩
        cases herr
    · refine wp_ret fun s₃ _ hr₃ => ⟨hr.trans hr₃, hgrows.accounted hout.only ?_⟩
      rcases hcase with ⟨hfailed, -⟩ | ⟨-, -, -, hseen⟩
      · exact .inl hfailed
      · exact .inr (Run.settled_of_seen habout₂ hseen fun h => absurd h hlost)
  · rintro e run₂ s₂ _ ⟨-, -, current, herr, -⟩
    cases herr

/-- How a submit handler may end. -/
abbrev Answered (deps : Deps) (W : World) : RunPost deps W Response :=
  fun _ run' _ => run'.Accounted

theorem wp_writeFailed {e : JsError} (hs : Consistent s.db) (hrun : Submitted run key record)
    (hsilent : run.Silent) (hknown : Known s record) :
    (discipline F).wp t (writeFailed record e) (Answered deps W) run s := by
  have hmove : ∀ {stage : ChangeStage} {event : TransitionEvent} {response : Response},
      Allowed .submitted stage → (discipline F).wp t (do
        let _ ← transitionOrLocal record stage {} event
        return response) (Answered deps W) run s := by
    intro stage event response hallowed
    refine wp_seq hs (wp_transitionOrLocal hs hrun.working hknown (by rwa [hrun.stage])
      fun _ _ => numberOk_none rfl) ?_ ?_
    · rintro _ run₁ s₁ _ ⟨hgrows, -⟩
      exact wp_ret fun _ _ _ => (hsilent.grows hgrows).accounted
    · rintro _ run₁ s₁ _ ⟨hgrows, -⟩
      exact (hsilent.grows hgrows).accounted
  unfold writeFailed
  split
  · exact hmove (by decide)
  · exact hmove (by decide)
  · exact hmove (by decide)

/-- A submit handler's run before its submit. -/
structure Unsubmitted (run : Run) (key : Option String) : Prop where
  scope : run.scope = .post key
  silent : run.Silent
  clean : run.Clean
  none : ∀ input r, (⟨.store (.submit input), r⟩ : Event sig) ∉ run.calls

theorem wp_submit {input : SubmitInput} (hrun : Unsubmitted run (some key))
    (hkey : input.idempotencyKey = key) :
    (discipline F).wp t (callStore (.submit input)) (fun r run' s' => run'.Silent ∧
      ∀ created, r = .ok created → created.replay = false →
        Submitted run' key created.record ∧ Known s' created.record ∧
          created.record.branch = input.branch) run s := by
  have hsilent : ∀ r, (run.call (.submit input) r).Silent :=
    fun r => hrun.silent.grows (run.grows_call _ r)
  refine wp_callStore (fun s₁ _ _ => ⟨trivial, trivial, trivial, hrun.none⟩) ?_
  intro s₁ a r db s₂ _ _ hx hs₂ hr₂
  refine ⟨hsilent r, ?_⟩
  rintro created hcreated hreplay
  cases r with
  | error e => cases hcreated
  | ok created' =>
      cases hcreated
      rcases submit_effect (submit_ok hx) with ⟨htrue, -⟩ | ⟨rfl, hmem, -⟩
      · rw [htrue] at hreplay
        cases hreplay
      · refine ⟨⟨hrun.scope, ⟨input, List.mem_append_right _ (List.mem_singleton_self _), hkey⟩, rfl,
          hrun.clean.call _ _⟩,
          Known.mono (s := ⟨db, s₁.github⟩) (known_of_mem hmem) hr₂, rfl⟩

theorem wp_storeFailure {e : JsError} {Q : RunPost deps W Response}
    (h : ∀ r s₁, Rely F s s₁ → Q r run s₁) :
    (discipline F).wp t (storeFailure e) Q run s := by
  unfold storeFailure
  repeat' split
  · exact wp_ret fun s₁ _ hr => h _ s₁ hr
  · exact wp_ret fun s₁ _ hr => h _ s₁ hr
  · exact wp_ret fun s₁ _ hr => h _ s₁ hr
  · exact wp_ret fun s₁ _ hr => h _ s₁ hr
  · exact wp_raise fun s₁ _ hr => h _ s₁ hr

theorem wp_submitChange {req : PostRequest} {base : SsoBase} {change : BuiltChange}
    (hs : Consistent s.db) (hrun : Unsubmitted run (some key)) :
    (discipline F).wp t (submitChange deps req base change key) (Answered deps W) run s := by
  refine wp_try hs (wp_submit hrun rfl) ?_
  rintro (e | created) run₁ s₁ hs₁ ⟨hsilent, hsubmitted⟩
  · exact wp_storeFailure fun _ _ _ => hsilent.accounted
  dsimp only
  split_ifs with hreplay
  · exact wp_ret fun _ _ _ => hsilent.accounted
  obtain ⟨hrun₁, hknown, hbranch⟩ := hsubmitted created rfl (by simpa using hreplay)
  refine wp_try hs₁ (wp_writeChange hs₁ hrun₁ hsilent hknown hbranch.symm rfl) ?_
  rintro (e | response) run₂ s₂ hs₂ ⟨hr₂, hcase⟩
  · obtain ⟨hgrows, hsilent₂, hclean₂⟩ := hcase
    exact wp_writeFailed hs₂ (hrun₁.mono hgrows.ext hclean₂) hsilent₂ (hknown.mono hr₂)
  · exact wp_ret fun _ _ _ => hcase

theorem wp_previewChange {req : PostRequest} {base : SsoBase} {change : BuiltChange}
    (hs : Consistent s.db) (hsilent : run.Silent) :
    (discipline F).wp t (previewChange req base change) (Answered deps W) run s := by
  refine wp_try hs (wp_recordEvent (Q := fun _ run' _ => run'.Silent)
    fun r _ _ _ => hsilent.grows (run.grows_call (.recordEvent _) r)) ?_
  rintro (e | ⟨⟩) run₁ s₁ _ hsilent₁
  · exact wp_storeFailure fun _ _ _ => hsilent₁.accounted
  · exact wp_ret fun _ _ _ => hsilent₁.accounted

theorem wp_postOnBase {req : PostRequest} {base : SsoBase} (hs : Consistent s.db)
    (hrun : Unsubmitted run req.key) :
    (discipline F).wp t (postOnBase deps req base) (Answered deps W) run s := by
  have haccounted := hrun.silent.accounted
  unfold postOnBase
  split
  · exact wp_ret fun _ _ _ => haccounted
  split
  · exact wp_ret fun _ _ _ => haccounted
  · exact wp_raise fun _ _ _ => haccounted
  split
  · exact wp_previewChange hs hrun.silent
  split
  · exact wp_ret fun _ _ _ => haccounted
  · next key hkey =>
      rw [hkey] at hrun
      exact wp_submitChange hs hrun

theorem calls_readRequestBase {P : ApiRequest → Prop} {req : PostRequest} :
    (readRequestBase deps req).Calls (Plain P) := by
  unfold readRequestBase
  split_ifs
  · exact Prog.Calls.bind (Prog.Calls.perform trivial) fun _ => .ofExcept _
  · trivial

theorem wp_postAfterReplay {req : PostRequest} (hs : Consistent s.db)
    (hrun : Unsubmitted run req.key) :
    (discipline F).wp t (postAfterReplay deps req) (Answered deps W) run s := by
  refine wp_try hs (wp_reads calls_readRequestBase (Q := fun _ run' _ => run' = run)
    fun _ _ _ _ => rfl) ?_
  rintro r _ s₁ hs₁ rfl
  split
  · exact wp_ret fun _ _ _ => hrun.silent.accounted
  · exact wp_raise fun _ _ _ => hrun.silent.accounted
  · exact wp_postOnBase hs₁ hrun

theorem wp_replayAnswer {req : PostRequest} (hs : Consistent s.db)
    (hrun : Unsubmitted run req.key) :
    (discipline F).wp t (replayAnswer deps req) (fun r run' _ => run'.Silent ∧
      (r = .ok none → Unsubmitted run' req.key)) run s := by
  unfold replayAnswer
  split_ifs
  swap
  · exact wp_ret fun _ _ _ => ⟨hrun.silent, fun _ => hrun⟩
  split
  · exact wp_ret fun _ _ _ => ⟨hrun.silent, fun _ => hrun⟩
  · exact wp_ret fun _ _ _ => ⟨hrun.silent, fun _ => hrun⟩
  · refine wp_try hs (wp_callStore (fun _ _ _ => ⟨trivial, trivial, trivial, trivial⟩)
      (Q := fun r run' _ => run'.Silent ∧ ((∃ e, r = .error e) ∨ Unsubmitted run' req.key))
      fun _ _ r _ _ _ _ _ _ _ => ?_) ?_
    · refine ⟨hrun.silent.grows (run.grows_call _ r), ?_⟩
      cases r with
      | error e => exact .inl ⟨_, rfl⟩
      | ok found =>
          refine .inr ⟨hrun.scope, hrun.silent.grows (run.grows_call _ _), hrun.clean.call _ _, ?_⟩
          intro input r' hmem
          rcases List.mem_append.mp hmem with hmem | hmem
          · exact hrun.none input r' hmem
          · cases List.mem_singleton.mp hmem
    · rintro (e | found) run₁ s₁ hs₁ ⟨hsilent, hcase⟩
      · refine wp_seq hs₁ (R := fun _ run' _ => run'.Silent) (wp_storeFailure fun _ _ _ => hsilent)
          (fun _ _ _ _ h => wp_ret fun _ _ _ => ⟨h, by simp⟩) fun _ _ _ _ h => ⟨h, by simp⟩
      have hrun₁ : Unsubmitted run₁ req.key := by simpa using hcase
      cases found with
      | none => exact wp_ret fun _ _ _ => ⟨hsilent, fun _ => hrun₁⟩
      | some existing =>
          dsimp only
          split_ifs
          · exact wp_ret fun _ _ _ => ⟨hsilent, fun _ => hrun₁⟩
          · exact wp_ret fun _ _ _ => ⟨hsilent, fun _ => hrun₁⟩

theorem wp_postChange {req : PostRequest} (hs : Consistent s.db) :
    (discipline F).wp t (postChange deps req) (Answered deps W) { scope := .post req.key } s := by
  have hrun : Unsubmitted { scope := .post req.key } req.key :=
    ⟨rfl, by simp [Run.Silent], by simp [Run.Clean], by simp⟩
  unfold postChange
  split_ifs
  · exact wp_postAfterReplay hs hrun
  · refine wp_seq hs (wp_replayAnswer hs hrun) ?_ fun _ _ _ _ h => h.1.accounted
    rintro (_ | response) run₁ s₁ hs₁ ⟨hsilent, hrun₁⟩
    · exact wp_postAfterReplay hs₁ (hrun₁ rfl)
    · exact wp_ret fun _ _ _ => hsilent.accounted

/-! ## Cancel -/

/-- A cancel handler's run that read `record`. -/
structure Cancelling (run : Run) (record : ChangeRecord) : Prop where
  scope : run.scope = .cancel record.id
  read : (⟨.store (.get record.id), .ok (some record)⟩ : Event sig) ∈ run.calls

theorem Cancelling.mono (h : Cancelling run record) (hrun : run.Extends run') :
    Cancelling run' record :=
  ⟨hrun.scope.trans h.scope, hrun.calls h.read⟩

theorem wp_auditUnavailable {e : JsError} :
    (discipline F).wp t (auditUnavailable e) (fun _ _ _ => True) run s := by
  unfold auditUnavailable
  split
  · exact wp_ret fun _ _ _ => trivial
  · exact wp_raise fun _ _ _ => trivial

theorem wp_closeForCancel (hs : Consistent s.db) (hrun : Cancelling run record)
    (hclean : run.Clean) (hrecorded : run.Recorded record.id) :
    (discipline F).wp t (closeForCancel deps record) (fun _ run' _ => run.Extends run') run s := by
  refine wp_seq hs (wp_reads calls_findPrOf (Q := fun _ run' _ => run' = run)
    fun _ _ _ _ => rfl) ?_ ?_
  · rintro found run₁ s₁ hs₁ rfl
    cases found with
    | none => exact wp_ret fun _ _ _ => .refl _
    | some pr =>
        dsimp only
        split_ifs
        · exact wp_ret fun _ _ _ => .refl _
        · have hclose : ∀ s₂ : Shared W, CloseOk F run₁ s₂ pr.number := by
            intro s₂
            unfold CloseOk
            rw [hrun.scope]
            exact hrecorded
          have hwrite : ∀ s₂ : Shared W, WriteOk run₁ s₂ (.closePull pr.number) := by
            intro s₂
            unfold WriteOk
            rw [hrun.scope]
            exact ⟨hclean, hrecorded, rfl⟩
          refine wp_seq hs₁ (wp_closePr (fun s₂ _ _ => hclose s₂) fun s₂ _ => hwrite s₂) ?_ ?_
          · rintro _ _ s₂ _ ⟨rfl, -⟩
            exact wp_ret fun _ _ _ => Run.extends_mark _ _
          · rintro _ _ s₂ _ ⟨rfl, -⟩
            exact Run.extends_mark _ _
        · exact wp_ret fun _ _ _ => .refl _
  · rintro e _ s₁ _ rfl
    exact .refl _

theorem wp_cancelTransition {req : CancelRequest} (hs : Consistent s.db)
    (hrun : Cancelling run record) (hactive : record.stage.Active) :
    (discipline F).wp t (cancelTransition req record) (fun _ _ _ => True) run s := by
  have hallowed : Allowed record.stage .failed := by
    revert hactive
    generalize record.stage = stage
    cases stage <;> decide
  refine wp_try hs (wp_transition hallowed ?_ (fun _ _ => numberOk_none rfl)
    (Q := fun _ _ _ => True) fun _ _ _ _ _ => trivial) ?_
  · intro id hscope
    rw [hrun.scope] at hscope
    cases hscope
    exact ⟨rfl, rfl, record, hrun.read, rfl, rfl⟩
  · rintro (e | (_ | done)) run₁ s₁ _ -
    · exact wp_auditUnavailable
    · exact wp_ret fun _ _ _ => trivial
    · exact wp_ret fun _ _ _ => trivial

theorem wp_cancelActive {req : CancelRequest} (hs : Consistent s.db)
    (hrun : Cancelling run record) (hclean : run.Clean) (hactive : record.stage.Active) :
    (discipline F).wp t (cancelActive deps req record) (fun _ _ _ => True) run s := by
  refine wp_try hs (wp_recordEvent (Q := fun r run' _ => run.Extends run' ∧
    (r = .ok () → run'.Clean ∧ run'.Recorded record.id)) fun r _ _ _ => ?_) ?_
  · refine ⟨run.extends_call _ _, fun hr => ?_⟩
    cases r with
    | error e => cases hr
    | ok u => exact ⟨hclean.call _ _, _, _, List.mem_append_right _ (List.mem_singleton_self _), rfl⟩
  rintro (e | ⟨⟩) run₁ s₁ hs₁ ⟨hext, hcase⟩
  · exact wp_auditUnavailable
  obtain ⟨hclean₁, hrecorded⟩ := hcase rfl
  refine wp_try hs₁ (wp_closeForCancel hs₁ (hrun.mono hext) hclean₁ hrecorded) ?_
  rintro (e | (_ | _)) run₂ s₂ hs₂ hext₂
  · exact wp_try hs₂ (wp_recordEvent (Q := fun _ _ _ => True) fun _ _ _ _ => trivial)
      fun _ _ _ _ _ => wp_ret fun _ _ _ => trivial
  · exact wp_cancelTransition hs₂ (hrun.mono (hext.trans hext₂)) hactive
  · exact wp_ret fun _ _ _ => trivial

theorem calls_inFlight {P : ApiRequest → Prop} : (inFlight record).Calls (Plain P) := by
  unfold inFlight
  split_ifs
  · exact Prog.Calls.bind calls_now fun _ => trivial
  · trivial

theorem wp_cancelChange {req : CancelRequest} (hs : Consistent s.db) :
    (discipline F).wp t (cancelChange deps req) (fun _ _ _ => True)
      { scope := .cancel req.id } s := by
  unfold cancelChange
  split_ifs
  swap
  · exact wp_ret fun _ _ _ => trivial
  refine wp_try hs (wp_get (fun _ _ => rfl) (Q := fun r run' _ => ∀ record, r = .ok (some record) →
    Cancelling run' record ∧ run'.Clean) fun r s₁ _ _ hread _ => ?_) ?_
  · rintro record hrecord
    cases r with
    | error e => cases hrecord
    | ok found =>
        cases hrecord
        obtain ⟨hid, -⟩ := hread record rfl
        rw [← hid]
        exact ⟨⟨rfl, List.mem_singleton_self _⟩, Run.Clean.call (by simp [Run.Clean]) _ _⟩
  · rintro (e | (_ | record)) run₁ s₁ hs₁ hrun
    · exact wp_auditUnavailable
    · exact wp_ret fun _ _ _ => trivial
    · dsimp only
      split_ifs with hactive
      swap
      · exact wp_ret fun _ _ _ => trivial
      refine wp_seq hs₁ (wp_reads calls_inFlight (Q := fun _ run' _ => run' = run₁)
        fun _ _ _ _ => rfl) ?_ fun _ _ _ _ _ => trivial
      rintro young _ s₂ hs₂ rfl
      split_ifs
      · exact wp_ret fun _ _ _ => trivial
      · exact wp_cancelActive hs₂ (hrun record rfl).1 (hrun record rfl).2 hactive

/-! ## Every reachable state -/

theorem wp_taskProg (task : Task) (hs : Consistent s.db) :
    (discipline F).wp t (taskProg deps task) (taskPost task) (.ofTask task) s := by
  cases task with
  | post req =>
      exact wp_seq hs (wp_postChange hs) (fun _ _ _ _ h => wp_ret fun _ _ _ => h)
        fun _ _ _ _ h => h
  | cancel req =>
      exact wp_seq hs (wp_cancelChange hs) (fun _ _ _ _ _ => wp_ret fun _ _ _ => trivial)
        fun _ _ _ _ _ => trivial
  | tick memory =>
      exact wp_seq hs (wp_tickBody hs trivial) (fun _ _ _ _ _ => wp_ret fun _ _ _ => trivial)
        fun _ _ _ _ _ => trivial

/-- The discipline holds in every reachable state of the protocol. -/
theorem protocol_holds {g : W.State} {s : PState deps W}
    (h : (protocol deps W).Reachable (start W g) s) :
    (discipline F).Holds Run.ofTask taskPost s := by
  have hinit : (discipline F).inv (start W g) := Consistent.empty
  refine Logic.sound hinit
    (fun s task _ hs => wp_taskProg task hs) ?_ ?_ h
  · intro s t ans th op k r g' _ hs _ _ hok hx
    exact ⟨serve_consistent hx hs, fun _ _ => hok.rely hx⟩
  · intro s e g' _ hs hx
    simp only [protocol, Option.map_eq_some_iff] at hx
    obtain ⟨github, hx, rfl⟩ := hx
    exact ⟨hs, fun _ => ⟨.refl _, F.env_owns hx⟩⟩

section Steps

variable {g : W.State} {s s' : PState deps W} {a : (protocol deps W).Act}

/-- A step of the protocol is at most one store call, and what that call does
to a stage is in the diagram. -/
theorem protocol_step (h : (protocol deps W).Reachable (start W g) s)
    (hstep : System.step s a = some s') :
    s'.shared.db = s.shared.db ∨
      ∃ t op, op.Follows ∧ Effect t s.shared.db op s'.shared.db := by
  obtain ⟨k, -, rfl⟩ | ⟨t, ans, th, op, k, r, g', -, hth, hrest, hx, rfl⟩ |
    ⟨e, g', -, hx, rfl⟩ := System.step_cases hstep
  · exact .inl rfl
  · have hok := (protocol_holds (F := Facts.none deps W) h).ok hth hrest
    rcases serve_cases hx with ⟨op', rfl, -, heffect⟩ | ⟨_, _, _, -, hdb, -⟩ | ⟨rfl, -⟩
    · exact .inr ⟨t, op', hok.1, heffect⟩
    · exact .inl hdb
    · exact .inl rfl
  · simp only [protocol, Option.map_eq_some_iff] at hx
    obtain ⟨_, -, rfl⟩ := hx
    exact .inl rfl

theorem protocol_consistent (h : (protocol deps W).Reachable (start W g) s) :
    Consistent s.shared.db :=
  (protocol_holds (F := Facts.none deps W) h).1

/-- A run only does what every thread relies on. -/
theorem protocol_rely (F : Facts deps W) (h : (protocol deps W).Reachable (start W g) s)
    (hreach : System.Reaches s s') : Rely F s.shared s'.shared := by
  refine System.Reaches.lift (R := fun (s s' : PState deps W) => Rely F s.shared s'.shared)
    (fun s => .refl _) (fun h h' => h.trans h') ?_ h hreach
  intro a b act ha hstep
  obtain ⟨_, -, rfl⟩ | ⟨t, ans, th, op, k, r, g', -, hth, hrest, hx, rfl⟩ |
    ⟨_, g', -, hx, rfl⟩ := System.step_cases hstep
  · exact .refl _
  · exact Disciplined.rely ((protocol_holds (F := F) ha).ok hth hrest) hx
  · simp only [protocol, Option.map_eq_some_iff] at hx
    obtain ⟨github, hx, rfl⟩ := hx
    exact ⟨.refl _, F.env_owns hx⟩

/-- What a run does to the tables. -/
theorem protocol_evolves (h : (protocol deps W).Reachable (start W g) s)
    (hreach : System.Reaches s s') : Evolves s.shared.db s'.shared.db :=
  (protocol_rely (Facts.none deps W) h hreach).db

end Steps

end Sso
