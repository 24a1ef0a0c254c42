import Beluga.Sso.Client

/-! # The reconciler follows the discipline

One lemma for each function of `Beluga.Sso.Reconciler`, from the single
compare-and-set (`wp_move`) up to the whole tick (`wp_tickBody`). The argument
about pull requests is in `wp_openPr`: when the compare-and-set is lost, the row
is read again, and a row found lost stays lost until the close.
-/

namespace Sso

open Interact Interact.Logic

variable {deps : Deps} {W : World} {F : Facts deps W} {t : Nat} {run run' : Run}
  {s s' : Shared W} {record : ChangeRecord}

/-! ## Facts about records and runs -/

/-- The row a known record was read from, as it is now. -/
theorem Known.row (h : Known s record) : ∃ row ∈ s.db.requests.rows, row.id = record.id ∧
    row.branch = record.branch ∧ adoptBound (toRecord row) = adoptBound record ∧
    StageLeads record.stage row.stage := by
  obtain ⟨row, hrow, read, rfl, hleads⟩ := h
  refine ⟨row, hrow, hleads.id, hleads.branch, ?_, hleads.stage⟩
  simp [adoptBound, toRecord, hleads.created_at]

/-- Two readings of one row agree on what never changes. -/
theorem Known.same {other : ChangeRecord} (h : Known s record) (h' : Known s other)
    (hid : other.id = record.id) :
    other.branch = record.branch ∧ adoptBound other = adoptBound record := by
  obtain ⟨row, hrow, hrid, hbranch, hbound, -⟩ := h.row
  obtain ⟨row', hrow', hrid', hbranch', hbound', -⟩ := h'.row
  obtain rfl : row = row' := RequestTable.eq_of_id hrow hrow' (by rw [hrid, hrid', hid])
  exact ⟨hbranch'.symm.trans hbranch, hbound'.symm.trans hbound⟩

theorem isTerminalLoss_iff {stage : ChangeStage} :
    isTerminalLoss stage ↔ stage = .failed ∨ stage = .rejected := by
  simp [isTerminalLoss]

theorem terminal_of_loss {stage : ChangeStage} (h : isTerminalLoss stage) : stage.Terminal := by
  rcases isTerminalLoss_iff.mp h with rfl | rfl <;> rfl

/-- A record that was read as lost names a row that is still lost. -/
theorem Known.lost (h : Known s record) (hlost : isTerminalLoss record.stage) :
    ∃ row ∈ s.db.requests.rows, row.id = record.id ∧ row.branch = record.branch ∧
      isTerminalLoss row.stage := by
  obtain ⟨row, hrow, hid, hbranch, -, hleads⟩ := h.row
  refine ⟨row, hrow, hid, hbranch, ?_⟩
  rw [hleads.of_terminal (terminal_of_loss hlost)]
  exact hlost

/-- The run with more calls, none of which hands out a pull request. -/
structure Run.Grows (run run' : Run) : Prop where
  ext : run.Extends run'
  quiet : ∀ e ∈ run'.calls, e ∈ run.calls ∨ yielded e = none

theorem Run.Grows.refl (run : Run) : run.Grows run := ⟨.refl run, fun _ he => .inl he⟩

theorem Run.Grows.trans {run'' : Run} (h : run.Grows run') (h' : run'.Grows run'') :
    run.Grows run'' where
  ext := h.ext.trans h'.ext
  quiet e he := by
    rcases h'.quiet e he with he' | hquiet
    · exact h.quiet e he'
    · exact .inr hquiet

theorem Run.grows_call (run : Run) (op : StoreOp) (r : Except StoreError op.Result) :
    run.Grows (run.call op r) where
  ext := run.extends_call op r
  quiet e he := by
    rcases List.mem_append.mp he with he | he
    · exact .inl he
    · rw [List.mem_singleton.mp he]
      exact .inr rfl

theorem Run.grows_closePr (run : Run) (n : Int) : run.Grows (run.mark (.closePr n)) where
  ext := run.extends_mark _
  quiet e he := by
    rcases List.mem_append.mp he with he | he
    · exact .inl he
    · rw [List.mem_singleton.mp he]
      exact .inr rfl

theorem Run.grows_createChangePr (run : Run) (input : CreateChangePrInput) :
    run.Grows (run.mark (.createChangePr input)) where
  ext := run.extends_mark _
  quiet e he := by
    rcases List.mem_append.mp he with he | he
    · exact .inl he
    · rw [List.mem_singleton.mp he]
      exact .inr rfl

/-- A run that hands out no pull request. -/
def Run.Silent (run : Run) : Prop := ∀ e ∈ run.calls, yielded e = none

theorem Run.Silent.grows (h : run.Silent) (hrun : run.Grows run') : run'.Silent := by
  intro e he
  rcases hrun.quiet e he with he' | hquiet
  · exact h e he'
  · exact hquiet

theorem Run.Silent.accounted (h : run.Silent) : run.Accounted := by
  rintro n ⟨e, he, hn⟩
  rw [h e he] at hn
  cases hn

/-- Some store call of the run failed. -/
def Run.Failed (run : Run) : Prop := ∃ e ∈ run.calls, StoreFailed e

theorem Run.Failed.mono (h : run.Failed) (hrun : run.Extends run') : run'.Failed := by
  obtain ⟨e, he, hfailed⟩ := h
  exact ⟨e, hrun.calls he, hfailed⟩

theorem Run.failed_call (run : Run) (op : StoreOp) (e : StoreError) :
    (run.call op (.error e)).Failed :=
  ⟨⟨.store op, .error e⟩, by simp, trivial⟩

@[simp] theorem Run.lastSeen_mark (run : Run) (m : Mark) :
    (run.mark m).lastSeen = run.lastSeen := by
  simp [lastSeen, rowSeen]

theorem Run.lastSeen_call_some {op : StoreOp} {r : Except StoreError op.Result}
    {seen : Uuid × ChangeStage} (h : rowSeen ⟨.store op, r⟩ = some seen) :
    (run.call op r).lastSeen = some seen := by
  simp [lastSeen, h]

theorem Run.lastSeen_call_none {op : StoreOp} {r : Except StoreError op.Result}
    (h : rowSeen ⟨.store op, r⟩ = none) : (run.call op r).lastSeen = run.lastSeen := by
  simp [lastSeen, h]

/-- Neither a cancel nor between two records. -/
def Run.Working (run : Run) : Prop := (∀ id, run.scope ≠ .cancel id) ∧ run.scope ≠ .idle

theorem Run.Working.mono (h : run.Working) (hrun : run.Extends run') : run'.Working := by
  unfold Run.Working
  rw [hrun.scope]
  exact h

theorem Run.Working.closeOk {n : Int} (h : run.Working) {row : RequestRow}
    (hrow : row ∈ s.db.requests.rows) (habout : run.About row.id)
    (hlost : isTerminalLoss row.stage)
    (howns : ∃ bound, F.owns s.github row.branch bound n) : CloseOk F run s n := by
  unfold CloseOk
  split
  · next hscope => exact absurd hscope (h.1 _)
  · next hscope => exact absurd hscope h.2
  · exact ⟨row, hrow, habout, hlost, howns⟩

theorem numberOk_none {id : Uuid} {expected stage : ChangeStage} {fields : TransitionFields}
    {event : TransitionEvent} {version : Option Nat} (h : fields.prNumber = none) :
    NumberOk F run s (.transition id expected stage fields event version) := by
  simp [NumberOk, h]

/-! ## Compensation -/

theorem wp_recordEvent {event : NewEvent} {Q : RunPost deps W Unit}
    (h : ∀ r s₁, Consistent s₁.db → Rely F s s₁ →
      Q (Except.mapError .store r) (run.call (.recordEvent event) r) s₁) :
    (discipline F).wp t (callStore (.recordEvent event)) Q run s := by
  refine wp_callStore (fun _ _ _ => ⟨trivial, trivial, trivial, trivial⟩) ?_
  intro s₁ a r db s₂ _ hr hx hs₂ hr₂
  have hstep : Rely F s₁ ⟨db, s₁.github⟩ := ⟨(storeExec_effect hx).evolves trivial, id⟩
  exact h r s₂ hs₂ (hr.trans (hstep.trans hr₂))

theorem wp_closeOrphanPr {current : ChangeRecord} {n : Int} {actor : Actor}
    {source : Option String} (hs : Consistent s.db) (hrun : run.Working) (hknown : Known s current)
    (habout : run.About current.id) (hlost : isTerminalLoss current.stage)
    (howns : ∃ bound, F.owns s.github current.branch bound n)
    (hwrite : ∀ s₁, Rely F s s₁ → WriteOk run s₁ (.closePull n)) :
    (discipline F).wp t (closeOrphanPr current n actor source) (fun r run' s' =>
      r = .ok () ∧ run.Grows run' ∧ run'.lastSeen = run.lastSeen ∧
        (⟨.trace (.closePr n), ()⟩ : Event sig) ∈ run'.calls ∧ Rely F s s') run s := by
  have hclose : ∀ s₁, Consistent s₁.db → Rely F s s₁ → CloseOk F run s₁ n := by
    intro s₁ _ hr
    obtain ⟨row, hrow, hid, hbranch, hloss⟩ := (hknown.mono hr).lost hlost
    obtain ⟨bound, hn⟩ := howns
    exact hrun.closeOk hrow (hid ▸ habout) hloss ⟨bound, hbranch ▸ hr.owns hn⟩
  refine wp_try hs (wp_closePr hclose hwrite) ?_
  rintro closed run₁ s₁ hs₁ ⟨rfl, hr₁⟩
  refine wp_try hs₁ (R := fun _ run' s' => ∃ event r,
    run' = (run.mark (.closePr n)).call (.recordEvent event) r ∧ Rely F s₁ s')
    (wp_recordEvent fun r s₂ _ hr₂ => ⟨_, r, rfl, hr₂⟩) ?_
  rintro _ run₂ s₂ _ ⟨event, r, rfl, hr₂⟩
  refine wp_ret fun s₃ _ hr₃ => ⟨rfl, ?_, ?_, by simp, ?_⟩
  · exact (run.grows_closePr n).trans (Run.grows_call _ _ _)
  · rw [Run.lastSeen_call_none (by cases r <;> rfl), Run.lastSeen_mark]
  · exact hr₁.trans (hr₂.trans hr₃)

/-! ## Moving a row -/

/-- The call `move` makes. -/
abbrev moveOp (record : ChangeRecord) (stage : ChangeStage) (fields : TransitionFields)
    (reason : String) (detail : List (String × Json)) : StoreOp :=
  .transition record.id record.stage stage fields
    { reason := some reason
      detail := some (.obj (("source", .str "reconciler") :: detail)) } none

theorem wp_transition {stage : ChangeStage} {fields : TransitionFields} {event : TransitionEvent}
    {version : Option Nat} (hallowed : Allowed record.stage stage)
    (hcancel : CancelOk run (.transition record.id record.stage stage fields event version))
    (hnumber : ∀ s₁, Rely F s s₁ →
      NumberOk F run s₁ (.transition record.id record.stage stage fields event version))
    {Q : RunPost deps W (Option ChangeRecord)}
    (h : ∀ r s₁, Consistent s₁.db → Rely F s s₁ →
      (∀ current, r = .ok (some current) →
        current.id = record.id ∧ current.stage = stage ∧ Known s₁ current) →
      Q (Except.mapError .store r)
        (run.call (.transition record.id record.stage stage fields event version) r) s₁) :
    (discipline F).wp t
      (callStore (.transition record.id record.stage stage fields event version)) Q run s := by
  refine wp_callStore (fun s₁ _ hr => ⟨hallowed, hcancel, hnumber s₁ hr, trivial⟩) ?_
  intro s₁ a r db s₂ _ hr hx hs₂ hr₂
  have hstep : Rely F s₁ ⟨db, s₁.github⟩ := ⟨(storeExec_effect hx).evolves hallowed, id⟩
  refine h r s₂ hs₂ (hr.trans (hstep.trans hr₂)) ?_
  rintro current rfl
  rcases transition_effect (transition_ok hx) with ⟨hnone, -⟩ | ⟨row, -, hid, -, hsome, -, hmem, -⟩
  · cases hnone
  · cases hsome
    exact ⟨hid, rfl, Known.mono (F := F) (s := ⟨db, s₁.github⟩) (known_of_mem hmem) hr₂⟩

theorem Run.Working.cancelOk (h : run.Working) (op : StoreOp) : CancelOk run op := by
  cases op with
  | transition _ _ _ _ _ _ | get _ => exact fun id hscope => absurd hscope (h.1 id)
  | _ => trivial

/-- How a `move` of a working run ends. -/
def Moved (F : Facts deps W) (run : Run) (s : Shared W) (record : ChangeRecord)
    (stage : ChangeStage) (fields : TransitionFields) (reason : String)
    (detail : List (String × Json)) : RunPost deps W (Option ChangeRecord) := fun r run' s' =>
  Rely F s s' ∧ ∃ r', r = Except.mapError .store r' ∧
    run' = run.call (moveOp record stage fields reason detail) r' ∧
    ∀ current, r' = .ok (some current) →
      current.id = record.id ∧ current.stage = stage ∧ Known s' current

theorem wp_move {stage : ChangeStage} {fields : TransitionFields} {reason : String}
    {detail : List (String × Json)} (hrun : run.Working) (hallowed : Allowed record.stage stage)
    (hnumber : ∀ s₁, Rely F s s₁ →
      NumberOk F run s₁ (moveOp record stage fields reason detail)) :
    (discipline F).wp t (move record stage fields reason detail)
      (Moved F run s record stage fields reason detail) run s :=
  wp_transition hallowed (hrun.cancelOk _) hnumber fun r _ _ hr hmoved => ⟨hr, r, rfl, rfl, hmoved⟩

/-- A `move` that writes no pull request number, whatever comes of it. -/
theorem wp_move_silent {stage : ChangeStage} {fields : TransitionFields} {reason : String}
    {detail : List (String × Json)} {Q : RunPost deps W Unit} (hs : Consistent s.db)
    (hrun : run.Working) (hallowed : Allowed record.stage stage) (hfields : fields.prNumber = none)
    (h : ∀ r run' s', run.Grows run' → Q r run' s') :
    (discipline F).wp t (do
      let _ ← move record stage fields reason detail
      return ()) Q run s := by
  refine wp_seq hs (wp_move hrun hallowed fun _ _ => numberOk_none hfields) ?_ ?_
  · rintro moved run' s' _ ⟨-, r, -, rfl, -⟩
    exact wp_ret fun s₁ _ _ => h _ _ _ (run.grows_call (moveOp record stage fields reason detail) r)
  · rintro e run' s' _ ⟨-, r, -, rfl, -⟩
    exact h _ _ _ (run.grows_call (moveOp record stage fields reason detail) r)

theorem Run.settled_of_seen {id : Uuid} {stage : ChangeStage} {n : Int} (habout : run.About id)
    (hseen : run.lastSeen = some (id, stage))
    (hlost : isTerminalLoss stage → (⟨.trace (.closePr n), ()⟩ : Event sig) ∈ run.calls) :
    run.Settled n := by
  refine ⟨id, stage, habout, hseen, ?_⟩
  cases stage with
  | merged => simp
  | applied => simp
  | failed => exact .inr (.inr (.inr (.inr ⟨rfl, hlost rfl⟩)))
  | rejected => exact .inr (.inr (.inr (.inr ⟨rfl, hlost rfl⟩)))
  | _ => exact .inr (.inr (.inr (.inl (by decide))))

theorem wp_get {id : Uuid} {Q : RunPost deps W (Option ChangeRecord)}
    (hcancel : CancelOk run (.get id))
    (h : ∀ r s₁, Consistent s₁.db → Rely F s s₁ →
      (∀ current, r = .ok (some current) → current.id = id ∧ Known s₁ current) →
      (r = .ok none → ∀ row ∈ s.db.requests.rows, row.id ≠ id) →
      Q (Except.mapError .store r) (run.call (.get id) r) s₁) :
    (discipline F).wp t (callStore (.get id)) Q run s := by
  refine wp_callStore (fun _ _ _ => ⟨trivial, hcancel, trivial, trivial⟩) ?_
  intro s₁ a r db s₂ _ hr hx hs₂ hr₂
  have hstep : Rely F s₁ ⟨db, s₁.github⟩ := ⟨(storeExec_effect hx).evolves trivial, fun h => h⟩
  refine h r s₂ hs₂ (hr.trans (hstep.trans hr₂)) ?_ ?_
  · rintro current rfl
    obtain ⟨rfl, row, hrow, hid, rfl⟩ := get_ok_some hx
    exact ⟨hid, Known.mono (known_of_mem hrow) hr₂⟩
  · rintro rfl row hrow rfl
    obtain ⟨row', hrow', hleads⟩ := hr.db.rows row hrow
    obtain ⟨-, hnone⟩ := get_ok hx
    rw [← hleads.id, RequestTable.findId_of_mem hrow'] at hnone
    cases hnone

/-! ## Recording a pull request -/

/-- A lost row's pull request is closed; any other row is tracked. -/
theorem wp_closeIfLost {n : Int} (hs : Consistent s.db) (hrun : run.Working)
    (habout : run.About record.id) (hknown : Known s record)
    (howns : ∃ bound, F.owns s.github record.branch bound n)
    (hwrite : ∀ s₁, Rely F s s₁ → WriteOk run s₁ (.closePull n)) :
    (discipline F).wp t (closeIfLost record n) (fun _ run' _ =>
      run.Grows run' ∧ (run'.Failed ∨ run'.Settled n)) run s := by
  refine wp_seq hs (R := fun r run' s' => Rely F s s' ∧ ∃ r',
    r = Except.mapError .store r' ∧ run' = run.call (.get record.id) r' ∧
      (∀ current, r' = .ok (some current) → current.id = record.id ∧ Known s' current) ∧
      r' ≠ .ok none) (wp_get (hrun.cancelOk _) fun r s₁ _ hr hread hnone => ?_) ?_ ?_
  · refine ⟨hr, r, rfl, rfl, hread, fun h => ?_⟩
    obtain ⟨row, hrow, hid, -⟩ := hknown.row
    exact hnone h row hrow hid
  · rintro found run₁ s₁ hs₁ ⟨hr₁, (e | r), hr, rfl, hread, hsome⟩
    · cases hr
    obtain rfl : found = r := by cases hr; rfl
    cases found with
    | none => exact absurd rfl hsome
    | some current =>
        obtain ⟨hid, hknown₁⟩ := hread current rfl
        have hext := run.extends_call (.get record.id) (.ok (some current))
        have hgrows := run.grows_call (.get record.id) (.ok (some current))
        have hseen : (run.call (.get record.id) (.ok (some current))).lastSeen =
            some (current.id, current.stage) := Run.lastSeen_call_some rfl
        have habout₁ : (run.call (.get record.id) (.ok (some current))).About current.id := by
          rw [hid]
          exact habout.mono hext
        dsimp only
        split_ifs with hlost
        · -- an orphan: close it
          have howns₁ : ∃ bound, F.owns s₁.github current.branch bound n := by
            obtain ⟨bound, hn⟩ := howns
            exact ⟨bound, ((hknown.mono hr₁).same hknown₁ hid).1 ▸ hr₁.owns hn⟩
          refine wp_mono (wp_closeOrphanPr hs₁ (hrun.mono hext) hknown₁ habout₁ hlost howns₁
            fun s₂ hr₂ => (hwrite s₂ (hr₁.trans hr₂)).call _ _) ?_
          rintro _ run₂ s₂ _ ⟨-, hgrows₂, hseen₂, hclosed, -⟩
          refine ⟨hgrows.trans hgrows₂, .inr ?_⟩
          exact Run.settled_of_seen (habout₁.mono hgrows₂.ext) (hseen₂.trans hseen) fun _ => hclosed
        · exact wp_ret fun s₂ _ _ => ⟨hgrows, .inr (Run.settled_of_seen habout₁ hseen
            fun h => absurd h hlost)⟩
  · rintro e run₁ s₁ _ ⟨-, (e' | r), hr, rfl, -⟩
    · exact ⟨run.grows_call _ _, .inl (run.failed_call _ _)⟩
    · cases hr

theorem wp_openPr {pr : CreatedPr} {reason : String} {closeIfOrphan : Bool}
    (hs : Consistent s.db) (hrun : run.Working) (habout : run.About record.id)
    (hknown : Known s record) (hallowed : Allowed record.stage .pr_open)
    (hnumber : ∀ s₁, Rely F s s₁ → NumberOk F run s₁ (moveOp record .pr_open
      { prNumber := some pr.prNumber, prUrl := some pr.prUrl } reason []))
    (howns : ∃ bound, F.owns s.github record.branch bound pr.prNumber)
    (hwrite : ∀ s₁, Rely F s s₁ → WriteOk run s₁ (.closePull pr.prNumber)) :
    (discipline F).wp t (openPr record pr reason closeIfOrphan) (fun _ run' _ =>
      run.Grows run' ∧
        (run'.Failed ∨ (closeIfOrphan = true → run'.Settled pr.prNumber))) run s := by
  refine wp_seq hs (wp_move hrun hallowed hnumber) ?_ ?_
  · rintro moved run₁ s₁ hs₁ ⟨hr₁, (e | r), hr, rfl, hmoved⟩
    · cases hr
    obtain rfl : moved = r := by cases hr; rfl
    set op := moveOp record .pr_open ⟨some pr.prNumber, some pr.prUrl, none⟩ reason []
    have hext := run.extends_call op (.ok moved)
    cases moved with
    | some current =>
        -- recorded
        obtain ⟨hid, hstage, -⟩ := hmoved current rfl
        refine wp_ret fun s₂ _ _ => ⟨run.grows_call _ _, .inr fun _ => ?_⟩
        have hseen : (run.call op (.ok (some current))).lastSeen = some (record.id, .pr_open) :=
          Run.lastSeen_call_some (by simp [op, rowSeen, hid, hstage])
        exact Run.settled_of_seen (habout.mono hext) hseen (by simp [isTerminalLoss])
    | none =>
        cases closeIfOrphan with
        | false => exact wp_ret fun s₂ _ _ => ⟨run.grows_call _ _, .inr (by simp)⟩
        | true =>
            have howns₁ : ∃ bound, F.owns s₁.github record.branch bound pr.prNumber := by
              obtain ⟨bound, hn⟩ := howns
              exact ⟨bound, hr₁.owns hn⟩
            refine wp_mono (wp_closeIfLost hs₁ (hrun.mono hext) (habout.mono hext)
              (hknown.mono hr₁) howns₁ fun s₂ hr₂ =>
                (hwrite s₂ (hr₁.trans hr₂)).call _ _) ?_
            rintro _ run₂ s₂ _ ⟨hgrows₂, hsettled⟩
            exact ⟨(run.grows_call _ _).trans hgrows₂, hsettled.imp_right fun h _ => h⟩
  · -- the compare-and-set failed
    rintro e run₁ s₁ _ ⟨-, (e' | r), hr, rfl, -⟩
    · exact ⟨run.grows_call _ _, .inl (run.failed_call _ _)⟩
    · cases hr

/-- A run that handed out one pull request and then accounted for it. -/
theorem Run.Grows.accounted {n : Int} (hrun : run.Grows run')
    (hone : ∀ e ∈ run.calls, ∀ m, yielded e = some m → m = n)
    (h : run'.Failed ∨ run'.Settled n) : run'.Accounted := by
  rintro m ⟨e, he, hm⟩
  rcases hrun.quiet e he with he' | hquiet
  · obtain rfl := hone e he' m hm
    exact h
  · rw [hquiet] at hm
    cases hm

/-! ## Recovery -/

theorem calls_rebuild {P : ApiRequest → Prop} : (rebuild deps record).Calls (Plain P) := by
  refine Prog.Calls.bind (calls_readFile _ _) fun sso =>
    Prog.Calls.bind (calls_readFile _ _) fun groups => ?_
  split_ifs
  · trivial
  · exact Prog.Calls.bind (.ofExcept _) fun _ => Prog.Calls.bind (.ofExcept _) fun _ => trivial

/-- What the recovery passes to the writer comes from the record. -/
theorem rebuild_returns : (rebuild deps record).Returns fun input =>
    input.branch = record.branch ∧ input.notBefore = some (adoptBound record) := by
  refine Prog.Returns.bind _ fun sso => Prog.Returns.bind _ fun groups => ?_
  split_ifs
  · trivial
  · exact Prog.Returns.bind _ fun _ => Prog.Returns.bind _ fun _ => ⟨rfl, rfl⟩

/-- A `branchOnly` run whose touch or hop committed. -/
structure Restarted (run : Run) (record current : ChangeRecord) : Prop where
  scope : run.scope = .branchOnly record
  touched : ∃ expected fields event version,
    (⟨.store (.transition record.id expected .submitted fields event version),
      .ok (some current)⟩ : Event sig) ∈ run.calls
  id : current.id = record.id
  stage : current.stage = .submitted
  clean : run.Clean

theorem Restarted.mono {current : ChangeRecord} (h : Restarted run record current)
    (hrun : run.Extends run') (hclean : run'.Clean) : Restarted run' record current where
  clean := hclean
  scope := hrun.scope.trans h.scope
  touched := by
    obtain ⟨expected, fields, event, version, hmem⟩ := h.touched
    exact ⟨expected, fields, event, version, hrun.calls hmem⟩
  id := h.id
  stage := h.stage

theorem Restarted.working {current : ChangeRecord} (h : Restarted run record current) :
    run.Working := by
  simp [Run.Working, h.scope]

theorem Restarted.about {current : ChangeRecord} (h : Restarted run record current) :
    run.About record.id := by
  simp [Run.About, h.scope]

/-- After the touch every write for the record's branch is audited. -/
theorem Restarted.writeOk {current : ChangeRecord} (h : Restarted run record current)
    (hknown : Known s record) {req : ApiRequest}
    (hreq : ∀ branch, req.branch? = some branch → branch = record.branch) : WriteOk run s req := by
  obtain ⟨expected, fields, event, version, hmem⟩ := h.touched
  obtain ⟨row, hrow, hid, hbranch, -⟩ := hknown.row
  unfold WriteOk
  rw [h.scope]
  refine ⟨h.clean, record.id, h.about, ⟨_, hmem, h.id⟩, fun branch hb => ⟨row, hrow, hid, ?_⟩⟩
  rw [hreq branch hb, hbranch]

/-- What the writer's success leaves in the run and in the world: one mark `m`
that hands out the pull request of the record's branch. -/
structure HandedOut (F : Facts deps W) (run : Run) (s : Shared W) (record : ChangeRecord)
    (n : Int) (m : Mark) : Prop where
  mark : (⟨.trace m, ()⟩ : Event sig) ∈ run.calls
  only : ∀ e ∈ run.calls, ∀ k, yielded e = some k → k = n
  owns : (m = .opened record.branch n ∧ F.owns s.github record.branch none n) ∨
    F.owns s.github record.branch (some (adoptBound record)) n

theorem Created.handedOut {rebuilt : CreateChangePrInput} {created : CreatedPr}
    (h : Created F run rebuilt (.ok created) run' s') (hsilent : run.Silent)
    (hbranch : rebuilt.branch = record.branch)
    (hbound : rebuilt.notBefore = some (adoptBound record)) :
    run.Extends run' ∧ (run.Clean → run'.Clean) ∧
      ∃ m, HandedOut F run' s' record created.prNumber m := by
  have hcalls : ∀ m, yielded ⟨.trace m, ()⟩ = some created.prNumber →
      ∀ e ∈ ((run.mark (.createChangePr rebuilt)).mark m).calls, ∀ k,
        yielded e = some k → k = created.prNumber := by
    intro m hm e he k hk
    simp only [Run.mark_calls, List.mem_append, List.mem_singleton] at he
    rcases he with (he | rfl) | rfl
    · rw [hsilent e he] at hk
      cases hk
    · cases hk
    · rw [hm] at hk
      exact (Option.some.inj hk).symm
  rcases h with ⟨rfl, howns⟩ | ⟨rfl, howns⟩
  · refine ⟨(run.extends_mark _).trans (Run.extends_mark _ _), fun h => (h.mark _).mark _,
      .opened rebuilt.branch created.prNumber, by simp, hcalls _ rfl, .inl ?_⟩
    rw [hbranch] at howns ⊢
    exact ⟨rfl, howns⟩
  · refine ⟨(run.extends_mark _).trans (Run.extends_mark _ _), fun h => (h.mark _).mark _,
      .adopted rebuilt.branch created.prNumber, by simp, hcalls _ rfl, .inr ?_⟩
    rwa [hbranch, hbound] at howns

theorem HandedOut.bound {n : Int} {m : Mark} (h : HandedOut F run s record n m) :
    ∃ bound, F.owns s.github record.branch bound n := by
  rcases h.owns with ⟨-, howns⟩ | howns
  · exact ⟨_, howns⟩
  · exact ⟨_, howns⟩

/-- The number that was handed out may be written to the record's row. -/
theorem HandedOut.numberOk {n : Int} {m : Mark} (h : HandedOut F run s record n m)
    (hknown : Known s record) (hs : Rely F s s') {id : Uuid} {expected : ChangeStage}
    {fields : TransitionFields} {event : TransitionEvent} {version : Option Nat}
    (hid : id = record.id) (hfields : fields.prNumber = some n) :
    NumberOk F run s' (.transition id expected .pr_open fields event version) := by
  intro k hk
  obtain rfl : n = k := by simpa [hfields] using hk
  obtain ⟨row, hrow, hrid, hrbranch, hrbound, -⟩ := (hknown.mono hs).row
  refine ⟨rfl, row, hrow, hrid.trans hid.symm, ?_⟩
  rw [hrbranch, hrbound]
  rcases h.owns with ⟨rfl, howns⟩ | howns
  · exact .inl ⟨h.mark, hs.owns howns⟩
  · exact .inr (hs.owns howns)

theorem wp_recreatePr {current : ChangeRecord} {rebuilt : CreateChangePrInput}
    (hs : Consistent s.db) (hrun : Restarted run record current) (hsilent : run.Silent)
    (hrecord : Known s record) (hcurrent : Known s current)
    (hbranch : rebuilt.branch = record.branch)
    (hbound : rebuilt.notBefore = some (adoptBound record)) :
    (discipline F).wp t (recreatePr deps current rebuilt) (fun _ run' _ => run'.Accounted)
      run s := by
  have hwrite : ∀ s₁, Rely F s s₁ → ∀ req, req.branch? = some rebuilt.branch → WriteOk run s₁ req := by
    intro s₁ hr req hreq
    refine hrun.writeOk (hrecord.mono hr) fun branch hb => ?_
    rw [hreq] at hb
    cases hb
    exact hbranch
  have hcreate : CreateOk run rebuilt := by
    unfold CreateOk
    rw [hrun.scope]
    obtain ⟨expected, fields, event, version, hmem⟩ := hrun.touched
    exact ⟨hbranch.symm, expected, fields, event, version, current, hmem, hrun.id⟩
  refine wp_try hs (wp_with_rely (wp_createChangePr hcreate hwrite)) ?_
  rintro (e | created) run₁ s₁ hs₁ ⟨hcreated, hr₁⟩
  · -- the writer failed
    obtain ⟨rfl, kind, message, rfl⟩ := hcreated
    have hsilent₁ := hsilent.grows (run.grows_createChangePr rebuilt)
    have hmove : ∀ reason, (discipline F).wp t (do
        let _ ← move current .failed {} reason []
        return ()) (fun _ run' _ => run'.Accounted) (run.mark (.createChangePr rebuilt)) s₁ :=
      fun reason => wp_move_silent hs₁ (hrun.working.mono (run.extends_mark _))
        (by rw [hrun.stage]; decide) rfl fun _ _ _ hgrows => (hsilent₁.grows hgrows).accounted
    cases kind with
    | conflict => exact hmove "git conflict"
    | rejected => exact hmove "git write rejected"
    | unknown => exact wp_raise fun _ _ _ => hsilent₁.accounted
  · -- the writer returned a pull request
    obtain ⟨hext, hclean, m, hout⟩ := hcreated.handedOut hsilent hbranch hbound
    have hrecord₁ := hrecord.mono hr₁
    obtain ⟨hsame, -⟩ := hrecord₁.same (hcurrent.mono hr₁) hrun.id
    refine wp_mono (wp_openPr hs₁ (hrun.working.mono hext) (hrun.id ▸ hrun.about.mono hext)
      (hcurrent.mono hr₁) (by rw [hrun.stage]; decide)
      (fun _ hr₂ => hout.numberOk hrecord₁ hr₂ hrun.id rfl) (hsame ▸ hout.bound) ?_) ?_
    · intro s₂ hr₂
      exact (hrun.mono hext (hclean hrun.clean)).writeOk (hrecord₁.mono hr₂) (by simp [ApiRequest.branch?])
    · rintro _ run₂ s₂ _ ⟨hgrows, hsettled⟩
      exact hgrows.accounted hout.only (hsettled.imp_right fun h => h rfl)

/-- The touch or hop: its own audited compare-and-set. -/
theorem wp_startRecovery (hrun : run.Working)
    (hstage : record.stage = .submitted ∨ record.stage = .unknown_recovering) :
    (discipline F).wp t (startRecovery record) (fun r run' s' => Rely F s s' ∧
      ∃ detail r', r = Except.mapError .store r' ∧
        run' = run.call (moveOp record .submitted {} reRunReason detail) r' ∧
        ∀ current, r' = .ok (some current) →
          current.id = record.id ∧ current.stage = .submitted ∧ Known s' current) run s := by
  have hallowed : Allowed record.stage .submitted := by
    rcases hstage with h | h <;> rw [h] <;> decide
  unfold startRecovery
  split_ifs
  · refine wp_mono (wp_move hrun hallowed fun _ _ => numberOk_none rfl) ?_
    rintro r run' s' _ ⟨hr, r', h⟩
    exact ⟨hr, _, r', h⟩
  · refine wp_mono (wp_move hrun hallowed fun _ _ => numberOk_none rfl) ?_
    rintro r run' s' _ ⟨hr, r', h⟩
    exact ⟨hr, _, r', h⟩

theorem wp_recoverBranchOnly (hfresh : run.Ticking ∧ run.calls = []) (hknown : Known s record)
    (hstage : record.stage = .submitted ∨ record.stage = .unknown_recovering) :
    (discipline F).wp t (recoverBranchOnly deps record) (fun _ run' _ => run'.Accounted) run s := by
  refine wp_trace (fun _ _ _ => hfresh) fun s₁ hs₁ hr₁ => ?_
  have hempty : ({ scope := .branchOnly record } : Run).Silent := by simp [Run.Silent]
  refine wp_seq hs₁ (wp_returns rebuild_returns (wp_reads calls_rebuild
    (Q := fun _ run' s' => run' = { scope := .branchOnly record } ∧ Rely F s₁ s')
    fun _ _ _ hr => ⟨rfl, hr⟩)) ?_ ?_
  · rintro rebuilt _ s₂ hs₂ ⟨⟨rfl, hr₂⟩, hrebuilt⟩
    obtain ⟨hbranch, hbound⟩ := hrebuilt rebuilt rfl
    refine wp_seq hs₂ (wp_startRecovery (by simp [Run.Working]) hstage) ?_ ?_
    · rintro started _ s₃ hs₃ ⟨hr₃, detail, (e | r), hr, rfl, hstarted⟩
      · cases hr
      obtain rfl : started = r := by cases hr; rfl
      have hsilent := hempty.grows (Run.grows_call _
        (moveOp record .submitted {} reRunReason detail) (.ok started))
      cases started with
      | none => exact wp_ret fun _ _ _ => hsilent.accounted
      | some current =>
          obtain ⟨hid, hsubmitted, hcurrent⟩ := hstarted current rfl
          have hrestarted : Restarted (({ scope := .branchOnly record } : Run).call
              (moveOp record .submitted {} reRunReason detail) (.ok (some current)))
              record current :=
            ⟨rfl, ⟨record.stage, {}, _, none, List.mem_singleton_self _⟩, hid, hsubmitted,
              Run.Clean.call (by simp [Run.Clean]) _ _⟩
          exact wp_recreatePr hs₃ hrestarted hsilent
            (((hknown.mono hr₁).mono hr₂).mono hr₃) hcurrent hbranch hbound
    · rintro e _ s₃ _ ⟨-, detail, r, -, rfl, -⟩
      exact (hempty.grows (Run.grows_call _
        (moveOp record .submitted {} reRunReason detail) r)).accounted
  · rintro e _ s₂ _ ⟨⟨rfl, -⟩, -⟩
    exact hempty.accounted

/-- The run of `reconcile(record)` before it did anything. -/
abbrev Run.fresh (record : ChangeRecord) : Run := { scope := .reconcile record }

theorem silent_fresh : (Run.fresh record).Silent := by simp [Run.Silent]

theorem working_fresh : (Run.fresh record).Working := by simp [Run.Working]

theorem wp_recover (hs : Consistent s.db) (hknown : Known s record)
    (hstage : record.stage = .submitted ∨ record.stage = .unknown_recovering) :
    (discipline F).wp t (recover deps record) (fun _ run' _ => run'.Accounted)
      (.fresh record) s := by
  refine wp_seq hs (wp_findPrByBranch hs (Q := fun r run' s' => run' = .fresh record ∧ Rely F s s' ∧
    ∀ pr, r = .ok (some pr) → F.owns s'.github record.branch (some (adoptBound record)) pr.number)
    fun _ _ _ hr howns => ⟨rfl, hr, howns⟩) ?_ ?_
  · rintro found _ s₁ hs₁ ⟨rfl, hr₁, howns⟩
    cases found with
    | some pr =>
        -- a pull request on the branch
        refine wp_trace (fun _ _ _ => trivial) fun s₂ hs₂ hr₂ => ?_
        have hr := hr₁.trans hr₂
        have hext := (Run.fresh record).extends_mark (.found record.branch pr)
        refine wp_mono (wp_openPr hs₂ (working_fresh.mono hext) ?_ (hknown.mono hr) ?_ ?_ ?_ ?_) ?_
        · exact rfl
        · rcases hstage with h | h <;> rw [h] <;> decide
        · rintro s₃ hr₃ n ⟨⟩
          obtain ⟨row, hrow, hid, hrbranch, hrbound, -⟩ := ((hknown.mono hr).mono hr₃).row
          refine ⟨rfl, row, hrow, hid, .inr ?_⟩
          rw [hrbranch, hrbound]
          exact hr₃.owns (hr₂.owns (howns pr rfl))
        · exact ⟨_, hr₂.owns (howns pr rfl)⟩
        · exact fun s₃ _ => rfl
        · rintro _ run₃ s₃ _ ⟨hgrows, hsettled⟩
          by_cases hopen : pr.state = PrState.open
          · refine hgrows.accounted (n := pr.number) ?_ (hsettled.imp_right fun h => h (by simp [hopen]))
            simp [yielded, hopen, Run.upd, Run.mark]
          · refine Run.Silent.accounted (Run.Silent.grows ?_ hgrows)
            simp [Run.Silent, yielded, hopen, Run.upd, Run.mark]
    | none =>
        refine wp_seq hs₁ (wp_reads (calls_findBranch _)
          (Q := fun _ run' s' => run' = .fresh record ∧ Rely F s₁ s')
          fun _ _ _ hr => ⟨rfl, hr⟩) ?_ ?_
        · rintro branch _ s₂ hs₂ ⟨rfl, hr₂⟩
          cases branch with
          | none =>
              refine wp_move_silent hs₂ working_fresh ?_ rfl fun _ _ _ hgrows =>
                (silent_fresh.grows hgrows).accounted
              rcases hstage with h | h <;> rw [h] <;> decide
          | some _ =>
              exact wp_recoverBranchOnly ⟨trivial, rfl⟩ ((hknown.mono hr₁).mono hr₂) hstage
        · rintro e _ s₂ _ ⟨rfl, -⟩
          exact silent_fresh.accounted
  · rintro e _ s₁ _ ⟨rfl, -⟩
    exact silent_fresh.accounted

/-! ## The other stages -/

theorem calls_findPrOf {P : ApiRequest → Prop} : (findPrOf deps record).Calls (Plain P) := by
  unfold findPrOf
  split
  · exact calls_getPr _
  · exact calls_findPrByBranch _ _

theorem wp_checkPr (hs : Consistent s.db) (hstage : record.stage = .pr_open) :
    (discipline F).wp t (checkPr deps record) (fun _ run' _ => run'.Accounted)
      (.fresh record) s := by
  have hmove : ∀ {stage : ChangeStage} {fields : TransitionFields} {reason : String} s₁,
      Consistent s₁.db → Allowed .pr_open stage → fields.prNumber = none →
      (discipline F).wp t (do
        let _ ← move record stage fields reason []
        return ()) (fun _ run' _ => run'.Accounted) (.fresh record) s₁ :=
    fun s₁ hs₁ hallowed hfields => wp_move_silent hs₁ working_fresh (hstage ▸ hallowed) hfields
      fun _ _ _ hgrows => (silent_fresh.grows hgrows).accounted
  have hskip : ∀ s₁, (discipline F).wp t (.ret ()) (fun (_ : Except JsError Unit) run' _ =>
      run'.Accounted) (.fresh record) s₁ := fun _ => wp_ret fun _ _ _ => silent_fresh.accounted
  refine wp_seq hs (wp_reads calls_findPrOf (Q := fun _ run' _ => run' = .fresh record)
    fun _ _ _ _ => rfl) ?_ ?_
  · rintro found _ s₁ hs₁ rfl
    cases found with
    | none => exact hskip s₁
    | some pr =>
        dsimp only
        split_ifs with hopen hmerged
        · exact hskip s₁
        · cases pr.mergeCommitSha with
          | none => exact hskip s₁
          | some sha => exact hmove s₁ hs₁ (by decide) rfl
        · exact hmove s₁ hs₁ (by decide) rfl
  · rintro e _ s₁ _ rfl
    exact silent_fresh.accounted

theorem calls_allSynced {P : ApiRequest → Prop} (merge : String) (apps : List String) :
    (allSynced merge apps).Calls (Plain P) := by
  induction apps with
  | nil => trivial
  | cons name rest ih =>
      refine Prog.Calls.bind (Prog.Calls.bind (Prog.Calls.perform trivial) fun _ => .ofExcept _)
        fun app => ?_
      cases app.revision with
      | none => trivial
      | some revision =>
          dsimp only
          split_ifs
          · trivial
          · refine Prog.Calls.bind (calls_compare _ _) fun relation => ?_
            split_ifs
            · exact ih
            · trivial

theorem wp_checkApplied (hs : Consistent s.db) (hstage : record.stage = .merged) :
    (discipline F).wp t (checkApplied deps record) (fun _ run' _ => run'.Accounted)
      (.fresh record) s := by
  unfold checkApplied
  split
  · exact wp_ret fun _ _ _ => silent_fresh.accounted
  · split_ifs
    swap
    · exact wp_ret fun _ _ _ => silent_fresh.accounted
    · refine wp_seq hs (wp_reads (calls_allSynced _ _) (Q := fun _ run' _ => run' = .fresh record)
        fun _ _ _ _ => rfl) ?_ ?_
      · rintro synced _ s₁ hs₁ rfl
        split_ifs
        · exact wp_move_silent hs₁ working_fresh (by rw [hstage]; decide) rfl
            fun _ _ _ hgrows => (silent_fresh.grows hgrows).accounted
        · exact wp_ret fun _ _ _ => silent_fresh.accounted
      · rintro e _ s₁ _ rfl
        exact silent_fresh.accounted

theorem wp_reconcile (hs : Consistent s.db) (hknown : Known s record) :
    (discipline F).wp t (reconcile deps record) (fun _ run' _ => run'.Accounted)
      (.fresh record) s := by
  unfold reconcile
  split
  · next hstage =>
      refine wp_seq hs (wp_reads calls_now (Q := fun _ run' s' => run' = .fresh record ∧ Rely F s s')
        fun _ _ _ hr => ⟨rfl, hr⟩) ?_ ?_
      · rintro nowMs _ s₁ hs₁ ⟨rfl, hr₁⟩
        split_ifs
        · exact wp_ret fun _ _ _ => silent_fresh.accounted
        · exact wp_recover hs₁ (hknown.mono hr₁) (.inl hstage)
      · rintro e _ s₁ _ ⟨rfl, -⟩
        exact silent_fresh.accounted
  · next hstage => exact wp_recover hs hknown (.inr hstage)
  · next hstage => exact wp_checkPr hs hstage
  · next hstage => exact wp_checkApplied hs hstage
  · exact wp_ret fun _ _ _ => silent_fresh.accounted

/-- A tick's run stays a tick's run. -/
theorem wp_try_ticking {α β : Type} {p : Async α} {f : Except JsError α → Async β}
    {Q : RunPost deps W β} {R : RunPost deps W α} (hs : Consistent s.db) (htick : run.Ticking)
    (hp : (discipline F).wp t p R run s)
    (h : ∀ r run' s', Consistent s'.db → run'.Ticking → R r run' s' →
      (discipline F).wp t (f r) Q run' s') :
    (discipline F).wp t (p.attempt >>= f) Q run s :=
  wp_try hs (wp_monitor (I := Run.Ticking) (fun _ op r h => h.upd op r) htick hp)
    fun r run' s' hs' hR => h r run' s' hs' hR.2 hR.1

/-- One record of a tick: the run is accounted for when it is left. -/
theorem wp_reconcileOne (htick : run.Ticking) (hknown : Known s record) :
    (discipline F).wp t (reconcileOne deps record) (fun r run' s' =>
      r = .ok () ∧ run'.Ticking ∧ Rely F s s') run s := by
  refine wp_trace (fun _ _ _ => htick) fun s₁ hs₁ hr₁ => ?_
  have htick₁ : (Run.fresh record).Ticking := trivial
  refine wp_try_ticking hs₁ htick₁ (wp_with_rely (wp_reconcile hs₁ (hknown.mono hr₁))) ?_
  rintro _ run₂ s₂ _ htick₂ ⟨haccounted, hr₂⟩
  refine wp_perform fun s₃ hs₃ hr₃ => ⟨⟨htick₂, haccounted⟩, fun ans r s₄ hx _ => ?_⟩
  cases ans with
  | mark =>
      cases hx
      exact wp_ret fun s₄ _ hr₄ => ⟨rfl, trivial, hr₁.trans (hr₂.trans (hr₃.trans hr₄))⟩
  | _ => simp [serve] at hx

/-! ## The sweep and the orphan log -/

theorem wp_sweepRecord (htick : run.Ticking) (hknown : Known s record)
    (hlost : isTerminalLoss record.stage) :
    (discipline F).wp t (sweepRecord deps record) (fun _ run' _ => run'.Accounted) run s := by
  refine wp_trace (fun _ _ _ => htick) fun s₁ hs₁ hr₁ => ?_
  have hsilent : ({ scope := .sweep record } : Run).Silent := by simp [Run.Silent]
  refine wp_seq hs₁ (wp_findPrByBranch hs₁ (Q := fun r run' s' =>
    run' = { scope := .sweep record } ∧ Rely F s₁ s' ∧
      ∀ pr, r = .ok (some pr) → F.owns s'.github record.branch (some (adoptBound record)) pr.number)
    fun _ _ _ hr howns => ⟨rfl, hr, howns⟩) ?_ ?_
  · rintro found _ s₂ hs₂ ⟨rfl, hr₂, howns⟩
    cases found with
    | none => exact wp_ret fun _ _ _ => hsilent.accounted
    | some pr =>
        dsimp only
        split_ifs
        · refine wp_mono (wp_closeOrphanPr hs₂ (by simp [Run.Working])
            ((hknown.mono hr₁).mono hr₂) rfl hlost ⟨_, howns pr rfl⟩ fun _ _ => rfl) ?_
          rintro _ run₃ s₃ _ ⟨-, hgrows, -⟩
          exact (hsilent.grows hgrows).accounted
        · exact wp_ret fun _ _ _ => hsilent.accounted
  · rintro e _ s₂ _ ⟨rfl, -⟩
    exact hsilent.accounted

theorem wp_sweepRecords {nowMs : Nat} {records : List ChangeRecord} {sweptAt : SweptAt}
    (hs : Consistent s.db) (htick : run.Ticking)
    (hrecords : ∀ record ∈ records, Known s record ∧ isTerminalLoss record.stage) :
    (discipline F).wp t (sweepRecords deps nowMs records sweptAt) (fun _ _ _ => True) run s := by
  induction records generalizing run s sweptAt with
  | nil => exact wp_ret fun _ _ _ => trivial
  | cons record rest ih =>
      obtain ⟨hrecord, hrest⟩ := List.forall_mem_cons.mp hrecords
      unfold sweepRecords
      split_ifs
      · exact ih hs htick hrest
      · refine wp_try_ticking hs htick
          (wp_with_rely (wp_sweepRecord htick hrecord.1 hrecord.2)) ?_
        rintro _ run₁ s₁ _ htick₁ ⟨haccounted, hr₁⟩
        refine wp_trace (fun _ _ _ => ⟨htick₁, haccounted⟩) fun s₂ hs₂ hr₂ =>
          ih hs₂ trivial fun r hr => ?_
        exact ⟨((hrest r hr).1.mono hr₁).mono hr₂, (hrest r hr).2⟩

theorem wp_listRecentTerminal {sinceMs : Int} {limit : Nat} {Q : RunPost deps W (List ChangeRecord)}
    (h : ∀ r run' s₁, (∀ records, r = .ok records →
      ∀ record ∈ records, Known s₁ record ∧ isTerminalLoss record.stage) → Q r run' s₁) :
    (discipline F).wp t (callStore (.listRecentTerminal sinceMs limit)) Q run s := by
  refine wp_callStore (fun _ _ _ => ⟨trivial, trivial, trivial, trivial⟩) ?_
  intro s₁ a r db s₂ _ _ hx _ hr₂
  refine h _ _ s₂ fun records hrecords record hrecord => ?_
  cases r with
  | error e => cases hrecords
  | ok records' =>
      cases hrecords
      obtain ⟨rfl, hmem⟩ := listRecentTerminal_ok hx
      obtain ⟨row, hrow, hstage, rfl⟩ := hmem record hrecord
      exact ⟨Known.mono (known_of_mem hrow) hr₂, isTerminalLoss_iff.mpr hstage⟩

theorem wp_sweepTerminal {sweptAt : SweptAt} (hs : Consistent s.db) (htick : run.Ticking) :
    (discipline F).wp t (sweepTerminal deps sweptAt) (fun _ _ _ => True) run s := by
  refine wp_seq hs (wp_reads calls_now (Q := fun _ run' _ => run' = run) fun _ _ _ _ => rfl) ?_
    fun _ _ _ _ _ => trivial
  rintro nowMs _ s₁ hs₁ rfl
  refine wp_try_ticking hs₁ htick (wp_listRecentTerminal (Q := fun r _ s' => ∀ records,
    r = .ok records → ∀ record ∈ records, Known s' record ∧ isTerminalLoss record.stage)
    fun _ _ _ hrecords => hrecords) ?_
  rintro (e | records) run₂ s₂ hs₂ htick₂ hrecords
  · exact wp_ret fun _ _ _ => trivial
  · exact wp_sweepRecords hs₂ htick₂ (hrecords records rfl)

theorem wp_orphansOf {owned : List String} {prs : List OpenSsoPr} {logged : List Int}
    (hs : Consistent s.db) :
    (discipline F).wp t (orphansOf owned prs logged) (fun _ _ _ => True) run s := by
  induction prs generalizing run s logged with
  | nil => exact wp_ret fun _ _ _ => trivial
  | cons pr rest ih =>
      unfold orphansOf
      split_ifs
      · exact ih hs
      · refine wp_try hs (wp_callStore (fun _ _ _ => ⟨trivial, trivial, trivial, trivial⟩)
          (Q := fun _ _ _ => True) fun _ _ _ _ _ _ _ _ _ _ => trivial) ?_
        rintro (e | (_ | row)) run₁ s₁ hs₁ -
        · exact wp_ret fun _ _ _ => trivial
        · exact ih hs₁
        · exact ih hs₁

theorem wp_logOrphans {records : List ChangeRecord} {logged : List Int} (hs : Consistent s.db) :
    (discipline F).wp t (logOrphans deps records logged) (fun _ _ _ => True) run s := by
  refine wp_try hs (wp_reads calls_listOpenSsoPrs (Q := fun _ _ _ => True)
    fun _ _ _ _ => trivial) ?_
  rintro (e | prs) run₁ s₁ hs₁ -
  · exact wp_ret fun _ _ _ => trivial
  · exact wp_orphansOf hs₁

/-! ## A tick -/

theorem wp_listOpen {limit : Nat} {Q : RunPost deps W (List ChangeRecord)}
    (h : ∀ r run' s₁, Consistent s₁.db → (∀ records, r = .ok records →
      ∀ record ∈ records, Known s₁ record) → Q r run' s₁) :
    (discipline F).wp t (callStore (.listOpen limit)) Q run s := by
  refine wp_callStore (fun _ _ _ => ⟨trivial, trivial, trivial, trivial⟩) ?_
  intro s₁ a r db s₂ _ _ hx hs₂ hr₂
  refine h _ _ s₂ hs₂ fun records hrecords record hrecord => ?_
  cases r with
  | error e => cases hrecords
  | ok records' =>
      cases hrecords
      obtain ⟨rfl, hmem⟩ := listOpen_ok hx
      obtain ⟨row, hrow, -, rfl⟩ := hmem record hrecord
      exact Known.mono (known_of_mem hrow) hr₂

theorem wp_tickBody {memory : ReconcilerMemory} (hs : Consistent s.db) (htick : run.Ticking) :
    (discipline F).wp t (tickBody deps memory) (fun _ _ _ => True) run s := by
  refine wp_try_ticking hs htick (wp_listOpen (Q := fun r _ s' => ∀ records, r = .ok records →
    ∀ record ∈ records, Known s' record) fun _ _ _ _ hrecords => hrecords) ?_
  rintro (e | records) run₁ s₁ hs₁ htick₁ hrecords
  · exact wp_ret fun _ _ _ => trivial
  have hknown := hrecords records rfl
  refine wp_seq hs₁ (wp_each (fun (run' : Run) (s' : Shared W) => run'.Ticking ∧
    ∀ record ∈ records, Known s' record) records (fun _ _ _ hr h => ⟨h.1, fun record hrecord =>
      (h.2 record hrecord).mono hr⟩) hs₁ ⟨htick₁, hknown⟩ ?_) ?_ fun _ _ _ _ _ => trivial
  · -- one record keeps every record known
    intro record hrecord m g _ hall
    refine wp_mono (wp_reconcileOne hall.1 (hall.2 record hrecord)) ?_
    rintro r m' g' _ ⟨rfl, htick', hr⟩
    exact ⟨rfl, htick', fun record' h => (hall.2 record' h).mono hr⟩
  · rintro ⟨⟩ run₂ s₂ hs₂ ⟨-, htick₂, -⟩
    refine wp_seq hs₂ (wp_sweepTerminal hs₂ htick₂) ?_ fun _ _ _ _ _ => trivial
    intro sweptAt run₃ s₃ hs₃ _
    refine wp_seq hs₃ (wp_logOrphans hs₃) ?_ fun _ _ _ _ _ => trivial
    intro logged run₄ s₄ _ _
    exact wp_ret fun _ _ _ => trivial

end Sso
