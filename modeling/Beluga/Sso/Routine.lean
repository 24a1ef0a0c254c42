import Beluga.Sso.Rerun
import Beluga.Sso.RouteRules

/-! # What the parts of a task call

A tick is two listings with work on single records between them. The handlers,
the work on one record and the look for orphans make `Routine` calls only: their
programs are gone through here once, for the results about the listings.
-/

namespace Sso

open Interact

variable {deps : Deps} {record : ChangeRecord}

/-- The calls of the handlers and of the work on one record: none of the listings
of a tick, none of the marks of its sweep. -/
def Routine : Op → Prop
  | .store (.submit input) => input.filePath = SSO_FILE_PATH
  | .store (.listOpen _) | .store (.listRecentTerminal _ _) | .trace (.sweep _) => False
  | _ => True

/-! ## The client -/

theorem routine_plain {α : Type} {P : ApiRequest → Prop} {p : Async α} (h : p.Calls (Plain P)) :
    p.Calls Routine := by
  refine h.mono fun op hop => ?_
  cases op with
  | store op => exact hop.elim
  | trace mark => exact hop.elim
  | _ => trivial

theorem routine_reads {α : Type} {p : Async α} (h : p.Calls Reads) : p.Calls Routine :=
  routine_plain h

theorem routine_store {op : StoreOp} (h : Routine (.store op)) : (callStore op).Calls Routine :=
  Prog.Calls.bind (Prog.Calls.perform h) fun _ => .ofExcept _

/-- A store call in a `try`, and what follows it. -/
theorem routine_try {β : Type} {op : StoreOp} {f : Except JsError op.Result → Async β}
    (hop : Routine (.store op)) (hf : ∀ r, (f r).Calls Routine) :
    ((callStore op).attempt >>= f).Calls Routine :=
  Prog.Calls.bind (routine_store hop).attempt hf

theorem routine_trace {mark : Mark} (h : Routine (.trace mark)) : (trace mark).Calls Routine :=
  Prog.Calls.perform h

theorem routine_now : now.Calls Routine := Prog.Calls.perform trivial

theorem routine_ensurePull (input : CreateChangePrInput) :
    (ensurePull deps input).Calls Routine := by
  refine Prog.Calls.bind (Prog.Calls.bind (Prog.Calls.perform trivial) fun _ => .ofExcept _)
    fun created => ?_
  split_ifs
  · split
    · trivial
    · exact Prog.Calls.bind (routine_trace trivial) fun _ => trivial
  · refine Prog.Calls.bind (routine_reads (calls_findPrByBranch _ _)) fun found => ?_
    cases found with
    | none => trivial
    | some pr => exact Prog.Calls.bind (routine_trace trivial) fun _ => trivial
  · trivial

theorem routine_createChangePr (input : CreateChangePrInput) :
    (createChangePr deps input).Calls Routine := by
  refine Prog.Calls.bind (routine_trace trivial) fun _ =>
    Prog.Calls.bind (Prog.Calls.attempt ?_) fun r => ?_
  · refine Prog.Calls.bind (routine_reads (calls_guardBranch _)) fun _ => ?_
    split_ifs
    · trivial
    · exact Prog.Calls.bind (routine_plain own_ensureBranch) fun _ =>
        Prog.Calls.bind (routine_plain own_ensureFile) fun _ => routine_ensurePull input
    · trivial
  · cases r with
    | ok pr => trivial
    | error e => cases e <;> trivial

/-! ## Without the clock -/

/-- A call that does not read the clock either. -/
def Still (op : Op) : Prop := Routine op ∧ op ≠ .now

theorem Still.routine {op : Op} (h : Still op) : Routine op := h.1

theorem still_api (req : ApiRequest) : (api req).Calls Still :=
  Prog.Calls.bind (Prog.Calls.perform ⟨trivial, by simp⟩) fun _ => .ofExcept _

theorem still_closePr (number : Int) : (closePr number).Calls Still := by
  refine Prog.Calls.bind (Prog.Calls.perform ⟨trivial, by simp⟩) fun _ => ?_
  split_ifs
  · trivial
  · refine Prog.Calls.bind (still_api _) fun res => ?_
    cases toPr res.json with
    | none => trivial
    | some pr =>
        dsimp only
        split_ifs
        · trivial
        · trivial

theorem still_closeOrphanPr (current : ChangeRecord) (number : Int) (actor : Actor)
    (source : Option String) : (closeOrphanPr current number actor source).Calls Still := by
  refine Prog.Calls.bind (still_closePr number).attempt fun closed =>
    Prog.Calls.bind (Prog.Calls.attempt (Prog.Calls.bind ?_ fun _ => .ofExcept _)) fun _ => trivial
  exact Prog.Calls.perform ⟨trivial, by simp⟩

theorem still_findPrByBranch (branch : String) (notBefore : Option Int) :
    (findPrByBranch deps branch notBefore).Calls Still := by
  refine Prog.Calls.bind ?_ fun _ => Prog.Calls.bind (still_api _) fun _ => .ofExcept _
  unfold guardBranch
  split_ifs
  · trivial
  · trivial

/-- The sweep of a record after its mark. -/
theorem still_sweepBody : Prog.Calls Still (do
    match ← findPrByBranch deps record.branch (some (adoptBound record)) with
    | some pr =>
        if pr.state = PrState.open then
          closeOrphanPr record pr.number reconcilerActor (some "sweep")
        else return ()
    | none => return ()) := by
  refine Prog.Calls.bind (still_findPrByBranch _ _) fun found => ?_
  cases found with
  | none => trivial
  | some pr =>
      dsimp only
      split_ifs
      · exact still_closeOrphanPr _ _ _ _
      · trivial

theorem routine_closePr (number : Int) : (closePr number).Calls Routine :=
  (still_closePr number).mono fun _ => Still.routine

theorem routine_closeOrphanPr (current : ChangeRecord) (number : Int) (actor : Actor)
    (source : Option String) : (closeOrphanPr current number actor source).Calls Routine :=
  (still_closeOrphanPr current number actor source).mono fun _ => Still.routine

/-! ## Submit -/

theorem routine_storeFailure (e : JsError) : (storeFailure e).Calls Routine := by
  unfold storeFailure
  split
  · split <;> trivial
  · trivial

theorem routine_transitionOrLocal (stage : ChangeStage) (fields : TransitionFields)
    (event : TransitionEvent) : (transitionOrLocal record stage fields event).Calls Routine := by
  refine Prog.Calls.bind (Prog.Calls.attempt (Prog.Calls.bind (routine_store trivial) ?_)) ?_
  · intro moved
    cases moved with
    | none => exact routine_store trivial
    | some moved => trivial
  · intro r
    cases r with
    | error e => trivial
    | ok found => cases found <;> trivial

theorem routine_writeChange (req : PostRequest) (change : BuiltChange)
    (input : CreateChangePrInput) : (writeChange deps req change record input).Calls Routine := by
  refine Prog.Calls.bind (routine_createChangePr input) fun pr =>
    Prog.Calls.bind (routine_transitionOrLocal _ _ _) fun current => ?_
  split_ifs
  · exact Prog.Calls.bind (routine_closeOrphanPr _ _ _ _) fun _ => trivial
  · trivial

theorem routine_writeFailed (e : JsError) : (writeFailed record e).Calls Routine := by
  unfold writeFailed
  split
  · exact Prog.Calls.bind (routine_transitionOrLocal _ _ _) fun _ => trivial
  · exact Prog.Calls.bind (routine_transitionOrLocal _ _ _) fun _ => trivial
  · exact Prog.Calls.bind (routine_transitionOrLocal _ _ _) fun _ => trivial

theorem routine_submitChange (req : PostRequest) (base : SsoBase) (change : BuiltChange)
    (key : String) : (submitChange deps req base change key).Calls Routine := by
  -- `submitInput` names the path
  refine routine_try rfl fun r => ?_
  cases r with
  | error e => exact routine_storeFailure e
  | ok created =>
      dsimp only
      split_ifs
      · trivial
      · refine Prog.Calls.bind (routine_writeChange _ _ _).attempt fun r => ?_
        cases r with
        | error e => exact routine_writeFailed e
        | ok response => trivial

theorem routine_previewChange (req : PostRequest) (base : SsoBase) (change : BuiltChange) :
    (previewChange req base change).Calls Routine := by
  refine routine_try trivial fun r => ?_
  cases r with
  | error e => exact routine_storeFailure e
  | ok u => trivial

theorem routine_postOnBase (req : PostRequest) (base : SsoBase) :
    (postOnBase deps req base).Calls Routine := by
  unfold postOnBase
  split
  · trivial
  · split
    · trivial
    · trivial
    · split
      · exact routine_previewChange _ _ _
      · split
        · trivial
        · exact routine_submitChange _ _ _ _

theorem routine_replayAnswer (req : PostRequest) : (replayAnswer deps req).Calls Routine := by
  unfold replayAnswer
  split
  · trivial
  · split
    · trivial
    · trivial
    · refine routine_try trivial fun r => ?_
      cases r with
      | error e => exact Prog.Calls.bind (routine_storeFailure e) fun _ => trivial
      | ok found =>
          cases found with
          | none => trivial
          | some existing =>
              dsimp only
              split_ifs
              · trivial
              · trivial

theorem routine_postAfterReplay (req : PostRequest) :
    (postAfterReplay deps req).Calls Routine := by
  refine Prog.Calls.bind (routine_reads calls_readRequestBase).attempt fun r => ?_
  split
  · trivial
  · trivial
  · exact routine_postOnBase _ _

theorem routine_postChange (req : PostRequest) : (postChange deps req).Calls Routine := by
  unfold postChange
  split
  · exact routine_postAfterReplay req
  · refine Prog.Calls.bind (routine_replayAnswer req) fun found => ?_
    cases found with
    | none => exact routine_postAfterReplay req
    | some response => trivial

/-! ## Cancel -/

theorem routine_auditUnavailable (e : JsError) : (auditUnavailable e).Calls Routine := by
  cases e <;> trivial

theorem routine_closeForCancel : (closeForCancel deps record).Calls Routine := by
  refine Prog.Calls.bind (routine_reads calls_findPrOf) fun found => ?_
  cases found with
  | none => trivial
  | some pr =>
      dsimp only
      split_ifs
      · trivial
      · exact Prog.Calls.bind (routine_closePr _) fun _ => trivial
      · trivial

theorem routine_cancelTransition (req : CancelRequest) :
    (cancelTransition req record).Calls Routine := by
  refine routine_try trivial fun r => ?_
  cases r with
  | error e => exact routine_auditUnavailable e
  | ok moved => cases moved <;> trivial

theorem routine_cancelActive (req : CancelRequest) : (cancelActive deps req record).Calls Routine := by
  refine routine_try trivial fun r => ?_
  cases r with
  | error e => exact routine_auditUnavailable e
  | ok u =>
      refine Prog.Calls.bind routine_closeForCancel.attempt fun closed => ?_
      cases closed with
      | error e => exact routine_try trivial fun _ => trivial
      | ok merged =>
          cases merged with
          | true => trivial
          | false => exact routine_cancelTransition req

theorem routine_cancelChange (req : CancelRequest) : (cancelChange deps req).Calls Routine := by
  unfold cancelChange
  split
  · trivial
  · refine routine_try trivial fun r => ?_
    cases r with
    | error e => exact routine_auditUnavailable e
    | ok found =>
        cases found with
        | none => trivial
        | some record =>
            dsimp only
            split_ifs
            · refine Prog.Calls.bind (routine_reads calls_inFlight) fun young => ?_
              split_ifs
              · trivial
              · exact routine_cancelActive req
            · trivial

/-! ## One record -/

theorem routine_move (stage : ChangeStage) (fields : TransitionFields) (reason : String)
    (detail : List (String × Json)) : (move record stage fields reason detail).Calls Routine :=
  routine_store trivial

/-- A move whose result is not used. -/
theorem routine_move_unit (stage : ChangeStage) (fields : TransitionFields) (reason : String)
    (detail : List (String × Json)) : Prog.Calls Routine (do
      let _ ← move record stage fields reason detail
      return ()) :=
  Prog.Calls.bind (routine_move _ _ _ _) fun _ => trivial

theorem routine_openPr (pr : CreatedPr) (reason : String) (closeIfOrphan : Bool) :
    (openPr record pr reason closeIfOrphan).Calls Routine := by
  refine Prog.Calls.bind (routine_move _ _ _ _) fun moved => ?_
  cases moved with
  | some moved => trivial
  | none =>
      dsimp only
      split_ifs
      · refine Prog.Calls.bind (routine_store trivial) fun found => ?_
        cases found with
        | none => trivial
        | some current =>
            dsimp only
            split_ifs
            · exact routine_closeOrphanPr _ _ _ _
            · trivial
      · trivial

theorem routine_recreatePr (input : CreateChangePrInput) :
    (recreatePr deps record input).Calls Routine := by
  refine Prog.Calls.bind (routine_createChangePr input).attempt fun r => ?_
  split
  · exact routine_openPr _ _ _
  · exact routine_move_unit _ _ _ _
  · exact routine_move_unit _ _ _ _
  · trivial

theorem routine_recoverBranchOnly : (recoverBranchOnly deps record).Calls Routine := by
  refine Prog.Calls.bind (routine_trace trivial) fun _ =>
    Prog.Calls.bind (routine_reads calls_rebuild) fun input =>
      Prog.Calls.bind ?_ fun started => ?_
  · unfold startRecovery
    split
    · exact routine_move _ _ _ _
    · exact routine_move _ _ _ _
  · cases started with
    | none => trivial
    | some current => exact routine_recreatePr input

theorem routine_recover : (recover deps record).Calls Routine := by
  refine Prog.Calls.bind (routine_reads (calls_findPrByBranch _ _)) fun found => ?_
  cases found with
  | some pr => exact Prog.Calls.bind (routine_trace trivial) fun _ => routine_openPr _ _ _
  | none =>
      refine Prog.Calls.bind (routine_reads (calls_findBranch _)) fun branch => ?_
      cases branch with
      | none => exact routine_move_unit _ _ _ _
      | some branch => exact routine_recoverBranchOnly

theorem routine_checkPr : (checkPr deps record).Calls Routine := by
  refine Prog.Calls.bind (routine_reads calls_findPrOf) fun found => ?_
  cases found with
  | none => trivial
  | some pr =>
      dsimp only
      split_ifs
      · trivial
      · split
        · exact routine_move_unit _ _ _ _
        · trivial
      · exact routine_move_unit _ _ _ _

theorem routine_checkApplied : (checkApplied deps record).Calls Routine := by
  unfold checkApplied
  split
  · trivial
  · split
    · trivial
    · refine Prog.Calls.bind (routine_reads (calls_allSynced _ _)) fun synced => ?_
      split_ifs
      · exact routine_move_unit _ _ _ _
      · trivial

theorem routine_reconcile : (reconcile deps record).Calls Routine := by
  unfold reconcile
  split
  · refine Prog.Calls.bind routine_now fun nowMs => ?_
    split_ifs
    · trivial
    · exact routine_recover
  · exact routine_recover
  · exact routine_checkPr
  · exact routine_checkApplied
  · trivial

theorem routine_orphansOf (owned : List String) (prs : List OpenSsoPr) (logged : List Int) :
    (orphansOf owned prs logged).Calls Routine := by
  induction prs generalizing logged with
  | nil => trivial
  | cons pr rest ih =>
      unfold orphansOf
      split_ifs
      · exact ih logged
      · refine routine_try trivial fun found => ?_
        cases found with
        | error e => trivial
        | ok owner =>
            cases owner with
            | none => exact ih _
            | some owner => exact ih _

theorem routine_reconcileOne : (reconcileOne deps record).Calls Routine :=
  Prog.Calls.bind (routine_trace trivial) fun _ =>
    Prog.Calls.bind routine_reconcile.attempt fun _ => routine_trace trivial

theorem routine_logOrphans (records : List ChangeRecord) (logged : List Int) :
    (logOrphans deps records logged).Calls Routine := by
  refine Prog.Calls.bind (routine_reads calls_listOpenSsoPrs).attempt fun found => ?_
  cases found with
  | error e => trivial
  | ok prs => exact routine_orphansOf _ _ _

end Sso
