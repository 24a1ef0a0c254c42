import Beluga.Interact.Rules
import Beluga.Sso.Lifecycle
import Beluga.Sso.Protocol

/-! # The discipline of the change-request code

What every call of a handler or a tick respects, whatever the others and GitHub
do: the rules are stated here, `Beluga.Sso.Client`, `Beluga.Sso.TickRules` and
`Beluga.Sso.RouteRules` show that the programs follow them, and the properties
of the protocol are read off from there.

A `Run` is the monitor of a thread: what it works on and the store calls and
marks it made since it began. A handler is one run; a tick has one run for each
record it reconciles, recovers from its branch, or sweeps.
-/

namespace Sso

open Interact

/-! ## Runs -/

inductive RunScope where
  | post (key : Option String)
  | cancel (id : Uuid)
  /-- A tick between two records. -/
  | idle
  | reconcile (record : ChangeRecord)
  | branchOnly (record : ChangeRecord)
  | sweep (record : ChangeRecord)

structure Run where
  scope : RunScope
  calls : List (Event sig) := []

namespace Run

def call (run : Run) (op : StoreOp) (r : Except StoreError op.Result) : Run :=
  { run with calls := run.calls ++ [⟨.store op, r⟩] }

def mark (run : Run) (m : Mark) : Run := { run with calls := run.calls ++ [⟨.trace m, ()⟩] }

/-- The run after a call; reads and clock readings leave no trace in it. -/
def upd (run : Run) : (op : Op) → Op.Rep op → Run
  | .store op, r => run.call op r
  | .trace (.reconcile record), _ => { scope := .reconcile record }
  | .trace (.branchOnly record), _ => { scope := .branchOnly record }
  | .trace (.sweep record), _ => { scope := .sweep record }
  | .trace .leave, _ => { scope := .idle }
  | .trace m, _ => run.mark m
  | _, _ => run

@[simp] theorem call_scope (run : Run) (op : StoreOp) (r : Except StoreError op.Result) :
    (run.call op r).scope = run.scope := rfl

@[simp] theorem mark_scope (run : Run) (m : Mark) : (run.mark m).scope = run.scope := rfl

@[simp] theorem call_calls (run : Run) (op : StoreOp) (r : Except StoreError op.Result) :
    (run.call op r).calls = run.calls ++ [⟨.store op, r⟩] := rfl

@[simp] theorem mark_calls (run : Run) (m : Mark) :
    (run.mark m).calls = run.calls ++ [⟨.trace m, ()⟩] := rfl

/-- The run a task starts with. -/
def ofTask : Task → Run
  | .post req => { scope := .post req.key }
  | .cancel req => { scope := .cancel req.id }
  | .tick _ => { scope := .idle }

end Run

/-! ## What a call in a run says -/

/-- A committed audit event of request `id`. -/
def Audits (id : Uuid) : Event sig → Prop
  | ⟨.store (.submit _), .ok r⟩ => r.replay = false ∧ r.record.id = id
  | ⟨.store (.recordEvent e), .ok _⟩ => e.requestId = some id
  | ⟨.store (.transition _ _ _ _ _ _), .ok (some r)⟩ => r.id = id
  | _ => False

/-- The row and stage that a read or write of a row reports. -/
def rowSeen : Event sig → Option (Uuid × ChangeStage)
  | ⟨.store (.submit _), .ok r⟩ => some (r.record.id, r.record.stage)
  | ⟨.store (.get _), .ok (some r)⟩ => some (r.id, r.stage)
  | ⟨.store (.transition _ _ _ _ _ _), .ok (some r)⟩ => some (r.id, r.stage)
  | _ => none

def StoreFailed : Event sig → Prop
  | ⟨.store _, .error _⟩ => True
  | _ => False

/-- The pull request that `createChangePr` returned, or that `recover` found open. -/
def yielded : Event sig → Option Int
  | ⟨.trace (.opened _ n), _⟩ => some n
  | ⟨.trace (.adopted _ n), _⟩ => some n
  | ⟨.trace (.found _ pr), _⟩ => if pr.state = PrState.open then some pr.number else none
  | _ => none

namespace Run

/-- The run's last read or write of a row. -/
def lastSeen (run : Run) : Option (Uuid × ChangeStage) := (run.calls.filterMap rowSeen).getLast?

def Audited (run : Run) (id : Uuid) : Prop := ∃ e ∈ run.calls, Audits id e

/-- A cancel's event under its request is on record. -/
def Recorded (run : Run) (id : Uuid) : Prop :=
  ∃ event r, (⟨.store (.recordEvent event), .ok r⟩ : Event sig) ∈ run.calls ∧
    event.requestId = some id

/-- No store call of the run failed. -/
def Clean (run : Run) : Prop := ∀ e ∈ run.calls, ¬ StoreFailed e

/-- A run of a tick. -/
def Ticking (run : Run) : Prop :=
  match run.scope with
  | .post _ | .cancel _ => False
  | _ => True

/-- The request a run works on. -/
def About (run : Run) (id : Uuid) : Prop :=
  match run.scope with
  | .post _ => ∃ input r, (⟨.store (.submit input), .ok r⟩ : Event sig) ∈ run.calls ∧
      r.replay = false ∧ r.record.id = id
  | .cancel id' => id' = id
  | .idle => False
  | .reconcile record | .branchOnly record | .sweep record => record.id = id

/-- Pull request `n` is accounted for: its row is tracked, or was lost and the
pull request was closed. -/
def Settled (run : Run) (n : Int) : Prop :=
  ∃ id stage, run.About id ∧ run.lastSeen = some (id, stage) ∧
    (stage = .pr_open ∨ stage = .merged ∨ stage = .applied ∨ stage.Active ∨
      (isTerminalLoss stage ∧ (⟨.trace (.closePr n), ()⟩ : Event sig) ∈ run.calls))

/-- No pull request is left behind, unless the store failed. -/
def Accounted (run : Run) : Prop :=
  ∀ n, (∃ e ∈ run.calls, yielded e = some n) →
    (∃ e ∈ run.calls, StoreFailed e) ∨ run.Settled n

end Run

/-! ## What is known of GitHub -/

/-- What a world guarantees about the pull requests it hands out. `owns g b
bound n` means that `n` is a pull request of branch `b`, created no earlier
than `bound` if that is given. -/
structure Facts (deps : Deps) (W : World) where
  owns : W.State → String → Option Int → Int → Prop
  serve_owns : ∀ {g req a r g' branch bound n}, W.serve g req a = some (r, g') →
    owns g branch bound n → owns g' branch bound n
  env_owns : ∀ {g e g' branch bound n}, W.env g e = some g' →
    owns g branch bound n → owns g' branch bound n
  listed : ∀ {g a res g' branch bound pr},
    W.serve g (.listPulls deps.target.owner branch) a = some (.ok res, g') →
    pickPr deps bound res = .ok (some pr) → owns g' branch bound pr.number
  opened : ∀ {g a res g' title branch base body pr},
    W.serve g (.createPull title branch base body) a = some (.ok res, g') →
    res.status = 201 → toPr res.json = some pr → owns g' branch none pr.number

/-- Nothing is known of an arbitrary GitHub. -/
def Facts.none (deps : Deps) (W : World) : Facts deps W where
  owns _ _ _ _ := True
  serve_owns _ h := h
  env_owns _ h := h
  listed _ _ := trivial
  opened _ _ _ := trivial

/-! ## The rules -/

section Rules

variable {deps : Deps} {W : World} (F : Facts deps W)

/-- A row that leads on from what `record` was read from. -/
def Known (s : Shared W) (record : ChangeRecord) : Prop :=
  ∃ row ∈ s.db.requests.rows, ∃ read, record = toRecord read ∧ Leads read row

/-- The branch a write names. -/
def ApiRequest.branch? : ApiRequest → Option String
  | .createRef ref _ => some (String.ofList (ref.toList.drop "refs/heads/".toList.length))
  | .putContents _ _ _ _ branch => some branch
  | .createPull _ head _ _ => some head
  | _ => none

/-- A write is made for the request of the run: in the submit handler, the
cancel handler and the branch-only recovery it comes after an audit event, and
no store call of the run failed before it. -/
def WriteOk (run : Run) (s : Shared W) (req : ApiRequest) : Prop :=
  match run.scope with
  | .idle => False
  | .reconcile _ | .sweep _ => req.branch? = none
  | .cancel id => run.Clean ∧ run.Recorded id ∧ req.branch? = none
  | .post _ | .branchOnly _ => run.Clean ∧ ∃ id, run.About id ∧ run.Audited id ∧
      ∀ branch, req.branch? = some branch →
        ∃ row ∈ s.db.requests.rows, row.id = id ∧ row.branch = branch

/-- `createChangePr` is entered only by the handler that inserted the row and
by a recovery whose touch or hop committed. -/
def CreateOk (run : Run) (input : CreateChangePrInput) : Prop :=
  match run.scope with
  | .post key => ∃ submitted r,
      (⟨.store (.submit submitted), .ok r⟩ : Event sig) ∈ run.calls ∧ r.replay = false ∧
        key = some submitted.idempotencyKey ∧ r.record.branch = input.branch
  | .branchOnly record => record.branch = input.branch ∧ ∃ expected fields event version r,
      (⟨.store (.transition record.id expected .submitted fields event version),
        .ok (some r)⟩ : Event sig) ∈ run.calls ∧ r.id = record.id
  | _ => False

/-- Outside the cancel handler a pull request is closed only for a row that is
lost, and it is one of that row's branch. -/
def CloseOk (run : Run) (s : Shared W) (n : Int) : Prop :=
  match run.scope with
  | .cancel id => run.Recorded id
  | .idle => False
  | _ => ∃ row ∈ s.db.requests.rows, run.About row.id ∧ isTerminalLoss row.stage ∧
      ∃ bound, F.owns s.github row.branch bound n

/-- A cancel reads its row first, and moves it from the stage and version it read. -/
def CancelOk (run : Run) : StoreOp → Prop
  | .get _ => ∀ id', run.scope = .cancel id' → run.calls = []
  | .transition id expected stage _ _ version =>
      ∀ id', run.scope = .cancel id' → id = id' ∧ stage = .failed ∧ ∃ record,
        (⟨.store (.get id), .ok (some record)⟩ : Event sig) ∈ run.calls ∧
          expected = record.stage ∧ version = some record.version
  | _ => True

/-- A pull request number is written to a row with `pr_open`, and it is one of its
branch: the run opened it, or it was looked up and is not older than the row. -/
def NumberOk (run : Run) (s : Shared W) : StoreOp → Prop
  | .transition id _ stage fields _ _ => ∀ n, fields.prNumber = some n → stage = .pr_open ∧
      ∃ row ∈ s.db.requests.rows, row.id = id ∧
        (((⟨.trace (.opened row.branch n), ()⟩ : Event sig) ∈ run.calls ∧
            F.owns s.github row.branch Option.none n) ∨
          F.owns s.github row.branch (some (adoptBound (toRecord row))) n)
  | _ => True

/-- A handler submits once. -/
def SubmitOk (run : Run) : StoreOp → Prop
  | .submit _ => ∀ input r, (⟨.store (.submit input), r⟩ : Event sig) ∉ run.calls
  | _ => True

/-- What a thread may call. -/
def Disciplined (run : Run) (s : Shared W) : Op → Prop
  | .store op => op.Follows ∧ CancelOk run op ∧ NumberOk F run s op ∧ SubmitOk run op
  | .api req => req.IsWrite → WriteOk run s req
  | .trace (.createChangePr input) => CreateOk run input
  | .trace (.closePr n) => CloseOk F run s n
  | .trace (.reconcile _) | .trace (.sweep _) => run.Ticking
  | .trace (.branchOnly _) => run.Ticking ∧ run.calls = []
  | .trace .leave => run.Ticking ∧ run.Accounted
  | _ => True

/-- What the others can do between two calls. -/
structure Rely (s s' : Shared W) : Prop where
  db : Evolves s.db s'.db
  owns : ∀ {branch bound n}, F.owns s.github branch bound n → F.owns s'.github branch bound n

variable {F} {run run' : Run} {s s' : Shared W}

theorem Rely.refl (s : Shared W) : Rely F s s := ⟨.refl s.db, id⟩

theorem Rely.trans {s'' : Shared W} (h : Rely F s s') (h' : Rely F s' s'') : Rely F s s'' :=
  ⟨h.db.trans h'.db, fun h₀ => h'.owns (h.owns h₀)⟩

/-- The same run with more calls in it. -/
structure Run.Extends (run run' : Run) : Prop where
  scope : run'.scope = run.scope
  calls : run.calls ⊆ run'.calls

theorem Run.Extends.refl (run : Run) : run.Extends run := ⟨rfl, List.Subset.refl _⟩

theorem Run.Extends.trans {run'' : Run} (h : run.Extends run') (h' : run'.Extends run'') :
    run.Extends run'' :=
  ⟨h'.scope.trans h.scope, List.Subset.trans h.calls h'.calls⟩

theorem Run.extends_call (run : Run) (op : StoreOp) (r : Except StoreError op.Result) :
    run.Extends (run.call op r) :=
  ⟨rfl, by simp⟩

theorem Run.extends_mark (run : Run) (m : Mark) : run.Extends (run.mark m) := ⟨rfl, by simp⟩

theorem Run.About.mono {id : Uuid} (h : run.About id) (hrun : run.Extends run') :
    run'.About id := by
  unfold Run.About at h ⊢
  rw [hrun.scope]
  split at h
  · obtain ⟨input, r, hmem, hr⟩ := h
    exact ⟨input, r, hrun.calls hmem, hr⟩
  all_goals exact h

theorem Run.Audited.mono {id : Uuid} (h : run.Audited id) (hrun : run.Extends run') :
    run'.Audited id := by
  obtain ⟨e, he, haudits⟩ := h
  exact ⟨e, hrun.calls he, haudits⟩

theorem Run.Recorded.mono {id : Uuid} (h : run.Recorded id) (hrun : run.Extends run') :
    run'.Recorded id := by
  obtain ⟨event, r, hmem, hid⟩ := h
  exact ⟨event, r, hrun.calls hmem, hid⟩

theorem Run.Recorded.audited {id : Uuid} (h : run.Recorded id) : run.Audited id := by
  obtain ⟨event, r, hmem, hid⟩ := h
  exact ⟨_, hmem, hid⟩

theorem Run.Clean.mark (h : run.Clean) (m : Mark) : (run.mark m).Clean := by
  intro e he
  rcases List.mem_append.mp he with he | he
  · exact h e he
  · rw [List.mem_singleton.mp he]
    exact id

theorem Run.Clean.call (h : run.Clean) (op : StoreOp) (r : op.Result) :
    (run.call op (.ok r)).Clean := by
  intro e he
  rcases List.mem_append.mp he with he | he
  · exact h e he
  · rw [List.mem_singleton.mp he]
    exact id

theorem WriteOk.mono {req : ApiRequest} (h : WriteOk run s req) (hrun : run.Extends run')
    (hclean : run.Clean → run'.Clean) : WriteOk run' s req := by
  unfold WriteOk at h ⊢
  rw [hrun.scope]
  cases hscope : run.scope with
  | idle => simp [hscope] at h
  | reconcile _ | sweep _ => simpa only [hscope] using h
  | cancel id =>
      simp only [hscope] at h
      obtain ⟨hc, hrecorded, hbranch⟩ := h
      exact ⟨hclean hc, hrecorded.mono hrun, hbranch⟩
  | post _ | branchOnly _ =>
      simp only [hscope] at h
      obtain ⟨hc, id, habout, haudited, hbranch⟩ := h
      exact ⟨hclean hc, id, habout.mono hrun, haudited.mono hrun, hbranch⟩

theorem WriteOk.mark {req : ApiRequest} (h : WriteOk run s req) (m : Mark) :
    WriteOk (run.mark m) s req :=
  h.mono (run.extends_mark m) fun hclean => hclean.mark m

theorem WriteOk.call {req : ApiRequest} (h : WriteOk run s req) (op : StoreOp) (r : op.Result) :
    WriteOk (run.call op (.ok r)) s req :=
  h.mono (run.extends_call op _) fun hclean => hclean.call op r

theorem Run.Ticking.upd (h : run.Ticking) (op : Op) (r : Op.Rep op) : (run.upd op r).Ticking := by
  cases op with
  | trace m => cases m <;> first | exact h | trivial
  | _ => exact h

theorem Known.mono {record : ChangeRecord} (h : Known s record) (hs : Rely F s s') :
    Known s' record := by
  obtain ⟨row, hrow, read, hread, hleads⟩ := h
  obtain ⟨row', hrow', hleads'⟩ := hs.db.rows row hrow
  exact ⟨row', hrow', read, hread, hleads.trans hleads'⟩

theorem NumberOk.mono {op : StoreOp} (h : NumberOk F run s op) (hs : Rely F s s') :
    NumberOk F run s' op := by
  cases op with
  | transition id expected stage fields event version =>
      intro n hn
      obtain ⟨hstage, row, hrow, hid, hown⟩ := h n hn
      obtain ⟨row', hrow', hleads⟩ := hs.db.rows row hrow
      refine ⟨hstage, row', hrow', hleads.id.trans hid, ?_⟩
      have hbound : adoptBound (toRecord row') = adoptBound (toRecord row) := by
        simp [adoptBound, toRecord, hleads.created_at]
      rw [hleads.branch, hbound]
      exact hown.imp (fun h => ⟨h.1, hs.owns h.2⟩) hs.owns
  | _ => trivial

theorem known_of_mem {row : RequestRow} (h : row ∈ s.db.requests.rows) :
    Known s (toRecord row) :=
  ⟨row, h, row, rfl, .refl row⟩

theorem serve_store {t : Nat} {op : StoreOp} {ans : Answer W} {r : Except StoreError op.Result}
    (h : serve W s t (.store op) ans = some (r, s')) :
    ∃ a db, storeExec s.db t op a = some (r, db) ∧ s' = { s with db := db } := by
  cases ans with
  | db a =>
      simp only [serve, Option.map_eq_some_iff] at h
      obtain ⟨⟨r', db⟩, hx, heq⟩ := h
      cases heq
      exact ⟨a, db, hx, rfl⟩
  | _ => simp [serve] at h

theorem serve_api {t : Nat} {req : ApiRequest} {ans : Answer W} {r : Except String Reply}
    (h : serve W s t (.api req) ans = some (r, s')) :
    ∃ a g, W.serve s.github req a = some (r, g) ∧ s' = { s with github := g } := by
  cases ans with
  | github a =>
      simp only [serve, Option.map_eq_some_iff] at h
      obtain ⟨⟨r', g⟩, hx, heq⟩ := h
      cases heq
      exact ⟨a, g, hx, rfl⟩
  | _ => simp [serve] at h

/-- One call: a store call with its effect, a GitHub call, or a reading. -/
theorem serve_cases {t : Nat} {op : Op} {ans : Answer W} {r : Op.Rep op}
    (h : serve W s t op ans = some (r, s')) :
    (∃ op', op = .store op' ∧ s'.github = s.github ∧ Effect t s.db op' s'.db) ∨
    (∃ req a r', op = .api req ∧ s'.db = s.db ∧
      W.serve s.github req a = some (r', s'.github)) ∨
    (s' = s ∧ (∀ op', op ≠ .store op') ∧ ∀ req, op ≠ .api req) := by
  cases op with
  | store op =>
      obtain ⟨a, db, hx, rfl⟩ := serve_store h
      exact .inl ⟨op, rfl, rfl, storeExec_effect hx⟩
  | api req =>
      obtain ⟨a, g, hx, rfl⟩ := serve_api h
      exact .inr (.inl ⟨req, a, r, rfl, rfl, hx⟩)
  | _ =>
      cases ans <;> simp [serve] at h
      obtain ⟨-, rfl⟩ := h
      exact .inr (.inr ⟨rfl, by simp, by simp⟩)

theorem serve_consistent {t : Nat} {op : Op} {ans : Answer W} {r : Op.Rep op}
    (h : serve W s t op ans = some (r, s')) (hs : Consistent s.db) : Consistent s'.db := by
  rcases serve_cases h with ⟨_, -, -, heffect⟩ | ⟨_, _, _, -, hdb, -⟩ | ⟨rfl, -⟩
  · exact heffect.consistent hs
  · rwa [hdb]
  · exact hs

/-- A disciplined call respects `Rely`. -/
theorem Disciplined.rely {t : Nat} {op : Op} {ans : Answer W} {r : Op.Rep op}
    (hop : Disciplined F run s op) (h : serve W s t op ans = some (r, s')) : Rely F s s' := by
  rcases serve_cases h with ⟨op', rfl, hgithub, heffect⟩ | ⟨_, _, _, rfl, hdb, hx⟩ | ⟨rfl, -⟩
  · exact ⟨heffect.evolves hop.1, by rw [hgithub]; exact id⟩
  · exact ⟨by rw [hdb]; exact .refl _, F.serve_owns hx⟩
  · exact ⟨.refl _, id⟩

variable (F)

/-- The logic of the discipline. -/
def discipline : Logic (protocol deps W) Run where
  inv s := Consistent s.db
  rely _ := Rely F
  ok _ := Disciplined F
  upd := Run.upd
  rely_refl := .refl
  rely_trans h h' := h.trans h'

/-- How a task ends: a submit handler leaves no pull request behind. -/
def taskPost : Task → Logic.Post (protocol deps W) Run JsError Outcome
  | .post _, _, run, _ => run.Accounted
  | _, _, _, _ => True

end Rules

end Sso
