import Beluga.Sso.RouteRules
import Mathlib.Data.List.Induction

/-! # What a thread was told is on record

A thread's history against the tables: the events, commits and rows that a
successful store call reported are there, then and in every later state
(`told_onRecord`). And a history against the discipline: every call in it was
disciplined when it was made (`was_disciplined`), a handler's run is its whole
history (`handler`), and it submits or reads its row at most once (`called_once`).
-/

namespace Sso

open Interact

variable {deps : Deps} {W : World} {g : W.State} {s s' : PState deps W} {t : Nat}
  {th : (protocol deps W).Thread}

/-! ## The record of a call -/

/-- What a successful write of thread `thread` left in the tables. -/
def OnRecord (thread : Nat) (db : Db) : Event sig → Prop
  | ⟨.store (.submit input), .ok r⟩ => r.replay = false →
      (∃ event ∈ db.events, event.requestId = some r.record.id) ∧
      ⟨r.record.id, none, .submitted, r.record.version, input.idempotencyKey, thread⟩ ∈ db.log
  | ⟨.store (.recordEvent event), .ok _⟩ => event ∈ db.events
  | ⟨.store (.transition id expected stage _ _ _), .ok (some r)⟩ => r.id = id ∧
      (∃ event ∈ db.events, event.requestId = some id) ∧
      ∃ key, ⟨id, some expected, stage, r.version, key, thread⟩ ∈ db.log
  | _ => True

theorem OnRecord.mono {db db' : Db} {e : Event sig} (hdb : Evolves db db')
    (h : OnRecord t db e) : OnRecord t db' e := by
  unfold OnRecord at h ⊢
  split at h
  · intro hreplay
    obtain ⟨⟨event, hevent, hid⟩, hlog⟩ := h hreplay
    exact ⟨⟨event, hdb.events.subset hevent, hid⟩, hdb.log.subset hlog⟩
  · exact hdb.events.subset h
  · obtain ⟨hr, ⟨event, hevent, hid⟩, key, hlog⟩ := h
    exact ⟨hr, ⟨event, hdb.events.subset hevent, hid⟩, key, hdb.log.subset hlog⟩
  · trivial

theorem submit_onRecord {db db' : Db} {input : SubmitInput} {id now : Nat} {r : SubmitResult}
    (h : db.submit input id now t = .ok (r, db')) :
    OnRecord t db' ⟨.store (.submit input), .ok r⟩ := by
  intro hreplay
  rcases submit_effect h with ⟨htrue, -⟩ | ⟨rfl, -, hlog, hevents, -⟩
  · rw [htrue] at hreplay
    cases hreplay
  · exact ⟨⟨submittedEvent input id, by simp [hevents], rfl⟩, by simp [hlog, toRecord, newRow]⟩

theorem transition_onRecord {db db' : Db} {id : Uuid} {expected stage : ChangeStage}
    {fields : TransitionFields} {event : TransitionEvent} {version : Option Nat} {now : Nat}
    {r : Option ChangeRecord}
    (h : db.transition id expected stage fields event version now t = .ok (r, db')) :
    OnRecord t db' ⟨.store (.transition id expected stage fields event version), .ok r⟩ := by
  rcases transition_effect h with ⟨rfl, -⟩ | ⟨row, -, rfl, rfl, rfl, -, -, hlog, hevents, -⟩
  · trivial
  · refine ⟨rfl, ⟨transitionEvent (movedRow row stage fields now) event, by simp [hevents], rfl⟩,
      row.idempotency_key, by simp [hlog, toRecord, movedRow]⟩

theorem store_onRecord {db db' : Db} {op : StoreOp} {a : DbAnswer}
    {r : Except StoreError op.Result} (h : storeExec db t op a = some (r, db')) :
    OnRecord t db' ⟨.store op, r⟩ := by
  cases r with
  | error e => cases op <;> trivial
  | ok r =>
      cases op with
      | submit input => exact submit_onRecord (submit_ok h)
      | transition id expected stage fields event version =>
          exact transition_onRecord (transition_ok h)
      | recordEvent event =>
          have hserve := storeExec_ok h
          cases hserve
          exact List.mem_append_right _ (List.mem_singleton_self _)
      | _ => trivial

/-- Whatever the store told a thread is in the tables, from then on. -/
theorem told_onRecord (h : (protocol deps W).Reachable (start W g) s)
    (hth : s.threads[t]? = some th) {e : Event sig} (he : e ∈ th.hist) :
    OnRecord t s.shared.db e := by
  refine System.Reachable.events (P := fun t e (s : Shared W) => OnRecord t s.db e) ?_ ?_ h
    t th hth e he
  · intro s t th op k ans r g' _ _ _ hserve
    cases op with
    | store op =>
        obtain ⟨a, db, hx, rfl⟩ := serve_store hserve
        exact store_onRecord hx
    | _ => trivial
  · intro s s' a hs hstep t e
    exact OnRecord.mono (protocol_evolves hs (.single hstep))

/-! ## The run of a thread -/

/-- The run a thread is in after a history. -/
def currentRun (task : Task) (hist : List (Event sig)) : Run :=
  hist.foldl (fun run e => run.upd e.op e.rep) (.ofTask task)

@[simp] theorem currentRun_snoc (task : Task) (hist : List (Event sig)) (e : Event sig) :
    currentRun task (hist ++ [e]) = (currentRun task hist).upd e.op e.rep := by
  simp [currentRun]

/-- A call in the run is a call of the thread. -/
theorem mem_hist_of_calls {task : Task} {hist : List (Event sig)} {e : Event sig}
    (h : e ∈ (currentRun task hist).calls) : e ∈ hist := by
  induction hist using List.reverseRecOn with
  | nil => cases task <;> cases h
  | append_singleton hist e' ih =>
      rw [currentRun_snoc] at h
      have hcase : e ∈ (currentRun task hist).calls ∨ e = e' := by
        obtain ⟨op, r⟩ := e'
        cases op with
        | store op => simpa [Run.upd] using h
        | trace m =>
            cases m with
            | reconcile _ | branchOnly _ | sweep _ | leave => cases h
            | _ => simpa [Run.upd] using h
        | _ => exact .inl h
      rcases hcase with hold | rfl
      · exact List.mem_append_left _ (ih hold)
      · exact List.mem_append_right _ (List.mem_singleton_self _)

/-- Every call of a thread was disciplined when it was made. -/
theorem was_disciplined (h : (protocol deps W).Reachable (start W g) s)
    (hth : s.threads[t]? = some th) {h₁ h₂ : List (Event sig)} {e : Event sig}
    (hhist : th.hist = h₁ ++ e :: h₂) :
    ∃ s₁ : Shared W, Disciplined (Facts.none deps W) (currentRun th.task h₁) s₁ e.op := by
  have hholds : ∀ s, (protocol deps W).Reachable (start W g) s →
      (discipline (Facts.none deps W)).Holds Run.ofTask taskPost s := fun _ hs => protocol_holds hs
  exact Logic.sound_hist (L := discipline (Facts.none deps W)) (Q := taskPost)
    (P := fun run op _ => ∃ s₁ : Shared W, Disciplined (Facts.none deps W) run s₁ op)
    (fun _ _ s₁ _ _ _ _ _ hok _ => ⟨s₁, hok⟩) (fun _ _ _ _ _ _ _ hok => hok) hholds h
    (List.mem_of_getElem? hth) hhist

/-- The call a thread is about to make is disciplined. -/
theorem is_disciplined (h : (protocol deps W).Reachable (start W g) s)
    (hth : s.threads[t]? = some th) {op : Op} {k : Op.Rep op → Async Outcome}
    (hrest : th.rest = .call op k) :
    Disciplined (Facts.none deps W) (currentRun th.task th.hist) s.shared op :=
  (protocol_holds (F := Facts.none deps W) h).ok hth hrest

/-- A handler is one run: its scope never changes and it keeps every store call. -/
structure Handler (task : Task) (hist : List (Event sig)) : Prop where
  scope : (currentRun task hist).scope = (Run.ofTask task).scope
  calls : ∀ op r, (⟨.store op, r⟩ : Event sig) ∈ hist →
    (⟨.store op, r⟩ : Event sig) ∈ (currentRun task hist).calls

/-- Only the calls of a tick begin or end a run. -/
theorem handler_of_disciplined {task : Task} (htask : ¬ (Run.ofTask task).Ticking)
    {hist : List (Event sig)}
    (h : ∀ h₁ e h₂, hist = h₁ ++ e :: h₂ →
      ∃ s₁ : Shared W, Disciplined (Facts.none deps W) (currentRun task h₁) s₁ e.op) :
    Handler task hist := by
  induction hist using List.reverseRecOn with
  | nil => exact ⟨rfl, fun _ _ hmem => by cases hmem⟩
  | append_singleton hist e ih =>
      have ih := ih fun h₁ e' h₂ heq => h h₁ e' (h₂ ++ [e]) (by simp [heq])
      obtain ⟨s₁, hok⟩ := h hist e [] rfl
      have hscope : ¬ (currentRun task hist).Ticking := by
        rw [Run.Ticking, ih.scope]
        exact htask
      have hext : (currentRun task hist).Extends (currentRun task (hist ++ [e])) := by
        rw [currentRun_snoc]
        obtain ⟨op, r⟩ := e
        cases op with
        | store op => exact Run.extends_call _ _ _
        | trace m =>
            cases m with
            | reconcile _ | sweep _ => exact absurd hok hscope
            | branchOnly _ | leave => exact absurd hok.1 hscope
            | _ => exact Run.extends_mark _ _
        | _ => exact .refl _
      refine ⟨hext.scope.trans ih.scope, fun op r hmem => ?_⟩
      rcases List.mem_append.mp hmem with hold | hnew
      · exact hext.calls (ih.calls op r hold)
      · rw [currentRun_snoc, ← List.mem_singleton.mp hnew]
        simp [Run.upd]

variable (h : (protocol deps W).Reachable (start W g) s) (hth : s.threads[t]? = some th)
include h hth

/-- The run of a handler is its history, at every moment of it. -/
theorem handler (htask : ¬ (Run.ofTask th.task).Ticking) {h₁ h₂ : List (Event sig)}
    (hhist : th.hist = h₁ ++ h₂) : Handler th.task h₁ :=
  handler_of_disciplined htask fun p e q heq => by
    have hall : th.hist = p ++ e :: (q ++ h₂) := by simp [hhist, heq]
    exact was_disciplined h hth hall

/-- Of the store calls that a handler makes only if it made none of them before,
it makes one. -/
theorem called_once {P : StoreOp → Prop} (htask : ¬ (Run.ofTask th.task).Ticking)
    (hfirst : ∀ (run : Run) (s₁ : Shared W) op, run.scope = (Run.ofTask th.task).scope → P op →
      Disciplined (Facts.none deps W) run s₁ (.store op) →
      ∀ op' r, P op' → (⟨.store op', r⟩ : Event sig) ∉ run.calls)
    {op op' : StoreOp} {r : Except StoreError op.Result} {r' : Except StoreError op'.Result}
    (hop : P op) (hop' : P op') (hmem : (⟨.store op, r⟩ : Event sig) ∈ th.hist)
    (hmem' : (⟨.store op', r'⟩ : Event sig) ∈ th.hist) :
    (⟨.store op, r⟩ : Event sig) = ⟨.store op', r'⟩ := by
  have honce : ∀ {p q : List (Event sig)} {op op' : StoreOp} {r : Except StoreError op.Result}
      {r' : Except StoreError op'.Result}, P op → P op' → th.hist = p ++ ⟨.store op, r⟩ :: q →
      (⟨.store op', r'⟩ : Event sig) ∉ p := by
    intro p q op op' r r' hop hop' hhist hp
    obtain ⟨s₁, hok⟩ := was_disciplined h hth hhist
    have hhandler := handler h hth htask hhist
    exact hfirst _ s₁ op hhandler.scope hop hok op' r' hop' (hhandler.calls _ _ hp)
  obtain ⟨p, q, hpq⟩ := List.append_of_mem hmem
  rw [hpq] at hmem'
  rcases List.mem_append.mp hmem' with hbefore | hafter
  · exact absurd hbefore (honce hop hop' hpq)
  · rcases List.mem_cons.mp hafter with heq | hafter
    · exact heq.symm
    · -- the other call is the later one
      obtain ⟨p', q', rfl⟩ := List.append_of_mem hafter
      have hpq' : th.hist = (p ++ ⟨.store op, r⟩ :: p') ++ ⟨.store op', r'⟩ :: q' := by
        rw [hpq, List.append_assoc, List.cons_append]
      exact absurd (List.mem_append_right p List.mem_cons_self) (honce hop' hop hpq')

/-- A handler calls `submit` at most once. -/
theorem submitted_once (htask : ¬ (Run.ofTask th.task).Ticking) {input input' : SubmitInput}
    {r r' : Except StoreError SubmitResult}
    (hmem : (⟨.store (.submit input), r⟩ : Event sig) ∈ th.hist)
    (hmem' : (⟨.store (.submit input'), r'⟩ : Event sig) ∈ th.hist) :
    input = input' ∧ r = r' := by
  have heq := called_once h hth (P := fun op => ∃ input, op = .submit input) htask ?_
    ⟨input, rfl⟩ ⟨input', rfl⟩ hmem hmem'
  · cases heq
    exact ⟨rfl, rfl⟩
  · rintro run s₁ _ - ⟨input, rfl⟩ ⟨-, -, -, honce⟩ _ r ⟨input', rfl⟩
    exact honce input' r

/-- A cancel reads its row once. -/
theorem read_once {req : CancelRequest} (htask : th.task = .cancel req) {id id' : Uuid}
    {r r' : Except StoreError (Option ChangeRecord)}
    (hmem : (⟨.store (.get id), r⟩ : Event sig) ∈ th.hist)
    (hmem' : (⟨.store (.get id'), r'⟩ : Event sig) ∈ th.hist) : id = id' ∧ r = r' := by
  have heq := called_once h hth (P := fun op => ∃ id, op = .get id) (by rw [htask]; exact fun h => h)
    ?_ ⟨id, rfl⟩ ⟨id', rfl⟩ hmem hmem'
  · cases heq
    exact ⟨rfl, rfl⟩
  · rintro run s₁ _ hscope ⟨id, rfl⟩ ⟨-, hcancel, -, -⟩ _ r ⟨id', rfl⟩
    rw [hcancel req.id (by rw [hscope, htask]; rfl)]
    exact List.not_mem_nil

end Sso
