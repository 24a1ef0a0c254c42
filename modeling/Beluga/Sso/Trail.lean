import Beluga.Interact.Trace
import Beluga.Sso.SqlRules

/-! # The events of a request

The event table against the request table, for any number of concurrent
`submit` and `transition` transactions whose statements may fail at any point:

* `serve_change`: a statement changes nothing, or commits one row with one event;
* `faithful`: the events are the committed changes, in commit order, and every
  change was made by a transaction whose compare-and-set met it;
* `transaction_traced`: `COMMIT` is sent only when everything before it worked;
* `trail_kept`: what this makes of the audit trail of a row.
-/

namespace Sso.Pg

open Interact

variable {s s' : Shared} {t : Nat} {stmt : Stmt} {a : Answer}

/-! ## One commit -/

/-- Thread `thread` committed one row, with one event of its new stage. -/
structure Change (thread : Nat) (db db' : Db) (row : RequestRow) (event : NewEvent)
    (source : Option ChangeStage) : Prop where
  events : db'.events = db.events ++ [event]
  log : db'.log =
    db.log ++ [⟨row.id, source, row.stage, row.updated_at, row.idempotency_key, thread⟩]
  request : event.requestId = some row.id
  stage : event.stage = .change row.stage
  /-- The row is new, or takes the place of the row of its id. -/
  rows : (source = none ∧ db'.requests.rows = db.requests.rows ++ [row]) ∨
    ∃ old ∈ db.requests.rows, old.id = row.id ∧ source = some old.stage ∧
      db'.requests.rows = db.requests.rows.map fun r => if r.id = row.id then row else r

/-- What the call of a thread may commit for a row, given the log before it. -/
def Meets (op : StoreOp) (log : List Commit) (c : Commit) : Prop :=
  match op with
  | .submit _ => c.target = .submitted ∧ commitsOf log c.request = []
  | .transition id expected stage _ _ version =>
      c.request = id ∧ c.source = some expected ∧ c.target = stage ∧
        ∃ last, (commitsOf log id).getLast? = some last ∧ last.target = expected ∧
          ∀ v, version = some v → last.version = v
  | _ => False

/-- A committed value stays set. -/
structure Keeps (row row' : RequestRow) : Prop where
  id : row'.id = row.id
  pr_number : row.pr_number.isSome → row'.pr_number.isSome
  pr_url : row.pr_url.isSome → row'.pr_url.isSome
  merge_commit_sha : row.merge_commit_sha.isSome → row'.merge_commit_sha.isSome

theorem Keeps.refl (row : RequestRow) : Keeps row row := ⟨rfl, fun h => h, fun h => h, fun h => h⟩

theorem Keeps.trans {a b c : RequestRow} (h : Keeps a b) (h' : Keeps b c) : Keeps a c where
  id := h'.id.trans h.id
  pr_number := fun ha => h'.pr_number (h.pr_number ha)
  pr_url := fun ha => h'.pr_url (h.pr_url ha)
  merge_commit_sha := fun ha => h'.merge_commit_sha (h.merge_commit_sha ha)

/-- `COALESCE` keeps what is set. -/
theorem keeps_movedRow (row : RequestRow) (stage : ChangeStage) (fields : TransitionFields)
    (now : Nat) : Keeps row (movedRow row stage fields now) where
  id := rfl
  pr_number h := by cases hf : fields.prNumber <;> simp [movedRow, hf, h]
  pr_url h := by cases hf : fields.prUrl <;> simp [movedRow, hf, h]
  merge_commit_sha h := by cases hf : fields.mergeCommitSha <;> simp [movedRow, hf, h]

/-- A `COMMIT` that takes effect is one change, which the call of its thread allows. -/
theorem commit_change {tx : Tx} {op : StoreOp} {db : Db} (hs : Consistent s.db)
    (hready : Ready t s tx op) (h : commitTx s.db t tx = .ok db) :
    ∃ row event source, Change t s.db db row event source ∧
      Meets op s.db.log ⟨row.id, source, row.stage, row.updated_at, row.idempotency_key, t⟩ ∧
      ∀ r ∈ s.db.requests.rows, ∃ r' ∈ db.requests.rows, Keeps r r' := by
  cases op with
  | submit input =>
      obtain ⟨id, hwrite, hevents, -, -, -⟩ := hready
      obtain ⟨requests, -, hrows, rfl⟩ := commitTx_insert hwrite h
      have hnodup := requests.pkey
      rw [hrows, List.map_append, List.nodup_append] at hnodup
      have hfresh : commitsOf s.db.log id = [] := by
        refine List.filter_eq_nil_iff.mpr fun c hc => ?_
        obtain ⟨r, hr, hid, -⟩ := hs.known c hc
        have hne := hnodup.2.2 r.id (List.mem_map_of_mem hr) id (by simp [newRow])
        simpa [← hid] using hne
      refine ⟨newRow input id tx.now, submittedEvent input id, none,
        ⟨by simp [hevents], rfl, rfl, rfl, .inl ⟨rfl, hrows⟩⟩, ⟨rfl, hfresh⟩, ?_⟩
      exact fun r hr => ⟨r, by simp [hrows, hr], .refl r⟩
  | transition id expected stage fields event version =>
      obtain ⟨row, hrow, hcas, hwrite, hevents, -⟩ := hready
      obtain ⟨requests, -, hrows, rfl⟩ := commitTx_update hwrite h
      simp only [casMatches, decide_eq_true_eq] at hcas
      obtain ⟨rfl, rfl, hversion⟩ := hcas
      obtain ⟨last, hlast, hv, htarget⟩ := hs.last row hrow
      refine ⟨movedRow row stage fields tx.now, transitionEvent (movedRow row stage fields tx.now)
        event, some row.stage, ⟨by simp [hevents], rfl, rfl, rfl,
          .inr ⟨row, hrow, rfl, rfl, hrows⟩⟩, ⟨rfl, rfl, rfl, last, hlast, htarget, ?_⟩, ?_⟩
      · rintro v rfl
        simpa [hv, eq_comm] using hversion
      · intro r hr
        by_cases hid : r.id = row.id
        · obtain rfl := RequestTable.eq_of_id hr hrow hid
          refine ⟨movedRow r stage fields tx.now, ?_, keeps_movedRow r stage fields tx.now⟩
          simp only [hrows, List.mem_map]
          exact ⟨r, hr, by simp [movedRow]⟩
        · refine ⟨r, ?_, .refl r⟩
          simp only [hrows, List.mem_map]
          exact ⟨r, hr, by simp [movedRow, hid]⟩
  | _ => exact hready.elim

/-- A statement leaves the tables alone, or it is a `COMMIT` with its one change. -/
theorem serve_change {op : StoreOp} {r : Except PgError stmt.Result} (hs : Consistent s.db)
    (hok : Allowed t op s stmt) (h : serve s t stmt a = some (r, s')) :
    s'.db = s.db ∨ (stmt = .commit ∧ ∃ row event source, Change t s.db s'.db row event source ∧
      Meets op s.db.log ⟨row.id, source, row.stage, row.updated_at, row.idempotency_key, t⟩ ∧
      ∀ r ∈ s.db.requests.rows, ∃ r' ∈ s'.db.requests.rows, Keeps r r') := by
  rcases (serve_frame h).2 with hdb | ⟨rfl, tx, htx, hcommit⟩
  · exact .inl hdb
  · exact .inr ⟨rfl, commit_change hs (hok tx htx) hcommit⟩

/-! ## Every reachable state -/

/-- The log against the threads and the events. -/
structure Faithful (s : PState) : Prop where
  /-- The events are the committed changes, in commit order. -/
  paired : s.shared.db.events.map (fun e => (e.requestId, e.stage)) =
    s.shared.db.log.map fun c => (some c.request, .change c.target)
  /-- Each was committed by a thread whose call allowed it. -/
  made : ∀ l₁ c l₂, s.shared.db.log = l₁ ++ c :: l₂ → ∃ th, s.threads[c.thread]? = some th ∧
    Meets th.task.op l₁ c ∧ ∃ r, (⟨.commit, r⟩ : Event sig) ∈ th.hist

/-- What a step does to the tables. -/
theorem step_change {s s' : PState} {act : store.Act} (h : store.Reachable start s)
    (hstep : System.step s act = some s') :
    s'.shared.db = s.shared.db ∨ ∃ t ans th k r row event source, act = .act t ans ∧
      s.threads[t]? = some th ∧ th.rest = .call .commit k ∧
      s'.threads[t]? = some (th.advance .commit k r) ∧
      Change t s.shared.db s'.shared.db row event source ∧
      Meets th.task.op s.shared.db.log
        ⟨row.id, source, row.stage, row.updated_at, row.idempotency_key, t⟩ ∧
      ∀ r ∈ s.shared.db.requests.rows, ∃ r' ∈ s'.shared.db.requests.rows, Keeps r r' := by
  obtain ⟨_, -, rfl⟩ | ⟨t, ans, th, stmt, k, r, g', rfl, hth, hrest, hx, rfl⟩ | ⟨e, -⟩ :=
    System.step_cases hstep
  · exact .inl rfl
  · have hholds := store_holds h
    have hok := hholds.ok hth hrest
    rw [monitor_ofTask] at hok
    rcases serve_change hholds.1 hok hx with hdb | ⟨rfl, row, event, source, hchange, hmeets, hkeeps⟩
    · exact .inl hdb
    · have hlt : t < s.threads.length := (List.getElem?_eq_some_iff.mp hth).1
      exact .inr ⟨t, ans, th, k, r, row, event, source, rfl, hth, hrest, by simp [hlt], hchange,
        hmeets, hkeeps⟩
  · exact nomatch e

theorem faithful {s : PState} (h : store.Reachable start s) : Faithful s := by
  refine System.Reachable.induct (I := Faithful) ⟨rfl, ?_⟩ ?_ h
  · intro l₁ c l₂ hlog
    simp [System.init, start, Db.empty] at hlog
  · intro s s' act hreach ih hstep
    have hthread : ∀ {t : Nat} {th : store.Thread}, s.threads[t]? = some th →
        ∃ th', s'.threads[t]? = some th' ∧ th'.task = th.task ∧ th.hist <+: th'.hist :=
      fun hth => (System.Reaches.single hstep).thread hth
    have hold : ∀ l₁ c l₂, s.shared.db.log = l₁ ++ c :: l₂ → ∃ th, s'.threads[c.thread]? = some th ∧
        Meets th.task.op l₁ c ∧ ∃ r, (⟨.commit, r⟩ : Event sig) ∈ th.hist := by
      intro l₁ c l₂ hlog
      obtain ⟨th, hth, hmeets, r, hr⟩ := ih.made l₁ c l₂ hlog
      obtain ⟨th', hth', htask, hhist⟩ := hthread hth
      exact ⟨th', hth', htask ▸ hmeets, r, hhist.subset hr⟩
    rcases step_change hreach hstep with hdb |
      ⟨t, _, th, k, r, row, event, source, -, -, -, hth, hchange, hmeets, -⟩
    · refine ⟨?_, ?_⟩
      · rw [hdb]
        exact ih.paired
      · rw [hdb]
        exact hold
    · refine ⟨?_, fun l₁ c l₂ hlog => ?_⟩
      · rw [hchange.events, hchange.log, List.map_append, List.map_append, ih.paired]
        simp [hchange.request, hchange.stage]
      · -- the change just made, or an earlier one
        rw [hchange.log] at hlog
        rcases List.eq_nil_or_concat l₂ with rfl | ⟨l₂', c', rfl⟩
        · obtain ⟨rfl, heq⟩ := List.append_inj' hlog rfl
          obtain rfl := (List.cons.inj heq).1
          exact ⟨_, hth, hmeets, r, by simp [System.Thread.advance]⟩
        · refine hold l₁ c l₂' ?_
          rw [show l₁ ++ c :: l₂'.concat c' = (l₁ ++ c :: l₂') ++ [c'] by simp] at hlog
          exact (List.append_inj' hlog rfl).1

/-- The stages of the events of a request, in commit order. -/
def trail (db : Db) (id : Uuid) : List EventStage :=
  (db.events.filter fun e => e.requestId = some id).map (·.stage)

theorem Faithful.trail_eq {s : PState} (h : Faithful s) (id : Uuid) :
    trail s.shared.db id = (commitsOf s.shared.db.log id).map fun c => .change c.target := by
  have hstages := congrArg (fun keys => (keys.filter fun k => k.1 = some id).map Prod.snd) h.paired
  simpa [trail, commitsOf, List.filter_map, Function.comp_def] using hstages

/-- The first change of a request is its submission. -/
theorem Faithful.head {s : PState} (h : Faithful s) {id : Uuid} {c : Commit}
    (hc : (commitsOf s.shared.db.log id).head? = some c) : c.target = .submitted := by
  obtain ⟨rest, hrest⟩ : ∃ rest, commitsOf s.shared.db.log id = c :: rest := by
    cases hlist : commitsOf s.shared.db.log id with
    | nil => simp [hlist] at hc
    | cons c' rest =>
        rw [hlist] at hc
        exact ⟨rest, by simpa using hc⟩
  obtain ⟨l₁, l₂, hlog, hbefore, hid, -⟩ := List.filter_eq_cons_iff.mp hrest
  obtain rfl : c.request = id := by simpa using hid
  have hnone : commitsOf l₁ c.request = [] := List.filter_eq_nil_iff.mpr hbefore
  obtain ⟨th, -, hmeets, -⟩ := h.made l₁ c l₂ hlog
  cases hop : th.task.op with
  | submit input =>
      rw [hop] at hmeets
      exact hmeets.1
  | transition id expected stage fields event version =>
      rw [hop] at hmeets
      obtain ⟨rfl, -, -, last, hlast, -⟩ := hmeets
      simp [hnone] at hlast
  | _ =>
      rw [hop] at hmeets
      exact hmeets.elim

/-! ## Failed transactions -/

/-- The statement failed, or an `UPDATE` found its row in another stage or version. -/
def Refusal : Event sig → Prop
  | ⟨.updateRequest _ _ _ _ _, .ok none⟩ => True
  | ⟨_, .error _⟩ => True
  | _ => False

/-- Everything so far worked, and nothing was committed. -/
def Working (hist : List (Event sig)) : Prop := ∀ e ∈ hist, ¬ Refusal e ∧ e.op ≠ .commit

/-- After a refusal or a `COMMIT`, only `ROLLBACK` is sent. -/
def Disciplined (hist : List (Event sig)) (stmt : Stmt) : Prop := stmt = .rollback ∨ Working hist

/-- A call that answers that it changed nothing sent no `COMMIT`. -/
def Unchanged (hist : List (Event sig)) : Except StoreError Outcome → Prop
  | .ok (.transitioned none) => NoCommit hist
  | .ok (.submitted r) => r.replay = true → NoCommit hist
  | _ => True

theorem Working.nil : Working [] := fun _ h => absurd h List.not_mem_nil

theorem Working.noCommit {hist : List (Event sig)} (h : Working hist) : NoCommit hist :=
  fun _ hr => (h _ hr).2 rfl

theorem Working.add {hist : List (Event sig)} (h : Working hist) {e : Event sig}
    (he : ¬ Refusal e) (hcommit : e.op ≠ .commit) : Working (hist ++ [e]) := by
  intro e' he'
  rcases List.mem_append.mp he' with hold | hnew
  · exact h e' hold
  · rw [List.mem_singleton.mp hnew]
    exact ⟨he, hcommit⟩

theorem noCommit_append {hist : List (Event sig)} (h : NoCommit hist) {e : Event sig}
    (he : e.op ≠ .commit) : NoCommit (hist ++ [e]) := by
  intro r hcommit
  rcases List.mem_append.mp hcommit with hold | hnew
  · exact h r hold
  · exact he (by rw [← List.mem_singleton.mp hnew])

section Traced

variable {hist : List (Event sig)} {α β : Type}

theorem traced_query {f : stmt.Result → Query β} {R : List (Event sig) → Except Thrown β → Prop}
    (hstmt : Disciplined hist stmt)
    (herr : ∀ e, R (hist ++ [⟨stmt, .error e⟩]) (.error (.pg e)))
    (hok : ∀ r, (f r).Traced Disciplined R (hist ++ [⟨stmt, .ok r⟩])) :
    (query stmt >>= f).Traced Disciplined R hist := by
  refine ⟨hstmt, fun r => ?_⟩
  cases r with
  | error e => exact herr e
  | ok r => exact hok r

/-- A refusal of `submit`. -/
theorem traced_refuse {e : StoreError} {Q : List (Event sig) → α → Prop} :
    (refuse e : Query α).Traced Disciplined (fun hist r => ∀ a, r = .ok a → Q hist a) hist := by
  refine traced_query (.inl rfl) ?_ fun _ => ?_
  · simp
  · intro a h
    cases h

/-- How the body of `submit` ends: a replay has committed nothing. -/
def ReplayFree (hist : List (Event sig)) (r : Except Thrown SubmitResult) : Prop :=
  ∀ a, r = .ok a → a.replay = true → NoCommit hist

theorem traced_insertAndCommit {input : SubmitInput} (h : Working hist) :
    (insertAndCommit input).Traced Disciplined ReplayFree hist := by
  refine traced_query (.inr h) (by simp [ReplayFree]) fun row => ?_
  have h₁ := h.add (e := ⟨.insertRequest input, .ok row⟩) (fun h => h) (by simp)
  refine traced_query (.inr h₁) (by simp [ReplayFree]) fun _ => ?_
  refine traced_query (.inr (h₁.add (fun h => h) (by simp))) (by simp [ReplayFree]) fun _ => ?_
  rintro _ ⟨⟩ hreplay
  cases hreplay

theorem traced_submitNew {input : SubmitInput} (h : Working hist) :
    (submitNew input).Traced Disciplined ReplayFree hist := by
  refine traced_query (.inr h) (by simp [ReplayFree]) fun collides => ?_
  have h₁ := h.add (e := ⟨.selectBranch input.branch, .ok collides⟩) (fun h => h) (by simp)
  split_ifs
  · exact traced_refuse
  refine traced_query (.inr h₁) (by simp [ReplayFree]) fun active => ?_
  split_ifs
  · exact traced_refuse
  · exact traced_insertAndCommit (h₁.add (fun h => h) (by simp))

theorem traced_submitLocked {input : SubmitInput} (h : Working hist) :
    (submitLocked input).Traced Disciplined ReplayFree hist := by
  refine traced_query (.inr h) (by simp [ReplayFree]) fun found => ?_
  have h₁ := h.add (e := ⟨.selectKey input.idempotencyKey, .ok found⟩) (fun h => h) (by simp)
  cases found with
  | none => exact traced_submitNew h₁
  | some row =>
      refine traced_query (.inl rfl) (by simp [ReplayFree]) fun _ => ?_
      have hnone := noCommit_append h₁.noCommit (e := ⟨.rollback, .ok ()⟩) (by simp)
      split_ifs
      · rintro _ ⟨⟩
      · exact fun _ _ _ => hnone

theorem traced_submitBody {input : SubmitInput} (h : Working hist) :
    (submitBody input).Traced Disciplined ReplayFree hist := by
  refine traced_query (.inr h) (by simp [ReplayFree]) fun _ => ?_
  have h₁ := h.add (e := ⟨.begin, .ok ()⟩) (fun h => h) (by simp)
  refine traced_query (.inr h₁) (by simp [ReplayFree]) fun _ => ?_
  exact traced_submitLocked (h₁.add (fun h => h) (by simp))

theorem traced_transitionBody {id : Uuid} {expected stage : ChangeStage}
    {fields : TransitionFields} {event : TransitionEvent} {version : Option Nat}
    (h : Working hist) :
    (transitionBody id expected stage fields event version).Traced Disciplined
      (fun hist r => r = .ok none → NoCommit hist) hist := by
  refine traced_query (.inr h) (by simp) fun _ => ?_
  have h₁ := h.add (e := ⟨.begin, .ok ()⟩) (fun h => h) (by simp)
  refine traced_query (.inr h₁) (by simp) fun found => ?_
  cases found with
  | none =>
      refine traced_query (.inl rfl) (by simp) fun _ => fun _ => ?_
      exact noCommit_append (noCommit_append h₁.noCommit (by simp)) (by simp)
  | some row =>
      have h₂ := h₁.add (e := ⟨.updateRequest id expected stage fields version, .ok (some row)⟩)
        (fun h => h) (by simp)
      refine traced_query (.inr h₂) (by simp) fun _ => ?_
      refine traced_query (.inr (h₂.add (fun h => h) (by simp))) (by simp) fun _ => ?_
      intro hnone
      cases hnone

/-- The connection and the `catch` around a body: the error path only rolls back. -/
theorem traced_client {body : Query α} {catcher : Except Thrown α → Query α}
    {R : List (Event sig) → Except Thrown α → Prop}
    (hbody : ∀ hist, Working hist → body.Traced Disciplined R hist)
    (hok : ∀ a, catcher (.ok a) = .ret a) (herr : ∀ e, ∃ e', catcher (.error e) = rollBack e') :
    (query .connect >>= fun _ => (Prog.attempt body : Query _) >>= catcher).Traced Disciplined
      (fun hist r => ∀ a, r = .ok a → R hist (.ok a)) [] := by
  refine traced_query (.inr .nil) (by simp) fun _ => ?_
  refine Prog.Traced.attempt (hbody _ (Working.nil.add (fun h => h) (by simp))) ?_
  rintro hist (e | a) h
  · -- the error path
    obtain ⟨e', he'⟩ := herr e
    rw [he']
    refine ⟨.inl rfl, fun r => ?_⟩
    cases r <;> rintro _ ⟨⟩
  · rw [hok]
    rintro _ ⟨⟩
    exact h

theorem traced_run {fn : Query α} {R : List (Event sig) → α → Prop} {f : α → Outcome}
    (hfn : fn.Traced Disciplined (fun hist r => ∀ a, r = .ok a → R hist a) [])
    (h : ∀ hist a, R hist a → Unchanged hist (.ok (f a))) :
    (run fn >>= fun r => (return f r : Prog sig StoreError Outcome)).Traced Disciplined
      Unchanged [] := by
  refine Prog.Traced.bind (R := fun hist r => ∀ a, r = .ok a → R hist a) ?_
    (fun hist a hR => h hist a (hR a rfl)) fun _ _ _ => trivial
  refine Prog.Traced.attempt hfn ?_
  rintro hist ((e | e) | a) hR
  · rintro _ ⟨⟩
  · rintro _ ⟨⟩
  · rintro _ ⟨⟩
    exact hR a rfl

end Traced

/-- `COMMIT` is sent only when everything before it worked, and a call that answers
that it changed nothing did not send it. -/
theorem transaction_traced (task : Task) :
    (taskProg task).Traced Disciplined Unchanged [] := by
  cases task with
  | submit input =>
      refine traced_run (f := Outcome.submitted) (traced_client (fun hist => traced_submitBody)
        (fun _ => rfl) fun e => ⟨submitThrown e, rfl⟩) ?_
      exact fun hist a h => h a rfl
  | transition id expected stage fields event version =>
      refine traced_run (f := Outcome.transitioned) (traced_client
        (fun hist => traced_transitionBody) (fun _ => rfl) fun e => ⟨e, rfl⟩) ?_
      intro hist a h
      cases a with
      | none => exact h rfl
      | some record => trivial

/-- After a refusal no `COMMIT` is sent. -/
theorem noCommit_of_refusal {hist : List (Event sig)}
    (hsent : ∀ h₁ e h₂, hist = h₁ ++ e :: h₂ → Disciplined h₁ e.op) {e : Event sig}
    (he : e ∈ hist) (hcommit : e.op ≠ .commit) (hrollback : e.op ≠ .rollback)
    (hrefusal : Refusal e) : NoCommit hist := by
  intro r hr
  obtain ⟨h₁, h₂, hsplit⟩ := List.append_of_mem he
  have hworking : Working h₁ := (hsent h₁ e h₂ hsplit).resolve_left hrollback
  rw [hsplit] at hr
  rcases List.mem_append.mp hr with hr | hr
  · exact hworking.noCommit r hr
  rcases List.mem_cons.mp hr with rfl | hr
  · exact hcommit rfl
  · -- a `COMMIT` after the refusal
    obtain ⟨h₃, h₄, rfl⟩ := List.append_of_mem hr
    have hafter := (hsent (h₁ ++ e :: h₃) ⟨.commit, r⟩ h₄ (by simp [hsplit])).resolve_left (by simp)
    exact (hafter e (by simp)).1 hrefusal

/-! ## The trail of a row -/

/-- Thread `t` committed a change. -/
def Changed (s : PState) (t : Nat) : Prop := ∃ c ∈ s.shared.db.log, c.thread = t

instance (s : PState) (t : Nat) : Decidable (Changed s t) :=
  inferInstanceAs (Decidable (∃ c ∈ s.shared.db.log, c.thread = t))

/-- What the compare-and-set of a task is on. -/
def Task.expects : Task → Option (Uuid × ChangeStage × Option Nat)
  | .submit _ => none
  | .transition id expectedStage _ _ _ expectedVersion => some (id, expectedStage, expectedVersion)

/-- Thread `t` is a transition issued for this stage and version of request `id`. -/
def Issued (s : PState) (t : Nat) (id : Uuid) (expected : ChangeStage) (version : Nat) : Prop :=
  s.threads[t]?.bind (·.task.expects) = some (id, expected, some version)

instance (s : PState) (t : Nat) (id : Uuid) (expected : ChangeStage) (version : Nat) :
    Decidable (Issued s t id expected version) :=
  inferInstanceAs (Decidable (_ = _))

/-- A change of a row gives the row another version, if versions do not come twice. -/
theorem version_moves {id : Uuid} {log l₁ l₂ : List Commit} {c last last' : Commit}
    (hstarts : l₁ ++ c :: l₂ <+: log) (hc : c.request = id)
    (hversions : ((commitsOf log id).map (·.version)).Nodup)
    (hlast : (commitsOf l₁ id).getLast? = some last)
    (hlast' : (commitsOf (l₁ ++ c :: l₂) id).getLast? = some last') :
    last.version ≠ last'.version := by
  obtain ⟨l₃, rfl⟩ := hstarts
  have hcons : commitsOf (c :: l₂) id = c :: commitsOf l₂ id := by simp [commitsOf, hc]
  rw [commitsOf_append, hcons, List.getLast?_append, List.getLast?_cons, Option.some_or,
    Option.some.injEq] at hlast'
  rw [commitsOf_append, commitsOf_append, hcons, List.append_assoc, List.map_append,
    List.nodup_append] at hversions
  refine hversions.2.2 _ (List.mem_map_of_mem (List.mem_of_getLast? hlast)) _
    (List.mem_map_of_mem (List.mem_append_left _ ?_))
  rw [← hlast']
  cases hrest : (commitsOf l₂ id).getLast? with
  | none => simp
  | some c' => simp [List.mem_of_getLast? hrest]

theorem Faithful.issued {s : PState} (h : Faithful s) {t : Nat} {id : Uuid}
    {expected : ChangeStage} {version : Nat} (hissued : Issued s t id expected version)
    (hchanged : Changed s t) : ∃ l₁ c l₂ last, s.shared.db.log = l₁ ++ c :: l₂ ∧ c.thread = t ∧
      c.request = id ∧ (commitsOf l₁ id).getLast? = some last ∧ last.version = version := by
  obtain ⟨c, hc, rfl⟩ := hchanged
  obtain ⟨l₁, l₂, hlog⟩ := List.append_of_mem hc
  obtain ⟨th, hth, hmeets, -⟩ := h.made l₁ c l₂ hlog
  rw [Issued, hth, Option.bind_some] at hissued
  cases htask : th.task with
  | submit input =>
      rw [htask] at hissued
      cases hissued
  | transition id' expected' stage fields event version' =>
      rw [htask] at hissued hmeets
      cases hissued
      obtain ⟨hid, -, -, last, hlast, -, hversion⟩ := hmeets
      exact ⟨l₁, c, l₂, last, hlog, rfl, hid, hlast, hversion version rfl⟩

/-- Two transitions that were issued for one version do not both commit, if the
committed versions of the row are distinct. -/
theorem Faithful.one_commit {s : PState} (h : Faithful s) {t t' : Nat} {id : Uuid}
    {expected : ChangeStage} {version : Nat} (hissued : Issued s t id expected version)
    (hissued' : Issued s t' id expected version) (hchanged : Changed s t)
    (hchanged' : Changed s t')
    (hversions : ((commitsOf s.shared.db.log id).map (·.version)).Nodup) : t = t' := by
  obtain ⟨l₁, c, l₂, last, hlog, hct, hid, hlast, hversion⟩ := h.issued hissued hchanged
  obtain ⟨l₁', c', l₂', last', hlog', hct', hid', hlast', hversion'⟩ :=
    h.issued hissued' hchanged'
  have hsame : last.version = last'.version := hversion.trans hversion'.symm
  rcases List.append_eq_append_iff.mp (hlog.symm.trans hlog') with
    ⟨between, rfl, htail⟩ | ⟨between, rfl, htail⟩
  · cases between with
    | nil =>
        obtain rfl := (List.cons.inj htail).1
        rw [← hct, ← hct']
    | cons x rest =>
        obtain rfl := (List.cons.inj htail).1
        refine absurd hsame (version_moves ?_ hid hversions hlast hlast')
        rw [hlog']
        exact List.prefix_append _ _
  · cases between with
    | nil =>
        obtain rfl := (List.cons.inj htail).1
        rw [← hct, ← hct']
    | cons x rest =>
        obtain rfl := (List.cons.inj htail).1
        refine absurd hsame.symm (version_moves ?_ hid' hversions hlast' hlast)
        rw [hlog]
        exact List.prefix_append _ _

theorem refused_unchanged {s : PState} (h : store.Reachable start s) {t : Nat}
    {th : store.Thread} (hth : s.threads[t]? = some th) (hnone : NoCommit th.hist) :
    ¬ Changed s t := by
  rintro ⟨c, hc, rfl⟩
  obtain ⟨l₁, l₂, hlog⟩ := List.append_of_mem hc
  obtain ⟨th', hth', -, r, hr⟩ := (faithful h).made l₁ c l₂ hlog
  cases hth.symm.trans hth'
  exact hnone r hr

theorem keeps_reaches {s s' : PState} (h : store.Reachable start s)
    (hreach : System.Reaches s s') : ∀ row ∈ s.shared.db.requests.rows,
      ∃ row' ∈ s'.shared.db.requests.rows, Keeps row row' := by
  refine System.Reaches.lift (R := fun s s' : PState => ∀ row ∈ s.shared.db.requests.rows,
    ∃ row' ∈ s'.shared.db.requests.rows, Keeps row row') ?_ ?_ ?_ h hreach
  · exact fun s row hrow => ⟨row, hrow, .refl row⟩
  · intro a b c hab hbc row hrow
    obtain ⟨row₁, hrow₁, hkeeps₁⟩ := hab row hrow
    obtain ⟨row₂, hrow₂, hkeeps₂⟩ := hbc row₁ hrow₁
    exact ⟨row₂, hrow₂, hkeeps₁.trans hkeeps₂⟩
  · intro a b act ha hstep
    rcases step_change ha hstep with hdb | ⟨_, _, _, _, _, _, _, _, -, -, -, -, -, -, hkeeps⟩
    · rw [hdb]
      exact fun row hrow => ⟨row, hrow, .refl row⟩
    · exact hkeeps

/-- The trail of a row starts with its submission and ends with its stage; a step
commits one change with its one event or leaves the tables alone; a transition that
found another stage or version, or failed before its `COMMIT`, changed nothing; one
of the transitions issued for a stage and version commits, if the versions of the
row are distinct; and what is set of a pull request stays set. -/
theorem trail_kept {s : PState} (h : store.Reachable start s) :
    (∀ row ∈ s.shared.db.requests.rows,
      (trail s.shared.db row.id).head? = some (.change .submitted) ∧
      (trail s.shared.db row.id).getLast? = some (.change row.stage)) ∧
    (∀ act s', System.step s act = some s' → s'.shared.db = s.shared.db ∨
      ∃ t ans row event source, act = .act t ans ∧
        Change t s.shared.db s'.shared.db row event source) ∧
    (∀ (t : Nat) (th : store.Thread), s.threads[t]? = some th →
      ((∃ e ∈ th.hist, e.op ≠ .commit ∧ e.op ≠ .rollback ∧ Refusal e) ∨
        th.rest = .ret (.transitioned none)) → ¬ Changed s t) ∧
    (∀ id expected version t t', Issued s t id expected version →
      Issued s t' id expected version → Changed s t → Changed s t' →
      ((commitsOf s.shared.db.log id).map (·.version)).Nodup → t = t') ∧
    (∀ s', System.Reaches s s' → ∀ row ∈ s.shared.db.requests.rows,
      ∃ row' ∈ s'.shared.db.requests.rows, Keeps row row') := by
  have hfaithful := faithful h
  refine ⟨fun row hrow => ?_, fun act s' hstep => ?_, fun t th hth hrefused => ?_,
    fun id expected version t t' => hfaithful.one_commit, fun s' => keeps_reaches h⟩
  · obtain ⟨c, hc, -, htarget⟩ := (store_holds h).1.last row hrow
    rw [hfaithful.trail_eq, List.head?_map, List.getLast?_map, hc]
    refine ⟨?_, by simp [htarget]⟩
    cases hhead : (commitsOf s.shared.db.log row.id).head? with
    | none =>
        rw [List.head?_eq_none_iff.mp hhead] at hc
        cases hc
    | some first => simp [hfaithful.head hhead]
  · rcases step_change h hstep with hdb | ⟨t, ans, _, _, _, row, event, source, rfl, -, -, -, hchange, -⟩
    · exact .inl hdb
    · exact .inr ⟨t, ans, row, event, source, rfl, hchange⟩
  · refine refused_unchanged h hth ?_
    rcases hrefused with ⟨e, he, hcommit, hrollback, hrefusal⟩ | hrest
    · refine noCommit_of_refusal (fun h₁ e h₂ hsplit => ?_) he hcommit hrollback hrefusal
      exact h.traced_hist (P := fun _ => Disciplined) transaction_traced hth hsplit
    · have htraced := h.traced transaction_traced hth
      rw [hrest] at htraced
      exact htraced

/-! ## Two touches of one version -/

def touchedInput : SubmitInput where
  filePath := "policies/analysts.yaml"
  endpoint := "PUT /groups"
  idempotencyKey := "k1"
  payloadSha256 := "p1"
  baseBlobSha := "b1"
  sourceCommitSha := "c1"
  allowedGroups := ["analysts"]
  actorSub := "sub-1"
  actorUsername := none
  branch := "manager/sso-1"
  reason := none

/-- A recovery's touch of the row, with the version it read or none. -/
def touch (version : Option Nat) : store.Act :=
  .spawn (.transition 1 .submitted .submitted {} {} version)

/-- The statements of thread `t`, in a transaction that starts at `now`. -/
def statements (t now n : Nat) : List store.Act :=
  List.replicate n (.act t { now := now, id := 1 })

/-- A request of version 1, and two touches issued for that version. -/
def raceRun : List store.Act :=
  .spawn (.submit touchedInput) :: statements 0 1 9 ++
    touch (some 1) :: touch (some 1) :: statements 1 5 5 ++ statements 2 5 4

theorem raceRun_isSome : (System.run (System.init start) raceRun).isSome := by decide +kernel

def raceState : PState := (System.run (System.init start) raceRun).get raceRun_isSome

/-- `trail_kept` on that race: two events, the loser changed nothing, one winner. -/
theorem trail_kept_race :
    (∃ row ∈ raceState.shared.db.requests.rows, row.pr_number = none ∧
      (trail raceState.shared.db row.id).head? = some (.change .submitted) ∧
      (trail raceState.shared.db row.id).getLast? = some (.change row.stage)) ∧
    ¬ Changed raceState 2 ∧ (∀ t, Issued raceState t 1 .submitted 1 → Changed raceState t → t = 1) ∧
    ∀ s', System.Reaches raceState s' → ∃ row' ∈ s'.shared.db.requests.rows, row'.id = 1 := by
  have hreach := System.reachable_get raceRun_isSome
  have hrow : ∃ row ∈ raceState.shared.db.requests.rows, row.id = 1 ∧ row.pr_number = none := by
    decide +kernel
  obtain ⟨row, hmem, hid, hnumber⟩ := hrow
  obtain ⟨htrail, -, hrefused, hone, hkeeps⟩ := trail_kept hreach
  refine ⟨⟨row, hmem, hnumber, htrail row hmem⟩, ?_, ?_, ?_⟩
  · refine hrefused 2 ((raceState.threads[2]?).get (by decide +kernel)) (Option.some_get _).symm
      (.inl ⟨⟨.updateRequest 1 .submitted .submitted {} (some 1), .ok none⟩, ?_, ?_⟩)
    · exact List.mem_of_getElem? (i := 2) rfl
    · exact ⟨by simp, by simp, trivial⟩
  · exact fun t hissued hchanged => hone 1 .submitted 1 t 1 hissued (by decide +kernel) hchanged
      (by decide +kernel) (by decide +kernel)
  · intro s' hreaches
    obtain ⟨row', hrow', hkeep⟩ := hkeeps s' hreaches row hmem
    exact ⟨row', hrow', hkeep.id.trans hid⟩

/-- Thread 1, without a version, and thread 2, for version 1, start at one moment.
Thread 2 commits, thread 3 touches the version 2 left, thread 1 commits and brings
that version back, and thread 4 touches it again. -/
def repeatRun : List store.Act :=
  .spawn (.submit touchedInput) :: statements 0 1 9 ++
    touch none :: touch (some 1) :: statements 1 9 2 ++ statements 2 9 5 ++
    touch (some 9) :: statements 3 12 5 ++ statements 1 9 3 ++
    touch (some 9) :: statements 4 15 5

theorem repeatRun_isSome : (System.run (System.init start) repeatRun).isSome := by decide +kernel

/-- Without the condition on versions, two transitions that were issued for one
stage and version can both commit. -/
theorem repeated_version_commits_twice : ∃ s, store.Reachable start s ∧ ∃ t t', t ≠ t' ∧
    Issued s t 1 .submitted 9 ∧ Issued s t' 1 .submitted 9 ∧ Changed s t ∧ Changed s t' :=
  ⟨_, System.reachable_get repeatRun_isSome, 3, 4, by decide +kernel⟩

end Sso.Pg
