import Beluga.Sso.Ledger
import Beluga.Sso.SqlRules
import Mathlib.Data.List.Pairwise

/-! # One submit for each key

Over any number of concurrent `submit` and `transition` transactions
(`Beluga.Sso.Sql`) keys and branches stay unique, a known key replays or is
refused, and a refused call writes nothing. Over any number of handlers
(`Beluga.Sso.Protocol`) one key reaches the writer at most once.

* `commit_step`: the refinement, step by step;
* `known_key`: what a `submit` answers whose key is in the table;
* `known_answers`: that it does answer;
* `created_once`: one handler for each key calls `createChangePr`;
* `idempotent_submit`: all of it.
-/

namespace Sso

open Interact

namespace Pg

variable {s s' : PState}

/-! ## Steps -/

/-- Every step is invisible to the tables, or a `COMMIT` that is one atomic call. -/
theorem commit_step (h : store.Reachable start s) {a : store.Act}
    (hstep : System.step s a = some s') :
    s'.shared.db = s.shared.db ∨ ∃ t ans th k, a = .act t ans ∧ s.threads[t]? = some th ∧
      th.rest = .call .commit k ∧ Atomic t s.shared.db s'.shared.db th.task.op := by
  obtain ⟨k, -, rfl⟩ | ⟨t, ans, th, op, k, r, g', rfl, hth, hrest, hx, rfl⟩ |
    ⟨e, -⟩ := System.step_cases hstep
  · exact .inl rfl
  · rcases (serve_frame hx).2 with hdb | ⟨rfl, tx, htx, hcommit⟩
    · exact .inl hdb
    · right
      have hok := (store_holds h).ok hth hrest
      rw [monitor_ofTask] at hok
      exact ⟨t, ans, th, k, rfl, hth, hrest, commit_atomic (hok tx htx) hcommit⟩
  · exact nomatch e

theorem grows_reaches (h : store.Reachable start s) (hreach : System.Reaches s s') :
    Grows s.shared.db s'.shared.db := by
  refine System.Reaches.lift (R := fun (s s' : PState) => Grows s.shared.db s'.shared.db)
    (fun s => .refl _) (fun h h' => h.trans h') ?_ h hreach
  intro a b act ha hstep
  rcases commit_step ha hstep with hdb | ⟨t, _, th, _, -, -, -, hatomic⟩
  · rw [hdb]
    exact .refl _
  · exact grows_effect hatomic.effect

/-! ## What a call found -/

variable {t : Nat} {th : store.Thread} {input : SubmitInput} {row : RequestRow}

/-- A row that a call found under its key is in the table, under that name. -/
theorem found_row (h : store.Reachable start s) (hth : s.threads[t]? = some th) {key : String}
    (hfound : (⟨.selectKey key, .ok (some row)⟩ : Event sig) ∈ th.hist) :
    ∃ row' ∈ s.shared.db.requests.rows, row'.id = row.id ∧ row'.idempotency_key = key ∧
      row'.payload_sha256 = row.payload_sha256 := by
  refine System.Reachable.events (P := fun _ e (s : Shared) => ∀ row,
    e = (⟨.selectKey key, .ok (some row)⟩ : Event sig) →
    ∃ row' ∈ s.db.requests.rows, row'.id = row.id ∧ row'.idempotency_key = key ∧
      row'.payload_sha256 = row.payload_sha256) ?_ ?_ h t th hth _ hfound row rfl
  · rintro s t th op k ans r g' _ _ _ hx row heq
    cases heq
    obtain ⟨tx, -, hserve⟩ := inTx_ok (serve_ok hx)
    simp only [Option.some.injEq, Prod.mk.injEq, Except.ok.injEq] at hserve
    obtain ⟨hfind, rfl⟩ := hserve
    obtain ⟨hrow, hkey⟩ := RequestTable.findKey_mem hfind
    exact ⟨row, hrow, rfl, hkey, rfl⟩
  · intro s s' a hs hstep t e ih row heq
    obtain ⟨row₁, hrow₁, hid, hkey, hsha⟩ := ih row heq
    obtain ⟨row₂, hrow₂, hid₂, hkey₂, -, hsha₂⟩ := grows_reaches hs (.single hstep) row₁ hrow₁
    exact ⟨row₂, hrow₂, hid₂.trans hid, hkey₂.trans hkey, hsha₂.trans hsha⟩

/-- A call that starts when its key is in the table finds that row. -/
theorem found_known (h : store.Reachable start s) (hrow : row ∈ s.shared.db.requests.rows)
    {task : Task} (hreach : System.Reaches
      { s with threads := s.threads ++ [⟨task, [], taskProg task⟩] } s')
    (hth : s'.threads[s.threads.length]? = some th) {found : Option RequestRow}
    (hfound : (⟨.selectKey row.idempotency_key, .ok found⟩ : Event sig) ∈ th.hist) :
    ∃ row', found = some row' ∧ row'.id = row.id ∧ row'.payload_sha256 = row.payload_sha256 := by
  have hspawn : store.Reachable start
      { s with threads := s.threads ++ [⟨task, [], taskProg task⟩] } :=
    h.tail (a := .spawn task) rfl
  refine System.Reaches.events (P := fun t e (_ : Shared) => t = s.threads.length →
    ∀ found, e = (⟨.selectKey row.idempotency_key, .ok found⟩ : Event sig) → ∃ row',
      found = some row' ∧ row'.id = row.id ∧ row'.payload_sha256 = row.payload_sha256)
    ?_ ?_ (fun _ _ _ _ ih => ih) hreach _ th hth _ hfound rfl found rfl
  · rintro t th hth e he rfl
    rw [List.getElem?_append_right (Nat.le_refl _)] at hth
    simp only [Nat.sub_self, List.getElem?_cons_zero, Option.some.injEq] at hth
    subst hth
    cases he
  · rintro s₁ t th op k ans r g' hs₁ _ _ hx rfl found heq
    cases heq
    obtain ⟨tx, -, hserve⟩ := inTx_ok (serve_ok hx)
    simp only [Option.some.injEq, Prod.mk.injEq, Except.ok.injEq] at hserve
    obtain ⟨rfl, -⟩ := hserve
    -- the row is still there, and the key names it
    obtain ⟨row₁, hrow₁, hid, hkey, -, hsha⟩ := grows_reaches hspawn hs₁ row hrow
    cases hfind : s₁.shared.db.requests.findKey row.idempotency_key with
    | none => exact absurd hkey (RequestTable.findKey_none hfind hrow₁)
    | some row₂ =>
        obtain ⟨hrow₂, hkey₂⟩ := RequestTable.findKey_mem hfind
        obtain rfl := RequestTable.eq_of_key hrow₂ hrow₁ (hkey₂.trans hkey.symm)
        exact ⟨row₂, rfl, hid, hsha⟩

/-! ## What a call answers -/

theorem submitted_of_ret (h : store.Reachable start s) (hth : s.threads[t]? = some th)
    (htask : th.task = .submit input) {r : SubmitResult} (hrest : th.rest = .ret (.submitted r)) :
    Submitted input th.hist s.shared.db r := by
  have hpost := (store_holds h).post hth hrest
  rwa [monitor_ofTask, htask] at hpost

theorem refused_of_raise (h : store.Reachable start s) (hth : s.threads[t]? = some th)
    (htask : th.task = .submit input) {e : StoreError} (hrest : th.rest = .raise e) :
    e.code = .UNAVAILABLE ∨ Refused input th.hist e := by
  have hpost := (store_holds h).post_error hth hrest
  rwa [monitor_ofTask, htask] at hpost

/-- What a call answers whose key was in the table when it started. -/
theorem known_key (h : store.Reachable start s) (hrow : row ∈ s.shared.db.requests.rows)
    (hkey : input.idempotencyKey = row.idempotency_key) (hreach : System.Reaches
      { s with threads := s.threads ++ [⟨.submit input, [], taskProg (.submit input)⟩] } s')
    (hth : s'.threads[s.threads.length]? = some th) :
    (∀ r, th.rest = .ret (.submitted r) → r.replay = true ∧ r.record.id = row.id ∧
      row.payload_sha256 = input.payloadSha256 ∧ NoCommit th.hist) ∧
    (∀ e, th.rest = .raise e → e.code = .UNAVAILABLE ∨ (e.code = .IDEMPOTENCY_MISMATCH ∧
      row.payload_sha256 ≠ input.payloadSha256 ∧ NoCommit th.hist)) := by
  have hs' : store.Reachable start s' :=
    System.Reaches.trans (h.tail (a := .spawn (.submit input)) rfl) hreach
  have hnew : (s.threads ++ [⟨.submit input, [], taskProg (.submit input)⟩])[s.threads.length]? =
      some (⟨.submit input, [], taskProg (.submit input)⟩ : store.Thread) := by simp
  obtain ⟨th', hth', htask, -⟩ := hreach.thread hnew
  cases hth.symm.trans hth'
  have hknown : ∀ found, Found input th.hist found → ∃ row', found = some row' ∧
      row'.id = row.id ∧ row'.payload_sha256 = row.payload_sha256 := by
    intro found hfound
    rw [Found, hkey] at hfound
    exact found_known h hrow hreach hth hfound
  refine ⟨fun r hrest => ?_, fun e hrest => ?_⟩
  · rcases submitted_of_ret hs' hth htask hrest with ⟨hreplay, hcommit, row', hfound, hsha, hrec⟩ |
      ⟨-, hnone, -⟩
    · obtain ⟨_, heq, hid, hsha'⟩ := hknown _ hfound
      cases heq
      exact ⟨hreplay, by rw [hrec]; exact hid, hsha' ▸ hsha, hcommit⟩
    · obtain ⟨_, heq, -⟩ := hknown _ hnone
      cases heq
  · rcases refused_of_raise hs' hth htask hrest with hcode | ⟨hcommit, hrefused⟩
    · exact .inl hcode
    · rcases hrefused with ⟨hcode, row', hfound, hsha⟩ | ⟨-, hnone⟩
      · obtain ⟨_, heq, -, hsha'⟩ := hknown _ hfound
        cases heq
        exact .inr ⟨hcode, hsha' ▸ hsha, hcommit⟩
      · obtain ⟨_, heq, -⟩ := hknown _ hnone
        cases heq

/-- And it does answer, once the lock is free and its statements are served. -/
theorem known_served {sh : Shared} (t : Nat) (hlock : sh.lock = none)
    (hfind : sh.db.requests.findKey input.idempotencyKey = some row) :
    ∃ answers sh', System.serveAll store t sh (taskProg (.submit input)) answers =
        some (sh', if row.payload_sha256 = input.payloadSha256
          then .ret (.submitted ⟨toRecord row, true⟩) else .raise idempotencyMismatch) ∧
      sh'.db = sh.db := by
  by_cases hsha : row.payload_sha256 = input.payloadSha256
  · -- connect, BEGIN, the lock, the key, ROLLBACK
    refine ⟨List.replicate 5 {}, ?_⟩
    simp [List.replicate, System.serveAll, taskProg, submit, run, query, submitBody, submitLocked,
      Prog.perform, Prog.bind_eq, Prog.pure_eq, Prog.bind, Prog.attempt, Prog.ofExcept,
      Except.mapError, serve, stmtServe, inTx, Shared.setSession, Free, hlock, hfind, replay, hsha]
  · -- and a second ROLLBACK in the `catch`
    refine ⟨List.replicate 6 {}, ?_⟩
    simp [List.replicate, System.serveAll, taskProg, submit, run, query, submitBody, submitLocked,
      Prog.perform, Prog.bind_eq, Prog.bind, Prog.attempt, Prog.ofExcept,
      Except.mapError, serve, stmtServe, inTx, Shared.setSession, Shared.finish, Free, hlock,
      hfind, replay, hsha, rollBack, submitThrown]

/-- A call of a known key, started in `s` and served alone, answers and writes nothing. -/
theorem known_answers (hlock : s.shared.lock = none)
    (hfind : s.shared.db.requests.findKey input.idempotencyKey = some row) :
    ∃ (answers : List Answer) (s' : PState) (th : store.Thread),
      System.run s (.spawn (.submit input) :: answers.map (.act s.threads.length)) = some s' ∧
      s'.threads[s.threads.length]? = some th ∧ s'.shared.db = s.shared.db ∧
      th.rest = if row.payload_sha256 = input.payloadSha256
        then .ret (.submitted ⟨toRecord row, true⟩) else .raise idempotencyMismatch := by
  obtain ⟨answers, sh', hserved, hdb⟩ := known_served s.threads.length hlock hfind
  have hnew : (s.threads ++ [⟨.submit input, [], taskProg (.submit input)⟩])[s.threads.length]? =
      some (⟨.submit input, [], taskProg (.submit input)⟩ : store.Thread) := by simp
  obtain ⟨s', th, hrun, rfl, hth, hrest⟩ := System.run_serveAll
    (s := { s with threads := s.threads ++ [⟨.submit input, [], taskProg (.submit input)⟩] })
    hnew hserved
  exact ⟨answers, s', th, hrun, hth, hdb, hrest⟩

end Pg

/-! ## Handlers -/

variable {deps : Deps} {W : World} {g : W.State} {s : PState deps W} {t t' : Nat}
  {th th' : (protocol deps W).Thread}

/-- `createChangePr` was entered. -/
def Creates (hist : List (Event sig)) : Prop :=
  ∃ input u, (⟨.trace (.createChangePr input), u⟩ : Event sig) ∈ hist

/-- The handler that enters `createChangePr` committed the row of its key. -/
theorem created_commit (h : (protocol deps W).Reachable (start W g) s)
    (hth : s.threads[t]? = some th) {req : PostRequest} (htask : th.task = .post req)
    (hcreates : Creates th.hist) : ∃ key, req.key = some key ∧
      ∃ c ∈ s.shared.db.log, c.source = none ∧ c.key = key ∧ c.thread = t := by
  obtain ⟨input, u, hmem⟩ := hcreates
  obtain ⟨p, q, hsplit⟩ := List.append_of_mem hmem
  have hp := handler h hth (by rw [htask]; exact id) hsplit
  obtain ⟨s₁, hok⟩ := was_disciplined h hth hsplit
  have hscope : (currentRun th.task p).scope = .post req.key := by rw [hp.scope, htask]; rfl
  simp only [Disciplined, CreateOk, hscope] at hok
  obtain ⟨submitted, r, hsubmit, hreplay, hkey, -⟩ := hok
  have hsubmit : (⟨.store (.submit submitted), .ok r⟩ : Event sig) ∈ th.hist :=
    hsplit ▸ List.mem_append_left _ (mem_hist_of_calls hsubmit)
  obtain ⟨-, hlog⟩ := told_onRecord h hth hsubmit hreplay
  exact ⟨submitted.idempotencyKey, hkey, _, hlog, rfl, rfl, rfl⟩

/-- One key reaches the writer through one handler. -/
theorem created_once (h : (protocol deps W).Reachable (start W g) s)
    (hth : s.threads[t]? = some th) (hth' : s.threads[t']? = some th') {req req' : PostRequest}
    (htask : th.task = .post req) (htask' : th'.task = .post req') (hkey : req.key = req'.key)
    (hcreates : Creates th.hist) (hcreates' : Creates th'.hist) : t = t' := by
  obtain ⟨key, hk, c, hc, hsource, hckey, rfl⟩ := created_commit h hth htask hcreates
  obtain ⟨key', hk', c', hc', hsource', hckey', rfl⟩ := created_commit h hth' htask' hcreates'
  -- the log has one insert for each key
  by_cases heq : c = c'
  · rw [heq]
  · have hsymm : Std.Symm fun c c' : Commit => c.key ≠ c'.key := ⟨fun _ _ h => h.symm⟩
    have hpair := (protocol_consistent h).inserts.forall
      (List.mem_filter.mpr ⟨hc, by simpa using hsource⟩)
      (List.mem_filter.mpr ⟨hc', by simpa using hsource'⟩) heq
    rw [hk, hk', Option.some.injEq] at hkey
    exact absurd (by rw [hckey, hckey', hkey]) hpair

/-- Keys and branches are unique, only a `COMMIT` writes and it is one atomic
call, a known key replays or is refused, refusals and replays commit nothing,
and one handler for each key enters `createChangePr`. -/
theorem idempotent_submit :
    (∀ s : Pg.PState, Pg.store.Reachable Pg.start s →
      (∀ row ∈ s.shared.db.requests.rows, ∀ row' ∈ s.shared.db.requests.rows,
        row.idempotency_key = row'.idempotency_key ∨ row.branch = row'.branch → row = row') ∧
      (∀ a s', System.step s a = some s' → s'.shared.db = s.shared.db ∨
        ∃ t ans th k, a = .act t ans ∧ s.threads[t]? = some th ∧ th.rest = .call .commit k ∧
          Pg.Atomic t s.shared.db s'.shared.db th.task.op) ∧
      (∀ (t : Nat) (th : Pg.store.Thread) (input : SubmitInput), s.threads[t]? = some th →
        th.task = .submit input →
        (∀ r, th.rest = .ret (.submitted r) → r.replay = true → Pg.NoCommit th.hist ∧
          ∃ row ∈ s.shared.db.requests.rows, row.id = r.record.id ∧
            row.idempotency_key = input.idempotencyKey ∧
            row.payload_sha256 = input.payloadSha256) ∧
        (∀ e, th.rest = .raise e → e.code = .UNAVAILABLE ∨ Pg.NoCommit th.hist)) ∧
      (∀ row ∈ s.shared.db.requests.rows, ∀ input : SubmitInput,
        input.idempotencyKey = row.idempotency_key →
        (∀ (s' : Pg.PState) (th : Pg.store.Thread), System.Reaches
            { s with threads := s.threads ++
              [⟨.submit input, [], Pg.taskProg (.submit input)⟩] } s' →
          s'.threads[s.threads.length]? = some th →
          (∀ r, th.rest = .ret (.submitted r) → r.replay = true ∧ r.record.id = row.id ∧
            row.payload_sha256 = input.payloadSha256 ∧ Pg.NoCommit th.hist) ∧
          (∀ e, th.rest = .raise e → e.code = .UNAVAILABLE ∨ (e.code = .IDEMPOTENCY_MISMATCH ∧
            row.payload_sha256 ≠ input.payloadSha256 ∧ Pg.NoCommit th.hist))) ∧
        (s.shared.lock = none → ∃ (answers : List Pg.Answer) (s' : Pg.PState)
            (th : Pg.store.Thread),
          System.run s (.spawn (.submit input) ::
            answers.map (.act s.threads.length)) = some s' ∧
          s'.threads[s.threads.length]? = some th ∧ s'.shared.db = s.shared.db ∧
          th.rest = if row.payload_sha256 = input.payloadSha256
            then .ret (.submitted ⟨toRecord row, true⟩)
            else .raise Pg.idempotencyMismatch))) ∧
    (∀ (deps : Deps) (W : World) (g : W.State) (s : PState deps W),
      (protocol deps W).Reachable (start W g) s →
      ∀ (t t' : Nat) (th th' : (protocol deps W).Thread) (req req' : PostRequest),
      s.threads[t]? = some th → s.threads[t']? = some th' → th.task = .post req →
      th'.task = .post req' → req.key = req'.key → Creates th.hist → Creates th'.hist →
      t = t') := by
  refine ⟨fun s h => ⟨?_, ?_, ?_, ?_⟩, ?_⟩
  · rintro row hrow row' hrow' (hkey | hbranch)
    · exact RequestTable.eq_of_key hrow hrow' hkey
    · exact (Pg.store_holds h).1.eq_of_branch hrow hrow' hbranch
  · exact fun a s' => Pg.commit_step h
  · intro t th input hth htask
    refine ⟨fun r hrest hreplay => ?_, fun e hrest => ?_⟩
    · rcases Pg.submitted_of_ret h hth htask hrest with
        ⟨-, hcommit, row, hfound, hsha, hrec⟩ | ⟨hnot, -⟩
      · obtain ⟨row', hrow', hid, hkey, hsha'⟩ := Pg.found_row h hth hfound
        exact ⟨hcommit, row', hrow', by rw [hrec]; exact hid, hkey, hsha'.trans hsha⟩
      · rw [hnot] at hreplay
        cases hreplay
    · exact (Pg.refused_of_raise h hth htask hrest).imp_right fun hrefused => hrefused.1
  · intro row hrow input hkey
    refine ⟨fun s' th hreach hth => Pg.known_key h hrow hkey hreach hth, fun hlock => ?_⟩
    have hfind : s.shared.db.requests.findKey input.idempotencyKey = some row := by
      cases hfind : s.shared.db.requests.findKey input.idempotencyKey with
      | none => exact absurd hkey.symm (RequestTable.findKey_none hfind hrow)
      | some found =>
          obtain ⟨hmem, hfkey⟩ := RequestTable.findKey_mem hfind
          rw [RequestTable.eq_of_key hmem hrow (hfkey.trans hkey)]
    exact Pg.known_answers hlock hfind
  · intro deps W g s h t t' th th' req req' hth hth' htask htask' hkey hcreates hcreates'
    exact created_once h hth hth' htask htask' hkey hcreates hcreates'

/-- The submit of the sample key, served to its `COMMIT`. -/
def committedRun : List Pg.store.Act :=
  .spawn (.submit (submitInput samplePost sampleBase sampleChange sampleKey)) ::
    (List.replicate 9 { now := sampleTime, id := 1 }).map (.act 0)

theorem committedRun_isSome : (System.run (System.init Pg.start) committedRun).isSome := by decide

def committedState : Pg.PState :=
  (System.run (System.init Pg.start) committedRun).get committedRun_isSome

/-- A handler of the sample key, up to its first GitHub call. -/
def enteredRun : List (protocol sampleDeps .arbitrary).Act :=
  [.spawn (.post samplePost), .act 0 (.db {}), .act 0 (.base (.ok sampleBase)),
    .act 0 (.db { now := sampleTime, id := 1 }), .act 0 .mark]

theorem enteredRun_isSome :
    (System.run (System.init (start .arbitrary ())) enteredRun).isSome := by decide

def enteredState : PState sampleDeps .arbitrary :=
  (System.run (System.init (start .arbitrary ())) enteredRun).get enteredRun_isSome

/-- `idempotent_submit` on those runs: a second call of the key replays the row. -/
theorem idempotent_submit_again :
    (∃ row ∈ committedState.shared.db.requests.rows, ∃ (answers : List Pg.Answer)
        (s' : Pg.PState) (th : Pg.store.Thread),
      System.run committedState (.spawn (.submit (submitInput samplePost sampleBase sampleChange
        sampleKey)) :: answers.map (.act committedState.threads.length)) = some s' ∧
      s'.threads[committedState.threads.length]? = some th ∧
      th.rest = .ret (.submitted ⟨toRecord row, true⟩)) ∧
    (∃ th, enteredState.threads[0]? = some th ∧ Creates th.hist ∧ (0 : Nat) = 0) := by
  have hrow : newRow (submitInput samplePost sampleBase sampleChange sampleKey) 1 sampleTime ∈
      committedState.shared.db.requests.rows := by decide +kernel
  have hentered : Creates ((enteredState.threads[0]?.get (by decide +kernel)).hist) :=
    ⟨_, (), List.mem_of_getElem? (i := 3) rfl⟩
  constructor
  · obtain ⟨answers, s', th, hrun, hth, -, hrest⟩ := ((idempotent_submit.1 committedState
      (System.reachable_get committedRun_isSome)).2.2.2 _ hrow _ rfl).2 rfl
    exact ⟨_, hrow, answers, s', th, hrun, hth, hrest⟩
  · exact ⟨_, rfl, hentered, idempotent_submit.2 sampleDeps .arbitrary () enteredState
      (System.reachable_get enteredRun_isSome) 0 0 _ _ samplePost samplePost rfl rfl rfl rfl rfl
      hentered hentered⟩

end Sso
