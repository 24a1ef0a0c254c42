import Beluga.Interact.Rules
import Beluga.Sso.Sql
import Mathlib.Data.List.Induction

/-! # The transactions refine the store

What the statements of `Beluga.Sso.Sql` do to the tables, for any number of
concurrent calls:

* `serve_frame`: a statement leaves the other sessions and their locks alone,
  and only `COMMIT` changes the tables;
* `commit_atomic`: a `COMMIT` that takes effect is `Db.submit` or
  `Db.transition` on the tables as they are at that moment;
* `wp_submit`: what the answer of a `submit` says about its history;
* `store_holds`: both, in every reachable state.
-/

namespace Sso.Pg

open Interact Interact.Logic

variable {s s' : Shared} {t t' : Nat} {stmt : Stmt} {a : Answer}

/-! ## What a statement leaves alone -/

/-- What thread `t` leaves alone: the sessions and locks of the others. -/
structure Frame (t : Nat) (s s' : Shared) : Prop where
  sessions : ∀ t', t' ≠ t → s'.sessions t' = s.sessions t'
  lock : ∀ t', t' ≠ t → s.lock = some t' → s'.lock = some t'
  rowLock : ∀ t', t' ≠ t → ∀ id, s.rowLock id = some t' → s'.rowLock id = some t'

theorem Frame.refl (s : Shared) : Frame t s s := ⟨fun _ _ => rfl, fun _ _ h => h, fun _ _ _ h => h⟩

theorem Frame.trans {s'' : Shared} (h : Frame t s s') (h' : Frame t s' s'') : Frame t s s'' where
  sessions t' ht := (h'.sessions t' ht).trans (h.sessions t' ht)
  lock t' ht hl := h'.lock t' ht (h.lock t' ht hl)
  rowLock t' ht id hl := h'.rowLock t' ht id (h.rowLock t' ht id hl)

theorem frame_setSession (s : Shared) (session : Session) : Frame t s (s.setSession t session) where
  sessions t' ht := by simp [Shared.setSession, ht]
  lock _ _ h := h
  rowLock _ _ _ h := h

theorem frame_finish (s : Shared) (session : Session) : Frame t s (s.finish t session) where
  sessions t' ht := by simp [Shared.finish, Shared.setSession, ht]
  lock t' ht h := by simp [Shared.finish, h, ht]
  rowLock t' ht id h := by simp [Shared.finish, h, ht]

theorem frame_abort (s : Shared) : Frame t s (s.abort t) := by
  unfold Shared.abort
  split
  · exact frame_setSession s _
  · exact .refl s

theorem Frame.setDb (h : Frame t s s') (db : Db) : Frame t s { s' with db := db } :=
  ⟨h.sessions, h.lock, h.rowLock⟩

@[simp] theorem setSession_db (s : Shared) (session : Session) :
    (s.setSession t session).db = s.db := rfl

@[simp] theorem finish_db (s : Shared) (session : Session) :
    (s.finish t session).db = s.db := rfl

@[simp] theorem abort_db (s : Shared) : (s.abort t).db = s.db := by
  unfold Shared.abort
  split <;> rfl

/-- The tables after a statement: as they were, or after a `COMMIT`. -/
def DbStep (t : Nat) (s : Shared) (stmt : Stmt) (db : Db) : Prop :=
  db = s.db ∨ (stmt = .commit ∧ ∃ tx, s.sessions t = .open tx ∧ commitTx s.db t tx = .ok db)

theorem inTx_frame {β : Type} {f : Tx → Option (Except PgError β × Shared)}
    {r : Except PgError β}
    (hf : ∀ tx r s', f tx = some (r, s') → Frame t s s' ∧ s'.db = s.db)
    (h : inTx s t f = some (r, s')) : Frame t s s' ∧ s'.db = s.db := by
  unfold inTx at h
  split at h
  · exact hf _ _ _ h
  · cases h
    exact ⟨.refl _, rfl⟩

theorem stmtServe_frame {r : Except PgError stmt.Result}
    (h : stmtServe s t a stmt = some (r, s')) : Frame t s s' ∧ DbStep t s stmt s'.db := by
  cases stmt with
  | connect =>
      cases h
      exact ⟨frame_setSession s _, .inl rfl⟩
  | begin =>
      simp only [stmtServe] at h
      split at h <;> cases h
      · exact ⟨frame_setSession s _, .inl rfl⟩
      · exact ⟨.refl _, .inl rfl⟩
      · exact ⟨.refl _, .inl rfl⟩
  | advisoryLock =>
      refine (inTx_frame ?_ h).imp_right .inl
      intro tx r s' h
      split_ifs at h with hfree
      cases h
      refine ⟨⟨fun _ _ => rfl, fun t' ht hl => ?_, fun _ _ _ h => h⟩, rfl⟩
      rcases hfree with hnone | hsome
      · rw [hnone] at hl
        cases hl
      · rw [hsome] at hl
        exact absurd (Option.some.inj hl).symm ht
  | selectKey _ | selectBranch _ | selectActive _ =>
      refine (inTx_frame ?_ h).imp_right .inl
      intro tx r s' h
      cases h
      exact ⟨.refl _, rfl⟩
  | insertRequest input =>
      refine (inTx_frame ?_ h).imp_right .inl
      intro tx r s' h
      split at h <;> cases h
      · exact ⟨frame_abort s, abort_db s⟩
      · exact ⟨frame_setSession s _, rfl⟩
  | insertEvent event =>
      refine (inTx_frame ?_ h).imp_right .inl
      intro tx r s' h
      cases h
      exact ⟨frame_setSession s _, rfl⟩
  | updateRequest id expected stage fields version =>
      refine (inTx_frame ?_ h).imp_right .inl
      intro tx r s' h
      split at h
      · cases h
        exact ⟨.refl _, rfl⟩
      · next row hfind =>
          split_ifs at h with hfree
          split at h <;> cases h
          · exact ⟨frame_abort s, abort_db s⟩
          · refine ⟨⟨(frame_setSession s _).sessions, fun _ _ h => h, fun t' ht id hl => ?_⟩, rfl⟩
            by_cases hid : id = row.id
            · subst hid
              rcases hfree with hnone | hsome
              · rw [hnone] at hl
                cases hl
              · rw [hsome] at hl
                exact absurd (Option.some.inj hl).symm ht
            · simpa [hid] using hl
  | commit =>
      simp only [stmtServe] at h
      split at h
      · next tx htx =>
          split at h <;> cases h
          · next db hcommit => exact ⟨(frame_finish s .idle).setDb db, .inr ⟨rfl, tx, htx, hcommit⟩⟩
          · exact ⟨frame_finish s _, .inl rfl⟩
      · cases h
        exact ⟨frame_finish s _, .inl rfl⟩
      · cases h
        exact ⟨.refl _, .inl rfl⟩
      · cases h
        exact ⟨.refl _, .inl rfl⟩
  | rollback =>
      simp only [stmtServe] at h
      split at h <;> cases h
      · exact ⟨frame_finish s _, .inl rfl⟩
      · exact ⟨frame_finish s _, .inl rfl⟩
      · exact ⟨.refl _, .inl rfl⟩
      · exact ⟨.refl _, .inl rfl⟩

/-- A statement leaves the other sessions and their locks alone; only `COMMIT`
changes the tables. -/
theorem serve_frame {r : Except PgError stmt.Result} (h : serve s t stmt a = some (r, s')) :
    Frame t s s' ∧ DbStep t s stmt s'.db := by
  unfold serve at h
  split at h
  · exact stmtServe_frame h
  · cases h
    exact ⟨frame_abort s, .inl (abort_db s)⟩
  · cases h
    exact ⟨frame_finish s _, .inl rfl⟩
  · simp only [Option.map_eq_some_iff] at h
    obtain ⟨⟨r', s₁⟩, hserve, heq⟩ := h
    cases heq
    obtain ⟨hframe, hdb⟩ := stmtServe_frame hserve
    exact ⟨hframe.trans (frame_finish s₁ _), hdb⟩

/-! ## A commit is the atomic call -/

/-- The call a task makes. -/
def Task.op : Task → StoreOp
  | .submit input => .submit input
  | .transition id expectedStage stage fields event expectedVersion =>
      .transition id expectedStage stage fields event expectedVersion

/-- The transaction of `t` has written what call `op` writes, and what it
checked still holds. -/
def Ready (t : Nat) (s : Shared) (tx : Tx) : StoreOp → Prop
  | .submit input => ∃ id, tx.write = some (.insert (newRow input id tx.now)) ∧
      tx.events = [submittedEvent input id] ∧ s.lock = some t ∧
      s.db.requests.findKey input.idempotencyKey = none ∧
      s.db.requests.findBranch input.branch = none
  | .transition id expectedStage stage fields event expectedVersion =>
      ∃ row ∈ s.db.requests.rows, casMatches id expectedStage expectedVersion row ∧
        tx.write = some (.update row (movedRow row stage fields tx.now)) ∧
        tx.events = [transitionEvent (movedRow row stage fields tx.now) event] ∧
        s.rowLock row.id = some t
  | _ => False

/-- The tables after call `op` of thread `t`, served in one step. -/
def Atomic (t : Nat) (db db' : Db) : StoreOp → Prop
  | .submit input => ∃ id now,
      db.submit input id now t = .ok (⟨toRecord (newRow input id now), false⟩, db')
  | .transition id expectedStage stage fields event expectedVersion => ∃ row now,
      db.transition id expectedStage stage fields event expectedVersion now t =
        .ok (some (toRecord row), db')
  | _ => False

theorem findActive_of_insert {table table' : RequestTable} {input : SubmitInput} {id : Uuid}
    {now : Nat} (h : table.insert (newRow input id now) = .ok table') :
    table.findActive input.filePath = none := by
  have hrows := RequestTable.ofRows_rows h
  have hnodup := table'.one_active_per_file
  rw [hrows, activeFiles, List.filter_append, List.map_append, List.nodup_append] at hnodup
  refine List.find?_eq_none.mpr fun row hrow hfile => ?_
  simp only [decide_eq_true_eq] at hfile
  refine hnodup.2.2 row.file_path (List.mem_map_of_mem (List.mem_filter.mpr ⟨hrow, ?_⟩))
    input.filePath ?_ hfile.1
  · simpa using hfile.2
  · simp [newRow, ChangeStage.Active, activeStages]

/-- A matching row is the one the compare-and-set finds. -/
theorem find_casMatches {table : RequestTable} {row : RequestRow} {id : Uuid}
    {expected : ChangeStage} {version : Option Nat} (hrow : row ∈ table.rows)
    (hcas : casMatches id expected version row) :
    table.rows.find? (casMatches id expected version) = some row := by
  cases hfind : table.rows.find? (casMatches id expected version) with
  | none => exact absurd hcas (List.find?_eq_none.mp hfind row hrow)
  | some found =>
      have hfound := List.find?_some hfind
      simp only [casMatches, decide_eq_true_eq] at hfound hcas
      rw [RequestTable.eq_of_id (List.mem_of_find?_eq_some hfind) hrow
        (by rw [hfound.1, hcas.1])]

theorem commitTx_insert {tx : Tx} {row : RequestRow} {db db' : Db}
    (hwrite : tx.write = some (.insert row)) (h : commitTx db t tx = .ok db') :
    ∃ requests, db.requests.insert row = .ok requests ∧
      requests.rows = db.requests.rows ++ [row] ∧ db' = {
        requests := requests
        events := db.events ++ tx.events
        log := db.log ++ [⟨row.id, none, row.stage, row.updated_at, row.idempotency_key, t⟩] } := by
  rw [commitTx, hwrite] at h
  cases hinsert : db.requests.insert row with
  | error v => simp [hinsert, Except.map] at h
  | ok requests =>
      simp only [hinsert, Except.map, Except.ok.injEq] at h
      exact ⟨requests, rfl, RequestTable.ofRows_rows hinsert, h.symm⟩

theorem commitTx_update {tx : Tx} {row moved : RequestRow} {db db' : Db}
    (hwrite : tx.write = some (.update row moved)) (h : commitTx db t tx = .ok db') :
    ∃ requests, db.requests.update moved = .ok requests ∧
      requests.rows = (db.requests.rows.map fun r => if r.id = moved.id then moved else r) ∧
      db' = {
        requests := requests
        events := db.events ++ tx.events
        log := db.log ++
          [⟨row.id, some row.stage, moved.stage, moved.updated_at, row.idempotency_key, t⟩] } := by
  rw [commitTx, hwrite] at h
  cases hupdate : db.requests.update moved with
  | error v => simp [hupdate, Except.map] at h
  | ok requests =>
      simp only [hupdate, Except.map, Except.ok.injEq] at h
      exact ⟨requests, rfl, RequestTable.ofRows_rows hupdate, h.symm⟩

/-- A `COMMIT` that takes effect is the atomic call. -/
theorem commit_atomic {tx : Tx} {op : StoreOp} {db : Db} (hready : Ready t s tx op)
    (h : commitTx s.db t tx = .ok db) : Atomic t s.db db op := by
  cases op with
  | submit input =>
      obtain ⟨id, hwrite, hevents, -, hkey, hbranch⟩ := hready
      obtain ⟨requests, hinsert, -, rfl⟩ := commitTx_insert hwrite h
      have hactive := findActive_of_insert hinsert
      refine ⟨id, tx.now, ?_⟩
      simp [Db.submit, hkey, hbranch, hactive, hinsert, hevents]
      exact ⟨rfl, rfl, rfl, rfl⟩
  | transition id expected stage fields event version =>
      obtain ⟨row, hrow, hcas, hwrite, hevents, -⟩ := hready
      obtain ⟨requests, hupdate, -, rfl⟩ := commitTx_update hwrite h
      have hfind := find_casMatches hrow hcas
      simp only [casMatches, decide_eq_true_eq] at hcas
      obtain ⟨rfl, rfl, -⟩ := hcas
      refine ⟨movedRow row stage fields tx.now, tx.now, ?_⟩
      simp [Db.transition, hfind, hupdate, hevents]
      exact ⟨rfl, rfl⟩
  | _ => exact hready.elim

theorem Atomic.effect {db db' : Db} {op : StoreOp} (h : Atomic t db db' op) :
    Effect t db op db' := by
  cases op with
  | submit input =>
      obtain ⟨id, now, h⟩ := h
      rcases submit_effect h with ⟨htrue, -⟩ | ⟨-, -, -, -, heffect⟩
      · cases htrue
      · exact heffect
  | transition id expected stage fields event version =>
      obtain ⟨row, now, h⟩ := h
      rcases transition_effect h with ⟨hnone, -⟩ | ⟨_, -, -, -, -, -, -, -, -, heffect⟩
      · cases hnone
      · exact heffect
  | _ => exact h.elim

/-! ## What the others can do -/

/-- Rows stay, with what names them. -/
def Grows (db db' : Db) : Prop :=
  ∀ row ∈ db.requests.rows, ∃ row' ∈ db'.requests.rows, row'.id = row.id ∧
    row'.idempotency_key = row.idempotency_key ∧ row'.branch = row.branch ∧
    row'.payload_sha256 = row.payload_sha256

theorem Grows.refl (db : Db) : Grows db db := fun row hrow => ⟨row, hrow, rfl, rfl, rfl, rfl⟩

theorem Grows.trans {a b c : Db} (h : Grows a b) (h' : Grows b c) : Grows a c := by
  intro row hrow
  obtain ⟨row₁, hrow₁, hid₁, hkey₁, hbranch₁, hsha₁⟩ := h row hrow
  obtain ⟨row₂, hrow₂, hid₂, hkey₂, hbranch₂, hsha₂⟩ := h' row₁ hrow₁
  exact ⟨row₂, hrow₂, hid₂.trans hid₁, hkey₂.trans hkey₁, hbranch₂.trans hbranch₁,
    hsha₂.trans hsha₁⟩

theorem grows_effect {db db' : Db} {op : StoreOp} (h : Effect t db op db') : Grows db db' := by
  cases h with
  | none | event => exact .refl db
  | insert input id now requests hkey hbranch hrows =>
      exact fun row hrow => ⟨row, by simp [hrows, hrow], rfl, rfl, rfl, rfl⟩
  | move row stage fields event version now requests hrow hversion hrows =>
      intro row' hrow'
      simp only [hrows, List.mem_map]
      by_cases hid : row'.id = row.id
      · obtain rfl := RequestTable.eq_of_id hrow' hrow hid
        exact ⟨_, ⟨row', hrow', rfl⟩, by simp [movedRow]⟩
      · exact ⟨row', ⟨row', hrow', by simp [hid]⟩, rfl, rfl, rfl, rfl⟩

/-- What the others can do between two statements of `t`: its session and its
locks are its own, no row comes while it holds the advisory lock, and a row it
has locked stays as it is. -/
structure Rely (t : Nat) (s s' : Shared) : Prop where
  session : s'.sessions t = s.sessions t
  lock : s.lock = some t → s'.lock = some t
  rowLock : ∀ id, s.rowLock id = some t → s'.rowLock id = some t
  grows : Grows s.db s'.db
  none_new : s.lock = some t → ∀ row' ∈ s'.db.requests.rows, ∃ row ∈ s.db.requests.rows,
    row.idempotency_key = row'.idempotency_key ∧ row.branch = row'.branch
  kept : ∀ row ∈ s.db.requests.rows, s.rowLock row.id = some t → row ∈ s'.db.requests.rows

theorem Rely.refl (s : Shared) : Rely t s s :=
  ⟨rfl, id, fun _ => id, .refl _, fun _ row h => ⟨row, h, rfl, rfl⟩, fun _ h _ => h⟩

theorem Rely.trans {s'' : Shared} (h : Rely t s s') (h' : Rely t s' s'') : Rely t s s'' where
  session := h'.session.trans h.session
  lock hl := h'.lock (h.lock hl)
  rowLock id hl := h'.rowLock id (h.rowLock id hl)
  grows := h.grows.trans h'.grows
  none_new hl row'' hrow'' := by
    obtain ⟨row', hrow', hkey', hbranch'⟩ := h'.none_new (h.lock hl) row'' hrow''
    obtain ⟨row, hrow, hkey, hbranch⟩ := h.none_new hl row' hrow'
    exact ⟨row, hrow, hkey.trans hkey', hbranch.trans hbranch'⟩
  kept row hrow hl := h'.kept row (h.kept row hrow hl) (h.rowLock _ hl)

/-- What thread `t` may send for call `op`: it commits only what is `Ready`. -/
def Allowed (t : Nat) (op : StoreOp) (s : Shared) : Stmt → Prop
  | .commit => ∀ tx, s.sessions t = .open tx → Ready t s tx op
  | _ => True

/-- A statement of another thread. -/
theorem serve_rely {op : StoreOp} {r : Except PgError stmt.Result} (hok : Allowed t op s stmt)
    (h : serve s t stmt a = some (r, s')) (ht : t' ≠ t) : Rely t' s s' := by
  obtain ⟨hframe, hdb⟩ := serve_frame h
  have hcase : s'.db = s.db ∨ ∃ tx, Ready t s tx op ∧ commitTx s.db t tx = .ok s'.db := by
    rcases hdb with hdb | ⟨rfl, tx, htx, hcommit⟩
    · exact .inl hdb
    · exact .inr ⟨tx, hok tx htx, hcommit⟩
  refine ⟨hframe.sessions t' ht, hframe.lock t' ht, hframe.rowLock t' ht, ?_, ?_, ?_⟩
  · rcases hcase with hdb | ⟨tx, hready, hcommit⟩
    · rw [hdb]
      exact .refl _
    · exact grows_effect (commit_atomic hready hcommit).effect
  · intro hlock row' hrow'
    rcases hcase with hdb | ⟨tx, hready, hcommit⟩
    · exact ⟨row', hdb ▸ hrow', rfl, rfl⟩
    · -- whoever inserts holds the advisory lock
      cases op with
      | submit input =>
          obtain ⟨-, -, -, hholder, -⟩ := hready
          exact absurd (Option.some.inj (hlock.symm.trans hholder)) ht
      | transition id expected stage fields event version =>
          obtain ⟨row, hrow, -, hwrite, -⟩ := hready
          obtain ⟨requests, -, hrows, hdb⟩ := commitTx_update hwrite hcommit
          rw [hdb, hrows] at hrow'
          obtain ⟨r, hr, rfl⟩ := List.mem_map.mp hrow'
          split_ifs with hid
          · exact ⟨row, hrow, rfl, rfl⟩
          · exact ⟨r, hr, rfl, rfl⟩
      | _ => exact hready.elim
  · intro row hrow hlock
    rcases hcase with hdb | ⟨tx, hready, hcommit⟩
    · rwa [hdb]
    · cases op with
      | submit input =>
          obtain ⟨id, hwrite, -⟩ := hready
          obtain ⟨requests, -, hrows, hdb⟩ := commitTx_insert hwrite hcommit
          rw [hdb, hrows]
          exact List.mem_append_left _ hrow
      | transition id expected stage fields event version =>
          -- whoever updates a row has locked it
          obtain ⟨row', hrow', -, hwrite, -, hholder⟩ := hready
          have hid : row.id ≠ row'.id := by
            intro hid
            rw [hid, hholder] at hlock
            exact ht (Option.some.inj hlock).symm
          obtain ⟨requests, -, hrows, hdb⟩ := commitTx_update hwrite hcommit
          rw [hdb, hrows]
          exact List.mem_map.mpr ⟨row, hrow, by simp [movedRow, hid]⟩
      | _ => exact hready.elim

/-- The call a thread is, and the statements it has sent. -/
structure Local where
  op : StoreOp
  hist : List (Event sig) := []

def Local.add (m : Local) (stmt : Stmt) (r : Except PgError stmt.Result) : Local :=
  { m with hist := m.hist ++ [⟨stmt, r⟩] }

@[simp] theorem Local.add_op (m : Local) (stmt : Stmt) (r : Except PgError stmt.Result) :
    (m.add stmt r).op = m.op := rfl

@[simp] theorem Local.add_hist (m : Local) (stmt : Stmt) (r : Except PgError stmt.Result) :
    (m.add stmt r).hist = m.hist ++ [⟨stmt, r⟩] := rfl

/-- The logic of the transactions. -/
def transactions : Logic store Local where
  inv s := Consistent s.db
  rely := Rely
  ok t m s stmt := Allowed t m.op s stmt
  upd := Local.add
  rely_refl := .refl
  rely_trans h h' := h.trans h'

/-! ## One statement -/

variable {m : Local}

/-- A statement that writes no row, so that it cannot break a constraint. -/
def Stmt.Plain : Stmt → Prop
  | .insertRequest _ | .updateRequest _ _ _ _ _ => False
  | _ => True

theorem serve_ok {r : stmt.Result} (h : serve s t stmt a = some (.ok r, s')) :
    stmtServe s t a stmt = some (.ok r, s') := by
  unfold serve at h
  split at h
  · exact h
  · cases h
  · cases h
  · simp only [Option.map_eq_some_iff] at h
    obtain ⟨_, _, heq⟩ := h
    cases heq

theorem inTx_ok {β : Type} {f : Tx → Option (Except PgError β × Shared)} {r : β}
    (h : inTx s t f = some (.ok r, s')) :
    ∃ tx, s.sessions t = .open tx ∧ f tx = some (.ok r, s') := by
  unfold inTx at h
  split at h
  · next tx htx => exact ⟨tx, htx, h⟩
  · cases h

theorem inTx_error {β : Type} {f : Tx → Option (Except PgError β × Shared)} {e : PgError}
    (hf : ∀ tx s', f tx ≠ some (.error e, s')) (h : inTx s t f = some (.error e, s')) :
    e = .other := by
  unfold inTx at h
  split at h
  · exact absurd h (hf _ _)
  · cases h
    rfl

theorem serve_error {e : PgError} (hplain : stmt.Plain)
    (h : serve s t stmt a = some (.error e, s')) : e = .other := by
  unfold serve at h
  split at h
  · cases stmt with
    | insertRequest _ | updateRequest _ _ _ _ _ => exact hplain.elim
    | connect => cases h
    | begin | commit | rollback =>
        simp only [stmtServe] at h
        repeat' split at h
        all_goals cases h
        all_goals rfl
    | advisoryLock =>
        refine inTx_error ?_ h
        intro tx s' h
        split_ifs at h
        cases h
    | _ => exact inTx_error (fun _ _ h => by cases h) h
  · cases h
    rfl
  · cases h
    rfl
  · simp only [Option.map_eq_some_iff] at h
    obtain ⟨_, _, heq⟩ := h
    cases heq
    rfl

/-- Send a statement and go on with its answer. -/
theorem wp_query {β : Type} {f : stmt.Result → Query β} {Q : Post store Local Thrown β}
    (hok : ∀ s₁, Rely t s s₁ → Allowed t m.op s₁ stmt)
    (herr : ∀ e s₂, (stmt.Plain → e = .other) → Q (.error (.pg e)) (m.add stmt (.error e)) s₂)
    (h : ∀ a r s₁ s₂, Consistent s₁.db → Rely t s s₁ → stmtServe s₁ t a stmt = some (.ok r, s₂) →
      transactions.wp t (f r) Q (m.add stmt (.ok r)) s₂) :
    transactions.wp t (query stmt >>= f) Q m s := by
  intro s₁ hs₁ hr
  refine ⟨hok s₁ hr, fun ans r s₂ hx hs₂ => ?_⟩
  cases r with
  | error e => exact fun s₃ _ _ => herr e s₃ fun hplain => serve_error hplain hx
  | ok r => exact h ans r s₁ s₂ hs₁ hr (serve_ok hx)

/-! ## What `submit` answers -/

/-- No `COMMIT` was sent. -/
def NoCommit (hist : List (Event sig)) : Prop := ∀ r, (⟨.commit, r⟩ : Event sig) ∉ hist

theorem NoCommit.add (h : NoCommit m.hist) {r : Except PgError stmt.Result}
    (hstmt : stmt ≠ .commit) : NoCommit (m.add stmt r).hist := by
  intro r' hmem
  rcases List.mem_append.mp hmem with hold | hnew
  · exact h r' hold
  · cases List.mem_singleton.mp hnew
    exact hstmt rfl

/-- What `submit` found under its key. -/
def Found (input : SubmitInput) (hist : List (Event sig)) (found : Option RequestRow) : Prop :=
  (⟨.selectKey input.idempotencyKey, .ok found⟩ : Event sig) ∈ hist

theorem Found.add {input : SubmitInput} {found : Option RequestRow} (h : Found input m.hist found)
    {r : Except PgError stmt.Result} : Found input (m.add stmt r).hist found :=
  List.mem_append_left _ h

/-- A refusal: why, and that nothing was committed. -/
def Refused (input : SubmitInput) (hist : List (Event sig)) (e : StoreError) : Prop :=
  NoCommit hist ∧
    ((e.code = .IDEMPOTENCY_MISMATCH ∧
        ∃ row, Found input hist (some row) ∧ row.payload_sha256 ≠ input.payloadSha256) ∨
      ((e.code = .IDEMPOTENCY_KEY_COLLISION ∨ e.code = .OPEN_REQUEST_EXISTS) ∧
        Found input hist none))

/-- An answer: the row found under the key, or the row that was inserted. -/
def Submitted (input : SubmitInput) (hist : List (Event sig)) (db : Db) (r : SubmitResult) : Prop :=
  (r.replay = true ∧ NoCommit hist ∧ ∃ row, Found input hist (some row) ∧
      row.payload_sha256 = input.payloadSha256 ∧ r.record = toRecord row) ∨
    (r.replay = false ∧ Found input hist none ∧ ∃ row ∈ db.requests.rows, row.id = r.record.id ∧
      row.idempotency_key = input.idempotencyKey ∧ row.branch = input.branch)

theorem Refused.add {input : SubmitInput} {e : StoreError} (h : Refused input m.hist e)
    {r : Except PgError stmt.Result} (hstmt : stmt ≠ .commit) :
    Refused input (m.add stmt r).hist e := by
  refine ⟨h.1.add hstmt, ?_⟩
  rcases h.2 with ⟨hcode, row, hfound, hsha⟩ | ⟨hcode, hfound⟩
  · exact .inl ⟨hcode, row, hfound.add, hsha⟩
  · exact .inr ⟨hcode, hfound.add⟩

/-- How the `try` body of `submit` ends. -/
def BodyPost (input : SubmitInput) : Post store Local Thrown SubmitResult
  | .ok r, m, s => Submitted input m.hist s.db r
  | .error (.store e), m, _ => Refused input m.hist e
  | .error (.pg (.unique .one_active_per_file)), m, _ => Refused input m.hist openRequestExists
  | .error (.pg _), _, _ => True

theorem bodyPost_other {input : SubmitInput} : BodyPost input (.error (.pg .other)) m s := trivial

/-- Past all checks: the transaction holds the lock, and its key and branch are new. -/
structure Cleared (t : Nat) (input : SubmitInput) (tx : Tx) (s : Shared) : Prop where
  session : s.sessions t = .open tx
  lock : s.lock = some t
  key : s.db.requests.findKey input.idempotencyKey = none
  branch : s.db.requests.findBranch input.branch = none

theorem findKey_mono (hr : Rely t s s') (hlock : s.lock = some t) {key : String}
    (h : s.db.requests.findKey key = none) : s'.db.requests.findKey key = none := by
  refine List.find?_eq_none.mpr fun row' hrow' => ?_
  obtain ⟨row, hrow, hkey, -⟩ := hr.none_new hlock row' hrow'
  simpa [← hkey] using RequestTable.findKey_none h hrow

theorem findBranch_mono (hr : Rely t s s') (hlock : s.lock = some t) {branch : String}
    (h : s.db.requests.findBranch branch = none) : s'.db.requests.findBranch branch = none := by
  refine List.find?_eq_none.mpr fun row' hrow' => ?_
  obtain ⟨row, hrow, -, hbranch⟩ := hr.none_new hlock row' hrow'
  simpa [← hbranch] using RequestTable.findBranch_none h hrow

theorem Cleared.mono {input : SubmitInput} {tx : Tx} (h : Cleared t input tx s)
    (hr : Rely t s s') : Cleared t input tx s' where
  session := hr.session.trans h.session
  lock := hr.lock h.lock
  key := findKey_mono hr h.lock h.key
  branch := findBranch_mono hr h.lock h.branch

theorem wp_insertAndCommit {input : SubmitInput} {now : Nat}
    (hop : m.op = .submit input) (hcleared : Cleared t input { now := now } s)
    (hcommit : NoCommit m.hist) (hfound : Found input m.hist none) :
    transactions.wp t (insertAndCommit input) (BodyPost input) m s := by
  refine wp_query (fun _ _ => trivial) (fun e s₂ _ => ?_) fun a row s₁ s₂ _ hr hserve => ?_
  · -- a violation of the partial index is a refusal
    cases e with
    | other => exact bodyPost_other
    | unique v =>
        cases v with
        | one_active_per_file => exact ⟨hcommit.add (by simp), .inr ⟨.inr rfl, hfound.add⟩⟩
        | _ => trivial
  obtain ⟨tx, htx, hserve⟩ := inTx_ok hserve
  have hcleared₁ := hcleared.mono hr
  obtain rfl : tx = { now := now } := by
    simpa using htx.symm.trans hcleared₁.session
  simp only at hserve
  split at hserve
  · cases hserve
  cases hserve
  set row := newRow input a.id now
  set tx₁ : Tx := { now := now, write := some (.insert row) }
  have hcleared₂ : Cleared t input tx₁ (s₁.setSession t (.open tx₁)) :=
    ⟨by simp [Shared.setSession], hcleared₁.lock, hcleared₁.key, hcleared₁.branch⟩
  refine wp_query (fun _ _ => trivial) (fun e s₃ he => he trivial ▸ bodyPost_other) ?_
  intro a₂ _ s₃ s₄ _ hr₂ hserve₂
  obtain ⟨tx, htx, hserve₂⟩ := inTx_ok hserve₂
  have hcleared₃ := hcleared₂.mono hr₂
  obtain rfl : tx = tx₁ := by
    simpa using htx.symm.trans hcleared₃.session
  cases hserve₂
  set tx₂ : Tx := { now := now, write := some (.insert row), events := [submittedEvent input row.id] }
  have hcleared₄ : Cleared t input tx₂ (s₃.setSession t (.open tx₂)) :=
    ⟨by simp [Shared.setSession], hcleared₃.lock, hcleared₃.key, hcleared₃.branch⟩
  refine wp_query ?_ (fun e s₅ he => he trivial ▸ bodyPost_other) ?_
  · -- the commit is ready
    intro s₅ hr₃ tx htx
    have hcleared₅ := hcleared₄.mono hr₃
    obtain rfl : tx = tx₂ := by
      simpa using htx.symm.trans hcleared₅.session
    simp only [Local.add_op, hop]
    exact ⟨a.id, rfl, rfl, hcleared₅.lock, hcleared₅.key, hcleared₅.branch⟩
  intro a₃ _ s₅ s₆ _ hr₃ hserve₃
  have hcleared₅ := hcleared₄.mono hr₃
  simp only [stmtServe, hcleared₅.session] at hserve₃
  split at hserve₃
  · next db hdb =>
      cases hserve₃
      obtain ⟨requests, -, hrows, rfl⟩ := commitTx_insert rfl hdb
      refine wp_ret fun s₇ _ hr₄ => .inr ⟨rfl, hfound.add.add.add, ?_⟩
      obtain ⟨row', hrow', hid, hkey, hbranch, -⟩ := hr₄.grows row (by simp [hrows])
      exact ⟨row', hrow', hid, hkey, hbranch⟩
  · cases hserve₃

theorem wp_refuse {input : SubmitInput} {e : StoreError}
    (he : e.code = .IDEMPOTENCY_KEY_COLLISION ∨ e.code = .OPEN_REQUEST_EXISTS)
    (hcommit : NoCommit m.hist) (hfound : Found input m.hist none) :
    transactions.wp t (refuse e) (BodyPost input) m s := by
  refine wp_query (fun _ _ => trivial) (fun e s₂ he => he trivial ▸ bodyPost_other) ?_
  intro a _ s₁ s₂ _ _ _
  exact wp_raise fun _ _ _ => ⟨hcommit.add (by simp), .inr ⟨he, hfound.add⟩⟩

theorem wp_replay {input : SubmitInput} {row : RequestRow} (hcommit : NoCommit m.hist)
    (hfound : Found input m.hist (some row)) :
    transactions.wp t (replay input row) (BodyPost input) m s := by
  refine wp_query (fun _ _ => trivial) (fun e s₂ he => he trivial ▸ bodyPost_other) ?_
  intro a _ s₁ s₂ _ _ _
  have hcommit₁ : NoCommit (m.add .rollback (.ok ())).hist := hcommit.add (by simp)
  split_ifs with hsha
  · exact wp_raise fun _ _ _ => ⟨hcommit₁, .inl ⟨rfl, row, hfound.add, hsha⟩⟩
  · exact wp_ret fun _ _ _ => .inl ⟨rfl, hcommit₁, row, hfound.add, not_not.mp hsha, rfl⟩

theorem wp_submitNew {input : SubmitInput} {now : Nat} (hop : m.op = .submit input)
    (hsession : s.sessions t = .open { now := now }) (hlock : s.lock = some t)
    (hkey : s.db.requests.findKey input.idempotencyKey = none) (hcommit : NoCommit m.hist)
    (hfound : Found input m.hist none) :
    transactions.wp t (submitNew input) (BodyPost input) m s := by
  refine wp_query (fun _ _ => trivial) (fun e s₂ he => he trivial ▸ bodyPost_other) ?_
  intro a collides s₁ s₂ _ hr hserve
  obtain ⟨tx, htx, hserve⟩ := inTx_ok hserve
  cases hserve
  split_ifs with hbranch
  · exact wp_refuse (.inl rfl) (hcommit.add (by simp)) hfound.add
  refine wp_query (fun _ _ => trivial) (fun e s₂ he => he trivial ▸ bodyPost_other) ?_
  intro a₁ active s₂ s₃ _ hr₁ hserve₁
  obtain ⟨tx, htx₁, hserve₁⟩ := inTx_ok hserve₁
  cases hserve₁
  split_ifs with hactive
  · exact wp_refuse (.inr rfl) ((hcommit.add (by simp)).add (by simp)) hfound.add.add
  have hcleared : Cleared t input { now := now } s₁ :=
    ⟨hr.session.trans hsession, hr.lock hlock, findKey_mono hr hlock hkey, by simpa using hbranch⟩
  exact wp_insertAndCommit hop (hcleared.mono hr₁) ((hcommit.add (by simp)).add (by simp))
    hfound.add.add

theorem wp_submitLocked {input : SubmitInput} {now : Nat} (hop : m.op = .submit input)
    (hsession : s.sessions t = .open { now := now }) (hlock : s.lock = some t)
    (hcommit : NoCommit m.hist) :
    transactions.wp t (submitLocked input) (BodyPost input) m s := by
  refine wp_query (fun _ _ => trivial) (fun e s₂ he => he trivial ▸ bodyPost_other) ?_
  intro a found s₁ s₂ _ hr hserve
  obtain ⟨tx, htx, hserve⟩ := inTx_ok hserve
  cases hserve
  have hfound : Found input (m.add (.selectKey input.idempotencyKey)
      (.ok (s₁.db.requests.findKey input.idempotencyKey))).hist
      (s₁.db.requests.findKey input.idempotencyKey) :=
    List.mem_append_right _ (List.mem_singleton_self _)
  cases hkey : s₁.db.requests.findKey input.idempotencyKey with
  | some row =>
      rw [hkey] at hfound
      exact wp_replay (hcommit.add (by simp)) hfound
  | none =>
      rw [hkey] at hfound
      exact wp_submitNew hop (hr.session.trans hsession) (hr.lock hlock) hkey
        (hcommit.add (by simp)) hfound

theorem wp_submitBody {input : SubmitInput} (hop : m.op = .submit input)
    (hsession : s.sessions t = .idle) (hcommit : NoCommit m.hist) :
    transactions.wp t (submitBody input) (BodyPost input) m s := by
  refine wp_query (fun _ _ => trivial) (fun e s₂ he => he trivial ▸ bodyPost_other) ?_
  intro a _ s₁ s₂ _ hr hserve
  simp only [stmtServe, hr.session.trans hsession] at hserve
  cases hserve
  refine wp_query (fun _ _ => trivial) (fun e s₂ he => he trivial ▸ bodyPost_other) ?_
  intro a₁ _ s₂ s₃ _ hr₁ hserve₁
  obtain ⟨tx, htx, hserve₁⟩ := inTx_ok hserve₁
  split_ifs at hserve₁
  cases hserve₁
  have hsession₂ : s₂.sessions t = .open { now := a.now } := by
    simpa [Shared.setSession] using hr₁.session
  exact wp_submitLocked hop hsession₂ rfl ((hcommit.add (by simp)).add (by simp))

/-- How `submit` ends. -/
def SubmitPost (input : SubmitInput) : Post store Local StoreError SubmitResult
  | .ok r, m, s => Submitted input m.hist s.db r
  | .error e, m, _ => e.code = .UNAVAILABLE ∨ Refused input m.hist e

/-- How the code before `run`'s `catch` ends. -/
def RunPost {α : Type} (Q : Post store Local StoreError α) : Post store Local Thrown α
  | .ok r, m, s => Q (.ok r) m s
  | .error (.store e), m, s => Q (.error e) m s
  | .error (.pg _), m, s => Q (.error unavailable) m s

theorem wp_run {α : Type} {fn : Query α} {Q : Post store Local StoreError α}
    (hs : Consistent s.db) (hstable : ∀ r m s s', Q r m s → Rely t s s' → Q r m s')
    (h : transactions.wp t fn (RunPost Q) m s) : transactions.wp t (run fn) Q m s := by
  refine wp_try hs h ?_
  rintro ((e | e) | r) m' s' _ hQ
  · exact wp_raise fun s₁ _ hr => hstable _ _ _ _ hQ hr
  · exact wp_raise fun s₁ _ hr => hstable _ _ _ _ hQ hr
  · exact wp_ret fun s₁ _ hr => hstable _ _ _ _ hQ hr

theorem Submitted.mono {input : SubmitInput} {hist : List (Event sig)} {db db' : Db}
    {r : SubmitResult} (h : Submitted input hist db r) (hdb : Grows db db') :
    Submitted input hist db' r := by
  rcases h with h | ⟨hreplay, hfound, row, hrow, hid, hkey, hbranch⟩
  · exact .inl h
  · obtain ⟨row', hrow', hid', hkey', hbranch', -⟩ := hdb row hrow
    exact .inr ⟨hreplay, hfound, row', hrow', hid'.trans hid, hkey'.trans hkey,
      hbranch'.trans hbranch⟩

/-- The `catch` of a transaction rolls back once more and throws on. -/
theorem wp_rollBack {α : Type} {e : Thrown} {Q : Post store Local Thrown α}
    (h : ∀ r s₁, Q (.error e) (m.add .rollback r) s₁) :
    transactions.wp t (rollBack e) Q m s := by
  intro s₁ _ _
  refine ⟨trivial, fun ans r s₂ _ _ => ?_⟩
  cases r <;> exact fun s₃ _ _ => h _ s₃

theorem wp_submit {input : SubmitInput} (hs : Consistent s.db) (hop : m.op = .submit input)
    (hhist : m.hist = []) :
    transactions.wp t (submit input) (SubmitPost input) m s := by
  refine wp_run hs ?_ ?_
  · rintro (e | r) m s s' h hr
    · exact h
    · exact h.mono hr.grows
  refine wp_query (fun _ _ => trivial) (fun e s₂ _ => .inl rfl) ?_
  intro a _ s₁ s₂ hs₁ _ hserve
  cases hserve
  have hcommit : NoCommit (m.add .connect (.ok ())).hist := by
    intro r hmem
    simp [hhist] at hmem
  have hsession : (s₁.setSession t .idle).sessions t = .idle := by simp [Shared.setSession]
  refine wp_try hs₁ (wp_submitBody (by exact hop) hsession hcommit) ?_
  rintro (e | r) m' s' _ hQ
  · refine wp_rollBack fun r s₃ => ?_
    rcases e with e | (v | _)
    · exact .inr (Refused.add hQ (by simp))
    · cases v with
      | one_active_per_file => exact .inr (Refused.add hQ (by simp))
      | _ => exact .inl rfl
    · exact .inl rfl
  · exact wp_ret fun s₃ _ hr => hQ.mono hr.grows

/-! ## `transition` -/

theorem wp_transitionBody {id : Uuid} {expected stage : ChangeStage} {fields : TransitionFields}
    {event : TransitionEvent} {version : Option Nat}
    (hop : m.op = .transition id expected stage fields event version)
    (hsession : s.sessions t = .idle) :
    transactions.wp t (transitionBody id expected stage fields event version)
      (fun _ _ _ => True) m s := by
  refine wp_query (fun _ _ => trivial) (fun _ _ _ => trivial) ?_
  intro a _ s₁ s₂ _ hr hserve
  simp only [stmtServe, hr.session.trans hsession] at hserve
  cases hserve
  refine wp_query (fun _ _ => trivial) (fun _ _ _ => trivial) ?_
  intro a₁ found s₂ s₃ _ hr₁ hserve₁
  obtain ⟨tx, htx, hserve₁⟩ := inTx_ok hserve₁
  obtain rfl : tx = { now := a.now } := by
    simpa [Shared.setSession] using htx.symm.trans hr₁.session
  split at hserve₁
  · cases hserve₁
    exact wp_query (fun _ _ => trivial) (fun _ _ _ => trivial) fun _ _ _ _ _ _ _ =>
      wp_ret fun _ _ _ => trivial
  · next row hfind =>
      split_ifs at hserve₁
      split at hserve₁
      · cases hserve₁
      cases hserve₁
      set moved := movedRow row stage fields a.now
      have hcas := List.find?_some hfind
      have hrow := List.mem_of_find?_eq_some hfind
      -- the event of the row that was moved
      refine wp_query (fun _ _ => trivial) (fun _ _ _ => trivial) ?_
      intro a₂ _ s₃ s₄ _ hr₂ hserve₂
      obtain ⟨tx, htx₂, hserve₂⟩ := inTx_ok hserve₂
      obtain rfl : tx = { now := a.now, write := some (.update row moved) } := by
        simpa [Shared.setSession] using htx₂.symm.trans hr₂.session
      cases hserve₂
      refine wp_query ?_ (fun _ _ _ => trivial) fun _ _ _ _ _ _ _ => wp_ret fun _ _ _ => trivial
      intro s₅ hr₃ tx htx₃
      obtain rfl : tx =
          ⟨a.now, some (.update row moved), [transitionEvent moved event]⟩ := by
        simpa [Shared.setSession] using htx₃.symm.trans hr₃.session
      simp only [Local.add_op, hop]
      have hlock := hr₂.rowLock row.id (by simp)
      have hrow₃ := hr₂.kept row hrow (by simp)
      exact ⟨row, hr₃.kept row hrow₃ hlock, hcas, rfl, rfl, hr₃.rowLock row.id hlock⟩

theorem wp_transition {id : Uuid} {expected stage : ChangeStage} {fields : TransitionFields}
    {event : TransitionEvent} {version : Option Nat} (hs : Consistent s.db)
    (hop : m.op = .transition id expected stage fields event version) :
    transactions.wp t (transition id expected stage fields event version)
      (fun _ _ _ => True) m s := by
  refine wp_run hs (fun _ _ _ _ _ _ => trivial) ?_
  refine wp_query (fun _ _ => trivial) (fun _ _ _ => trivial) ?_
  intro a _ s₁ s₂ hs₁ _ hserve
  cases hserve
  have hsession : (s₁.setSession t .idle).sessions t = .idle := by simp [Shared.setSession]
  refine wp_try hs₁ (wp_transitionBody (by exact hop) hsession) ?_
  rintro (e | r) m' s' _ -
  · refine wp_rollBack fun r s₃ => ?_
    cases e <;> trivial
  · exact wp_ret fun _ _ _ => trivial

/-! ## Every reachable state -/

/-- How a call ends. -/
def taskPost : Task → Post store Local StoreError Outcome
  | .submit input, .ok (.submitted r), m, s => Submitted input m.hist s.db r
  | .submit input, .error e, m, _ => e.code = .UNAVAILABLE ∨ Refused input m.hist e
  | _, _, _, _ => True

def Local.ofTask (task : Task) : Local := { op := task.op }

/-- The monitor of a thread is its history. -/
theorem monitor_ofTask (task : Task) (hist : List (Event sig)) :
    transactions.monitor (.ofTask task) hist = ⟨task.op, hist⟩ := by
  induction hist using List.reverseRecOn with
  | nil => rfl
  | append_singleton hist e ih =>
      rw [Logic.monitor_append, ih]
      rfl

theorem wp_taskProg (task : Task) (hs : Consistent s.db) :
    transactions.wp t (taskProg task) (taskPost task) (.ofTask task) s := by
  cases task with
  | submit input =>
      refine wp_seq hs (wp_submit hs rfl rfl) ?_ fun _ _ _ _ h => h
      intro r m' s' _ hQ
      exact wp_ret fun s₁ _ hr => Submitted.mono hQ hr.grows
  | transition id expected stage fields event version =>
      exact wp_seq hs (wp_transition hs rfl) (fun _ _ _ _ _ => wp_ret fun _ _ _ => trivial)
        fun _ _ _ _ _ => trivial

theorem serve_consistent {op : StoreOp} {r : Except PgError stmt.Result}
    (hok : Allowed t op s stmt) (h : serve s t stmt a = some (r, s')) (hs : Consistent s.db) :
    Consistent s'.db := by
  rcases (serve_frame h).2 with hdb | ⟨rfl, tx, htx, hcommit⟩
  · rwa [hdb]
  · exact (commit_atomic (hok tx htx) hcommit).effect.consistent hs

/-- The logic holds in every reachable state of any number of concurrent calls. -/
theorem store_holds {s : PState} (h : store.Reachable start s) :
    transactions.Holds Local.ofTask taskPost s := by
  have hinit : transactions.inv start := Consistent.empty
  refine Logic.sound hinit (fun s task _ hs => wp_taskProg task hs) ?_ ?_ h
  · intro s t ans th op k r g' _ hs _ _ hok hx
    exact ⟨serve_consistent hok hx hs, fun t' ht => serve_rely hok hx ht⟩
  · intro s e
    exact nomatch e

end Sso.Pg
