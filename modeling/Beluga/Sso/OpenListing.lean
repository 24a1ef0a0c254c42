import Beluga.Sso.Routine
import Beluga.Sso.StageSafety

/-! # What the open listing holds

A tick lists the open requests newest first and at most `LIST_LIMIT` of them,
and `merged` requests may pile up in that listing without bound.

* `placed_taskProg`: every submit names the one file path of the server;
* `ActiveLast`: a row is inserted only when no other is active, so an active row
  is the last one that was inserted;
* `listed_active`: the limit never hides it.
-/

namespace Sso

open Interact

variable {deps : Deps} {record : ChangeRecord}

/-! ## Every submit is on the one path -/

/-- A submit names the path the server chose. -/
def Placed : Op → Prop
  | .store (.submit input) => input.filePath = SSO_FILE_PATH
  | _ => True

theorem Routine.placed {op : Op} (h : Routine op) : Placed op := by
  cases op with
  | store op =>
      cases op with
      | submit input => exact h
      | _ => trivial
  | _ => trivial

theorem placed_sweepRecords (nowMs : Nat) (records : List ChangeRecord) (sweptAt : SweptAt) :
    (sweepRecords deps nowMs records sweptAt).Calls Placed := by
  induction records generalizing sweptAt with
  | nil => trivial
  | cons record rest ih =>
      unfold sweepRecords
      split_ifs
      · exact ih sweptAt
      · refine Prog.Calls.bind (Prog.Calls.attempt ?_) fun _ =>
          Prog.Calls.bind (Prog.Calls.perform trivial) fun _ => ih _
        exact Prog.Calls.bind (Prog.Calls.perform trivial) fun _ =>
          still_sweepBody.mono fun _ h => h.routine.placed

theorem placed_tickBody (memory : ReconcilerMemory) : (tickBody deps memory).Calls Placed := by
  have hlist : ∀ limit, ((callStore (.listOpen limit)).attempt).Calls Placed := fun limit =>
    (Prog.Calls.bind (Prog.Calls.perform trivial) fun _ => .ofExcept _).attempt
  have hlost : ∀ since limit, ((callStore (.listRecentTerminal since limit)).attempt).Calls Placed :=
    fun since limit => (Prog.Calls.bind (Prog.Calls.perform trivial) fun _ => .ofExcept _).attempt
  refine Prog.Calls.bind (hlist LIST_LIMIT) fun listed => ?_
  cases listed with
  | error e => trivial
  | ok records =>
      refine Prog.Calls.bind (Prog.Calls.each records fun record _ =>
        routine_reconcileOne.mono fun _ => Routine.placed) fun _ =>
          Prog.Calls.bind ?_ fun sweptAt =>
            Prog.Calls.bind ((routine_logOrphans _ _).mono fun _ => Routine.placed) fun _ => trivial
      refine Prog.Calls.bind (Prog.Calls.perform trivial) fun nowMs =>
        Prog.Calls.bind (hlost _ _) fun found => ?_
      cases found with
      | error e => trivial
      | ok records => exact placed_sweepRecords _ _ _

theorem placed_taskProg (task : Task) : (taskProg deps task).Calls Placed := by
  cases task with
  | post req =>
      exact Prog.Calls.bind ((routine_postChange req).mono fun _ => Routine.placed) fun _ => trivial
  | cancel req =>
      exact Prog.Calls.bind ((routine_cancelChange req).mono fun _ => Routine.placed)
        fun _ => trivial
  | tick memory => exact Prog.Calls.bind (placed_tickBody memory) fun _ => trivial

/-! ## The active row is the last one -/

variable {W : World} {g : W.State} {s s' : PState deps W}

/-- A call that is about to be made is placed. -/
theorem placed_of_rest (h : (protocol deps W).Reachable (start W g) s) {t : Nat}
    {th : (protocol deps W).Thread} (hth : s.threads[t]? = some th) {op : Op}
    {k : Op.Rep op → Async Outcome} (hrest : th.rest = .call op k) : Placed op := by
  have htraced := h.traced (fun task => (placed_taskProg task).traced) hth
  rw [hrest] at htraced
  exact htraced.1

/-- Every row is on the one path, and only the last one can be active. -/
structure ActiveLast (db : Db) : Prop where
  path : ∀ row ∈ db.requests.rows, row.file_path = SSO_FILE_PATH
  last : db.requests.rows.Pairwise fun row _ => ¬ row.stage.Active

theorem ActiveLast.empty : ActiveLast .empty where
  path row h := by simp [Db.empty, RequestTable.empty] at h
  last := List.Pairwise.nil

/-- The index on active rows lets a row in only when no other is active. -/
theorem ActiveLast.insert {db : Db} (h : ActiveLast db) {input : SubmitInput} {id : Uuid}
    {now : Nat} {requests : RequestTable} {events : List NewEvent} {log : List Commit}
    (hpath : input.filePath = SSO_FILE_PATH)
    (hrows : requests.rows = db.requests.rows ++ [newRow input id now]) :
    ActiveLast ⟨requests, events, log⟩ := by
  have hnew : (newRow input id now).stage.Active := by
    show ChangeStage.Active .submitted
    decide
  have hfree : ∀ row ∈ db.requests.rows, ¬ row.stage.Active := by
    intro row hrow hactive
    have hone := requests.one_active_per_file
    rw [hrows, activeFiles, List.filter_append, List.map_append, List.nodup_append] at hone
    refine hone.2.2 row.file_path ?_ (newRow input id now).file_path ?_ ?_
    · exact List.mem_map_of_mem (List.mem_filter.mpr ⟨hrow, by simpa using hactive⟩)
    · simp [hnew]
    · rw [h.path row hrow]
      exact hpath.symm
  refine ⟨?_, ?_⟩
  · intro row hrow
    simp only [hrows, List.mem_append, List.mem_singleton] at hrow
    rcases hrow with hrow | rfl
    · exact h.path row hrow
    · exact hpath
  · simp only [hrows, List.pairwise_append]
    exact ⟨h.last, List.pairwise_singleton _ _, fun row hrow _ _ => hfree row hrow⟩

/-- A change along the diagram makes no row active. -/
theorem ActiveLast.move {db : Db} (h : ActiveLast db) {row : RequestRow} {stage : ChangeStage}
    {fields : TransitionFields} {now : Nat} {requests : RequestTable} {events : List NewEvent}
    {log : List Commit} (hrow : row ∈ db.requests.rows) (hallowed : Allowed row.stage stage)
    (hrows : requests.rows = db.requests.rows.map fun r =>
      if r.id = row.id then movedRow row stage fields now else r) :
    ActiveLast ⟨requests, events, log⟩ := by
  refine ⟨?_, ?_⟩
  · intro r hr
    simp only [hrows, List.mem_map] at hr
    rcases hr with ⟨r₀, hr₀, rfl⟩
    split_ifs
    · exact h.path row hrow
    · exact h.path r₀ hr₀
  · simp only [hrows, List.pairwise_map]
    refine h.last.imp_of_mem ?_
    intro r _ hr _ hinactive
    split_ifs with hid
    · -- the row that moved
      have heq := RequestTable.eq_of_id hr hrow hid
      subst heq
      exact fun hactive => hinactive (hallowed.active hactive)
    · exact hinactive

theorem Effect.activeLast {thread : Nat} {db db' : Db} {op : StoreOp}
    (h : Effect thread db op db') (hdb : ActiveLast db) (hfollows : op.Follows)
    (hplaced : Placed (.store op)) : ActiveLast db' := by
  cases h with
  | none op => exact hdb
  | event e => exact ⟨hdb.path, hdb.last⟩
  | insert input id now requests hkey hbranch hrows => exact hdb.insert hplaced hrows
  | move row stage fields event version now requests hrow hversion hrows =>
      exact hdb.move hrow hfollows hrows

theorem protocol_activeLast (h : (protocol deps W).Reachable (start W g) s) :
    ActiveLast s.shared.db := by
  refine System.Reachable.induct (I := fun s : PState deps W => ActiveLast s.shared.db) ?_ ?_ h
  · exact ActiveLast.empty
  · intro s s' a hs ih hstep
    rcases System.step_cases hstep with ⟨k, -, rfl⟩ |
      ⟨t, ans, th, op, k, r, g', -, hth, hrest, hx, rfl⟩ | ⟨e, g', -, hx, rfl⟩
    · exact ih
    · have hok := (protocol_holds (F := Facts.none deps W) hs).ok hth hrest
      rcases serve_cases hx with ⟨op', rfl, -, heffect⟩ | ⟨_, _, _, -, hdb, -⟩ | ⟨rfl, -⟩
      · exact heffect.activeLast ih hok.1 (placed_of_rest hs hth hrest)
      · show ActiveLast g'.db
        rw [hdb]
        exact ih
      · exact ih
    · simp only [protocol, Option.map_eq_some_iff] at hx
      rcases hx with ⟨github, -, rfl⟩
      exact ih

/-! ## What is listed -/

/-- An active row was created after every other row. -/
theorem ActiveLast.newest {db : Db} (h : ActiveLast db)
    (hcreated : (db.requests.rows.map (·.created_at)).Pairwise (· < ·)) {row other : RequestRow}
    (hrow : row ∈ db.requests.rows) (hactive : row.stage.Active)
    (hother : other ∈ db.requests.rows) (hne : other ≠ row) :
    other.created_at < row.created_at := by
  rcases List.append_of_mem hrow with ⟨before, after, hrows⟩
  have hlast := h.last
  rw [hrows, List.pairwise_append] at hlast
  have hnone : after = [] := by
    cases after with
    | nil => rfl
    | cons next after =>
        exact absurd hactive ((List.pairwise_cons.mp hlast.2.1).1 next List.mem_cons_self)
  subst hnone
  rw [hrows, List.map_append, List.pairwise_append] at hcreated
  rw [hrows] at hother
  rcases List.mem_append.mp hother with hbefore | hsame
  · exact hcreated.2.2 _ (List.mem_map_of_mem hbefore) _ (by simp)
  · exact absurd (List.mem_singleton.mp hsame) hne

/-- A row that is newer than all others is the first one listed. -/
theorem head_listed {rows listed : List RequestRow} (hordered : OrderedDesc (·.created_at) rows listed)
    (hnodup : rows.Nodup) {row : RequestRow} (hrow : row ∈ rows)
    (hnewest : ∀ other ∈ rows, other ≠ row → other.created_at < row.created_at) :
    ∃ rest, listed = row :: rest := by
  rcases List.append_of_mem (hordered.1.symm.subset hrow) with ⟨before, after, hlisted⟩
  cases before with
  | nil => exact ⟨after, hlisted⟩
  | cons first before =>
      -- what is listed before the row is not older, so it would be the row again
      have hfirst : first ∈ rows := hordered.1.subset (by simp [hlisted])
      have hdesc := hordered.2
      rw [hlisted, List.cons_append, List.pairwise_cons] at hdesc
      have hle : row.created_at ≤ first.created_at := hdesc.1 row (by simp)
      have hdistinct := hordered.1.nodup_iff.mpr hnodup
      rw [hlisted, List.cons_append, List.nodup_cons] at hdistinct
      have hne : first ≠ row := by
        intro heq
        exact hdistinct.1 (by simp [heq])
      have hlt := hnewest first hfirst hne
      omega

theorem mem_openRows {db : Db} {row : RequestRow} :
    row ∈ openRows db ↔ row ∈ db.requests.rows ∧ row.stage ∈ openStages := by
  simp [openRows]

theorem ActiveLast.listed {db db' : Db} (h : ActiveLast db)
    (hcreated : (db.requests.rows.map (·.created_at)).Pairwise (· < ·)) {limit t : Nat}
    (hlimit : 0 < limit) {a : DbAnswer} {records : List ChangeRecord}
    (hx : storeExec db t (.listOpen limit) a = some (.ok records, db')) {row : RequestRow}
    (hrow : row ∈ db.requests.rows) (hactive : row.stage.Active) : toRecord row ∈ records := by
  have hserve := storeExec_ok hx
  simp only [storeServe] at hserve
  split_ifs at hserve with hordered
  cases hserve
  have hopen : row ∈ openRows db :=
    mem_openRows.mpr ⟨hrow, List.mem_append_left _ hactive⟩
  have hnodup : (openRows db).Nodup := (List.Nodup.of_map _ db.requests.pkey).filter _
  rcases head_listed hordered hnodup hopen fun other hother hne =>
    h.newest hcreated hrow hactive (mem_openRows.mp hother).1 hne with ⟨rest, hlisted⟩
  rw [hlisted]
  apply List.mem_map_of_mem
  cases limit with
  | zero => omega
  | succ limit => exact List.mem_cons_self

/-- In every reachable state an active row is newer than every other row, and a
tick begins with a listing that has it. -/
theorem listed_active (h : (protocol deps W).Reachable (start W g) s)
    (hcreated : (s.shared.db.requests.rows.map (·.created_at)).Pairwise (· < ·)) :
    (∀ row ∈ s.shared.db.requests.rows, row.stage.Active →
      ∀ other ∈ openRows s.shared.db, other ≠ row → other.created_at < row.created_at) ∧
    (∀ memory, ∃ k, tickBody deps memory = .call (.store (.listOpen LIST_LIMIT)) k) ∧
    ∀ t a records db', storeExec s.shared.db t (.listOpen LIST_LIMIT) a = some (.ok records, db') →
      ∀ row ∈ s.shared.db.requests.rows, row.stage.Active → toRecord row ∈ records := by
  have hlast := protocol_activeLast h
  refine ⟨?_, fun memory => ⟨_, rfl⟩, ?_⟩
  · intro row hrow hactive other hother hne
    exact hlast.newest hcreated hrow hactive (mem_openRows.mp hother).1 hne
  · intro t a records db' hx row hrow hactive
    exact hlast.listed hcreated (by decide) hx hrow hactive

/-- `listed_active` while the request of `timeoutRun` is recovering. -/
theorem listed_active_timeout :
    let s := (System.run (System.init (start .arbitrary ())) timeoutRun).get timeoutRun_isSome
    s.shared.db.requests.rows.map (·.stage) = [.unknown_recovering] ∧
      ∀ t a records db', storeExec s.shared.db t (.listOpen LIST_LIMIT) a =
          some (.ok records, db') →
        ∀ row ∈ s.shared.db.requests.rows, row.stage.Active → toRecord row ∈ records :=
  ⟨by decide, (listed_active (System.reachable_get timeoutRun_isSome) (by decide)).2.2⟩

end Sso
