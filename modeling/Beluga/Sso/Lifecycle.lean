import Beluga.Sso.Store
import Mathlib.Logic.Relation

/-! # The life of a request

The abstract side of the store: the stage diagram of ADR-0009 with the recovery
touch, what one store call can do to the tables (`Effect`), and what any number
of them can (`Evolves`).

* `storeExec_effect`: every call is one of four effects;
* `Effect.evolves`: a call whose stage change is in the diagram only moves
  rows along it, and never removes or relabels one;
* `Effect.consistent`: every call keeps branches unique and the log in step
  with the rows.
-/

namespace Sso

/-! ## The stage diagram -/

/-- The stages a request may move to; `submitted` may be touched in place. -/
def ChangeStage.next : ChangeStage → List ChangeStage
  | .submitted => [.submitted, .pr_open, .unknown_recovering, .failed]
  | .unknown_recovering => [.submitted, .pr_open, .failed]
  | .pr_open => [.merged, .rejected, .failed]
  | .merged => [.applied]
  | .applied => []
  | .rejected => []
  | .failed => []

def Allowed (a b : ChangeStage) : Prop := b ∈ a.next

instance (a b : ChangeStage) : Decidable (Allowed a b) :=
  inferInstanceAs (Decidable (b ∈ a.next))

/-- Any number of allowed changes. -/
abbrev StageLeads : ChangeStage → ChangeStage → Prop := Relation.ReflTransGen Allowed

def ChangeStage.Terminal (stage : ChangeStage) : Prop := stage.next = []

instance (stage : ChangeStage) : Decidable stage.Terminal :=
  inferInstanceAs (Decidable (stage.next = []))

theorem StageLeads.of_terminal {a b : ChangeStage} (h : StageLeads a b) (ha : a.Terminal) :
    b = a := by
  induction h with
  | refl => rfl
  | tail _ hstep ih =>
      subst ih
      simp [Allowed, show _ = [] from ha] at hstep

theorem StageLeads.of_merged {b : ChangeStage} (h : StageLeads .merged b) :
    b = .merged ∨ b = .applied := by
  induction h with
  | refl => exact .inl rfl
  | tail _ hstep ih =>
      rcases ih with rfl | rfl
      · exact .inr (by simpa [Allowed, ChangeStage.next] using hstep)
      · simp [Allowed, ChangeStage.next] at hstep

/-- An allowed change never takes the lock of a file: what is active
afterwards was active before. -/
theorem Allowed.active {a b : ChangeStage} (h : Allowed a b) (hb : b.Active) : a.Active := by
  revert h hb
  cases a <;> cases b <;> decide

/-! ## Rows -/

/-- `row'` is a later version of `row`. -/
structure Leads (row row' : RequestRow) : Prop where
  same : row' = { row with
    stage := row'.stage, pr_number := row'.pr_number, pr_url := row'.pr_url,
    merge_commit_sha := row'.merge_commit_sha, updated_at := row'.updated_at }
  stage : StageLeads row.stage row'.stage

theorem Leads.refl (row : RequestRow) : Leads row row := ⟨rfl, .refl⟩

theorem Leads.trans {a b c : RequestRow} (h : Leads a b) (h' : Leads b c) : Leads a c where
  same := by
    have hab := h.same
    have hbc := h'.same
    rw [hab] at hbc
    exact hbc
  stage := h.stage.trans h'.stage

variable {row row' : RequestRow}

theorem Leads.id (h : Leads row row') : row'.id = row.id := by rw [h.same]

theorem Leads.branch (h : Leads row row') : row'.branch = row.branch := by rw [h.same]

theorem Leads.file_path (h : Leads row row') : row'.file_path = row.file_path := by rw [h.same]

theorem Leads.created_at (h : Leads row row') : row'.created_at = row.created_at := by
  rw [h.same]

theorem Leads.key (h : Leads row row') : row'.idempotency_key = row.idempotency_key := by
  rw [h.same]

theorem Leads.of_terminal (h : Leads row row') (hrow : row.stage.Terminal) :
    row'.stage = row.stage := h.stage.of_terminal hrow

theorem leads_movedRow {stage : ChangeStage} {fields : TransitionFields} {now : Nat}
    (h : Allowed row.stage stage) : Leads row (movedRow row stage fields now) :=
  ⟨rfl, .single h⟩

/-! ## What the lookups find -/

namespace RequestTable

variable {t t' : RequestTable}

theorem ofRows_rows {rows : List RequestRow} (h : ofRows rows = .ok t) : t.rows = rows := by
  unfold ofRows at h
  split_ifs at h
  cases h
  rfl

theorem ofRows_ok {rows : List RequestRow} (hid : (rows.map (·.id)).Nodup)
    (hkey : (rows.map (·.idempotency_key)).Nodup) (hactive : (activeFiles rows).Nodup) :
    ofRows rows = .ok ⟨rows, hid, hkey, hactive⟩ := by
  unfold ofRows
  rw [dif_pos hid, dif_pos hkey, dif_pos hactive]

theorem findId_mem {id : Uuid} (h : t.findId id = some row) : row ∈ t.rows ∧ row.id = id :=
  ⟨List.mem_of_find?_eq_some h, by simpa using List.find?_some h⟩

theorem findKey_mem {key : String} (h : t.findKey key = some row) :
    row ∈ t.rows ∧ row.idempotency_key = key :=
  ⟨List.mem_of_find?_eq_some h, by simpa using List.find?_some h⟩

theorem findKey_none {key : String} (h : t.findKey key = none) (hrow : row ∈ t.rows) :
    row.idempotency_key ≠ key := by
  simpa using List.find?_eq_none.mp h row hrow

theorem findBranch_mem {branch : String} (h : t.findBranch branch = some row) :
    row ∈ t.rows ∧ row.branch = branch :=
  ⟨List.mem_of_find?_eq_some h, by simpa using List.find?_some h⟩

theorem findBranch_none {branch : String} (h : t.findBranch branch = none)
    (hrow : row ∈ t.rows) : row.branch ≠ branch := by
  simpa using List.find?_eq_none.mp h row hrow

/-- The primary key names one row. -/
theorem eq_of_id (h : row ∈ t.rows) (h' : row' ∈ t.rows) (hid : row.id = row'.id) : row = row' :=
  List.inj_on_of_nodup_map t.pkey h h' hid

theorem eq_of_key (h : row ∈ t.rows) (h' : row' ∈ t.rows)
    (hkey : row.idempotency_key = row'.idempotency_key) : row = row' :=
  List.inj_on_of_nodup_map t.idempotency_key_unique h h' hkey

theorem findId_of_mem (h : row ∈ t.rows) : t.findId row.id = some row := by
  cases hfind : t.findId row.id with
  | none => simp [findId] at hfind; exact absurd rfl (hfind row h)
  | some found =>
      obtain ⟨hmem, hid⟩ := findId_mem hfind
      rw [eq_of_id hmem h hid]

end RequestTable

/-! ## What one call does -/

/-- The tables after one call of thread `thread`. -/
inductive Effect (thread : Nat) (db : Db) : StoreOp → Db → Prop where
  /-- Nothing was written. -/
  | none (op : StoreOp) : Effect thread db op db
  /-- An event of its own. -/
  | event (e : NewEvent) :
      Effect thread db (.recordEvent e) { db with events := db.events ++ [e] }
  /-- A new request with its event. -/
  | insert (input : SubmitInput) (id : Uuid) (now : Nat) (requests : RequestTable)
      (hkey : db.requests.findKey input.idempotencyKey = .none)
      (hbranch : db.requests.findBranch input.branch = .none)
      (hrows : requests.rows = db.requests.rows ++ [newRow input id now]) :
      Effect thread db (.submit input) {
        requests := requests
        events := db.events ++ [submittedEvent input id]
        log := db.log ++ [⟨id, .none, .submitted, now, input.idempotencyKey, thread⟩] }
  /-- A row that met the compare-and-set moved, with its event. -/
  | move (row : RequestRow) (stage : ChangeStage) (fields : TransitionFields)
      (event : TransitionEvent) (version : Option Nat) (now : Nat) (requests : RequestTable)
      (hrow : row ∈ db.requests.rows) (hversion : ∀ v, version = some v → row.updated_at = v)
      (hrows : requests.rows = db.requests.rows.map fun r =>
        if r.id = row.id then movedRow row stage fields now else r) :
      Effect thread db (.transition row.id row.stage stage fields event version) {
        requests := requests
        events := db.events ++ [transitionEvent (movedRow row stage fields now) event]
        log := db.log ++
          [⟨row.id, some row.stage, stage, now, row.idempotency_key, thread⟩] }

/-- A transition wrote nothing, or moved the row it names. -/
theorem Effect.transition {thread : Nat} {db db' : Db} {id : Uuid} {expected stage : ChangeStage}
    {fields : TransitionFields} {event : TransitionEvent} {version : Option Nat}
    (h : Effect thread db (.transition id expected stage fields event version) db') :
    db' = db ∨ ∃ row ∈ db.requests.rows, ∃ now, row.id = id ∧ row.stage = expected ∧
      (∀ v, version = some v → row.updated_at = v) ∧
      movedRow row stage fields now ∈ db'.requests.rows ∧
      db'.log = db.log ++ [⟨id, some expected, stage, now, row.idempotency_key, thread⟩] := by
  generalize hop : StoreOp.transition id expected stage fields event version = op at h
  cases h with
  | none => exact .inl rfl
  | event | insert => cases hop
  | move row stage' fields' event' version' now requests hrow hversion hrows =>
      cases hop
      refine .inr ⟨row, hrow, now, rfl, rfl, hversion, ?_, rfl⟩
      simp only [hrows, List.mem_map]
      exact ⟨row, hrow, by simp [movedRow]⟩

/-- Where the rows after a call come from. -/
theorem Effect.mem_rows {thread : Nat} {db db' : Db} {op : StoreOp} (h : Effect thread db op db')
    {row' : RequestRow} (hrow' : row' ∈ db'.requests.rows) : row' ∈ db.requests.rows ∨
      (∃ input id now, row' = newRow input id now) ∨
      ∃ row stage fields event version now, row ∈ db.requests.rows ∧
        op = .transition row.id row.stage stage fields event version ∧
        row' = movedRow row stage fields now := by
  cases h with
  | none | event => exact .inl hrow'
  | insert input id now requests hkey hbranch hrows =>
      simp only [hrows, List.mem_append, List.mem_singleton] at hrow'
      exact hrow'.imp_right fun heq => .inl ⟨input, id, now, heq⟩
  | move row stage fields event version now requests hrow hversion hrows =>
      simp only [hrows, List.mem_map] at hrow'
      obtain ⟨row₀, hrow₀, rfl⟩ := hrow'
      split_ifs with hid
      · exact .inr (.inr ⟨row, stage, fields, event, version, now, hrow, rfl, rfl⟩)
      · exact .inl hrow₀

theorem submit_effect {db db' : Db} {input : SubmitInput} {id now thread : Nat}
    {r : SubmitResult} (h : db.submit input id now thread = .ok (r, db')) :
    (r.replay = true ∧ db' = db ∧
      ∃ row ∈ db.requests.rows, row.idempotency_key = input.idempotencyKey ∧
        row.payload_sha256 = input.payloadSha256 ∧ r.record = toRecord row) ∨
    (r = ⟨toRecord (newRow input id now), false⟩ ∧ newRow input id now ∈ db'.requests.rows ∧
      db'.log = db.log ++ [⟨id, none, .submitted, now, input.idempotencyKey, thread⟩] ∧
      db'.events = db.events ++ [submittedEvent input id] ∧
      Effect thread db (.submit input) db') := by
  unfold Db.submit at h
  split at h
  · next found hfound =>
      left
      split_ifs at h with hsha
      cases h
      obtain ⟨hmem, hkey⟩ := RequestTable.findKey_mem hfound
      exact ⟨rfl, rfl, found, hmem, hkey, not_not.mp hsha, rfl⟩
  · next hkey =>
      right
      split_ifs at h with hbranch hactive
      split at h
      · cases h
      · next requests hinsert =>
          cases h
          have hrows := RequestTable.ofRows_rows hinsert
          refine ⟨rfl, ?_, rfl, rfl,
            .insert input id now requests hkey (by simpa using hbranch) hrows⟩
          simp [hrows]

theorem transition_effect {db db' : Db} {id : Uuid} {expected stage : ChangeStage}
    {fields : TransitionFields} {event : TransitionEvent} {version : Option Nat}
    {now thread : Nat} {r : Option ChangeRecord}
    (h : db.transition id expected stage fields event version now thread = .ok (r, db')) :
    (r = none ∧ db' = db) ∨
    ∃ row ∈ db.requests.rows, row.id = id ∧ row.stage = expected ∧
      r = some (toRecord (movedRow row stage fields now)) ∧
      (∀ v, version = some v → row.updated_at = v) ∧
      movedRow row stage fields now ∈ db'.requests.rows ∧
      db'.log = db.log ++ [⟨id, some expected, stage, now, row.idempotency_key, thread⟩] ∧
      db'.events = db.events ++ [transitionEvent (movedRow row stage fields now) event] ∧
      Effect thread db (.transition id expected stage fields event version) db' := by
  unfold Db.transition at h
  split at h
  · cases h
    exact .inl ⟨rfl, rfl⟩
  · next row hfind =>
      right
      have hmem := List.mem_of_find?_eq_some hfind
      have hcas := List.find?_some hfind
      simp only [casMatches, decide_eq_true_eq] at hcas
      obtain ⟨rfl, rfl, hversion⟩ := hcas
      split at h
      · cases h
      · next requests hupdate =>
          cases h
          have hrows := RequestTable.ofRows_rows hupdate
          have hversion' : ∀ v, version = some v → row.updated_at = v := by
            rintro v rfl
            simpa [eq_comm] using hversion
          refine ⟨row, hmem, rfl, rfl, rfl, hversion', ?_, rfl, rfl,
            .move row stage fields event version now requests hmem hversion' hrows⟩
          simp only [hrows, List.mem_map]
          exact ⟨row, hmem, by simp [movedRow]⟩

theorem storeServe_effect {db db' : Db} {thread : Nat} {a : DbAnswer} {op : StoreOp}
    {r : Except StoreError op.Result} (h : storeServe db thread a op = some (r, db')) :
    Effect thread db op db' := by
  cases op with
  | submit input =>
      simp only [storeServe] at h
      split at h
      · next r' db'' hsubmit =>
          cases h
          rcases submit_effect hsubmit with ⟨-, rfl, -⟩ | ⟨-, -, -, -, heffect⟩
          · exact .none _
          · exact heffect
      · cases h
        exact .none _
  | transition id expected stage fields event version =>
      simp only [storeServe] at h
      split at h
      · next r' db'' htransition =>
          cases h
          rcases transition_effect htransition with ⟨-, rfl⟩ |
            ⟨_, -, -, -, -, -, -, -, -, heffect⟩
          · exact .none _
          · exact heffect
      · cases h
        exact .none _
  | recordEvent e =>
      cases h
      exact .event e
  | findByKey _ | get _ | findByBranch _ =>
      cases h
      exact .none _
  | listOpen _ | listRecentTerminal _ _ =>
      simp only [storeServe] at h
      split_ifs at h
      cases h
      exact .none _

theorem storeExec_effect {db db' : Db} {thread : Nat} {a : DbAnswer} {op : StoreOp}
    {r : Except StoreError op.Result} (h : storeExec db thread op a = some (r, db')) :
    Effect thread db op db' := by
  unfold storeExec at h
  split at h
  · exact storeServe_effect h
  · cases h
    exact .none _
  · simp only [Option.map_eq_some_iff] at h
    obtain ⟨⟨r', db''⟩, hserve, heq⟩ := h
    cases heq
    exact storeServe_effect hserve

/-! ## What a successful call answers -/

section Replies

variable {db db' : Db} {thread : Nat} {a : DbAnswer}

/-- An answer that arrives comes from a call that was served. -/
theorem storeExec_ok {op : StoreOp} {r : op.Result}
    (h : storeExec db thread op a = some (.ok r, db')) :
    storeServe db thread a op = some (.ok r, db') := by
  unfold storeExec at h
  split at h
  · exact h
  · cases h
  · simp only [Option.map_eq_some_iff] at h
    obtain ⟨_, _, heq⟩ := h
    cases heq

theorem get_ok {id : Uuid} {r : Option ChangeRecord}
    (h : storeExec db thread (.get id) a = some (.ok r, db')) :
    db' = db ∧ r = (db.requests.findId id).map toRecord := by
  cases storeExec_ok h
  exact ⟨rfl, rfl⟩

theorem get_ok_some {id : Uuid} {record : ChangeRecord}
    (h : storeExec db thread (.get id) a = some (.ok (some record), db')) :
    db' = db ∧ ∃ row ∈ db.requests.rows, row.id = id ∧ record = toRecord row := by
  obtain ⟨rfl, hr⟩ := get_ok h
  obtain ⟨row, hfind, rfl⟩ := Option.map_eq_some_iff.mp hr.symm
  obtain ⟨hmem, hid⟩ := RequestTable.findId_mem hfind
  exact ⟨rfl, row, hmem, hid, rfl⟩

theorem listOpen_ok {limit : Nat} {records : List ChangeRecord}
    (h : storeExec db thread (.listOpen limit) a = some (.ok records, db')) :
    db' = db ∧ ∀ record ∈ records, ∃ row ∈ db.requests.rows,
      row.stage ∈ openStages ∧ record = toRecord row := by
  have hserve := storeExec_ok h
  simp only [storeServe] at hserve
  split_ifs at hserve with hordered
  cases hserve
  refine ⟨rfl, fun record hrecord => ?_⟩
  obtain ⟨row, hrow, rfl⟩ := List.mem_map.mp hrecord
  have hopen := hordered.1.subset (List.mem_of_mem_take hrow)
  simp only [openRows, List.mem_filter, decide_eq_true_eq] at hopen
  exact ⟨row, hopen.1, hopen.2, rfl⟩

theorem listRecentTerminal_ok {sinceMs : Int} {limit : Nat} {records : List ChangeRecord}
    (h : storeExec db thread (.listRecentTerminal sinceMs limit) a = some (.ok records, db')) :
    db' = db ∧ ∀ record ∈ records, ∃ row ∈ db.requests.rows,
      (row.stage = .failed ∨ row.stage = .rejected) ∧ record = toRecord row := by
  have hserve := storeExec_ok h
  simp only [storeServe] at hserve
  split_ifs at hserve with hordered
  cases hserve
  refine ⟨rfl, fun record hrecord => ?_⟩
  obtain ⟨row, hrow, rfl⟩ := List.mem_map.mp hrecord
  have hlost := hordered.1.subset (List.mem_of_mem_take hrow)
  simp only [recentTerminalRows, List.mem_filter, decide_eq_true_eq] at hlost
  exact ⟨row, hlost.1, hlost.2.1, rfl⟩

theorem submit_ok {input : SubmitInput} {r : SubmitResult}
    (h : storeExec db thread (.submit input) a = some (.ok r, db')) :
    db.submit input a.id a.now thread = .ok (r, db') := by
  have hserve := storeExec_ok h
  simp only [storeServe] at hserve
  split at hserve
  · next r' db'' hsubmit =>
      cases hserve
      exact hsubmit
  · cases hserve

theorem transition_ok {id : Uuid} {expected stage : ChangeStage} {fields : TransitionFields}
    {event : TransitionEvent} {version : Option Nat} {r : Option ChangeRecord}
    (h : storeExec db thread (.transition id expected stage fields event version) a =
      some (.ok r, db')) :
    db.transition id expected stage fields event version a.now thread = .ok (r, db') := by
  have hserve := storeExec_ok h
  simp only [storeServe] at hserve
  split at hserve
  · next r' db'' htransition =>
      cases hserve
      exact htransition
  · cases hserve

end Replies

/-! ## What a run does -/

/-- What any number of calls can do to the tables. -/
structure Evolves (db db' : Db) : Prop where
  rows : ∀ row ∈ db.requests.rows, ∃ row' ∈ db'.requests.rows, Leads row row'
  log : db.log <+: db'.log
  events : db.events <+: db'.events

theorem Evolves.refl (db : Db) : Evolves db db :=
  ⟨fun row h => ⟨row, h, .refl row⟩, List.prefix_rfl, List.prefix_rfl⟩

theorem Evolves.trans {a b c : Db} (h : Evolves a b) (h' : Evolves b c) : Evolves a c where
  rows row hrow := by
    obtain ⟨row₁, hrow₁, hlead₁⟩ := h.rows row hrow
    obtain ⟨row₂, hrow₂, hlead₂⟩ := h'.rows row₁ hrow₁
    exact ⟨row₂, hrow₂, hlead₁.trans hlead₂⟩
  log := h.log.trans h'.log
  events := h.events.trans h'.events

/-- The only calls that change a stage are transitions; this one's is allowed. -/
def StoreOp.Follows : StoreOp → Prop
  | .transition _ expected stage _ _ _ => Allowed expected stage
  | _ => True

theorem Effect.evolves {thread : Nat} {db db' : Db} {op : StoreOp}
    (h : Effect thread db op db') (hop : op.Follows) : Evolves db db' := by
  cases h with
  | none op => exact .refl db
  | event e => exact ⟨fun row h => ⟨row, h, .refl row⟩, List.prefix_rfl, List.prefix_append _ _⟩
  | insert input id now requests hkey hbranch hrows =>
      refine ⟨fun row h => ⟨row, ?_, .refl row⟩, List.prefix_append _ _, List.prefix_append _ _⟩
      simp [hrows, h]
  | move row stage fields event version now requests hrow hversion hrows =>
      refine ⟨fun row' h => ?_, List.prefix_append _ _, List.prefix_append _ _⟩
      by_cases hid : row'.id = row.id
      · -- the row that moved
        obtain rfl := RequestTable.eq_of_id h hrow hid
        refine ⟨movedRow row' stage fields now, ?_, leads_movedRow hop⟩
        simp only [hrows, List.mem_map]
        exact ⟨row', h, by simp⟩
      · refine ⟨row', ?_, .refl row'⟩
        simp only [hrows, List.mem_map]
        exact ⟨row', h, by simp [hid]⟩

/-! ## The log and the rows -/

/-- The committed changes of one request, in commit order. -/
def commitsOf (log : List Commit) (id : Uuid) : List Commit :=
  log.filter fun c => c.request = id

theorem commitsOf_append (log log' : List Commit) (id : Uuid) :
    commitsOf (log ++ log') id = commitsOf log id ++ commitsOf log' id := List.filter_append ..

/-- What ties the log to the rows, and the branch rule that no index holds. -/
structure Consistent (db : Db) : Prop where
  branches : (db.requests.rows.map (·.branch)).Nodup
  /-- The last change of a row gave it its stage and version. -/
  last : ∀ row ∈ db.requests.rows, ∃ c, (commitsOf db.log row.id).getLast? = some c ∧
    c.version = row.updated_at ∧ c.target = row.stage
  known : ∀ c ∈ db.log, ∃ row ∈ db.requests.rows,
    row.id = c.request ∧ row.idempotency_key = c.key
  /-- One insert for each key. -/
  inserts : (db.log.filter fun c => c.source = none).Pairwise fun c c' => c.key ≠ c'.key

theorem Consistent.empty : Consistent .empty where
  branches := List.nodup_nil
  last row h := by simp [Db.empty, RequestTable.empty] at h
  known c h := by simp [Db.empty] at h
  inserts := List.Pairwise.nil

theorem Consistent.eq_of_branch {db : Db} {row row' : RequestRow} (hdb : Consistent db)
    (h : row ∈ db.requests.rows) (h' : row' ∈ db.requests.rows)
    (hbranch : row.branch = row'.branch) : row = row' :=
  List.inj_on_of_nodup_map hdb.branches h h' hbranch

theorem Consistent.insert {db : Db} (hdb : Consistent db) {thread : Nat} {input : SubmitInput}
    {id : Uuid} {now : Nat} {requests : RequestTable} {events : List NewEvent}
    (hkey : db.requests.findKey input.idempotencyKey = none)
    (hbranch : db.requests.findBranch input.branch = none)
    (hrows : requests.rows = db.requests.rows ++ [newRow input id now]) :
    Consistent ⟨requests, events,
      db.log ++ [⟨id, none, .submitted, now, input.idempotencyKey, thread⟩]⟩ := by
  have hfresh : ∀ row ∈ db.requests.rows, row.id ≠ id := by
    have hnodup := requests.pkey
    rw [hrows, List.map_append, List.nodup_append] at hnodup
    intro row hrow
    exact hnodup.2.2 row.id (List.mem_map_of_mem hrow) id (by simp [newRow])
  refine ⟨?_, ?_, ?_, ?_⟩
  · -- the branch was checked
    simp only [hrows, List.map_append, List.nodup_append]
    refine ⟨hdb.branches, by simp, ?_⟩
    intro b hb b' hb'
    obtain ⟨row, hrow, rfl⟩ := List.mem_map.mp hb
    obtain rfl : b' = input.branch := by simpa [newRow] using hb'
    exact RequestTable.findBranch_none hbranch hrow
  · intro row hrow
    simp only [hrows, List.mem_append, List.mem_singleton] at hrow
    rcases hrow with hrow | rfl
    · obtain ⟨c, hc, hcv⟩ := hdb.last row hrow
      refine ⟨c, ?_, hcv⟩
      have hid : id ≠ row.id := fun h => hfresh row hrow h.symm
      simpa [commitsOf_append, commitsOf, hid] using hc
    · refine ⟨⟨id, none, .submitted, now, input.idempotencyKey, thread⟩, ?_, rfl, rfl⟩
      simp [newRow, commitsOf]
  · intro c hc
    simp only [List.mem_append, List.mem_singleton] at hc
    rcases hc with hc | rfl
    · obtain ⟨row, hrow, hid⟩ := hdb.known c hc
      exact ⟨row, by simp [hrows, hrow], hid⟩
    · exact ⟨newRow input id now, by simp [hrows], rfl, rfl⟩
  · -- no earlier commit has the key, since no row has it
    simp only [List.filter_append, List.pairwise_append]
    refine ⟨hdb.inserts, by simp, ?_⟩
    intro c hc c' hc'
    obtain rfl : c' = _ := by simpa using hc'
    obtain ⟨row, hrow, -, hck⟩ := hdb.known c (List.mem_of_mem_filter hc)
    rw [← hck]
    exact RequestTable.findKey_none hkey hrow

theorem Consistent.move {db : Db} (hdb : Consistent db) {thread : Nat} {row : RequestRow}
    {stage : ChangeStage} {fields : TransitionFields} {now : Nat} {requests : RequestTable}
    {events : List NewEvent} (hrow : row ∈ db.requests.rows)
    (hrows : requests.rows = db.requests.rows.map fun r =>
      if r.id = row.id then movedRow row stage fields now else r) :
    Consistent ⟨requests, events,
      db.log ++ [⟨row.id, some row.stage, stage, now, row.idempotency_key, thread⟩]⟩ := by
  have hmem : ∀ r ∈ requests.rows, (r = movedRow row stage fields now) ∨
      (r ∈ db.requests.rows ∧ r.id ≠ row.id) := by
    intro r hr
    simp only [hrows, List.mem_map] at hr
    obtain ⟨r₀, hr₀, rfl⟩ := hr
    split_ifs with hid
    · exact .inl rfl
    · exact .inr ⟨hr₀, hid⟩
  have hstays : ∀ r ∈ db.requests.rows, ∃ r' ∈ requests.rows,
      r'.id = r.id ∧ r'.idempotency_key = r.idempotency_key := by
    intro r hr
    by_cases hid : r.id = row.id
    · obtain rfl := RequestTable.eq_of_id hr hrow hid
      exact ⟨movedRow r stage fields now, by simp only [hrows, List.mem_map]; exact ⟨r, hr, by simp⟩,
        rfl, rfl⟩
    · exact ⟨r, by simp only [hrows, List.mem_map]; exact ⟨r, hr, by simp [hid]⟩, rfl, rfl⟩
  refine ⟨?_, ?_, ?_, ?_⟩
  · -- the branches are the same list
    have hsame : requests.rows.map (·.branch) = db.requests.rows.map (·.branch) := by
      rw [hrows, List.map_map]
      refine List.map_congr_left fun r hr => ?_
      by_cases hid : r.id = row.id
      · obtain rfl := RequestTable.eq_of_id hr hrow hid
        simp [movedRow]
      · simp [hid]
    simpa [hsame] using hdb.branches
  · intro r hr
    rcases hmem r hr with rfl | ⟨hr, hid⟩
    · refine ⟨⟨row.id, some row.stage, stage, now, row.idempotency_key, thread⟩, ?_, rfl, rfl⟩
      simp [commitsOf, movedRow]
    · obtain ⟨c, hc, hcv⟩ := hdb.last r hr
      refine ⟨c, ?_, hcv⟩
      have hid' : row.id ≠ r.id := fun h => hid h.symm
      simpa [commitsOf_append, commitsOf, hid'] using hc
  · intro c hc
    simp only [List.mem_append, List.mem_singleton] at hc
    rcases hc with hc | rfl
    · obtain ⟨r, hr, hid, hkey⟩ := hdb.known c hc
      obtain ⟨r', hr', hid', hkey'⟩ := hstays r hr
      exact ⟨r', hr', hid'.trans hid, hkey'.trans hkey⟩
    · exact hstays row hrow
  · simpa [List.filter_append] using hdb.inserts

theorem Effect.consistent {thread : Nat} {db db' : Db} {op : StoreOp}
    (h : Effect thread db op db') (hdb : Consistent db) : Consistent db' := by
  cases h with
  | none op => exact hdb
  | event e => exact ⟨hdb.branches, hdb.last, hdb.known, hdb.inserts⟩
  | insert input id now requests hkey hbranch hrows => exact hdb.insert hkey hbranch hrows
  | move row stage fields event version now requests hrow hversion hrows =>
      exact hdb.move hrow hrows

end Sso
