import Beluga.Sso.Audit

/-! # A cancel that wins

The compare-and-set of a cancel is on the version it read. When no version of a
row comes twice, a cancel that wins proves that nothing was committed to its
row since the read, not even a touch that keeps the stage (D-MSSO-18i):

* `commitsOf_frozen`: a row that ended is never committed to again;
* `cancel_wins_alone`: no commit in between, and every recovery that ever calls
  the writer for the row had its touch or hop committed before the read.
-/

namespace Sso

open Interact

variable {deps : Deps} {W : World} {g : W.State} {s s' s₀ s₁ s₂ s₃ : PState deps W} {t : Nat}

/-! ## Versions -/

/-- A log that grew ends in another version, if versions do not come twice. -/
theorem eq_of_last_version {log log' : List Commit} {c c' : Commit} (hgrow : log <+: log')
    (hversions : (log'.map (·.version)).Nodup) (hc : log.getLast? = some c)
    (hc' : log'.getLast? = some c') (hsame : c.version = c'.version) : log' = log := by
  obtain ⟨new, rfl⟩ := hgrow
  rcases List.eq_nil_or_concat new with rfl | ⟨new', last, rfl⟩
  · exact List.append_nil log
  · rw [List.map_append, List.nodup_append] at hversions
    obtain rfl : last = c' := by simpa [← List.append_assoc] using hc'
    exact absurd hsame (hversions.2.2 _ (List.mem_map_of_mem (List.mem_of_getLast? hc)) _
      (List.mem_map_of_mem (by simp)))

/-- The last commit of a row that is in the table has its version. -/
theorem Consistent.last_version {db : Db} (hdb : Consistent db) {row : RequestRow}
    (hrow : row ∈ db.requests.rows) :
    ∃ c, (commitsOf db.log row.id).getLast? = some c ∧ c.version = row.updated_at := by
  obtain ⟨c, hc, hversion, -⟩ := hdb.last row hrow
  exact ⟨c, hc, hversion⟩

/-! ## Rows that ended -/

theorem Effect.frozen {thread : Nat} {db db' : Db} {op : StoreOp} (h : Effect thread db op db')
    (hop : op.Follows) {row : RequestRow} (hrow : row ∈ db.requests.rows)
    (hend : row.stage.Terminal) : commitsOf db'.log row.id = commitsOf db.log row.id := by
  cases h with
  | none op => rfl
  | event e => rfl
  | insert input id now requests hkey hbranch hrows =>
      have hnodup := requests.pkey
      rw [hrows, List.map_append, List.nodup_append] at hnodup
      have hid : row.id ≠ id :=
        hnodup.2.2 row.id (List.mem_map_of_mem hrow) id (by simp [newRow])
      simp [commitsOf, hid.symm]
  | move row' stage fields event version now requests hrow' hversion hrows =>
      have hid : row'.id ≠ row.id := by
        intro hid
        obtain rfl := RequestTable.eq_of_id hrow' hrow hid
        simp [StoreOp.Follows, Allowed, show _ = [] from hend] at hop
      simp [commitsOf, hid]

/-- Nothing is committed to a row after it ended. -/
theorem commitsOf_frozen (h : (protocol deps W).Reachable (start W g) s)
    (hreach : System.Reaches s s') {row : RequestRow} (hrow : row ∈ s.shared.db.requests.rows)
    (hend : row.stage.Terminal) :
    commitsOf s'.shared.db.log row.id = commitsOf s.shared.db.log row.id := by
  induction hreach with
  | refl => rfl
  | tail a hreach hstep ih =>
      rw [← ih]
      have hs := System.Reaches.trans h hreach
      obtain ⟨row', hrow', hleads⟩ := (protocol_evolves h hreach).rows row hrow
      rcases protocol_step hs hstep with hdb | ⟨t, op, hop, heffect⟩
      · rw [hdb]
      · rw [← hleads.id]
        exact heffect.frozen hop hrow' (by rwa [hleads.of_terminal hend])

/-! ## The read and the compare-and-set -/

/-- The step in which thread `t` makes its pending store call. -/
theorem store_step {op : StoreOp} {k : Op.Rep (.store op) → Async Outcome} {ans : Answer W}
    {th : (protocol deps W).Thread} (hth : s.threads[t]? = some th)
    (hrest : th.rest = .call (.store op) k) (hstep : System.step s (.act t ans) = some s') :
    ∃ a r, storeExec s.shared.db t op a = some (r, s'.shared.db) ∧
      s'.threads[t]? = some (th.advance (.store op) k r) := by
  obtain ⟨_, heq, -⟩ | ⟨t', ans', th', op', k', r, g', heq, hth', hrest', hserve, rfl⟩ |
    ⟨_, _, heq, -⟩ := System.step_cases hstep
  · cases heq
  · cases heq
    cases hth.symm.trans hth'
    cases hrest.symm.trans hrest'
    obtain ⟨a, db, hx, rfl⟩ := serve_store hserve
    have hlt : t < s.threads.length := (List.getElem?_eq_some_iff.mp hth).1
    exact ⟨a, r, hx, by simp [hlt]⟩
  · cases heq

/-- Cancel thread `t` reads its row from `s₀` to `s₁`, and makes its
compare-and-set from `s₂` to `s₃`. -/
structure CancelRun (req : CancelRequest) (t : Nat) (s₀ s₁ s₂ s₃ : PState deps W) : Prop where
  read : ∃ th id k ans, s₀.threads[t]? = some th ∧ th.task = .cancel req ∧
    th.rest = .call (.store (.get id)) k ∧ System.step s₀ (.act t ans) = some s₁
  between : System.Reaches s₁ s₂
  cas : ∃ th id expected stage fields event version k ans, s₂.threads[t]? = some th ∧
    th.rest = .call (.store (.transition id expected stage fields event version)) k ∧
    System.step s₂ (.act t ans) = some s₃

/-- The compare-and-set committed, whether or not its answer arrived. -/
def Committed (s₂ s₃ : PState deps W) : Prop := s₃.shared.db.log ≠ s₂.shared.db.log

namespace CancelRun

variable {req : CancelRequest} (h : (protocol deps W).Reachable (start W g) s₀)
  (hrun : CancelRun req t s₀ s₁ s₂ s₃)
include h hrun

theorem reachable_read : (protocol deps W).Reachable (start W g) s₁ := by
  obtain ⟨_, _, _, _, -, -, -, hstep⟩ := hrun.read
  exact h.tail hstep

theorem reachable_cas : (protocol deps W).Reachable (start W g) s₂ :=
  System.Reaches.trans (hrun.reachable_read h) hrun.between

theorem reachable_done : (protocol deps W).Reachable (start W g) s₃ := by
  obtain ⟨_, _, _, _, _, _, _, _, _, -, -, hstep⟩ := hrun.cas
  exact (hrun.reachable_cas h).tail hstep

omit h in
/-- A compare-and-set that is answered with the row committed. -/
theorem answered (th : (protocol deps W).Thread) (id : Uuid) (expected stage : ChangeStage)
    (fields : TransitionFields) (event : TransitionEvent) (version : Option Nat)
    (done : ChangeRecord) (hth : s₃.threads[t]? = some th)
    (hlast : th.hist.getLast? = some ⟨.store (.transition id expected stage fields event version),
      .ok (some done)⟩) : Committed s₂ s₃ := by
  obtain ⟨th₂, _, _, _, _, _, _, k, ans, hth₂, hrest, hstep⟩ := hrun.cas
  obtain ⟨a, r, hx, hth₃⟩ := store_step hth₂ hrest hstep
  cases hth.symm.trans hth₃
  simp only [System.Thread.advance, List.getLast?_append, List.getLast?_singleton,
    Option.some_or, Option.some.injEq] at hlast
  cases hlast
  rcases transition_effect (transition_ok hx) with ⟨hnone, -⟩ | ⟨_, -, -, -, -, -, -, hlog, -⟩
  · cases hnone
  · simp [Committed, hlog]

omit h in
/-- The thread at its compare-and-set is still the cancel. -/
theorem task_cas {th : (protocol deps W).Thread} (hth : s₂.threads[t]? = some th) :
    th.task = .cancel req := by
  obtain ⟨th₀, id₀, k₀, ans₀, hth₀, htask, hrest₀, hstep₀⟩ := hrun.read
  obtain ⟨a₀, r₀, hx₀, hth₁⟩ := store_step hth₀ hrest₀ hstep₀
  obtain ⟨th', hth', htask', -⟩ := hrun.between.thread hth₁
  cases hth.symm.trans hth'
  rw [htask', ← htask]
  rfl

/-- What the cancel was told of the row is what the row was when it read it. -/
theorem read_row {th : (protocol deps W).Thread} (hth : s₂.threads[t]? = some th) {id : Uuid}
    {record : ChangeRecord}
    (hget : (⟨.store (.get id), .ok (some record)⟩ : Event sig) ∈ th.hist) :
    ∃ row ∈ s₁.shared.db.requests.rows, row.id = id ∧ record = toRecord row := by
  obtain ⟨th₀, id₀, k₀, ans₀, hth₀, -, hrest₀, hstep₀⟩ := hrun.read
  obtain ⟨a₀, r₀, hx₀, hth₁⟩ := store_step hth₀ hrest₀ hstep₀
  obtain ⟨th', hth', -, hhist⟩ := hrun.between.thread hth₁
  cases hth.symm.trans hth'
  -- it read once
  have hread : (⟨.store (.get id₀), r₀⟩ : Event sig) ∈ th.hist :=
    hhist.subset (List.mem_append_right _ (List.mem_singleton_self _))
  obtain ⟨rfl, rfl⟩ := read_once (hrun.reachable_cas h) hth (hrun.task_cas hth) hread hget
  obtain ⟨hdb, row, hrow, hid, rfl⟩ := get_ok_some hx₀
  exact ⟨row, hdb ▸ hrow, hid, rfl⟩

/-- The row that was read and the row that was moved are one request, at one stage and
version. -/
theorem same_version (hwon : Committed s₂ s₃) : ∃ row₁ ∈ s₁.shared.db.requests.rows, ∃ row₂ ∈ s₂.shared.db.requests.rows,
    row₁.id = req.id ∧ row₂.id = req.id ∧ row₂.updated_at = row₁.updated_at ∧
    row₂.stage = row₁.stage ∧
    ∃ c row₃, s₃.shared.db.log = s₂.shared.db.log ++ [c] ∧ c.request = req.id ∧
      c.target = .failed ∧ row₃ ∈ s₃.shared.db.requests.rows ∧ row₃.id = req.id ∧
      row₃.stage = .failed := by
  obtain ⟨th₂, id, expected, stage, fields, event, version, k₂, ans₂, hth₂, hrest₂, hstep₂⟩ :=
    hrun.cas
  have hs₂ := hrun.reachable_cas h
  obtain ⟨a₂, r₂, hx₂, -⟩ := store_step hth₂ hrest₂ hstep₂
  have htask₂ := hrun.task_cas hth₂
  -- the discipline: the compare-and-set is on what the cancel read
  have hscope := (handler hs₂ hth₂ (by rw [htask₂]; exact fun h => h) (List.append_nil _).symm).scope
  obtain ⟨-, hcancel, -⟩ := is_disciplined hs₂ hth₂ hrest₂
  obtain ⟨rfl, rfl, record, hget, rfl, rfl⟩ := hcancel req.id (by rw [hscope, htask₂]; rfl)
  obtain ⟨row₁, hrow₁, hid₁, rfl⟩ := hrun.read_row h hth₂ (mem_hist_of_calls hget)
  refine ⟨row₁, hrow₁, ?_⟩
  rcases (storeExec_effect hx₂).transition with hnone | ⟨row₂, hrow₂, now, hid₂, hstage, hversion,
    hmoved, hlog⟩
  · exact absurd (congrArg Db.log hnone) hwon
  · exact ⟨row₂, hrow₂, hid₁, hid₂, hversion _ rfl, hstage, _, _, hlog, rfl, rfl, hmoved, hid₂,
      rfl⟩

/-- Nothing was committed to the row between the read and the compare-and-set. -/
theorem alone (hwon : Committed s₂ s₃)
    (hversions : ((commitsOf s₂.shared.db.log req.id).map (·.version)).Nodup) :
    commitsOf s₂.shared.db.log req.id = commitsOf s₁.shared.db.log req.id := by
  obtain ⟨row₁, hrow₁, row₂, hrow₂, hid₁, hid₂, hsame, -⟩ := hrun.same_version h hwon
  have hs₁ := hrun.reachable_read h
  obtain ⟨c₁, hc₁, hv₁⟩ := (protocol_consistent hs₁).last_version hrow₁
  obtain ⟨c₂, hc₂, hv₂⟩ := (protocol_consistent (hrun.reachable_cas h)).last_version hrow₂
  rw [hid₁] at hc₁
  rw [hid₂] at hc₂
  refine eq_of_last_version ?_ hversions hc₁ hc₂ (by rw [hv₁, hv₂, hsame])
  exact (protocol_evolves hs₁ hrun.between).log.filter _

/-- What was ever committed to the row afterwards: what was before the read, and failed. -/
theorem commits_after (hwon : Committed s₂ s₃)
    (hversions : ((commitsOf s₂.shared.db.log req.id).map (·.version)).Nodup)
    (hafter : System.Reaches s₃ s) {c : Commit} (hc : c ∈ s.shared.db.log)
    (hid : c.request = req.id) : c ∈ s₁.shared.db.log ∨ c.target = .failed := by
  obtain ⟨-, -, -, -, -, -, -, -, c', row, hlog, hid', hfailed, hrow, hrid, hstage⟩ :=
    hrun.same_version h hwon
  have hfrozen := commitsOf_frozen (hrun.reachable_done h) hafter hrow (by rw [hstage]; rfl)
  have hmem : c ∈ commitsOf s.shared.db.log req.id := List.mem_filter.mpr ⟨hc, by simpa using hid⟩
  rw [← hrid, hfrozen, hrid, hlog, commitsOf_append, hrun.alone h hwon hversions] at hmem
  rcases List.mem_append.mp hmem with hold | hnew
  · exact .inl (List.mem_of_mem_filter hold)
  · rw [List.mem_singleton.mp (List.mem_of_mem_filter hnew)]
    exact .inr hfailed

end CancelRun

/-- What the code calls `createChangePr` with, and when: the handler or recovery
that `hist` shows calling it had its insert, touch or hop committed. -/
theorem created_onRecord (h : (protocol deps W).Reachable (start W g) s)
    {th : (protocol deps W).Thread} (hth : s.threads[t]? = some th) {p q : List (Event sig)}
    {input : CreateChangePrInput} {u : Unit}
    (hhist : th.hist = p ++ ⟨.trace (.createChangePr input), u⟩ :: q) {record : ChangeRecord}
    (hscope : (currentRun th.task p).scope = .branchOnly record) :
    ∃ expected fields event version r key,
      (⟨.store (.transition record.id expected .submitted fields event version),
        .ok (some r)⟩ : Event sig) ∈ (currentRun th.task p).calls ∧
      ⟨record.id, some expected, .submitted, r.version, key, t⟩ ∈ s.shared.db.log := by
  obtain ⟨s₁, hok⟩ := was_disciplined h hth hhist
  simp only [Disciplined, CreateOk, hscope] at hok
  obtain ⟨-, expected, fields, event, version, r, hmem, -⟩ := hok
  have he : (⟨.store (.transition record.id expected .submitted fields event version),
      .ok (some r)⟩ : Event sig) ∈ th.hist := by
    rw [hhist]
    exact List.mem_append_left _ (mem_hist_of_calls hmem)
  obtain ⟨-, -, key, hlog⟩ := told_onRecord h hth he
  exact ⟨expected, fields, event, version, r, key, hmem, hlog⟩

/-- The touch or hop of the recovery that `p` is the history of, when `id`'s log was `log`. -/
def TouchedBefore (log : List Commit) (t : Nat) (task : Task) (p : List (Event sig)) (id : Uuid) :
    Prop :=
  ∃ expected fields event version r key,
    (⟨.store (.transition id expected .submitted fields event version), .ok (some r)⟩ :
      Event sig) ∈ (currentRun task p).calls ∧
    ⟨id, some expected, .submitted, r.version, key, t⟩ ∈ log

/-- A cancel whose compare-and-set commits read the last version of its row:
nothing was committed to the row in between, no touch or hop is committed
afterwards, and whatever recovery calls the writer for the row, before or after,
had its own touch or hop committed before the read. So a cancel that read the
row before that loses. -/
theorem cancel_wins_alone (deps : Deps) (W : World) (g : W.State) (req : CancelRequest) (t : Nat)
    (s₀ s₁ s₂ s₃ : PState deps W) (h : (protocol deps W).Reachable (start W g) s₀)
    (hrun : CancelRun req t s₀ s₁ s₂ s₃)
    (hversions : ((commitsOf s₂.shared.db.log req.id).map (·.version)).Nodup) :
    (∀ th id expected stage fields event version done, s₃.threads[t]? = some th →
      th.hist.getLast? = some ⟨.store (.transition id expected stage fields event version),
        .ok (some done)⟩ → Committed s₂ s₃) ∧
    (Committed s₂ s₃ →
      commitsOf s₂.shared.db.log req.id = commitsOf s₁.shared.db.log req.id ∧
      ∀ s, System.Reaches s₃ s → ∀ c ∈ s.shared.db.log,
        c.request = req.id → c.target = .submitted → c ∈ s₁.shared.db.log) ∧
    (∀ s, System.Reaches s₃ s → ∀ t' th, s.threads[t']? = some th → ∀ p input u q,
      th.hist = p ++ ⟨.trace (.createChangePr input), u⟩ :: q →
      ∀ record, (currentRun th.task p).scope = .branchOnly record → record.id = req.id →
        (Committed s₂ s₃ → TouchedBefore s₁.shared.db.log t' th.task p req.id) ∧
        (¬ TouchedBefore s₁.shared.db.log t' th.task p req.id → ¬ Committed s₂ s₃)) := by
  have htouch : Committed s₂ s₃ → ∀ s, System.Reaches s₃ s → ∀ c ∈ s.shared.db.log,
      c.request = req.id → c.target = .submitted → c ∈ s₁.shared.db.log := by
    intro hwon s hafter c hc hid htarget
    rcases hrun.commits_after h hwon hversions hafter hc hid with hold | hfailed
    · exact hold
    · rw [htarget] at hfailed
      cases hfailed
  refine ⟨hrun.answered, fun hwon => ⟨hrun.alone h hwon hversions, htouch hwon⟩, ?_⟩
  intro s hafter t' th hth p input u q hhist record hscope hid
  have htouched : Committed s₂ s₃ → TouchedBefore s₁.shared.db.log t' th.task p req.id := by
    intro hwon
    have hs := System.Reaches.trans (hrun.reachable_done h) hafter
    obtain ⟨expected, fields, event, version, r, key, hmem, hlog⟩ :=
      created_onRecord hs hth hhist hscope
    rw [hid] at hmem hlog
    exact ⟨expected, fields, event, version, r, key, hmem, htouch hwon s hafter _ hlog rfl rfl⟩
  exact ⟨htouched, fun hnot hwon => hnot (htouched hwon)⟩

/-- A submit that times out, up to the read of a cancel of it. -/
def cancelledRun : List (protocol sampleDeps .arbitrary).Act :=
  [.spawn (.post samplePost), .act 0 (.db {}), .act 0 (.base (.ok sampleBase)),
    .act 0 (.db { now := sampleTime, id := 1 }), .act 0 .mark,
    .act 0 (.github (.error "timeout")), .act 0 (.db { now := sampleTime + 10000000 }),
    .spawn (.cancel ⟨⟨"sub-2", none⟩, 1, none⟩)]

/-- The cancel records its intent and finds no pull request. -/
def lookedUpRun : List (protocol sampleDeps .arbitrary).Act :=
  [.act 1 (.db {}), .act 1 (.github (.ok { status := 200, json := some (.arr []) }))]

theorem timeoutCancel_isSome : (System.run (System.init (start .arbitrary ()))
    (cancelledRun ++ .act 1 (.db {}) ::
      (lookedUpRun ++ [.act 1 (.db { now := sampleTime + 20000000 })]))).isSome := by
  decide +kernel

theorem cancelledRun_isSome :
    (System.run (System.init (start .arbitrary ())) cancelledRun).isSome :=
  System.run_left timeoutCancel_isSome

/-- Before the cancel reads. -/
def beforeRead : PState sampleDeps .arbitrary :=
  (System.run (System.init (start .arbitrary ())) cancelledRun).get cancelledRun_isSome

theorem read_isSome : (System.step beforeRead (.act 1 (.db {}))).isSome :=
  System.step_left (System.run_right timeoutCancel_isSome cancelledRun_isSome)

def afterRead : PState sampleDeps .arbitrary :=
  (System.step beforeRead (.act 1 (.db {}))).get read_isSome

theorem afterRead_run_isSome : (System.run afterRead
    (lookedUpRun ++ [.act 1 (.db { now := sampleTime + 20000000 })])).isSome :=
  System.step_right (System.run_right timeoutCancel_isSome cancelledRun_isSome) read_isSome

theorem lookedUpRun_isSome : (System.run afterRead lookedUpRun).isSome :=
  System.run_left afterRead_run_isSome

/-- Before its compare-and-set. -/
def beforeCas : PState sampleDeps .arbitrary :=
  (System.run afterRead lookedUpRun).get lookedUpRun_isSome

theorem cas_isSome :
    (System.step beforeCas (.act 1 (.db { now := sampleTime + 20000000 }))).isSome :=
  System.step_left (System.run_right afterRead_run_isSome lookedUpRun_isSome)

def afterCas : PState sampleDeps .arbitrary :=
  (System.step beforeCas (.act 1 (.db { now := sampleTime + 20000000 }))).get cas_isSome

/-- `cancel_wins_alone` for that cancel, which wins. -/
theorem cancel_wins_alone_timeout :
    afterCas.shared.db.requests.rows.map (·.stage) = [.failed] ∧
      commitsOf beforeCas.shared.db.log 1 = commitsOf afterRead.shared.db.log 1 := by
  refine ⟨by decide +kernel, ((cancel_wins_alone _ _ () ⟨⟨"sub-2", none⟩, 1, none⟩ 1 beforeRead
    afterRead beforeCas afterCas (System.reachable_get cancelledRun_isSome) ⟨?_, ?_, ?_⟩
    (by decide +kernel)).2.1 (by unfold Committed; decide +kernel)).1⟩
  · exact ⟨_, _, _, .db {}, rfl, rfl, rfl, (Option.some_get read_isSome).symm⟩
  · exact System.reaches_of_run (Option.some_get lookedUpRun_isSome).symm
  · exact ⟨_, _, _, _, _, _, _, _, .db { now := sampleTime + 20000000 }, rfl, rfl,
      (Option.some_get cas_isSome).symm⟩

end Sso
