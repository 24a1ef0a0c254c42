import Beluga.Sso.RouteRules

/-! # One active request, and the stage diagram

In every reachable state of the protocol, over a GitHub that answers anything:

* at most one row of a file is active, and the code's own checks are enough for
  that: neither a checked insert nor a move along the diagram can break the
  partial unique index (`RequestTable.update_moved`, `activeFiles_insert`);
* failed, rejected and applied rows stay as they are, merged ones can only be
  applied, and every committed change is in the diagram (`stage_safety`).
-/

namespace Sso

open Interact

/-! ## The checks are enough for the index -/

/-- Moving a row along the diagram frees locks and takes none. -/
theorem activeFiles_moved {row moved : RequestRow} {rows : List RequestRow}
    (hrow : ∀ r ∈ rows, r.id = row.id → r = row) (hfile : moved.file_path = row.file_path)
    (hactive : moved.stage.Active → row.stage.Active) :
    (activeFiles (rows.map fun r => if r.id = row.id then moved else r)).Sublist
      (activeFiles rows) := by
  induction rows with
  | nil => exact List.Sublist.refl _
  | cons r rest ih =>
      have ih := ih fun r' hr' => hrow r' (List.mem_cons_of_mem _ hr')
      by_cases hid : r.id = row.id
      · obtain rfl := hrow r List.mem_cons_self hid
        by_cases hmoved : moved.stage.Active
        · simpa [activeFiles, hmoved, hactive hmoved, hfile] using ih
        · by_cases hr : r.stage.Active
          · simpa [activeFiles, hmoved, hr] using ih.cons r.file_path
          · simpa [activeFiles, hmoved, hr] using ih
      · by_cases hr : r.stage.Active
        · simpa [activeFiles, hid, hr] using ih
        · simpa [activeFiles, hid, hr] using ih

/-- A move along the diagram never meets a unique constraint. -/
theorem RequestTable.update_moved (t : RequestTable) {row : RequestRow} {stage : ChangeStage}
    {fields : TransitionFields} {now : Nat} (hrow : row ∈ t.rows)
    (hstage : Allowed row.stage stage) :
    ∃ t', t.update (movedRow row stage fields now) = .ok t' := by
  have honly : ∀ r ∈ t.rows, r.id = row.id → r = row := fun r hr hid => eq_of_id hr hrow hid
  have hsame : ∀ {β : Type} (f : RequestRow → β), f (movedRow row stage fields now) = f row →
      (t.rows.map fun r => if r.id = row.id then movedRow row stage fields now else r).map f =
        t.rows.map f := by
    intro β f hf
    rw [List.map_map]
    refine List.map_congr_left fun r hr => ?_
    by_cases hid : r.id = row.id
    · obtain rfl := honly r hr hid
      simp [hf]
    · simp [hid]
  have hfiles : (activeFiles (t.rows.map fun r =>
      if r.id = row.id then movedRow row stage fields now else r)).Sublist (activeFiles t.rows) :=
    activeFiles_moved honly rfl hstage.active
  have hactive := hfiles.nodup t.one_active_per_file
  exact ⟨_, ofRows_ok (hsame (·.id) rfl ▸ t.pkey)
    (hsame (·.idempotency_key) rfl ▸ t.idempotency_key_unique) hactive⟩

/-- An insert after `submit`'s check of the file leaves one active row. -/
theorem activeFiles_insert {t : RequestTable} {input : SubmitInput} {id : Uuid} {now : Nat}
    (hactive : t.findActive input.filePath = none) :
    (activeFiles (t.rows ++ [newRow input id now])).Nodup := by
  have hnone : input.filePath ∉ activeFiles t.rows := by
    intro hmem
    obtain ⟨row, hrow, hfile⟩ := List.mem_map.mp hmem
    have hrow := List.mem_filter.mp hrow
    have h := List.find?_eq_none.mp hactive row hrow.1
    simp [hfile, of_decide_eq_true hrow.2] at h
  have happend : activeFiles (t.rows ++ [newRow input id now]) =
      activeFiles t.rows ++ [input.filePath] := by
    simp [activeFiles, newRow, ChangeStage.Active, activeStages]
  rw [happend, List.nodup_append]
  refine ⟨t.one_active_per_file, by simp, ?_⟩
  rintro f hf f' hf' rfl
  exact hnone (List.mem_singleton.mp hf' ▸ hf)

theorem RequestTable.eq_of_active (t : RequestTable) {row row' : RequestRow} (h : row ∈ t.rows)
    (h' : row' ∈ t.rows) (hactive : row.stage.Active) (hactive' : row'.stage.Active)
    (hfile : row.file_path = row'.file_path) : row = row' :=
  List.inj_on_of_nodup_map t.one_active_per_file (List.mem_filter.mpr ⟨h, by simpa using hactive⟩)
    (List.mem_filter.mpr ⟨h', by simpa using hactive'⟩) hfile

/-! ## Every committed change is in the diagram -/

theorem Effect.row_step {thread : Nat} {db db' : Db} {op : StoreOp}
    (h : Effect thread db op db') (hop : op.Follows) :
    ∀ row ∈ db.requests.rows, ∃ row' ∈ db'.requests.rows,
      row'.id = row.id ∧ (row' = row ∨ Allowed row.stage row'.stage) := by
  intro row' hrow'
  cases h with
  | none op => exact ⟨row', hrow', rfl, .inl rfl⟩
  | event e => exact ⟨row', hrow', rfl, .inl rfl⟩
  | insert input id now requests hkey hbranch hrows =>
      exact ⟨row', by simp [hrows, hrow'], rfl, .inl rfl⟩
  | move row stage fields event version now requests hrow hversion hrows =>
      simp only [hrows, List.mem_map]
      by_cases hid : row'.id = row.id
      · obtain rfl := RequestTable.eq_of_id hrow' hrow hid
        exact ⟨_, ⟨row', hrow', rfl⟩, by simp [movedRow], .inr (by simpa [movedRow, StoreOp.Follows] using hop)⟩
      · exact ⟨row', ⟨row', hrow', by simp [hid]⟩, rfl, .inl rfl⟩

/-- The log of committed changes follows the diagram. -/
def LogFollows (db : Db) : Prop :=
  ∀ c ∈ db.log, ∀ stage, c.source = some stage → Allowed stage c.target

theorem Effect.logFollows {thread : Nat} {db db' : Db} {op : StoreOp}
    (h : Effect thread db op db') (hop : op.Follows) (hlog : LogFollows db) : LogFollows db' := by
  cases h with
  | none op => exact hlog
  | event e => exact hlog
  | insert input id now requests hkey hbranch hrows =>
      intro c hc stage hstage
      rcases List.mem_append.mp hc with hc | hc
      · exact hlog c hc stage hstage
      · rw [List.mem_singleton.mp hc] at hstage
        cases hstage
  | move row stage fields event version now requests hrow hversion hrows =>
      intro c hc stage' hstage'
      rcases List.mem_append.mp hc with hc | hc
      · exact hlog c hc stage' hstage'
      · rw [List.mem_singleton.mp hc] at hstage' ⊢
        cases hstage'
        exact hop

variable {deps : Deps} {W : World} {g : W.State} {s : PState deps W}

theorem log_follows (h : (protocol deps W).Reachable (start W g) s) : LogFollows s.shared.db := by
  refine System.Reachable.induct (I := fun (s : PState deps W) => LogFollows s.shared.db) ?_ ?_ h
  · intro c hc
    cases hc
  · intro s s' a hreach ih hstep
    rcases protocol_step hreach hstep with hdb | ⟨t, op, hop, heffect⟩
    · rwa [hdb]
    · exact heffect.logFollows hop ih

/-- One active row for each file, the stage diagram at every step, and the end
stages over every run. -/
theorem stage_safety (deps : Deps) (W : World) (g : W.State) (s : PState deps W)
    (h : (protocol deps W).Reachable (start W g) s) :
    (∀ row ∈ s.shared.db.requests.rows, ∀ row' ∈ s.shared.db.requests.rows,
      row.stage.Active → row'.stage.Active → row.file_path = row'.file_path → row = row') ∧
    (∀ a s', System.step s a = some s' → ∀ row ∈ s.shared.db.requests.rows,
      ∃ row' ∈ s'.shared.db.requests.rows, row'.id = row.id ∧
        (row' = row ∨ Allowed row.stage row'.stage)) ∧
    (∀ c ∈ s.shared.db.log, ∀ stage, c.source = some stage → Allowed stage c.target) ∧
    (∀ s', System.Reaches s s' → ∀ row ∈ s.shared.db.requests.rows,
      ∃ row' ∈ s'.shared.db.requests.rows, row'.id = row.id ∧
        (row.stage = .applied ∨ row.stage = .rejected ∨ row.stage = .failed →
          row'.stage = row.stage) ∧
        (row.stage = .merged → row'.stage = .merged ∨ row'.stage = .applied)) := by
  refine ⟨?_, ?_, log_follows h, ?_⟩
  · -- one active row
    intro row hrow row' hrow'
    exact s.shared.db.requests.eq_of_active hrow hrow'
  · -- one step
    intro a s' hstep row hrow
    rcases protocol_step h hstep with hdb | ⟨t, op, hop, heffect⟩
    · exact ⟨row, hdb ▸ hrow, rfl, .inl rfl⟩
    · exact heffect.row_step hop row hrow
  · -- a whole run
    intro s' hreach row hrow
    obtain ⟨row', hrow', hleads⟩ := (protocol_evolves h hreach).rows row hrow
    refine ⟨row', hrow', hleads.id, fun hend => hleads.of_terminal ?_, fun hmerged => ?_⟩
    · rcases hend with hend | hend | hend <;> rw [hend] <;> rfl
    · exact StageLeads.of_merged (hmerged ▸ hleads.stage)

/-- A submit whose first GitHub call times out. -/
def timeoutRun : List (protocol sampleDeps .arbitrary).Act :=
  [.spawn (.post samplePost), .act 0 (.db {}), .act 0 (.base (.ok sampleBase)),
    .act 0 (.db { now := sampleTime, id := 1 }), .act 0 .mark,
    .act 0 (.github (.error "timeout")), .act 0 (.db { now := sampleTime + 10000000 })]

theorem timeoutRun_isSome :
    (System.run (System.init (start .arbitrary ())) timeoutRun).isSome := by decide

/-- `stage_safety` at the end of that run, where the request is recovering. -/
theorem stage_safety_timeout :
    let s := (System.run (System.init (start .arbitrary ())) timeoutRun).get timeoutRun_isSome
    s.shared.db.requests.rows.map (·.stage) = [.unknown_recovering] ∧
      ∀ row ∈ s.shared.db.requests.rows, ∀ row' ∈ s.shared.db.requests.rows,
        row.stage.Active → row'.stage.Active → row.file_path = row'.file_path → row = row' :=
  ⟨by decide, (stage_safety _ _ _ _ (System.reachable_get timeoutRun_isSome)).1⟩

end Sso
