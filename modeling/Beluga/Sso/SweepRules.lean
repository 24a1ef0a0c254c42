import Beluga.Interact.Rules
import Beluga.Sso.Sweeps

/-! # The throttle of the sweep

`Tracked` is the invariant between two calls of a reconciler: what it asked about
before is noted in its memory, or is out of the listing for good. `Sweeping` is
what the loop over a listing adds.

* `Sweeping.ask`: an ask that the throttle lets through comes late enough;
* `tracked_tickBody`: a tick keeps the invariant, whatever fails in it;
* `sweeps_throttled`: every state of every run.
-/

namespace Sso

open Interact Interact.Logic

/-! ## The memory -/

namespace SweptAt

theorem get_set (m : SweptAt) (id : Uuid) (at_ : Nat) (id' : Uuid) :
    (m.set id at_).get id' = if id' = id then some at_ else m.get id' := by
  by_cases h : id' = id
  · subst h
    simp [get, set]
  · have hne : ¬ id = id' := fun heq => h heq.symm
    have hfind : (m.filter fun kv => kv.1 ≠ id).find? (fun kv => kv.1 = id') =
        m.find? fun kv => kv.1 = id' := by
      rw [List.find?_filter]
      refine congrArg (List.find? · m) (funext fun kv => ?_)
      by_cases hkv : kv.1 = id'
      · simp [hkv, h]
      · simp [hkv]
    simp only [get, set, List.find?_cons, hne, decide_false, hfind, if_neg h]

theorem get_filter (m : SweptAt) (ids : List Uuid) {id : Uuid} (hid : id ∈ ids) :
    get (m.filter fun kv => kv.1 ∈ ids) id = m.get id := by
  simp only [get, List.find?_filter]
  refine congrArg (fun p => (List.find? p m).map Prod.snd) (funext fun kv => ?_)
  by_cases hkv : kv.1 = id
  · simp [hkv, hid]
  · simp [hkv]

theorem nodup_set {m : SweptAt} (h : (m.map Prod.fst).Nodup) (id : Uuid) (at_ : Nat) :
    ((m.set id at_).map Prod.fst).Nodup := by
  rw [set, List.map_cons, List.nodup_cons]
  refine ⟨?_, h.sublist (List.filter_sublist.map _)⟩
  intro hmem
  rcases List.mem_map.mp hmem with ⟨kv, hkv, rfl⟩
  simpa using List.of_mem_filter hkv

/-- Distinct keys among `ids` are no more than there are. -/
theorem length_le {m : SweptAt} (h : (m.map Prod.fst).Nodup) {ids : List Uuid}
    (hids : ∀ kv ∈ m, kv.1 ∈ ids) : m.length ≤ ids.length := by
  have hsub : m.map Prod.fst ⊆ ids := by
    intro id hid
    rcases List.mem_map.mp hid with ⟨kv, hkv, rfl⟩
    exact hids kv hkv
  have hle := (List.subperm_of_subset h hsub).length_le
  rwa [List.length_map] at hle

end SweptAt

/-! ## The invariant -/

/-- What the sweeps promise. -/
structure Throttled (w : Watch) : Prop where
  apart : w.asks.Pairwise fun a b => a.id = b.id → (a.time : Int) + SWEEP_RECHECK_MS ≤ b.time
  batch : ∀ tick, w.asks.countP (fun a => a.tick = tick) ≤ SWEEP_BATCH
  memory : w.sweptAt.length ≤ SWEEP_BATCH

/-- The memory knows of the ask, or of a later one about the same record. -/
def Noted (w : Watch) (a : Ask) : Prop := ∃ last, w.sweptAt.get a.id = some last ∧ a.time ≤ last

structure Tracked (w : Watch) (g : Watched) : Prop extends Throttled w where
  clock : w.time ≤ g.clock
  past : ∀ a ∈ w.asks, a.tick ≤ w.tick ∧ a.time ≤ w.time
  keys : (w.sweptAt.map Prod.fst).Nodup
  known : ∀ a ∈ w.asks, ∃ row ∈ terminalRows g.shared.db, row.id = a.id ∧
    (Noted w a ∨ Out g.shared.db w.time row)

theorem Tracked.start (g : Watched) : Tracked {} g where
  apart := List.Pairwise.nil
  batch tick := by simp
  memory := by simp
  clock := Nat.zero_le _
  past a h := by simp at h
  keys := List.nodup_nil
  known a h := by simp at h

/-- The sweep of the listed `ids` has `rest` before it. -/
structure Sweeping (ids : List Uuid) (rest : List ChangeRecord) (w : Watch) (g : Watched) : Prop
    extends Tracked w g where
  count : w.asks.countP (fun a => a.tick = w.tick) + rest.length ≤ SWEEP_BATCH
  few : ids.length ≤ SWEEP_BATCH
  held : ∀ kv ∈ w.sweptAt, kv.1 ∈ ids
  listed : ∀ r ∈ rest, r.id ∈ ids
  distinct : (rest.map fun r => r.id).Nodup
  rows : ∀ r ∈ rest, ∃ row ∈ terminalRows g.shared.db, row.id = r.id
  noted : ∀ a ∈ w.asks, ∀ r ∈ rest, r.id = a.id → Noted w a

variable {deps : Deps} {w : Watch} {g g' : Watched} {ids : List Uuid} {record : ChangeRecord}
  {rest : List ChangeRecord} {t : Nat}

/-- What the others can do to the store and the clock. -/
structure Grows (g g' : Watched) : Prop where
  keeps : ∀ row ∈ terminalRows g.shared.db, row ∈ terminalRows g'.shared.db
  clock : g.clock ≤ g'.clock

theorem Tracked.grows (h : Tracked w g) (hg : Grows g g') : Tracked w g' where
  apart := h.apart
  batch := h.batch
  memory := h.memory
  clock := Nat.le_trans h.clock hg.clock
  past := h.past
  keys := h.keys
  known a ha := by
    rcases h.known a ha with ⟨row, hrow, hid, hcase⟩
    refine ⟨row, hg.keeps row hrow, hid, ?_⟩
    rcases hcase with hnoted | hout
    · exact .inl hnoted
    · exact .inr (hout.mono hg.keeps (Nat.le_refl _))

theorem Sweeping.grows (h : Sweeping ids rest w g) (hg : Grows g g') : Sweeping ids rest w g' :=
  { h.toTracked.grows hg with
    count := h.count
    few := h.few
    held := h.held
    listed := h.listed
    distinct := h.distinct
    noted := h.noted
    rows := by
      intro r hr
      rcases h.rows r hr with ⟨row, hrow, hid⟩
      exact ⟨row, hg.keeps row hrow, hid⟩ }

/-- A reading of the clock. -/
theorem Tracked.read (h : Tracked w g) (hg : Grows g g') :
    Tracked { w with time := g'.clock } g' where
  apart := h.apart
  batch := h.batch
  memory := h.memory
  clock := Nat.le_refl _
  keys := h.keys
  past a ha := ⟨(h.past a ha).1,
    Nat.le_trans (h.past a ha).2 (Nat.le_trans h.clock hg.clock)⟩
  known a ha := by
    rcases h.known a ha with ⟨row, hrow, hid, hcase⟩
    refine ⟨row, hg.keeps row hrow, hid, ?_⟩
    rcases hcase with hnoted | hout
    · exact .inl hnoted
    · exact .inr (hout.mono hg.keeps (Nat.le_trans h.clock hg.clock))

/-- The next tick has asked about nothing yet. -/
theorem Tracked.next (h : Tracked w g) :
    Tracked { w with tick := w.tick + 1 } g ∧
      w.asks.countP (fun a => a.tick = w.tick + 1) = 0 := by
  refine ⟨⟨⟨h.apart, h.batch, h.memory⟩, h.clock, ?_, h.keys, h.known⟩, ?_⟩
  · intro a ha
    exact ⟨Nat.le_succ_of_le (h.past a ha).1, (h.past a ha).2⟩
  · rw [List.countP_eq_zero]
    intro a ha htick
    have hle := (h.past a ha).1
    simp only [decide_eq_true_eq] at htick
    omega

/-! ## The sweep -/

/-- The listing of a sweep: what it holds stays noted, what it does not hold is out. -/
theorem Tracked.listing (h : Tracked w g) {listed : List RequestRow}
    (hdistinct : ((terminalRows g.shared.db).map (·.updated_at)).Nodup)
    (hordered : OrderedDesc (·.updated_at)
      (recentTerminalRows g.shared.db ((w.time : Int) - SWEEP_WINDOW_MS)) listed)
    (hfresh : w.asks.countP (fun a => a.tick = w.tick) = 0) {records : List ChangeRecord}
    (hrecords : records = (listed.take SWEEP_BATCH).map toRecord) :
    Sweeping (records.map fun r => r.id) records
      { w with sweptAt := w.sweptAt.filter fun kv => kv.1 ∈ records.map fun r => r.id } g := by
  have hids : ∀ row ∈ terminalRows g.shared.db,
      (row.id ∈ records.map (fun r => r.id) ↔ ¬ Out g.shared.db w.time row) := by
    intro row hrow
    rw [hrecords]
    exact listed_ids hdistinct hordered hrow
  have hlength : records.length ≤ SWEEP_BATCH := by
    rw [hrecords, List.length_map]
    exact List.length_take_le _ _
  -- an ask about a record that is listed is still in the memory
  have hkept : ∀ a ∈ w.asks, a.id ∈ records.map (fun r => r.id) → Noted
      { w with sweptAt := w.sweptAt.filter fun kv => kv.1 ∈ records.map fun r => r.id } a := by
    intro a ha hin
    rcases h.known a ha with ⟨row, hrow, hid, hcase⟩
    rcases hcase with hnoted | hout
    · rcases hnoted with ⟨last, hlast, hle⟩
      exact ⟨last, (SweptAt.get_filter w.sweptAt _ hin).trans hlast, hle⟩
    · rw [← hid, hids row hrow] at hin
      exact absurd hout hin
  have hfrom : ∀ r ∈ records, ∃ row ∈ listed, row ∈ terminalRows g.shared.db ∧
      r = toRecord row := by
    intro r hr
    rw [hrecords] at hr
    rcases List.mem_map.mp hr with ⟨row, hrow, rfl⟩
    have hlisted := List.mem_of_mem_take hrow
    exact ⟨row, hlisted, (mem_recentTerminalRows.mp (hordered.1.subset hlisted)).1, rfl⟩
  refine
    { apart := h.apart
      batch := h.batch
      memory := Nat.le_trans (List.length_filter_le _ _) h.memory
      clock := h.clock
      past := h.past
      keys := h.keys.sublist (List.filter_sublist.map _)
      known := ?_
      count := by simpa [hfresh] using hlength
      few := by simpa using hlength
      held := ?_
      listed := fun r hr => List.mem_map_of_mem hr
      distinct := ?_
      rows := ?_
      noted := ?_ }
  · intro a ha
    rcases h.known a ha with ⟨row, hrow, hid, -⟩
    refine ⟨row, hrow, hid, ?_⟩
    by_cases hin : a.id ∈ records.map (fun r => r.id)
    · exact .inl (hkept a ha hin)
    · right
      rw [← hid, hids row hrow] at hin
      exact not_not.mp hin
  · intro kv hkv
    simpa using List.of_mem_filter hkv
  · -- the rows are told apart by their ids
    have hnodup : (listed.map fun r => r.id).Nodup := by
      refine (hordered.1.map fun r => r.id).nodup_iff.mpr ?_
      exact g.shared.db.requests.pkey.sublist (List.filter_sublist.map _)
    rw [hrecords, List.map_map]
    exact hnodup.sublist ((List.take_sublist _ _).map _)
  · intro r hr
    rcases hfrom r hr with ⟨row, -, hrow, rfl⟩
    exact ⟨row, hrow, rfl⟩
  · intro a ha r hr hid
    exact hkept a ha (hid ▸ List.mem_map_of_mem hr)

theorem Sweeping.skip (h : Sweeping ids (record :: rest) w g) : Sweeping ids rest w g :=
  { h with
    count := by
      have hcount := h.count
      rw [List.length_cons] at hcount
      omega
    listed := fun r hr => h.listed r (List.mem_cons_of_mem _ hr)
    distinct := (List.nodup_cons.mp h.distinct).2
    rows := fun r hr => h.rows r (List.mem_cons_of_mem _ hr)
    noted := fun a ha r hr => h.noted a ha r (List.mem_cons_of_mem _ hr) }

/-- An ask that the throttle lets through comes late enough. -/
theorem Sweeping.ask (h : Sweeping ids (record :: rest) w g)
    (hdue : sweptRecently w.time (w.sweptAt.get record.id) = false) :
    Sweeping ids rest (w.upd (.trace (.sweep record)) ()) g := by
  have hskip := h.skip
  have hcount := h.count
  rw [List.length_cons] at hcount
  have hkeys := SweptAt.nodup_set h.keys record.id w.time
  have hheld : ∀ kv ∈ w.sweptAt.set record.id w.time, kv.1 ∈ ids := by
    intro kv hkv
    rcases List.mem_cons.mp hkv with rfl | hkv
    · exact h.listed record List.mem_cons_self
    · exact h.held kv (List.mem_of_mem_filter hkv)
  have hnoted : ∀ a ∈ w.asks, (a.id = record.id ∨ Noted w a) →
      Noted (w.upd (.trace (.sweep record)) ()) a := by
    intro a ha hcase
    by_cases hid : a.id = record.id
    · exact ⟨w.time, by simp [Watch.upd, SweptAt.get_set, hid], (h.past a ha).2⟩
    · rcases hcase with hsame | hold
      · exact absurd hsame hid
      · rcases hold with ⟨last, hlast, hle⟩
        exact ⟨last, by simpa [Watch.upd, SweptAt.get_set, hid] using hlast, hle⟩
  refine
    { apart := ?_
      batch := ?_
      memory := Nat.le_trans (SweptAt.length_le hkeys hheld) h.few
      clock := h.clock
      past := ?_
      keys := hkeys
      known := ?_
      count := ?_
      few := h.few
      held := hheld
      listed := hskip.listed
      distinct := hskip.distinct
      rows := hskip.rows
      noted := ?_ }
  · -- the throttle has the last ask about the record
    show (w.asks ++ [_]).Pairwise _
    rw [List.pairwise_append]
    refine ⟨h.apart, List.pairwise_singleton _ _, ?_⟩
    intro a ha b hb hid
    rw [List.mem_singleton] at hb
    subst hb
    rcases h.noted a ha record List.mem_cons_self hid.symm with ⟨last, hlast, hle⟩
    rw [← show a.id = record.id from hid, hlast] at hdue
    simp only [sweptRecently, decide_eq_false_iff_not] at hdue
    show (a.time : Int) + SWEEP_RECHECK_MS ≤ w.time
    omega
  · intro tick
    show (w.asks ++ [_]).countP _ ≤ _
    rw [List.countP_append, List.countP_singleton]
    by_cases htick : w.tick = tick
    · subst htick
      simp only [decide_true, if_true]
      omega
    · have hbatch := h.batch tick
      simpa [htick] using hbatch
  · intro a ha
    rcases List.mem_append.mp ha with ha | ha
    · exact h.past a ha
    · rw [List.mem_singleton] at ha
      subst ha
      exact ⟨Nat.le_refl _, Nat.le_refl _⟩
  · intro a ha
    rcases List.mem_append.mp ha with ha | ha
    · rcases h.known a ha with ⟨row, hrow, hid, hcase⟩
      refine ⟨row, hrow, hid, ?_⟩
      rcases hcase with hold | hout
      · exact .inl (hnoted a ha (.inr hold))
      · exact .inr hout
    · rw [List.mem_singleton] at ha
      subst ha
      rcases h.rows record List.mem_cons_self with ⟨row, hrow, hid⟩
      refine ⟨row, hrow, hid, .inl ⟨w.time, ?_, Nat.le_refl _⟩⟩
      simp [Watch.upd, SweptAt.get_set]
  · show (w.asks ++ [(⟨w.tick, record.id, w.time⟩ : Ask)]).countP (fun a => a.tick = w.tick) +
      rest.length ≤ SWEEP_BATCH
    rw [List.countP_append, List.countP_singleton]
    simp only [decide_true, if_true]
    omega
  · intro a ha r hr hid
    have hdistinct := (List.nodup_cons.mp h.distinct).1
    rcases List.mem_append.mp ha with ha | ha
    · exact hnoted a ha (.inr (h.noted a ha r (List.mem_cons_of_mem _ hr) hid))
    · rw [List.mem_singleton] at ha
      subst ha
      exact absurd (List.mem_map.mpr ⟨r, hr, hid⟩) hdistinct

/-! ## The programs -/

theorem watchedServe_spec {op : Op} {a : Answer .arbitrary} {r : Op.Rep op}
    (h : watchedServe g t op a = some (r, g')) :
    Grows g g' ∧ ((terminalRows g'.shared.db).map (·.updated_at)).Nodup ∧
      serve .arbitrary g.shared t op a = some (r, g'.shared) := by
  unfold watchedServe at h
  rcases Option.bind_eq_some_iff.mp h with ⟨clock, hclock, hserved⟩
  rcases Option.bind_eq_some_iff.mp hserved with ⟨served, hserve, hsteady⟩
  split_ifs at hsteady with hok
  cases hsteady
  refine ⟨⟨hok.keeps, ?_⟩, hok.distinct, hserve⟩
  unfold readClock at hclock
  split at hclock
  · split_ifs at hclock with hle
    cases hclock
    exact hle
  · cases hclock
    exact Nat.le_refl _

/-- A reading is what the clock shows afterwards. -/
theorem watchedServe_now {a : Answer .arbitrary} {ms : Nat}
    (h : watchedServe g t .now a = some (ms, g')) : ms = g'.clock := by
  unfold watchedServe at h
  rcases Option.bind_eq_some_iff.mp h with ⟨clock, hclock, hserved⟩
  rcases Option.bind_eq_some_iff.mp hserved with ⟨served, hserve, hsteady⟩
  split_ifs at hsteady
  cases hsteady
  cases a with
  | clock ms' =>
      simp only [readClock] at hclock
      split_ifs at hclock
      cases hclock
      cases hserve
      rfl
  | _ => cases hserve

/-- What the reconciler's calls have to respect. -/
def sweepLogic (deps : Deps) : Logic (reconcilers deps) Watch where
  inv g := ((terminalRows g.shared.db).map (·.updated_at)).Nodup
  rely _ := Grows
  ok _ w _ _ := Throttled w
  upd := Watch.upd
  rely_refl _ := ⟨fun _ h => h, Nat.le_refl _⟩
  rely_trans h h' := ⟨fun row hrow => h'.keeps row (h.keeps row hrow),
    Nat.le_trans h.clock h'.clock⟩

/-- The summary of a reconciler's history. -/
def watch (deps : Deps) (hist : List (Event sig)) : Watch := (sweepLogic deps).monitor {} hist

/-- The calls between the listings leave the summary alone, but for the clock. -/
theorem upd_still {op : Op} (h : Still op) (r : Op.Rep op) : w.upd op r = w := by
  cases op with
  | now => exact absurd rfl h.2
  | store op =>
      cases op with
      | listOpen limit => exact h.1.elim
      | listRecentTerminal since limit => exact h.1.elim
      | _ => rfl
  | trace mark =>
      cases mark with
      | sweep record => exact h.1.elim
      | _ => rfl
  | _ => rfl

/-- Whoever asked about what, and the memory, are as they were. -/
structure SameWatch (w w' : Watch) : Prop where
  tick : w'.tick = w.tick
  asks : w'.asks = w.asks
  sweptAt : w'.sweptAt = w.sweptAt

/-- The work on single records keeps the invariant, and asks about nothing. -/
theorem tracked_routine {α : Type} {p : Async α} (hp : p.Calls Routine) (h : Tracked w g) :
    (sweepLogic deps).wp t p (fun _ w' g' => Tracked w' g' ∧ SameWatch w w') w g := by
  refine wp_keeps (L := sweepLogic deps)
    (J := fun (w' : Watch) (g' : Watched) => Tracked w' g' ∧ SameWatch w w')
    hp ?_ ?_ ?_ ⟨h, rfl, rfl, rfl⟩
  · intro w' g g' _ hg hJ
    exact ⟨hJ.1.grows hg, hJ.2⟩
  · intro w' g op _ _ hJ
    exact hJ.1.toThrottled
  · intro w' g op a r g' hop _ hJ hx _
    have hg := (watchedServe_spec hx).1
    cases op with
    | now =>
        have hupd : (sweepLogic deps).upd w' .now r = { w' with time := g'.clock } := by
          rw [← watchedServe_now hx]
          rfl
        rw [hupd]
        exact ⟨hJ.1.read hg, hJ.2.tick, hJ.2.asks, hJ.2.sweptAt⟩
    | _ =>
        rw [show (sweepLogic deps).upd w' _ r = w' from upd_still ⟨hop, by simp⟩ r]
        exact ⟨hJ.1.grows hg, hJ.2⟩

/-- After its mark the sweep of a record only asks and closes. -/
theorem sweeping_still {α : Type} {p : Async α} (hp : p.Calls Still) (h : Sweeping ids rest w g) :
    (sweepLogic deps).wp t p (fun _ w' g' => w' = w ∧ Sweeping ids rest w' g') w g := by
  refine wp_keeps (L := sweepLogic deps)
    (J := fun (w' : Watch) (g' : Watched) => w' = w ∧ Sweeping ids rest w' g') hp ?_ ?_ ?_ ⟨rfl, h⟩
  · intro w' g g' _ hg hJ
    exact ⟨hJ.1, hJ.2.grows hg⟩
  · intro w' g op _ _ hJ
    exact hJ.2.toThrottled
  · intro w' g op a r g' hop _ hJ hx _
    rw [show (sweepLogic deps).upd w' op r = w' from upd_still hop r]
    exact ⟨hJ.1, hJ.2.grows (watchedServe_spec hx).1⟩

theorem tracked_sweepRecords (hinv : (sweepLogic deps).inv g) (h : Sweeping ids rest w g) :
    (sweepLogic deps).wp t (sweepRecords deps w.time rest w.sweptAt)
      (fun r w' g' => r = .ok w'.sweptAt ∧ Tracked w' g') w g := by
  induction rest generalizing w g with
  | nil => exact wp_ret fun g' _ hg => ⟨rfl, h.toTracked.grows hg⟩
  | cons record rest ih =>
      unfold sweepRecords
      split_ifs with hdue
      · exact ih hinv h.skip
      · refine wp_try (R := fun _ w' g' => w' = w.upd (.trace (.sweep record)) () ∧
          Sweeping ids rest w' g') hinv ?_ ?_
        · -- the mark, with the memory set before it, then GitHub
          intro g₁ hinv₁ hg₁
          refine ⟨h.toThrottled, fun a r g₂ hx hinv₂ => ?_⟩
          have hasked := ((h.grows hg₁).ask (by simpa using hdue)).grows (watchedServe_spec hx).1
          exact sweeping_still still_sweepBody hasked
        · intro r w₁ g₁ hinv₁ hR
          rcases hR with ⟨rfl, hsweeping⟩
          intro g₂ hinv₂ hg₂
          refine ⟨hsweeping.toThrottled, fun a r g₃ hx hinv₃ => ?_⟩
          exact ih hinv₃ ((hsweeping.grows hg₂).grows (watchedServe_spec hx).1)

theorem tracked_sweepTerminal (h : Tracked w g)
    (hfresh : w.asks.countP (fun a => a.tick = w.tick) = 0) :
    (sweepLogic deps).wp t (sweepTerminal deps w.sweptAt)
      (fun r w' g' => r = .ok w'.sweptAt ∧ Tracked w' g') w g := by
  unfold sweepTerminal now
  intro g₁ hinv₁ hg₁
  refine ⟨h.toThrottled, fun a ms g₂ hx hinv₂ => ?_⟩
  have hg₂ := (watchedServe_spec hx).1
  have hms := watchedServe_now hx
  subst hms
  have hread : Tracked { w with time := g₂.clock } g₂ := (h.grows hg₁).read hg₂
  -- the listing, with its three fates
  refine wp_try (R := fun r w' g' => match r with
    | .error _ => w' = { w with time := g₂.clock } ∧ Tracked w' g'
    | .ok records => w'.time = g₂.clock ∧ (∃ ids, Sweeping ids records w' g') ∧
        w'.sweptAt = w.sweptAt.filter fun kv => kv.1 ∈ records.map fun r => r.id) hinv₂ ?_ ?_
  · intro g₃ hinv₃ hg₃
    refine ⟨hread.toThrottled, fun a r g₄ hx hinv₄ => ?_⟩
    have hspec := watchedServe_spec hx
    have hthere : Tracked { w with time := g₂.clock } g₄ := (hread.grows hg₃).grows hspec.1
    refine wp_ofExcept fun g₅ _ hg₅ => ?_
    cases r with
    | error e => exact ⟨rfl, hthere.grows hg₅⟩
    | ok records =>
        cases a with
        | db a =>
            simp only [serve, Option.map_eq_some_iff] at hspec
            rcases hspec.2.2 with ⟨r, hexec, heq⟩
            have hr1 : r.1 = .ok records := congrArg Prod.fst heq
            have hr2 : ({ g₃.shared with db := r.2 } : Shared .arbitrary) = g₄.shared :=
              congrArg Prod.snd heq
            have hexec' : storeExec g₃.shared.db t (.listRecentTerminal
                ((g₂.clock : Int) - SWEEP_WINDOW_MS) SWEEP_BATCH) a = some (.ok records, r.2) := by
              rw [hexec, ← hr1]
            have hserve := storeExec_ok hexec'
            simp only [storeServe] at hserve
            split_ifs at hserve with hordered
            have hrecords : (a.listed.take SWEEP_BATCH).map toRecord = records :=
              Except.ok.inj (congrArg Prod.fst (Option.some.inj hserve))
            have hdb : g₃.shared.db = g₄.shared.db := by
              rw [← hr2]
              exact congrArg Prod.snd (Option.some.inj hserve)
            rw [hdb] at hordered
            have hsweeping := hthere.listing hinv₄ hordered hfresh hrecords.symm
            exact ⟨rfl, ⟨_, hsweeping.grows hg₅⟩, rfl⟩
        | _ => cases hspec.2.2
  · intro r w₁ g₃ hinv₃ hR
    cases r with
    | error e =>
        rcases hR with ⟨rfl, htracked⟩
        exact wp_ret fun g₄ _ hg₄ => ⟨rfl, htracked.grows hg₄⟩
    | ok records =>
        rcases hR with ⟨htime, ⟨ids, hsweeping⟩, hmemory⟩
        show (sweepLogic deps).wp t (sweepRecords deps g₂.clock records _) _ _ _
        rw [← htime, ← hmemory]
        exact tracked_sweepRecords hinv₃ hsweeping

/-- A mark of the work on a record, and what follows it. -/
theorem tracked_mark {α : Type} {mark : Mark} {f : Unit → Async α}
    {Q : Except JsError α → Watch → Watched → Prop} (hmark : Still (.trace mark))
    (h : Tracked w g) (hf : ∀ g', (sweepLogic deps).inv g' → Tracked w g' →
      (sweepLogic deps).wp t (f ()) Q w g') :
    (sweepLogic deps).wp t (trace mark >>= f) Q w g := by
  intro g₁ _ hg₁
  refine ⟨h.toThrottled, fun a r g₂ hx hinv₂ => ?_⟩
  rw [show (sweepLogic deps).upd w (.trace mark) r = w from upd_still hmark r]
  exact hf g₂ hinv₂ ((h.grows hg₁).grows (watchedServe_spec hx).1)

/-- The errors of a record end with the record. -/
theorem tracked_reconcileOne (h : Tracked w g) :
    (sweepLogic deps).wp t (reconcileOne deps record)
      (fun r w' g' => r = .ok () ∧ Tracked w' g' ∧ SameWatch w w') w g := by
  refine tracked_mark ⟨trivial, by simp⟩ h fun g₁ hinv₁ h₁ => ?_
  refine wp_try hinv₁ (tracked_routine routine_reconcile h₁) ?_
  intro _ w₂ g₂ _ hR
  exact tracked_mark (f := fun _ => .ret ()) ⟨trivial, by simp⟩ hR.1 fun g₃ _ h₃ =>
    wp_ret fun g₄ _ hg₄ => ⟨rfl, h₃.grows hg₄, hR.2⟩

theorem SameWatch.refl (w : Watch) : SameWatch w w := ⟨rfl, rfl, rfl⟩

theorem SameWatch.trans {w w' w'' : Watch} (h : SameWatch w w') (h' : SameWatch w' w'') :
    SameWatch w w'' :=
  ⟨h'.tick.trans h.tick, h'.asks.trans h.asks, h'.sweptAt.trans h.sweptAt⟩

theorem tracked_orphansOf (owned : List String) (prs : List OpenSsoPr) (logged : List Int)
    (hinv : (sweepLogic deps).inv g) (h : Tracked w g) :
    (sweepLogic deps).wp t (orphansOf owned prs logged)
      (fun r w' g' => (∃ logged', r = .ok logged') ∧ Tracked w' g' ∧ SameWatch w w') w g := by
  induction prs generalizing logged w g with
  | nil => exact wp_ret fun g' _ hg => ⟨⟨_, rfl⟩, h.grows hg, .refl w⟩
  | cons pr rest ih =>
      unfold orphansOf
      split_ifs
      · exact ih logged hinv h
      · refine wp_try hinv (tracked_routine (routine_store trivial) h) ?_
        intro r w₁ g₁ hinv₁ hR
        have hnext : ∀ logged', (sweepLogic deps).wp t (orphansOf owned rest logged')
            (fun r w' g' => (∃ logged', r = .ok logged') ∧ Tracked w' g' ∧ SameWatch w w')
            w₁ g₁ := by
          intro logged'
          refine wp_mono (ih logged' hinv₁ hR.1) ?_
          intro r w₂ g₂ _ hR₂
          exact ⟨hR₂.1, hR₂.2.1, hR.2.trans hR₂.2.2⟩
        cases r with
        | error e => exact wp_ret fun g₂ _ hg₂ => ⟨⟨_, rfl⟩, hR.1.grows hg₂, hR.2⟩
        | ok owner =>
            cases owner with
            | none => exact hnext _
            | some owner => exact hnext _

theorem tracked_logOrphans {records : List ChangeRecord} {logged : List Int}
    (hinv : (sweepLogic deps).inv g) (h : Tracked w g) :
    (sweepLogic deps).wp t (logOrphans deps records logged)
      (fun r w' g' => (∃ logged', r = .ok logged') ∧ Tracked w' g' ∧ SameWatch w w') w g := by
  refine wp_try hinv (tracked_routine (routine_reads calls_listOpenSsoPrs) h) ?_
  intro r w₁ g₁ hinv₁ hR
  cases r with
  | error e => exact wp_ret fun g₂ _ hg₂ => ⟨⟨_, rfl⟩, hR.1.grows hg₂, hR.2⟩
  | ok prs =>
      refine wp_mono (tracked_orphansOf _ prs logged hinv₁ hR.1) ?_
      intro r w₂ g₂ _ hR₂
      exact ⟨hR₂.1, hR₂.2.1, hR.2.trans hR₂.2.2⟩

/-- A tick keeps the invariant, and hands its memory on. -/
theorem tracked_tickBody {memory : ReconcilerMemory} (hinv : (sweepLogic deps).inv g)
    (h : Tracked w g) (hmemory : memory.sweptAt = w.sweptAt) :
    (sweepLogic deps).wp t (tickBody deps memory) (fun r w' g' => Tracked w' g' ∧
      ∃ left, r = .ok left ∧ left.sweptAt = w'.sweptAt) w g := by
  refine wp_try (R := fun _ w' g' => Tracked w' g' ∧
    w'.asks.countP (fun a => a.tick = w'.tick) = 0 ∧ w'.sweptAt = w.sweptAt) hinv ?_ ?_
  · -- the listing of the open requests begins the tick
    intro g₁ hinv₁ hg₁
    refine ⟨h.toThrottled, fun a r g₂ hx hinv₂ => ?_⟩
    refine wp_ofExcept fun g₃ _ hg₃ => ?_
    have hnext := (((h.grows hg₁).grows (watchedServe_spec hx).1).grows hg₃).next
    exact ⟨hnext.1, hnext.2, rfl⟩
  · intro r w₁ g₁ hinv₁ hR
    rcases hR with ⟨htracked, hfresh, hsame⟩
    cases r with
    | error e =>
        exact wp_ret fun g₂ _ hg₂ => ⟨htracked.grows hg₂, memory, rfl, hmemory.trans hsame.symm⟩
    | ok records =>
        have heach : (sweepLogic deps).wp t (Prog.each (reconcileOne deps) records)
            (fun r w' g' => r = .ok () ∧ Tracked w' g' ∧ SameWatch w₁ w') w₁ g₁ := by
          refine wp_each (fun w' g' => Tracked w' g' ∧ SameWatch w₁ w') records ?_ hinv₁
            ⟨htracked, rfl, rfl, rfl⟩ ?_
          · intro w' g g' hg hJ
            exact ⟨hJ.1.grows hg, hJ.2⟩
          · intro record _ w' g' _ hJ
            refine wp_mono (tracked_reconcileOne hJ.1) ?_
            intro r w'' g'' _ hR
            exact ⟨hR.1, hR.2.1, hJ.2.trans hR.2.2⟩
        refine wp_seq hinv₁ heach ?_ ?_
        · intro _ w₂ g₂ hinv₂ hR₂
          rcases hR₂ with ⟨-, htracked₂, hsame₂⟩
          have hfresh₂ : w₂.asks.countP (fun a => a.tick = w₂.tick) = 0 := by
            rw [hsame₂.asks, hsame₂.tick]
            exact hfresh
          rw [hmemory, ← hsame, ← hsame₂.sweptAt]
          refine wp_seq hinv₂ (tracked_sweepTerminal htracked₂ hfresh₂) ?_ ?_
          · intro sweptAt w₃ g₃ hinv₃ hR₃
            refine wp_seq hinv₃ (tracked_logOrphans hinv₃ hR₃.2) ?_ ?_
            · intro logged w₄ g₄ _ hR₄
              refine wp_ret fun g₅ _ hg₅ => ⟨hR₄.2.1.grows hg₅, _, rfl, ?_⟩
              rw [hR₄.2.2.sweptAt]
              exact Except.ok.inj hR₃.1
            · intro e w₄ g₄ _ hR₄
              rcases hR₄.1 with ⟨logged', herr⟩
              cases herr
          · intro e w₃ g₃ _ hR₃
            cases hR₃.1
        · intro e w₂ g₂ _ hR₂
          cases hR₂.1

/-- So do any number of ticks. -/
theorem tracked_ticks (n : Nat) {memory : ReconcilerMemory} (hinv : (sweepLogic deps).inv g)
    (h : Tracked w g) (hmemory : memory.sweptAt = w.sweptAt) :
    (sweepLogic deps).wp t (ticks deps n memory) (fun r w' g' => Tracked w' g' ∧
      ∃ left, r = .ok left ∧ left.sweptAt = w'.sweptAt) w g := by
  induction n generalizing memory w g with
  | zero => exact wp_ret fun g' _ hg => ⟨h.grows hg, memory, rfl, hmemory⟩
  | succ n ih =>
      refine wp_seq hinv (tracked_tickBody hinv h hmemory) ?_ ?_
      · intro left w₁ g₁ hinv₁ hR
        rcases hR with ⟨htracked, left', heq, hleft⟩
        cases heq
        exact ih hinv₁ htracked hleft
      · intro e w₁ g₁ _ hR
        rcases hR with ⟨-, left', heq, -⟩
        cases heq

/-! ## Every run -/

variable {s : (reconcilers deps).State}

theorem reconcilers_hold (h : (reconcilers deps).Reachable watchedStart s) :
    (sweepLogic deps).Holds (fun _ => {}) (fun _ r w g => Tracked w g ∧
      ∃ left, r = .ok left ∧ left.sweptAt = w.sweptAt) s := by
  have hstart : ((terminalRows watchedStart.shared.db).map (·.updated_at)).Nodup := List.nodup_nil
  refine sound hstart ?_ ?_ ?_ h
  · exact fun s n _ hinv => tracked_ticks n hinv (.start s.shared) rfl
  · intro s t a th op k r g' _ _ _ _ _ hx
    have hspec := watchedServe_spec hx
    exact ⟨hspec.2.1, fun _ _ => hspec.1⟩
  · intro s db g' _ _ hx
    simp only [reconcilers] at hx
    split_ifs at hx with hsteady
    cases hx
    exact ⟨hsteady.distinct, fun _ => ⟨hsteady.keeps, Nat.le_refl _⟩⟩

/-- In every state of every run a reconciler has asked about no record twice within
`SWEEP_RECHECK_MS` and about at most `SWEEP_BATCH` in one tick, and its memory, which
is what its ticks return, has at most `SWEEP_BATCH` entries. -/
theorem sweeps_throttled (h : (reconcilers deps).Reachable watchedStart s)
    {th : (reconcilers deps).Thread} (hth : s.threads[t]? = some th) :
    ((watch deps th.hist).asks.Pairwise fun a b =>
      a.id = b.id → (a.time : Int) + SWEEP_RECHECK_MS ≤ b.time) ∧
    (∀ tick, (watch deps th.hist).asks.countP (fun a => a.tick = tick) ≤ SWEEP_BATCH) ∧
    (watch deps th.hist).sweptAt.length ≤ SWEEP_BATCH ∧
    ∀ left, th.rest = .ret left → left.sweptAt = (watch deps th.hist).sweptAt := by
  have hholds := reconcilers_hold h
  have hthrottled : Throttled (watch deps th.hist) ∧
      ∀ left, th.rest = .ret left → left.sweptAt = (watch deps th.hist).sweptAt := by
    cases hrest : th.rest with
    | ret left =>
        rcases hholds.post hth hrest with ⟨htracked, left', heq, hleft⟩
        cases heq
        refine ⟨htracked.toThrottled, fun left hret => ?_⟩
        cases hret
        exact hleft
    | raise e =>
        rcases hholds.post_error hth hrest with ⟨-, left', heq, -⟩
        cases heq
    | call op k => exact ⟨hholds.ok hth hrest, fun left hret => by cases hret⟩
  exact ⟨hthrottled.1.apart, hthrottled.1.batch, hthrottled.1.memory, hthrottled.2⟩

/-- A failed request, as the only row. -/
def sweptRow : RequestRow where
  id := 1
  stage := .failed
  file_path := SSO_FILE_PATH
  endpoint := "flink"
  idempotency_key := sampleKey
  payload_sha256 := sampleChange.payloadSha256
  base_blob_sha := sampleBase.blobSha
  source_commit_sha := sampleBase.commitSha
  allowedGroups := sampleChange.after
  actor_sub := "sub-1"
  actor_username := some "alice"
  branch := "sso/flink-001122334455"
  pr_number := none
  pr_url := none
  merge_commit_sha := none
  created_at := sampleTime
  updated_at := sampleTime

def sweptDb : Db :=
  match RequestTable.ofRows [sweptRow] with
  | .ok requests => ⟨requests, [], []⟩
  | .error _ => .empty

/-- Two ticks, ten minutes apart, over that row; GitHub does not answer. -/
def sweepRun : List (reconcilers sampleDeps).Act :=
  [.env sweptDb, .spawn 2, .act 0 (.db {}), .act 0 (.clock (sampleTime / 1000)),
    .act 0 (.db { listed := [sweptRow] }), .act 0 .mark, .act 0 (.github (.error "timeout")),
    .act 0 .mark, .act 0 (.github (.error "timeout")), .act 0 (.db {}),
    .act 0 (.clock (sampleTime / 1000 + 600000)), .act 0 (.db { listed := [sweptRow] }),
    .act 0 .mark]

theorem sweepRun_isSome : (System.run (System.init watchedStart) sweepRun).isSome := by decide

def sweepEnd : (reconcilers sampleDeps).State :=
  (System.run (System.init watchedStart) sweepRun).get sweepRun_isSome

theorem sweepEnd_thread : sweepEnd.threads[0]?.isSome := by decide

def sweepThread : (reconcilers sampleDeps).Thread := sweepEnd.threads[0]?.get sweepEnd_thread

/-- `sweeps_throttled` of that run: the second ask comes when it may. -/
theorem sweeps_throttled_twice :
    (watch sampleDeps sweepThread.hist).asks =
        [⟨1, 1, sampleTime / 1000⟩, ⟨2, 1, sampleTime / 1000 + 600000⟩] ∧
      (watch sampleDeps sweepThread.hist).sweptAt.length ≤ SWEEP_BATCH := by
  have hreach : (reconcilers sampleDeps).Reachable watchedStart sweepEnd :=
    System.reachable_get sweepRun_isSome
  have hth : sweepEnd.threads[0]? = some sweepThread := (Option.some_get sweepEnd_thread).symm
  exact ⟨by decide, (sweeps_throttled hreach hth).2.2.1⟩

end Sso
