import Beluga.Sso.Routine

/-! # One reconciler over many ticks

The ticks of one process, one after the other, over a store in which terminal
rows stay as they are and have update times of their own, while other rows move
and new terminal rows appear at any time. Its clock does not go back.

* `Watch`: what the process asked GitHub about in its sweeps, and its memory;
* `mem_take_iff`: whether a row is in a listing of the newest is a matter of how
  many are newer;
* `Out`: a record that the listing does not hold, now or ever again.
-/

namespace Sso

open Interact

/-! ## The system -/

/-- `n` ticks, each with the memory that the one before left. -/
def ticks (deps : Deps) : Nat → ReconcilerMemory → Async ReconcilerMemory
  | 0, memory => return memory
  | n + 1, memory => do
      let left ← tickBody deps memory
      ticks deps n left

def terminalRows (db : Db) : List RequestRow :=
  db.requests.rows.filter fun r => decide (r.stage = .failed ∨ r.stage = .rejected)

/-- Terminal rows stay, and no two have one update time. -/
structure Steady (db db' : Db) : Prop where
  keeps : ∀ row ∈ terminalRows db, row ∈ terminalRows db'
  distinct : ((terminalRows db').map (·.updated_at)).Nodup

instance (db db' : Db) : Decidable (Steady db db') :=
  decidable_of_iff ((∀ row ∈ terminalRows db, row ∈ terminalRows db') ∧
    ((terminalRows db').map (·.updated_at)).Nodup)
    ⟨fun h => ⟨h.1, h.2⟩, fun h => ⟨h.keeps, h.distinct⟩⟩

structure Watched where
  shared : Shared .arbitrary
  clock : Nat

/-- A reading of the clock is not below the one before. -/
def readClock (clock : Nat) : Answer .arbitrary → Option Nat
  | .clock ms => if clock ≤ ms then some ms else none
  | _ => some clock

/-- Serve one call, if the store stays steady. -/
def watchedServe (s : Watched) (t : Nat) (op : Op) (a : Answer .arbitrary) :
    Option (Op.Rep op × Watched) :=
  (readClock s.clock a).bind fun clock =>
    (serve .arbitrary s.shared t op a).bind fun r =>
      if Steady s.shared.db r.2.db then some (r.1, ⟨r.2, clock⟩) else none

/-- Reconcilers that each run a number of ticks; the environment is what else
happens in the store. -/
abbrev reconcilers (deps : Deps) : System sig JsError ReconcilerMemory where
  Shared := Watched
  Task := Nat
  prog n := ticks deps n {}
  Answer := Answer .arbitrary
  exec := watchedServe
  Env := Db
  env s db := if Steady s.shared.db db then some { s with shared := { s.shared with db := db } }
    else none

def watchedStart : Watched := ⟨start .arbitrary (), 0⟩

/-! ## What is observed -/

/-- The sweep of tick `tick` turned to GitHub about a record; `time` is the clock
reading of that sweep. -/
structure Ask where
  tick : Nat
  id : Uuid
  time : Nat
  deriving DecidableEq, Repr

/-- The ticks so far, the last clock reading, the asks, and `sweptAt`. -/
structure Watch where
  tick : Nat := 0
  time : Nat := 0
  asks : List Ask := []
  sweptAt : SweptAt := []

/-- A tick begins with its listing; a sweep forgets what its own listing does not
hold, and notes a record before it asks about it. -/
def Watch.upd (w : Watch) : (op : Op) → Op.Rep op → Watch
  | .store (.listOpen _), _ => { w with tick := w.tick + 1 }
  | .now, ms => { w with time := ms }
  | .store (.listRecentTerminal _ _), .ok records =>
      { w with sweptAt := w.sweptAt.filter fun kv => kv.1 ∈ records.map fun r => r.id }
  | .trace (.sweep record), _ =>
      { w with
        asks := w.asks ++ [⟨w.tick, record.id, w.time⟩]
        sweptAt := w.sweptAt.set record.id w.time }
  | _, _ => w

/-! ## Listings of the newest -/

/-- A row is among the first `n` of a listing of the newest when fewer than `n` are newer. -/
theorem mem_take_iff {α : Type} {key : α → Nat} {rows listed : List α} (hperm : listed.Perm rows)
    (hdesc : listed.Pairwise fun a b => key b ≤ key a) (hkeys : (rows.map key).Nodup) {row : α}
    (hrow : row ∈ rows) (n : Nat) :
    row ∈ listed.take n ↔ (rows.filter fun r => key row < key r).length < n := by
  have hstrict : listed.Pairwise fun a b => key b < key a := by
    have hne : listed.Pairwise fun a b => key a ≠ key b :=
      List.pairwise_map.mp ((hperm.map key).nodup_iff.mpr hkeys)
    refine (hdesc.and hne).imp ?_
    intro a b h
    omega
  rcases List.append_of_mem (hperm.symm.subset hrow) with ⟨before, after, rfl⟩
  rw [List.pairwise_append, List.pairwise_cons] at hstrict
  -- exactly the rows before it are newer
  have hbefore : before.filter (fun r => key row < key r) = before := by
    rw [List.filter_eq_self]
    intro r hr
    simpa using hstrict.2.2 r hr row List.mem_cons_self
  have hafter : after.filter (fun r => key row < key r) = [] := by
    rw [List.filter_eq_nil_iff]
    intro r hr hlt
    have hgt := hstrict.2.1.1 r hr
    simp only [decide_eq_true_eq] at hlt
    omega
  have hlength : (rows.filter fun r => key row < key r).length = before.length := by
    rw [← (hperm.filter _).length_eq, List.filter_append, hbefore, List.filter_cons]
    simp [hafter]
  rw [hlength]
  constructor
  · intro hmem
    by_contra hle
    rw [List.take_append_of_le_length (by omega)] at hmem
    have hlt := hstrict.2.2 row (List.mem_of_mem_take hmem) row List.mem_cons_self
    omega
  · intro hlt
    have hn : n = before.length + (n - before.length - 1 + 1) := by omega
    rw [hn, List.take_length_add_append, List.take_succ_cons]
    exact List.mem_append_right _ List.mem_cons_self

/-- The terminal rows that are newer than `row`. -/
def newer (db : Db) (row : RequestRow) : List RequestRow :=
  (terminalRows db).filter fun r => row.updated_at < r.updated_at

/-- The listing of a sweep that starts at `time` or later does not hold the row. -/
def Out (db : Db) (time : Nat) (row : RequestRow) : Prop :=
  (row.updated_at : Int) < ((time : Int) - SWEEP_WINDOW_MS) * 1000 ∨
    SWEEP_BATCH ≤ (newer db row).length

theorem mem_terminalRows {db : Db} {row : RequestRow} :
    row ∈ terminalRows db ↔
      row ∈ db.requests.rows ∧ (row.stage = .failed ∨ row.stage = .rejected) := by
  simp [terminalRows]

theorem mem_recentTerminalRows {db : Db} {since : Int} {row : RequestRow} :
    row ∈ recentTerminalRows db since ↔
      row ∈ terminalRows db ∧ since * 1000 ≤ (row.updated_at : Int) := by
  simp [recentTerminalRows, terminalRows, and_assoc]

theorem recentTerminalRows_eq (db : Db) (since : Int) :
    recentTerminalRows db since =
      (terminalRows db).filter fun r => decide (since * 1000 ≤ (r.updated_at : Int)) := by
  rw [recentTerminalRows, terminalRows, List.filter_filter]
  refine List.filter_congr fun r _ => ?_
  simp [Bool.and_comm]

theorem nodup_terminalRows (db : Db) : (terminalRows db).Nodup :=
  (List.Nodup.of_map _ db.requests.pkey).filter _

theorem Steady.refl {db : Db} (h : ((terminalRows db).map (·.updated_at)).Nodup) : Steady db db :=
  ⟨fun _ hrow => hrow, h⟩

/-- A row that is out stays out: what is newer stays, and the window moves on. -/
theorem Out.mono {db db' : Db} {time time' : Nat} {row : RequestRow} (h : Out db time row)
    (hkeeps : ∀ r ∈ terminalRows db, r ∈ terminalRows db') (htime : time ≤ time') :
    Out db' time' row := by
  rcases h with hold | hcrowded
  · left
    omega
  · right
    have hsub : newer db row ⊆ newer db' row := by
      intro r hr
      rw [newer, List.mem_filter] at hr ⊢
      exact ⟨hkeeps r hr.1, hr.2⟩
    exact Nat.le_trans hcrowded
      (List.subperm_of_subset ((nodup_terminalRows db).filter _) hsub).length_le

/-- A sweep's listing holds exactly the terminal rows that are not out. -/
theorem listed_iff {db : Db} {time : Nat} {listed : List RequestRow}
    (hdistinct : ((terminalRows db).map (·.updated_at)).Nodup)
    (hordered : OrderedDesc (·.updated_at)
      (recentTerminalRows db ((time : Int) - SWEEP_WINDOW_MS)) listed)
    {row : RequestRow} (hrow : row ∈ terminalRows db) :
    row ∈ listed.take SWEEP_BATCH ↔ ¬ Out db time row := by
  have hmem : row ∈ recentTerminalRows db ((time : Int) - SWEEP_WINDOW_MS) ↔
      ((time : Int) - SWEEP_WINDOW_MS) * 1000 ≤ (row.updated_at : Int) := by
    rw [mem_recentTerminalRows]
    exact and_iff_right hrow
  by_cases hrecent : ((time : Int) - SWEEP_WINDOW_MS) * 1000 ≤ (row.updated_at : Int)
  · have hkeys : ((recentTerminalRows db ((time : Int) - SWEEP_WINDOW_MS)).map
        (·.updated_at)).Nodup := by
      rw [recentTerminalRows_eq]
      exact hdistinct.sublist (List.filter_sublist.map _)
    -- whatever is newer than a recent row is recent
    have hnewer : (recentTerminalRows db ((time : Int) - SWEEP_WINDOW_MS)).filter
        (fun r => row.updated_at < r.updated_at) = newer db row := by
      rw [recentTerminalRows_eq, newer, List.filter_filter]
      refine List.filter_congr fun r _ => ?_
      simp only [Bool.and_eq_left_iff_imp, decide_eq_true_eq]
      omega
    rw [mem_take_iff hordered.1 hordered.2 hkeys (hmem.mpr hrecent), hnewer, Out]
    omega
  · have hout : Out db time row := .inl (by omega)
    constructor
    · intro h
      exact absurd (hmem.mp (hordered.1.subset (List.mem_of_mem_take h))) hrecent
    · intro h
      exact absurd hout h

/-- The same for the ids of the records that are listed. -/
theorem listed_ids {db : Db} {time : Nat} {listed : List RequestRow}
    (hdistinct : ((terminalRows db).map (·.updated_at)).Nodup)
    (hordered : OrderedDesc (·.updated_at)
      (recentTerminalRows db ((time : Int) - SWEEP_WINDOW_MS)) listed)
    {row : RequestRow} (hrow : row ∈ terminalRows db) :
    row.id ∈ ((listed.take SWEEP_BATCH).map toRecord).map (fun r => r.id) ↔
      ¬ Out db time row := by
  rw [← listed_iff hdistinct hordered hrow, List.map_map, List.mem_map]
  constructor
  · intro h
    rcases h with ⟨r, hr, hid⟩
    have hterminal := (mem_recentTerminalRows.mp (hordered.1.subset (List.mem_of_mem_take hr))).1
    have heq : r = row := RequestTable.eq_of_id (mem_terminalRows.mp hterminal).1
      (mem_terminalRows.mp hrow).1 hid
    rwa [← heq]
  · intro h
    exact ⟨row, h, rfl⟩

end Sso
