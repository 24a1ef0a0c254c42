import Beluga.Upstream.MemoSteps

/-! # One load at a time

Two callers share a load because its entry is in the map, and the bounds of the memo
are kept by taking entries out of the same map, pending or not.

* `Shared`: every pending load is in the map;
* `single_flight`: no two loads of a key are pending, in runs in which no pending load
  is evicted;
* `evicted_load_repeated`: with room for one entry a second load is started.
-/

namespace Upstream

open Interact Js

namespace Memo

variable (options : MemoOptions) {s s' : Memo} {key : String}

/-! ## Evictions -/

/-- The loads that the loop of `evict` takes out. -/
def victims : Nat → Memo → List Nat
  | 0, _ => []
  | n + 1, s =>
      if s.exceeds options then
        match s.cache with
        | [] => []
        | (key, id) :: _ => id :: victims n (s.unlink key id)
      else []

/-- The state in which the handler of a value evicts, if it does. -/
def weighed (s : Memo) (id : Nat) (call : WeightCall) : Memo :=
  ((s.settle id).reweigh (s.entry id).key id call.weight).update id fun e =>
    { e with expires := s.now.add (s.ttl options id) }

/-- The state in which a step evicts, if it does. -/
def evicting (s : Memo) : MemoAct → Option Memo
  | .memo key ttlMs starts =>
      match s.get key with
      | some hit =>
          if (s.entry hit).pending || s.now.lt (s.entry hit).expires then none
          else if starts then some (s.fileLoad key ttlMs) else none
      | none => if starts then some (s.fileLoad key ttlMs) else none
  | .resolve id call =>
      if s.isLive (s.entry id).key id then
        if (s.ttl options id).le (.fin 0) || options.maxWeight.lt call.weight then none
        else some (s.weighed options id call)
      else none
  | _ => none

/-- No pending load is evicted, and no key is invalidated. -/
def Spares (s : Memo) (a : MemoAct) : Prop :=
  (∀ key, a ≠ .invalidate key) ∧
    ∀ s', s.evicting options a = some s' →
      ∀ id ∈ victims options s'.cache.length s', (s'.entry id).pending = false

/-- Every pending load is in the map. -/
structure Shared (s : Memo) : Prop where
  filed : s.Filed
  live : ∀ id, (s.entry id).pending = true → ((s.entry id).key, id) ∈ s.cache

variable {options}

/-- Two pending loads have different keys. -/
theorem Shared.unique (h : s.Shared) {i j : Nat} (hi : (s.entry i).pending = true)
    (hj : (s.entry j).pending = true) (hkey : (s.entry i).key = (s.entry j).key) : i = j := by
  have hsame := List.inj_on_of_nodup_map h.filed.keys (h.live i hi) (h.live j hj) hkey
  exact (Prod.mk.inj hsame).2

/-- The eviction takes out its victims and no others. -/
theorem mem_evictLoop {n : Nat} (hs : s.Filed) {kv : String × Nat} (hkv : kv ∈ s.cache)
    (hspared : kv.2 ∉ victims options n s) : kv ∈ (evictLoop options n s).cache := by
  induction n generalizing s with
  | zero => exact hkv
  | succ n ih =>
      rw [victims] at hspared
      rw [evictLoop]
      by_cases hexceeds : s.exceeds options
      · rw [if_pos hexceeds] at hspared ⊢
        cases hcache : s.cache with
        | nil =>
            rw [hcache] at hkv
            cases hkv
        | cons first rest =>
            obtain ⟨key, id⟩ := first
            rw [hcache] at hspared
            obtain ⟨hne, hspared'⟩ := not_or.mp (List.mem_cons.not.mp hspared)
            have hfirst : (key, id) ∈ s.cache := hcache ▸ List.mem_cons_self
            refine ih (unlink_trims.filed hs) ?_ hspared'
            rw [cache_unlink_of_get (get_of_mem hs.keys hfirst)]
            refine mem_delete.mpr ⟨hkv, fun hkey => hne ?_⟩
            exact congrArg (·.2) (List.inj_on_of_nodup_map hs.keys hkv hfirst hkey)
      · rw [if_neg hexceeds]
        exact hkv

/-- An eviction without pending victims. -/
theorem Shared.evict (h : s.Shared)
    (hspared : ∀ id ∈ victims options s.cache.length s, (s.entry id).pending = false) :
    (s.evict options).Shared := by
  have htrims := evict_trims options s
  refine ⟨htrims.filed h.filed, fun id hpending => ?_⟩
  obtain ⟨weight, hentry⟩ := htrims.entry id
  rw [hentry] at hpending ⊢
  refine mem_evictLoop h.filed (h.live id hpending) fun hmem => ?_
  rw [hspared id hmem] at hpending
  cases hpending

/-! ## Steps -/

theorem Shared.fileLoad (h : s.Shared) (key : String) (ttlMs : Option Js.Num)
    (hunusable : ∀ hit, s.get key = some hit → ¬ s.Usable hit) :
    (s.fileLoad key ttlMs).Shared := by
  have hloads := s.fileLoad_loads key ttlMs
  refine ⟨hloads.filed h.filed, fun id hpending => ?_⟩
  have hlt := lt_of_pending hpending
  rw [hloads.entries, List.length_append, List.length_singleton] at hlt
  rw [hloads.cache]
  by_cases hold : id < s.entries.length
  · rw [hloads.entry_old hold] at hpending ⊢
    have hmem := h.live id hpending
    refine List.mem_append_left _ (mem_delete.mpr ⟨hmem, fun hkey => ?_⟩)
    -- a pending load of this key would have been shared
    exact hunusable id (get_of_mem h.filed.keys (hkey ▸ hmem)) (.inl hpending)
  · have hid : id = s.entries.length := by omega
    rw [hid, hloads.entry_new]
    exact List.mem_append_right _ (List.mem_singleton_self _)

theorem Shared.memo (h : s.Shared) (key : String) (ttlMs : Option Js.Num) (starts : Bool)
    (hspares : s.Spares options (.memo key ttlMs starts)) :
    (s.memo options key ttlMs starts).Shared := by
  rcases s.memo_cases options key ttlMs starts with
    ⟨hit, hget, -, heq⟩ | ⟨hunusable, ⟨-, htrims, hstay⟩ | ⟨hstarts, heq⟩⟩
  · rw [heq]
    refine ⟨touch_filed h.filed hget, ?_⟩
    rw [set_delete]
    intro id hpending
    have hperm := (delete_perm h.filed.keys (mem_of_get hget)).trans
      (List.perm_append_singleton _ _).symm
    exact hperm.mem_iff.mp (h.live id hpending)
  · refine ⟨htrims.filed h.filed, fun id hpending => ?_⟩
    obtain ⟨weight, hentry⟩ := htrims.entry id
    rw [hentry] at hpending ⊢
    have hmem := h.live id hpending
    refine hstay _ hmem fun hkey => ?_
    exact hunusable id (get_of_mem h.filed.keys (hkey ▸ hmem)) (.inl hpending)
  · rw [heq]
    refine (h.fileLoad key ttlMs hunusable).evict (hspares.2 _ ?_)
    rw [evicting, hstarts]
    cases hget : s.get key with
    | none => rfl
    | some hit =>
        have husable := hunusable hit hget
        rw [Usable, ← Bool.or_eq_true_iff] at husable
        simp only
        rw [if_neg husable]
        rfl

theorem Shared.settle (h : s.Shared) (id : Nat) : (s.settle id).Shared := by
  have hentry : ∀ i < s.entries.length, (s.settle id).entry i =
      if i = id then { s.entry i with pending := false } else s.entry i := fun i hi => entry_settle hi
  refine ⟨⟨h.filed.keys, fun kv hkv => ?_⟩, fun i hpending => ?_⟩
  · obtain ⟨hlt, hkey⟩ := h.filed.named kv hkv
    refine ⟨(length_update _).symm ▸ hlt, ?_⟩
    rw [hentry kv.2 hlt]
    split_ifs
    · exact hkey
    · exact hkey
  · have hlt : i < s.entries.length := length_update _ ▸ lt_of_pending hpending
    rw [hentry i hlt] at hpending ⊢
    split_ifs at hpending ⊢ with hi
    exact h.live i hpending

/-- An entry that has settled leaves the map. -/
theorem Shared.unlink (h : s.Shared) {id : Nat} (hsettled : (s.entry id).pending = false) :
    (s.unlink key id).Shared := by
  refine ⟨unlink_trims.filed h.filed, fun i hpending => ?_⟩
  have hentries : ∀ j, (s.unlink key id).entry j = s.entry j := by
    intro j
    rw [Memo.unlink]
    split_ifs <;> rfl
  rw [hentries] at hpending ⊢
  have hmem := h.live i hpending
  by_cases hlive : s.get key = some id
  · rw [cache_unlink_of_get hlive]
    refine mem_delete.mpr ⟨hmem, fun hkey => ?_⟩
    have hkey' : (s.entry i).key = key := hkey
    have hget := get_of_mem h.filed.keys (hkey' ▸ hmem)
    rw [hlive] at hget
    cases hget
    rw [hsettled] at hpending
    cases hpending
  · rw [unlink_of_not_live (by simpa [isLive] using hlive)]
    exact hmem

/-- Weights and times do not matter. -/
theorem Shared.congr (h : s.Shared) (hcache : s'.cache = s.cache)
    (hlength : s'.entries.length = s.entries.length)
    (hentry : ∀ i < s.entries.length,
      (s'.entry i).key = (s.entry i).key ∧ (s'.entry i).pending = (s.entry i).pending) :
    s'.Shared := by
  refine ⟨⟨hcache ▸ h.filed.keys, fun kv hkv => ?_⟩, fun i hpending => ?_⟩
  · obtain ⟨hlt, hkey⟩ := h.filed.named kv (hcache ▸ hkv)
    exact ⟨hlength ▸ hlt, (hentry kv.2 hlt).1.trans hkey⟩
  · obtain ⟨hkey, hsame⟩ := hentry i (hlength ▸ lt_of_pending hpending)
    rw [hcache, hkey]
    exact h.live i (hsame ▸ hpending)

theorem Shared.weighed (h : s.Shared) (id : Nat) (call : WeightCall) :
    (s.weighed options id call).Shared := by
  have hreweigh := @reweigh_trims (s.settle id) (s.entry id).key id call.weight
  have hcache : ((s.settle id).reweigh (s.entry id).key id call.weight).cache = s.cache := by
    rw [reweigh]
    split_ifs <;> rfl
  have hupdate : (s.weighed options id call).entries.length =
      ((s.settle id).reweigh (s.entry id).key id call.weight).entries.length := length_update _
  refine (h.settle id).congr hcache (hupdate.trans hreweigh.length) fun i hi => ?_
  obtain ⟨weight, hentry⟩ := hreweigh.entry i
  rw [Memo.weighed, entry_update (by rwa [hreweigh.length])]
  split_ifs
  · rw [hentry]
    exact ⟨rfl, rfl⟩
  · rw [hentry]
    exact ⟨rfl, rfl⟩

theorem settled_entry {id : Nat} (hpending : (s.entry id).pending = true) :
    ((s.settle id).entry id).pending = false := by
  rw [entry_settle (lt_of_pending hpending), if_pos rfl]

theorem Shared.resolve (h : s.Shared) {id : Nat} (hpending : (s.entry id).pending = true)
    (call : WeightCall) (hspares : s.Spares options (.resolve id call)) :
    (s.resolve options id call).Shared := by
  have hlive : (s.settle id).isLive (s.entry id).key id = s.isLive (s.entry id).key id := rfl
  simp only [Memo.resolve]
  rw [show (s.update id fun e => { e with pending := false }) = s.settle id from rfl, hlive]
  split_ifs with hin hdrop
  · exact (h.settle id).unlink (settled_entry hpending)
  · -- the only eviction
    refine (h.weighed id call).evict (hspares.2 _ ?_)
    rw [evicting, if_pos hin]
    exact if_neg hdrop
  · exact h.settle id

theorem Shared.reject (h : s.Shared) {id : Nat} (hpending : (s.entry id).pending = true)
    (cacheable : Bool) : (s.reject options id cacheable).Shared := by
  rcases @reject_cases s id options cacheable with ⟨-, heq⟩ | ⟨-, heq⟩ | ⟨-, -, -, heq⟩
  · rw [heq]
    exact h.settle id
  · rw [heq]
    exact (h.settle id).unlink (settled_entry hpending)
  · rw [heq]
    refine (h.settle id).congr rfl (length_update _) fun i hi => ?_
    rw [keep, entry_update hi]
    split_ifs <;> exact ⟨rfl, rfl⟩

/-- Every step that evicts no pending load keeps them all in the map. -/
theorem Shared.step {a : MemoAct} (h : s.Shared) (hspares : s.Spares options a)
    (hstep : (memoMachine options).step s a = some s') : s'.Shared := by
  cases a with
  | memo key ttlMs starts =>
      cases hstep
      exact h.memo key ttlMs starts hspares
  | resolve id call =>
      simp only [memoMachine, Option.ite_none_right_eq_some] at hstep
      obtain ⟨hpending, heq⟩ := hstep
      cases heq
      exact h.resolve hpending call hspares
  | reject id cacheable =>
      simp only [memoMachine, Option.ite_none_right_eq_some] at hstep
      obtain ⟨hpending, heq⟩ := hstep
      cases heq
      exact h.reject hpending cacheable
  | invalidate key => exact absurd rfl (hspares.1 key)
  | clock now =>
      cases hstep
      exact h.congr rfl rfl fun i hi => ⟨rfl, rfl⟩

theorem shared_empty (now : Js.Num) : (Memo.empty now).Shared :=
  ⟨⟨List.nodup_nil, nofun⟩, fun id hpending => absurd (lt_of_pending hpending) (Nat.not_lt_zero id)⟩

end Memo

/-- In every run without `invalidate` in which no pending load is evicted, no two loads of the
same key are pending. -/
theorem single_flight (options : MemoOptions) (now : Js.Num) (s : Memo)
    (h : Machine.Reaches (M := memoMachine options) (fun s a => Memo.Spares options s a)
      (Memo.empty now) s)
    (i j : Nat) (hi : (s.entry i).pending = true) (hj : (s.entry j).pending = true)
    (hkey : (s.entry i).key = (s.entry j).key) : i = j := by
  have hshared : s.Shared := h.induct (I := fun s : Memo => s.Shared) (Memo.shared_empty now)
    fun _ ih hok hstep => ih.step hok hstep
  exact hshared.unique hi hj hkey

/-! ## Runs -/

/-- The second load of a key is started while the first is pending: with room for one entry, and
with a heavy result. -/
theorem evicted_load_repeated :
    (∃ s : Memo, Machine.Reachable (M := memoMachine { sampleOptions 100 with maxEntries := .fin 1 })
      (Memo.empty (.fin 0)) s ∧
      (s.entry 0).pending = true ∧ (s.entry 2).pending = true ∧
      (s.entry 0).key = "a" ∧ (s.entry 2).key = "a") ∧
    ∃ s : Memo, Machine.Reachable (M := memoMachine (sampleOptions 3)) (Memo.empty (.fin 0)) s ∧
      (s.entry 0).pending = true ∧ (s.entry 2).pending = true ∧
      (s.entry 0).key = "a" ∧ (s.entry 2).key = "a" := by
  have hcount : Machine.run (M := memoMachine { sampleOptions 100 with maxEntries := .fin 1 })
      (Memo.empty (.fin 0)) [.memo "a" none true, .memo "b" none true, .memo "a" none true] =
      some {
        entries := [⟨"a", none, true, .fin 0, .fin 1⟩, ⟨"b", none, true, .fin 0, .fin 1⟩,
          ⟨"a", none, true, .fin 0, .fin 1⟩]
        cache := [("a", 2)], totalWeight := .fin 1, now := .fin 0 } := by
    decide +kernel
  have hweight : Machine.run (M := memoMachine (sampleOptions 3)) (Memo.empty (.fin 0))
      [.memo "a" none true, .memo "b" none true, .resolve 1 (.value (.number (.fin 3))),
        .memo "a" none true] =
      some {
        entries := [⟨"a", none, true, .fin 0, .fin 1⟩, ⟨"b", none, false, .fin 5000, .fin 3⟩,
          ⟨"a", none, true, .fin 0, .fin 1⟩]
        cache := [("a", 2)], totalWeight := .fin 1, now := .fin 0 } := by
    decide +kernel
  exact ⟨⟨_, Machine.reaches_of_run hcount, rfl, rfl, rfl, rfl⟩,
    _, Machine.reaches_of_run hweight, rfl, rfl, rfl, rfl⟩

instance (options : MemoOptions) (s : Memo) (a : MemoAct) : Decidable (s.Spares options a) :=
  have : Decidable (∀ key, a ≠ .invalidate key) := match a with
    | .invalidate key => isFalse fun h => h key rfl
    | .memo _ _ _ | .resolve _ _ | .reject _ _ | .clock _ => isTrue nofun
  have : Decidable (∀ s', s.evicting options a = some s' →
      ∀ id ∈ Memo.victims options s'.cache.length s', (s'.entry id).pending = false) :=
    match s.evicting options a with
    | none => isTrue nofun
    | some s' => decidable_of_iff
        (∀ id ∈ Memo.victims options s'.cache.length s', (s'.entry id).pending = false)
        ⟨fun h _ heq => Option.some.inj heq ▸ h, fun h => h s' rfl⟩
  inferInstanceAs (Decidable (_ ∧ _))

/-- `single_flight` with room for two entries, where the third key takes the place of one that has
settled. -/
theorem single_flight_shared : ∃ s : Memo,
    Machine.Reaches (M := memoMachine { sampleOptions 100 with maxEntries := .fin 2 })
      (fun s a => Memo.Spares { sampleOptions 100 with maxEntries := .fin 2 } s a)
      (Memo.empty (.fin 0)) s ∧
    s.cache = [("c", 2), ("b", 1)] ∧
    ∀ i, (s.entry i).pending = true → (s.entry i).key = "b" → i = 1 := by
  have hrun : Machine.runWith (M := memoMachine { sampleOptions 100 with maxEntries := .fin 2 })
      (fun s a => decide (Memo.Spares { sampleOptions 100 with maxEntries := .fin 2 } s a))
      (Memo.empty (.fin 0)) [.memo "a" none true, .resolve 0 .nullish, .memo "b" none true,
        .memo "c" none true, .memo "b" none true] =
      some {
        entries := [⟨"a", none, false, .fin 5000, .fin 1⟩, ⟨"b", none, true, .fin 0, .fin 1⟩,
          ⟨"c", none, true, .fin 0, .fin 1⟩]
        cache := [("c", 2), ("b", 1)], totalWeight := .fin 2, now := .fin 0 } := by
    decide +kernel
  have hreach := (Machine.reaches_of_runWith hrun).mono fun s a hok => of_decide_eq_true hok
  exact ⟨_, hreach, rfl, fun i hi hkey => single_flight _ _ _ hreach i 1 hi rfl hkey⟩

end Upstream
