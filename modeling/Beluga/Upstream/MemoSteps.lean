import Beluga.Upstream.MemoRules

/-! # What the steps of the memo do

Whatever the bounds are: `unlink`, `reweigh` and the eviction only take entries out
of the map and change weights (`Trims`). What a step does beyond that is said once
for each of them.

* `memo_cases`: a live entry is touched, or a load is filed under the key;
* `resolve_cases`, `reject_cases`: a settled entry is left alone, kept or taken out.
-/

namespace Upstream

open Interact Js

namespace Memo

variable {s s' s'' : Memo} {key : String} {id : Nat} (options : MemoOptions)

/-! ## Trimming -/

/-- Entries leave the map and weights change. -/
structure Trims (s s' : Memo) : Prop where
  cache : s'.cache.Sublist s.cache
  length : s'.entries.length = s.entries.length
  entry : ∀ i, ∃ weight, s'.entry i = { s.entry i with weight }
  now : s'.now = s.now

theorem Trims.refl (s : Memo) : Trims s s := ⟨.refl _, rfl, fun i => ⟨(s.entry i).weight, rfl⟩, rfl⟩

theorem Trims.trans (h : Trims s s') (h' : Trims s' s'') : Trims s s'' := by
  refine ⟨h'.cache.trans h.cache, h'.length.trans h.length, fun i => ?_, h'.now.trans h.now⟩
  obtain ⟨weight, hentry⟩ := h.entry i
  obtain ⟨weight', hentry'⟩ := h'.entry i
  exact ⟨weight', by rw [hentry', hentry]⟩

theorem unlink_trims : Trims s (s.unlink key id) := by
  rw [unlink]
  split_ifs
  · exact ⟨List.filter_sublist, rfl, fun i => ⟨(s.entry i).weight, rfl⟩, rfl⟩
  · exact .refl s

theorem evictLoop_trims (n : Nat) (s : Memo) : Trims s (evictLoop options n s) := by
  induction n generalizing s with
  | zero => exact .refl s
  | succ n ih =>
      rw [evictLoop]
      split_ifs
      · split
        · exact .refl s
        · exact unlink_trims.trans (ih _)
      · exact .refl s

theorem evict_trims (s : Memo) : Trims s (s.evict options) := evictLoop_trims options _ s

theorem entry_of_ge {i : Nat} (h : s.entries.length ≤ i) :
    s.entry i = ⟨"", none, false, .fin 0, .fin 0⟩ := by
  simp [entry, List.getElem?_eq_none h]

theorem length_update (f : Entry → Entry) : (s.update id f).entries.length = s.entries.length := by
  simp [update]

theorem reweigh_trims {weight : Js.Num} : Trims s (s.reweigh key id weight) := by
  rw [reweigh]
  split_ifs
  · refine ⟨.refl _, length_update _, fun i => ?_, rfl⟩
    show ∃ weight', (s.update id fun e => { e with weight }).entry i = _
    by_cases hi : i < s.entries.length
    · rw [entry_update hi]
      split_ifs
      · exact ⟨weight, rfl⟩
      · exact ⟨(s.entry i).weight, rfl⟩
    · have hge := not_lt.mp hi
      exact ⟨(s.entry i).weight, by rw [entry_of_ge hge, entry_of_ge (by rwa [length_update])]⟩
  · exact .refl s

/-! ## The map -/

/-- Every live entry is filed under its own key, and no key twice. -/
structure Filed (s : Memo) : Prop where
  keys : (s.cache.map (·.1)).Nodup
  named : ∀ kv ∈ s.cache, kv.2 < s.entries.length ∧ (s.entry kv.2).key = kv.1

theorem Trims.filed (h : Trims s s') (hs : Filed s) : Filed s' := by
  refine ⟨(h.cache.map _).nodup hs.keys, fun kv hkv => ?_⟩
  obtain ⟨hlt, hkey⟩ := hs.named kv (h.cache.subset hkv)
  obtain ⟨weight, hentry⟩ := h.entry kv.2
  rw [h.length, hentry]
  exact ⟨hlt, hkey⟩

theorem mem_delete {kv : String × Nat} : kv ∈ (s.delete key).cache ↔ kv ∈ s.cache ∧ kv.1 ≠ key := by
  simp [delete, List.mem_filter]

theorem cache_unlink_of_get (h : s.get key = some id) :
    (s.unlink key id).cache = (s.delete key).cache := by
  rw [unlink, if_pos (by rw [isLive, decide_eq_true_eq]; exact h)]

theorem set_delete : (s.delete key).set key id =
    { s with cache := (s.delete key).cache ++ [(key, id)] } := by
  rw [set, get_delete]
  rfl

theorem delete_of_get_none (h : s.get key = none) : (s.delete key).cache = s.cache := by
  rw [get, Option.map_eq_none_iff, List.find?_eq_none] at h
  exact List.filter_eq_self.mpr fun kv hkv => by simpa using h kv hkv

/-! ## The steps -/

/-- An entry that a call is answered with. -/
def Usable (s : Memo) (id : Nat) : Prop :=
  (s.entry id).pending = true ∨ s.now.lt (s.entry id).expires = true

/-- A load is filed under its key, as the newest entry. -/
structure Loads (s s' : Memo) (key : String) (ttlMs : Option Js.Num) : Prop where
  entries : s'.entries = s.entries ++ [{ key, ttlMs, pending := true, expires := .fin 0, weight := .fin 1 }]
  cache : s'.cache = (s.delete key).cache ++ [(key, s.entries.length)]
  now : s'.now = s.now

theorem Loads.entry_old {ttlMs : Option Js.Num} (h : Loads s s' key ttlMs) {i : Nat}
    (hi : i < s.entries.length) : s'.entry i = s.entry i := by
  simp [entry, h.entries, List.getElem?_append_left hi]

theorem Loads.entry_new {ttlMs : Option Js.Num} (h : Loads s s' key ttlMs) :
    s'.entry s.entries.length =
      { key, ttlMs, pending := true, expires := .fin 0, weight := .fin 1 } := by
  simp [entry, h.entries]

/-- A new load is filed. -/
theorem Loads.filed {ttlMs : Option Js.Num} (h : Loads s s' key ttlMs) (hs : s.Filed) : s'.Filed := by
  have hdelete : ((s.delete key).cache.map (·.1)).Nodup :=
    (List.filter_sublist.map _).nodup hs.keys
  refine ⟨?_, ?_⟩
  · rw [h.cache, List.map_append, List.map_singleton]
    refine List.nodup_append.mpr ⟨hdelete, List.nodup_singleton _, ?_⟩
    intro k hk k' hk' heq
    obtain ⟨kv, hkv, rfl⟩ := List.mem_map.mp hk
    exact (mem_delete.mp hkv).2 (heq.trans (List.mem_singleton.mp hk'))
  · intro kv hkv
    rw [h.cache] at hkv
    have hlength : s'.entries.length = s.entries.length + 1 := by
      rw [h.entries, List.length_append, List.length_singleton]
    rcases List.mem_append.mp hkv with hold | hnew
    · obtain ⟨hlt, hkey⟩ := hs.named kv (mem_delete.mp hold).1
      rw [hlength, h.entry_old hlt]
      exact ⟨by omega, hkey⟩
    · rw [List.mem_singleton.mp hnew, hlength, h.entry_new]
      exact ⟨by omega, rfl⟩

/-- A touched entry stays filed. -/
theorem touch_filed (hs : s.Filed) (hget : s.get key = some id) :
    ((s.delete key).set key id).Filed := by
  have hperm : ((s.delete key).cache ++ [(key, id)]).Perm s.cache :=
    (List.perm_append_singleton _ _).trans (delete_perm hs.keys (mem_of_get hget)).symm
  rw [set_delete]
  exact ⟨(hperm.map _).nodup_iff.mpr hs.keys, fun kv hkv => hs.named kv (hperm.mem_iff.mp hkv)⟩

theorem link_of_get_none (h : s.get key = none) : s.link key id =
    { s with
      cache := s.cache ++ [(key, id)]
      totalWeight := s.totalWeight.add (s.entry id).weight } := by
  rw [link, set, h]
  rfl

/-- The entry of a load, in the map, before the eviction. -/
def fileLoad (s : Memo) (key : String) (ttlMs : Option Js.Num) : Memo :=
  let s := match s.get key with
    | some hit => s.unlink key hit
    | none => s
  Memo.link { s with
    entries := s.entries ++ [{ key, ttlMs, pending := true, expires := .fin 0, weight := .fin 1 }] }
    key s.entries.length

theorem fileLoad_loads (s : Memo) (key : String) (ttlMs : Option Js.Num) :
    Loads s (s.fileLoad key ttlMs) key ttlMs := by
  have hfile : ∀ s₁ : Memo, s₁.entries = s.entries → s₁.cache = (s.delete key).cache →
      s₁.now = s.now → Loads s (Memo.link { s₁ with
        entries := s₁.entries ++ [{ key, ttlMs, pending := true, expires := .fin 0, weight := .fin 1 }] }
        key s₁.entries.length) key ttlMs := by
    intro s₁ hentries hcache hnow
    have hnone : s₁.get key = none := by
      rw [get, hcache]
      exact get_delete
    have hlink := @link_of_get_none _ _ s₁.entries.length (show Memo.get { s₁ with
      entries := s₁.entries ++ [{ key, ttlMs, pending := true, expires := .fin 0, weight := .fin 1 }] }
      key = none from hnone)
    rw [hlink]
    exact ⟨by rw [← hentries], by rw [← hcache, ← hentries], hnow⟩
  rw [fileLoad]
  cases hget : s.get key with
  | none => exact hfile s rfl (delete_of_get_none hget).symm rfl
  | some hit =>
      refine hfile (s.unlink key hit) ?_ (cache_unlink_of_get hget) unlink_trims.now
      rw [unlink]
      split_ifs <;> rfl

/-- A call of `memo` touches the live entry, or files a load and evicts; when the load
does not start, it only takes out what is there. -/
theorem memo_cases (key : String) (ttlMs : Option Js.Num) (starts : Bool) :
    (∃ hit, s.get key = some hit ∧ Usable s hit ∧
      s.memo options key ttlMs starts = (s.delete key).set key hit) ∨
    ((∀ hit, s.get key = some hit → ¬ Usable s hit) ∧
      ((starts = false ∧ Trims s (s.memo options key ttlMs starts) ∧
          ∀ kv ∈ s.cache, kv.1 ≠ key → kv ∈ (s.memo options key ttlMs starts).cache) ∨
        (starts = true ∧
          s.memo options key ttlMs starts = (s.fileLoad key ttlMs).evict options))) := by
  rw [memo, fileLoad]
  cases hget : s.get key with
  | none =>
      refine .inr ⟨fun hit h => (by cases h), ?_⟩
      cases starts with
      | false => exact .inl ⟨rfl, .refl s, fun kv hkv _ => hkv⟩
      | true => exact .inr ⟨rfl, rfl⟩
  | some hit =>
      by_cases husable : (s.entry hit).pending || s.now.lt (s.entry hit).expires
      · refine .inl ⟨hit, rfl, Bool.or_eq_true_iff.mp husable, ?_⟩
        simp only
        rw [if_pos husable]
      · refine .inr ⟨?_, ?_⟩
        · intro hit' heq
          cases heq
          exact fun h => husable (Bool.or_eq_true_iff.mpr h)
        · simp only
          rw [if_neg husable]
          cases starts with
          | false =>
              refine .inl ⟨rfl, unlink_trims, fun kv hkv hne => ?_⟩
              show kv ∈ (s.unlink key hit).cache
              rw [cache_unlink_of_get hget]
              exact mem_delete.mpr ⟨hkv, hne⟩
          | true => exact .inr ⟨rfl, rfl⟩

/-- The loads that are there stay, whatever a call does. -/
theorem memo_entry {i : Nat} (hi : i < s.entries.length) (key : String) (ttlMs : Option Js.Num)
    (starts : Bool) :
    ∃ weight, (s.memo options key ttlMs starts).entry i = { s.entry i with weight } := by
  rcases s.memo_cases options key ttlMs starts with
    ⟨hit, -, -, heq⟩ | ⟨-, ⟨-, htrims, -⟩ | ⟨-, heq⟩⟩
  · rw [heq, set_delete]
    exact ⟨(s.entry i).weight, rfl⟩
  · exact htrims.entry i
  · rw [heq, ← (s.fileLoad_loads key ttlMs).entry_old hi]
    exact (evict_trims options _).entry i

/-- The entry has settled. -/
def settle (s : Memo) (id : Nat) : Memo := s.update id fun e => { e with pending := false }

/-- The entry has settled and is kept for a time. -/
def keep (s : Memo) (id : Nat) (expires : Js.Num) : Memo :=
  (s.settle id).update id fun e => { e with expires }

theorem Trims.update {f : Entry → Entry} (h : Trims s s')
    (hf : ∀ e weight, f { e with weight } = { f e with weight }) :
    Trims (s.update id f) (s'.update id f) := by
  refine ⟨h.cache, ?_, fun i => ?_, h.now⟩
  · rw [length_update, length_update, h.length]
  · obtain ⟨weight, hentry⟩ := h.entry i
    by_cases hi : i < s.entries.length
    · rw [entry_update hi, entry_update (h.length ▸ hi), hentry]
      split_ifs
      · exact ⟨weight, hf _ _⟩
      · exact ⟨weight, rfl⟩
    · have hge := not_lt.mp hi
      refine ⟨.fin 0, ?_⟩
      rw [entry_of_ge (by rwa [length_update, h.length]), entry_of_ge (by rwa [length_update])]

/-- The time that a value is kept. -/
def ttl (s : Memo) (id : Nat) : Js.Num := (s.entry id).ttlMs.getD options.ttlMs

theorem resolve_cases (call : WeightCall) :
    (s.isLive (s.entry id).key id = false ∧ s.resolve options id call = s.settle id) ∨
    (s.isLive (s.entry id).key id = true ∧
      s.resolve options id call = (s.settle id).unlink (s.entry id).key id) ∨
    (s.isLive (s.entry id).key id = true ∧ (s.ttl options id).le (.fin 0) = false ∧
      options.maxWeight.lt call.weight = false ∧
      Trims (s.keep id (s.now.add (s.ttl options id))) (s.resolve options id call)) := by
  have hlive : (s.settle id).isLive (s.entry id).key id = s.isLive (s.entry id).key id := rfl
  simp only [resolve]
  rw [show (s.update id fun e => { e with pending := false }) = s.settle id from rfl, hlive]
  split_ifs with h hdrop
  · exact .inr (.inl ⟨h, rfl⟩)
  · rw [Bool.or_eq_true, not_or, Bool.not_eq_true, Bool.not_eq_true] at hdrop
    refine .inr (.inr ⟨h, hdrop.1, hdrop.2, ?_⟩)
    exact (reweigh_trims.update fun _ _ => rfl).trans (evict_trims options _)
  · exact .inl ⟨by simpa using h, rfl⟩

theorem reject_cases (cacheable : Bool) :
    (s.isLive (s.entry id).key id = false ∧ s.reject options id cacheable = s.settle id) ∨
    (s.isLive (s.entry id).key id = true ∧
      s.reject options id cacheable = (s.settle id).unlink (s.entry id).key id) ∨
    (s.isLive (s.entry id).key id = true ∧ (Js.Num.fin 0).lt options.negativeTtlMs = true ∧
      cacheable = true ∧
      s.reject options id cacheable = s.keep id (s.now.add options.negativeTtlMs)) := by
  have hlive : (s.settle id).isLive (s.entry id).key id = s.isLive (s.entry id).key id := rfl
  simp only [reject]
  rw [show (s.update id fun e => { e with pending := false }) = s.settle id from rfl, hlive]
  split_ifs with h hkeep
  · rw [Bool.and_eq_true] at hkeep
    exact .inr (.inr ⟨h, hkeep.1, hkeep.2, rfl⟩)
  · exact .inr (.inl ⟨h, rfl⟩)
  · exact .inl ⟨by simpa using h, rfl⟩

theorem invalidate_trims : Trims s (s.invalidate key) := by
  rw [invalidate]
  cases s.get key with
  | none => exact .refl s
  | some i => exact unlink_trims

theorem entry_settle {i : Nat} (h : i < s.entries.length) :
    (s.settle id).entry i = if i = id then { s.entry i with pending := false } else s.entry i :=
  entry_update h

theorem entry_keep {expires : Js.Num} {i : Nat} (h : i < s.entries.length) :
    (s.keep id expires).entry i =
      if i = id then { s.entry i with pending := false, expires } else s.entry i := by
  rw [keep, entry_update (by rwa [settle, length_update]), entry_settle h]
  split_ifs <;> rfl

theorem lt_of_pending (h : (s.entry id).pending = true) : id < s.entries.length := by
  by_contra hge
  rw [entry_of_ge (not_lt.mp hge)] at h
  cases h

end Memo

end Upstream
