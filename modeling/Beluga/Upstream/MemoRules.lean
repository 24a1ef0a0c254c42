import Beluga.Upstream.Memo
import Mathlib.Algebra.BigOperators.Group.List.Basic
import Mathlib.Algebra.Order.BigOperators.Group.List
import Mathlib.Data.List.Nodup

/-! # The memo stays within its bounds

`Exact` is the accounting invariant: every live entry is filed under its own key
and `totalWeight` is the sum of the live weights. `link`, `unlink` and `reweigh` are
the only writers, and each of them keeps it as long as the sum stays a double.

* `evict_within`: after `evict` no bound is exceeded;
* `memo_bounded`: both hold after every step of every run.
-/

namespace Upstream

open Interact Js

/-! ## Numbers -/

theorem WeightCall.weight_cases (call : WeightCall) :
    call.weight = .posInf ∨ ∃ n : ℤ, 1 ≤ n ∧ call.weight = .fin n := by
  have hone : ∃ n : ℤ, 1 ≤ n ∧ Js.Num.fin 1 = .fin n := ⟨1, le_refl 1, by simp⟩
  have hnumber : ∀ w, normalizeWeight w = .posInf ∨
      ∃ n : ℤ, 1 ≤ n ∧ normalizeWeight w = .fin n := by
    intro w
    cases w with
    | other => exact .inr hone
    | number w =>
        cases w with
        | nan => exact .inr hone
        | negInf => exact .inr hone
        | posInf => exact .inl rfl
        | fin q =>
            by_cases hq : q < 1
            · have hsmall : normalizeWeight (.number (.fin q)) = .fin 1 := by
                simp [normalizeWeight, Js.Num.lt, hq]
              rw [hsmall]
              exact .inr hone
            · refine .inr ⟨⌈q⌉, ?_, by simp [normalizeWeight, Js.Num.lt, hq, Js.Num.ceil]⟩
              have h1 : (1 : ℚ) ≤ q := not_lt.mp hq
              have hceil : ((1 : ℤ) : ℚ) ≤ ⌈q⌉ := by
                rw [Int.cast_one]
                exact h1.trans (Int.le_ceil q)
              exact_mod_cast hceil
  cases call with
  | nullish => exact hnumber (.number (.fin 1))
  | value w => exact hnumber w
  | throws => exact .inr hone

/-- The whole number that a weight is. -/
def units : Js.Num → ℤ
  | .fin q => q.num
  | _ => 0

@[simp] theorem units_fin (n : ℤ) : units (.fin n) = n := Rat.num_intCast n

namespace Memo

variable {s : Memo} {key : String} {id : Nat}

/-! ## The invariant -/

/-- The sum of the live weights. -/
def liveWeight (s : Memo) : ℤ := (s.cache.map fun kv => units (s.entry kv.2).weight).sum

structure Exact (s : Memo) : Prop where
  keys : (s.cache.map (·.1)).Nodup
  named : ∀ kv ∈ s.cache, kv.2 < s.entries.length ∧ (s.entry kv.2).key = kv.1
  weights : ∀ kv ∈ s.cache, ∃ n : ℤ, 1 ≤ n ∧ (s.entry kv.2).weight = .fin n
  total : s.totalWeight = .fin s.liveWeight

theorem liveWeight_nonneg
    (h : ∀ kv ∈ s.cache, ∃ n : ℤ, 1 ≤ n ∧ (s.entry kv.2).weight = .fin n) : 0 ≤ s.liveWeight := by
  refine List.sum_nonneg fun w hw => ?_
  obtain ⟨kv, hkv, rfl⟩ := List.mem_map.mp hw
  obtain ⟨n, hn, hweight⟩ := h kv hkv
  rw [hweight, units_fin]
  omega

/-! ## The map -/

theorem get_of_mem (hkeys : (s.cache.map (·.1)).Nodup) (h : (key, id) ∈ s.cache) :
    s.get key = some id := by
  rw [get]
  cases hfind : s.cache.find? fun kv => kv.1 = key with
  | none => exact absurd (List.find?_eq_none.mp hfind _ h) (by simp)
  | some kv =>
      have hkey : kv.1 = key := by simpa using List.find?_some hfind
      have hmem := List.mem_of_find?_eq_some hfind
      have heq : kv = (key, id) := List.inj_on_of_nodup_map hkeys hmem h hkey
      rw [heq]
      rfl

theorem mem_of_get (h : s.get key = some id) : (key, id) ∈ s.cache := by
  obtain ⟨kv, hfind, rfl⟩ := Option.map_eq_some_iff.mp h
  have hkey : kv.1 = key := by simpa using List.find?_some hfind
  rw [← hkey]
  exact List.mem_of_find?_eq_some hfind

theorem isLive_iff (hkeys : (s.cache.map (·.1)).Nodup) :
    s.isLive key id = true ↔ (key, id) ∈ s.cache := by
  rw [isLive, decide_eq_true_eq]
  exact ⟨mem_of_get, get_of_mem hkeys⟩

/-- A live entry and the others. -/
theorem delete_perm (hkeys : (s.cache.map (·.1)).Nodup) (h : (key, id) ∈ s.cache) :
    s.cache.Perm ((key, id) :: (s.delete key).cache) := by
  obtain ⟨before, after, hsplit⟩ := List.append_of_mem h
  have hne : ∀ kv ∈ before ++ after, kv.1 ≠ key := by
    rw [hsplit, List.map_append, List.map_cons, List.nodup_middle, List.nodup_cons,
      ← List.map_append] at hkeys
    intro kv hkv heq
    exact hkeys.1 (List.mem_map.mpr ⟨kv, hkv, heq⟩)
  have hdelete : (s.delete key).cache = before ++ after := by
    rw [delete, hsplit, List.filter_append, List.filter_cons_of_neg (by simp),
      ← List.filter_append]
    exact List.filter_eq_self.mpr fun kv hkv => by simpa using hne kv hkv
  rw [hdelete, hsplit]
  exact List.perm_middle

theorem liveWeight_split (hkeys : (s.cache.map (·.1)).Nodup) (h : (key, id) ∈ s.cache) :
    s.liveWeight = units (s.entry id).weight + (s.delete key).liveWeight := by
  rw [liveWeight, ((delete_perm hkeys h).map _).sum_eq, List.map_cons, List.sum_cons]
  rfl

theorem length_split (hkeys : (s.cache.map (·.1)).Nodup) (h : (key, id) ∈ s.cache) :
    s.cache.length = (s.delete key).cache.length + 1 := by
  rw [(delete_perm hkeys h).length_eq, List.length_cons]

/-! ## The three writers -/

/-- An entry that is not live can never change the total. -/
theorem unlink_of_not_live (h : s.isLive key id = false) : s.unlink key id = s := by
  rw [unlink, h]
  rfl

theorem unlink_exact (h : s.Exact) (hle : s.liveWeight ≤ 2 ^ 53) :
    (s.unlink key id).Exact ∧ (s.unlink key id).liveWeight ≤ s.liveWeight ∧
      (s.unlink key id).cache.length ≤ s.cache.length := by
  by_cases hlive : s.isLive key id
  · have hmem := (isLive_iff h.keys).mp hlive
    obtain ⟨n, hn, hweight⟩ := h.weights _ hmem
    have hsplit := liveWeight_split h.keys hmem
    rw [hweight, units_fin] at hsplit
    have hunlink : s.unlink key id =
        { s.delete key with totalWeight := s.totalWeight.sub (s.entry id).weight } := by
      rw [unlink, if_pos hlive]
    have hsub : (s.delete key).cache.Sublist s.cache := List.filter_sublist
    have hweights : ∀ kv ∈ (s.delete key).cache, ∃ n : ℤ, 1 ≤ n ∧
        ((s.delete key).entry kv.2).weight = .fin n :=
      fun kv hkv => h.weights kv (hsub.subset hkv)
    have hrest := liveWeight_nonneg hweights
    have hexact : (s.unlink key id).Exact := by
      rw [hunlink]
      refine ⟨(hsub.map _).nodup h.keys, fun kv hkv => h.named kv (hsub.subset hkv), hweights, ?_⟩
      show s.totalWeight.sub (s.entry id).weight = .fin (s.delete key).liveWeight
      have hdiff : s.liveWeight - n = (s.delete key).liveWeight := by omega
      rw [h.total, hweight, Js.Num.sub_intCast, hdiff]
      rw [hdiff, abs_of_nonneg hrest]
      omega
    refine ⟨hexact, ?_, ?_⟩
    · rw [hunlink]
      show (s.delete key).liveWeight ≤ s.liveWeight
      omega
    · rw [hunlink]
      exact hsub.length_le
  · rw [unlink_of_not_live (by simpa using hlive)]
    exact ⟨h, le_refl _, le_refl _⟩

/-- What changes of the live entries is neither a key nor a weight. -/
theorem same_exact {s' : Memo} (h : s.Exact) (hcache : s'.cache = s.cache)
    (htotal : s'.totalWeight = s.totalWeight)
    (hentry : ∀ kv ∈ s.cache, kv.2 < s'.entries.length ∧
      (s'.entry kv.2).key = (s.entry kv.2).key ∧
      (s'.entry kv.2).weight = (s.entry kv.2).weight) :
    s'.Exact ∧ s'.liveWeight = s.liveWeight := by
  have hlive : s'.liveWeight = s.liveWeight := by
    rw [liveWeight, liveWeight, hcache]
    refine congrArg List.sum (List.map_congr_left fun kv hkv => ?_)
    rw [(hentry kv hkv).2.2]
  refine ⟨⟨?_, ?_, ?_, ?_⟩, hlive⟩
  · rw [hcache]
    exact h.keys
  · intro kv hkv
    rw [hcache] at hkv
    exact ⟨(hentry kv hkv).1, (hentry kv hkv).2.1.trans (h.named kv hkv).2⟩
  · intro kv hkv
    rw [hcache] at hkv
    rw [(hentry kv hkv).2.2]
    exact h.weights kv hkv
  · rw [htotal, hlive]
    exact h.total

theorem append_exact (h : s.Exact) (entry : Entry) :
    Exact { s with entries := s.entries ++ [entry] } ∧
      liveWeight { s with entries := s.entries ++ [entry] } = s.liveWeight := by
  refine same_exact h rfl rfl fun kv hkv => ?_
  have hlt := (h.named kv hkv).1
  have hentry : Memo.entry { s with entries := s.entries ++ [entry] } kv.2 = s.entry kv.2 := by
    simp [Memo.entry, List.getElem?_append_left hlt]
  rw [hentry]
  refine ⟨?_, rfl, rfl⟩
  rw [List.length_append]
  omega

theorem entry_update {f : Entry → Entry} {i : Nat} (h : i < s.entries.length) :
    (s.update id f).entry i = if i = id then f (s.entry i) else s.entry i := by
  have hget : s.entries[i]? = some s.entries[i] := List.getElem?_eq_getElem h
  by_cases hi : i = id
  · subst hi
    simp [Memo.entry, update, hget]
  · simp [Memo.entry, update, hi, Ne.symm hi]

theorem update_exact (h : s.Exact) {f : Entry → Entry} (hkey : ∀ e, (f e).key = e.key)
    (hweight : ∀ e, (f e).weight = e.weight) :
    (s.update id f).Exact ∧ (s.update id f).liveWeight = s.liveWeight := by
  refine same_exact h rfl rfl fun kv hkv => ?_
  have hlt := (h.named kv hkv).1
  rw [entry_update hlt]
  refine ⟨by simpa [update] using hlt, ?_⟩
  split_ifs
  · exact ⟨hkey _, hweight _⟩
  · exact ⟨rfl, rfl⟩

/-- `link` files a new entry, of weight 1. -/
theorem link_exact (h : s.Exact) (hle : s.liveWeight < 2 ^ 53) (hget : s.get key = none)
    (hid : id < s.entries.length) (hkey : (s.entry id).key = key)
    (hweight : (s.entry id).weight = .fin 1) :
    (s.link key id).Exact ∧ (s.link key id).liveWeight = s.liveWeight + 1 := by
  have hcache : (s.link key id).cache = s.cache ++ [(key, id)] := by
    rw [link, set, hget]
    rfl
  have hsame : ∀ i, (s.link key id).entry i = s.entry i := by
    intro i
    rw [link, set, hget]
    rfl
  have hlength : (s.link key id).entries.length = s.entries.length := by
    rw [link, set, hget]
    rfl
  have hone : Js.Num.fin 1 = .fin ((1 : ℤ) : ℚ) := by rw [Int.cast_one]
  have hlive : (s.link key id).liveWeight = s.liveWeight + 1 := by
    simp only [liveWeight, hcache, List.map_append, List.sum_append, hsame, List.map_singleton,
      List.sum_singleton, hweight, hone, units_fin]
  refine ⟨⟨?_, ?_, ?_, ?_⟩, hlive⟩
  · rw [hcache, List.map_append, List.map_singleton, List.nodup_append]
    refine ⟨h.keys, List.nodup_singleton _, ?_⟩
    intro k hk k' hk' heq
    obtain ⟨kv, hkv, rfl⟩ := List.mem_map.mp hk
    have hk'' : k' = key := List.mem_singleton.mp hk'
    have hfound := get_of_mem h.keys (show (kv.1, kv.2) ∈ s.cache from hkv)
    rw [heq, hk'', hget] at hfound
    cases hfound
  · intro kv hkv
    rw [hcache] at hkv
    rw [hsame, hlength]
    rcases List.mem_append.mp hkv with hold | hnew
    · exact h.named kv hold
    · rw [List.mem_singleton.mp hnew]
      exact ⟨hid, hkey⟩
  · intro kv hkv
    rw [hcache] at hkv
    rw [hsame]
    rcases List.mem_append.mp hkv with hold | hnew
    · exact h.weights kv hold
    · rw [List.mem_singleton.mp hnew]
      exact ⟨1, le_refl 1, by rw [hweight, hone]⟩
  · have hnonneg := liveWeight_nonneg h.weights
    show s.totalWeight.add (s.entry id).weight = _
    rw [h.total, hweight, hlive, hone, Js.Num.add_intCast]
    rw [abs_of_nonneg (by omega)]
    omega

/-- `reweigh` gives a live entry another weight. -/
theorem reweigh_exact (h : s.Exact) (hlive : s.isLive key id) {n : ℤ} (hn : 1 ≤ n)
    (hle : s.liveWeight + n ≤ 2 ^ 53) :
    (s.reweigh key id (.fin n)).Exact ∧
      (s.reweigh key id (.fin n)).liveWeight ≤ s.liveWeight + n := by
  have hmem := (isLive_iff h.keys).mp hlive
  obtain ⟨m, hm, hweight⟩ := h.weights _ hmem
  have hid := (h.named _ hmem).1
  have hsplit := liveWeight_split h.keys hmem
  rw [hweight, units_fin] at hsplit
  have hsub : (s.delete key).cache.Sublist s.cache := List.filter_sublist
  have hrest := liveWeight_nonneg (s := s.delete key) fun kv hkv => h.weights kv (hsub.subset hkv)
  have hreweigh : s.reweigh key id (.fin n) =
      { s.update id fun e => { e with weight := .fin n } with
        totalWeight := s.totalWeight.add ((Js.Num.fin n).sub (s.entry id).weight) } := by
    rw [reweigh, if_pos hlive]
  have hentry : ∀ i < s.entries.length, (s.reweigh key id (.fin n)).entry i =
      if i = id then { s.entry i with weight := .fin n } else s.entry i := by
    intro i hi
    rw [hreweigh]
    exact entry_update hi
  have hcache : (s.reweigh key id (.fin n)).cache = s.cache := by
    rw [hreweigh]
    rfl
  have hkeys' : ((s.reweigh key id (.fin n)).cache.map (·.1)).Nodup := by
    rw [hcache]
    exact h.keys
  have hmem' : (key, id) ∈ (s.reweigh key id (.fin n)).cache := by
    rw [hcache]
    exact hmem
  -- the others keep their weights: none of them is the entry
  have hothers : ((s.reweigh key id (.fin n)).delete key).liveWeight = (s.delete key).liveWeight := by
    have hcache' : ((s.reweigh key id (.fin n)).delete key).cache = (s.delete key).cache := by
      rw [delete, hcache]
      rfl
    rw [liveWeight, liveWeight, hcache']
    refine congrArg List.sum (List.map_congr_left fun kv hkv => ?_)
    have hkv' := hsub.subset hkv
    have hne : kv.2 ≠ id := by
      intro heq
      have hkey : kv.1 ≠ key := by simpa using (List.mem_filter.mp hkv).2
      have hnamed := (h.named kv hkv').2
      rw [heq, (h.named _ hmem).2] at hnamed
      exact hkey hnamed.symm
    show units ((s.reweigh key id (.fin n)).entry kv.2).weight = units (s.entry kv.2).weight
    rw [hentry kv.2 (h.named kv hkv').1, if_neg hne]
  have hnew : (s.reweigh key id (.fin n)).liveWeight = n + (s.delete key).liveWeight := by
    rw [liveWeight_split hkeys' hmem', hothers, hentry id hid, if_pos rfl, units_fin]
  have hlength : (s.reweigh key id (.fin n)).entries.length = s.entries.length := by
    rw [hreweigh]
    simp [update]
  refine ⟨⟨hkeys', ?_, ?_, ?_⟩, by omega⟩
  · intro kv hkv
    rw [hcache] at hkv
    obtain ⟨hlt, hkey⟩ := h.named kv hkv
    rw [hlength, hentry kv.2 hlt]
    split_ifs
    · exact ⟨hlt, hkey⟩
    · exact ⟨hlt, hkey⟩
  · intro kv hkv
    rw [hcache] at hkv
    rw [hentry kv.2 (h.named kv hkv).1]
    split_ifs
    · exact ⟨n, hn, rfl⟩
    · exact h.weights kv hkv
  · rw [hnew, hreweigh]
    show s.totalWeight.add ((Js.Num.fin n).sub (s.entry id).weight) = _
    rw [h.total, hweight, Js.Num.sub_intCast, Js.Num.add_intCast]
    · have hsum : s.liveWeight + (n - m) = n + (s.delete key).liveWeight := by omega
      rw [hsum]
    · rw [abs_of_nonneg (by omega)]
      omega
    · rw [abs_le]
      omega

/-! ## Eviction -/

variable {options : MemoOptions}

/-- Bounds that can be met: neither is negative, and sums up to twice the greater
one are exact. -/
structure Bounded (options : MemoOptions) : Prop where
  maxEntries : (Js.Num.fin 0).le options.maxEntries
  maxWeight : ∃ q : ℚ, options.maxWeight = .fin q ∧ 0 ≤ q ∧ q ≤ 2 ^ 52

theorem exceeds_eq_false {q : ℚ} (hq : options.maxWeight = .fin q) (h : s.Exact) :
    s.exceeds options = false ↔
      options.maxEntries.lt (.fin s.cache.length) = false ∧ (s.liveWeight : ℚ) ≤ q := by
  rw [exceeds, Bool.or_eq_false_iff, h.total, hq, Js.Num.lt, decide_eq_false_iff_not, not_lt]

/-- Fewer entries and a smaller total exceed no bound that the others do not. -/
theorem not_exceeds_of_le {s' : Memo} (hb : Bounded options) (h : s.Exact) (h' : s'.Exact)
    (hlive : s'.liveWeight ≤ s.liveWeight) (hlength : s'.cache.length ≤ s.cache.length)
    (hs : s.exceeds options = false) : s'.exceeds options = false := by
  obtain ⟨q, hq, -, -⟩ := hb.maxWeight
  rw [exceeds_eq_false hq h] at hs
  rw [exceeds_eq_false hq h']
  refine ⟨?_, le_trans (by exact_mod_cast hlive) hs.2⟩
  have hlt := hs.1
  cases hmax : options.maxEntries with
  | nan => rfl
  | negInf =>
      have hle := hb.maxEntries
      rw [hmax] at hle
      cases hle
  | posInf => rfl
  | fin n =>
      rw [hmax, Js.Num.lt, decide_eq_false_iff_not, not_lt] at hlt
      rw [Js.Num.lt, decide_eq_false_iff_not, not_lt]
      exact le_trans (by exact_mod_cast hlength) hlt

theorem not_exceeds_of_nil (hb : Bounded options) (h : s.Exact) (hcache : s.cache = []) :
    s.exceeds options = false := by
  obtain ⟨q, hq, hnonneg, -⟩ := hb.maxWeight
  rw [exceeds_eq_false hq h]
  have hzero : s.liveWeight = 0 := by
    rw [liveWeight, hcache]
    rfl
  refine ⟨?_, ?_⟩
  · have hle := hb.maxEntries
    rw [hcache]
    cases hmax : options.maxEntries with
    | nan => rfl
    | negInf =>
        rw [hmax] at hle
        cases hle
    | posInf => rfl
    | fin n =>
        rw [hmax, Js.Num.le, decide_eq_true_eq] at hle
        rw [Js.Num.lt, decide_eq_false_iff_not, not_lt]
        exact_mod_cast hle
  · rw [hzero]
    exact_mod_cast hnonneg

theorem unlink_length (h : s.Exact) (hmem : (key, id) ∈ s.cache) :
    (s.unlink key id).cache.length + 1 = s.cache.length := by
  rw [unlink, if_pos ((isLive_iff h.keys).mpr hmem), length_split h.keys hmem]

/-- The loop ends when no bound is exceeded, at the latest when nothing is left. -/
theorem evictLoop_within (hb : Bounded options) (n : Nat) (h : s.Exact)
    (hle : s.liveWeight ≤ 2 ^ 53) (hn : s.cache.length ≤ n) :
    (evictLoop options n s).Exact ∧ (evictLoop options n s).exceeds options = false := by
  induction n generalizing s with
  | zero =>
      have hnil : s.cache = [] := List.length_eq_zero_iff.mp (by omega)
      exact ⟨h, not_exceeds_of_nil hb h hnil⟩
  | succ n ih =>
      by_cases hover : s.exceeds options
      · cases hcache : s.cache with
        | nil =>
            rw [not_exceeds_of_nil hb h hcache] at hover
            cases hover
        | cons kv rest =>
            have hloop : evictLoop options (n + 1) s =
                evictLoop options n (s.unlink kv.1 kv.2) := by
              rw [evictLoop, if_pos hover, hcache]
            have hmem : (kv.1, kv.2) ∈ s.cache := by
              rw [hcache]
              exact List.mem_cons_self
            obtain ⟨hexact, hlive, -⟩ := @unlink_exact _ kv.1 kv.2 h hle
            have hlength := unlink_length h hmem
            rw [hloop]
            exact ih hexact (by omega) (by omega)
      · have hloop : evictLoop options (n + 1) s = s := by rw [evictLoop, if_neg hover]
        rw [hloop]
        exact ⟨h, by simpa using hover⟩

/-! ## Steps -/

/-- The accounting is exact and no bound is exceeded. -/
structure Within (options : MemoOptions) (s : Memo) : Prop where
  exact : s.Exact
  bounds : s.exceeds options = false

theorem Within.liveWeight_le (hb : Bounded options) (h : s.Within options) :
    s.liveWeight ≤ 2 ^ 52 := by
  obtain ⟨q, hq, -, hle⟩ := hb.maxWeight
  have hlive := ((exceeds_eq_false hq h.exact).mp h.bounds).2
  exact_mod_cast hlive.trans hle

theorem Within.evict (hb : Bounded options) (h : s.Exact) (hle : s.liveWeight ≤ 2 ^ 53) :
    (s.evict options).Within options :=
  let ⟨hexact, hbounds⟩ := evictLoop_within hb s.cache.length h hle (Nat.le_refl _)
  ⟨hexact, hbounds⟩

theorem Within.unlink (hb : Bounded options) (h : s.Within options) :
    (s.unlink key id).Within options := by
  have hle := h.liveWeight_le hb
  obtain ⟨hexact, hlive, hlength⟩ := @unlink_exact _ key id h.exact (by omega)
  exact ⟨hexact, not_exceeds_of_le hb h.exact hexact hlive hlength h.bounds⟩

theorem Within.update (hb : Bounded options) (h : s.Within options) {f : Entry → Entry}
    (hkey : ∀ e, (f e).key = e.key) (hweight : ∀ e, (f e).weight = e.weight) :
    (s.update id f).Within options := by
  obtain ⟨hexact, hlive⟩ := @update_exact _ id h.exact _ hkey hweight
  exact ⟨hexact, not_exceeds_of_le hb h.exact hexact hlive.le (Nat.le_refl _) h.bounds⟩

theorem Within.load (hb : Bounded options) (h : s.Within options) (hget : s.get key = none)
    (ttlMs : Option Js.Num) (starts : Bool) : (s.load options key ttlMs starts).Within options := by
  have hle := h.liveWeight_le hb
  cases starts with
  | false => exact h
  | true =>
      let entry : Entry := { key, ttlMs, pending := true, expires := .fin 0, weight := .fin 1 }
      obtain ⟨happend, hlive⟩ := append_exact h.exact entry
      have hentry : Memo.entry { s with entries := s.entries ++ [entry] } s.entries.length =
          entry := by
        simp [Memo.entry]
      obtain ⟨hlink, hlive'⟩ := @link_exact _ key s.entries.length happend (by omega) hget (by simp) (by rw [hentry]) (by rw [hentry])
      exact Within.evict hb hlink (by rw [hlive', hlive]; omega)

theorem get_delete : (s.delete key).get key = none := by
  rw [get, Option.map_eq_none_iff, List.find?_eq_none]
  intro kv hkv
  simpa using (List.mem_filter.mp hkv).2

/-- Touching an entry moves it to the end. -/
theorem Within.touch (hb : Bounded options) (h : s.Within options) (hget : s.get key = some id) :
    ((s.delete key).set key id).Within options := by
  have hset : (s.delete key).set key id =
      { s with cache := (s.delete key).cache ++ [(key, id)] } := by
    rw [set, get_delete]
    rfl
  have hperm : ((s.delete key).cache ++ [(key, id)]).Perm s.cache :=
    (List.perm_append_singleton _ _).trans
      (delete_perm h.exact.keys (mem_of_get hget)).symm
  rw [hset]
  have hlive : liveWeight { s with cache := (s.delete key).cache ++ [(key, id)] } =
      s.liveWeight := (hperm.map _).sum_eq
  have hexact : Exact { s with cache := (s.delete key).cache ++ [(key, id)] } := by
    refine ⟨(hperm.map _).nodup_iff.mpr h.exact.keys, ?_, ?_, ?_⟩
    · exact fun kv hkv => h.exact.named kv (hperm.mem_iff.mp hkv)
    · exact fun kv hkv => h.exact.weights kv (hperm.mem_iff.mp hkv)
    · rw [hlive]
      exact h.exact.total
  exact ⟨hexact, not_exceeds_of_le hb h.exact hexact hlive.le hperm.length_eq.le h.bounds⟩

theorem Within.memo (hb : Bounded options) (h : s.Within options) (ttlMs : Option Js.Num)
    (starts : Bool) : (s.memo options key ttlMs starts).Within options := by
  rw [Memo.memo]
  cases hget : s.get key with
  | none => exact h.load hb hget ttlMs starts
  | some hit =>
      simp only
      split_ifs
      · exact h.touch hb hget
      · have hmem := mem_of_get hget
        have hnone : (s.unlink key hit).get key = none := by
          have hunlink : (s.unlink key hit).cache = (s.delete key).cache := by
            rw [Memo.unlink, if_pos ((isLive_iff h.exact.keys).mpr hmem)]
          rw [get, hunlink]
          exact get_delete
        exact (h.unlink hb).load hb hnone ttlMs starts

theorem Within.resolve (hb : Bounded options) (h : s.Within options) (call : WeightCall) :
    (s.resolve options id call).Within options := by
  have hupdate := @Within.update _ id _ hb h (fun e => { e with pending := false })
    (fun _ => rfl) (fun _ => rfl)
  simp only [Memo.resolve]
  split_ifs with hlive hheavy
  · exact hupdate.unlink hb
  · -- the weight is a whole number and not too heavy
    obtain ⟨q, hq, -, hle⟩ := hb.maxWeight
    obtain ⟨n, hn, hweight, hnq⟩ : ∃ n : ℤ, 1 ≤ n ∧ call.weight = .fin n ∧ n ≤ 2 ^ 52 := by
      rw [Bool.or_eq_true, not_or, hq] at hheavy
      rcases call.weight_cases with hinf | ⟨n, hn, hweight⟩
      · rw [hinf] at hheavy
        exact absurd rfl hheavy.2
      · rw [hweight, Js.Num.lt, decide_eq_true_eq, not_lt] at hheavy
        refine ⟨n, hn, hweight, ?_⟩
        exact_mod_cast hheavy.2.trans hle
    have hsmall := hupdate.liveWeight_le hb
    obtain ⟨hexact, hlive'⟩ := reweigh_exact hupdate.exact hlive hn (by omega)
    rw [hweight]
    obtain ⟨hexact', hlive''⟩ := @update_exact _ id hexact
      (fun e => { e with expires := s.now.add ((s.entry id).ttlMs.getD options.ttlMs) })
      (fun _ => rfl) (fun _ => rfl)
    exact Within.evict hb hexact' (hlive''.trans_le (by omega))
  · exact hupdate

theorem Within.reject (hb : Bounded options) (h : s.Within options) (cacheable : Bool) :
    (s.reject options id cacheable).Within options := by
  have hupdate := @Within.update _ id _ hb h (fun e => { e with pending := false })
    (fun _ => rfl) (fun _ => rfl)
  simp only [Memo.reject]
  split_ifs
  · exact hupdate.update hb (fun _ => rfl) (fun _ => rfl)
  · exact hupdate.unlink hb
  · exact hupdate

/-- Every step stays within the bounds. -/
theorem Within.step (hb : Bounded options) {s s' : Memo} {a : MemoAct} (h : s.Within options)
    (hstep : (memoMachine options).step s a = some s') : s'.Within options := by
  cases a with
  | memo key ttlMs starts =>
      cases hstep
      exact h.memo hb ttlMs starts
  | resolve id call =>
      simp only [memoMachine, Option.ite_none_right_eq_some] at hstep
      cases hstep.2
      exact h.resolve hb call
  | reject id cacheable =>
      simp only [memoMachine, Option.ite_none_right_eq_some] at hstep
      cases hstep.2
      exact h.reject hb cacheable
  | invalidate key =>
      cases hstep
      rw [invalidate]
      cases s.get key with
      | none => exact h
      | some id => exact h.unlink hb
  | clock now =>
      cases hstep
      exact ⟨⟨h.exact.keys, h.exact.named, h.exact.weights, h.exact.total⟩, h.bounds⟩

theorem within_empty (hb : Bounded options) (now : Js.Num) : (Memo.empty now).Within options := by
  have hexact : (Memo.empty now).Exact :=
    ⟨List.nodup_nil, by simp [Memo.empty], by simp [Memo.empty], by simp [Memo.empty, liveWeight]⟩
  exact ⟨hexact, not_exceeds_of_nil hb hexact rfl⟩

/-- The settlement of an entry that is not live changes neither the map nor the total. -/
theorem settle_of_not_live (hlive : s.isLive (s.entry id).key id = false) (call : WeightCall)
    (cacheable : Bool) :
    (s.resolve options id call).cache = s.cache ∧
      (s.resolve options id call).totalWeight = s.totalWeight ∧
      (s.reject options id cacheable).cache = s.cache ∧
      (s.reject options id cacheable).totalWeight = s.totalWeight := by
  have hlive' : (s.update id fun e => { e with pending := false }).isLive (s.entry id).key id =
      false := hlive
  simp only [resolve, reject, hlive', Bool.false_eq_true, not_false_eq_true, if_true]
  exact ⟨rfl, rfl, rfl, rfl⟩

end Memo

/-! ## Every run -/

/-- With bounds that are not negative, and a `maxWeight` whose double is exact, every
state that is reached has the sum of its live weights as its total and is within both
bounds; a settlement of an entry that is no longer live changes neither. -/
theorem memo_bounded (options : MemoOptions) (hentries : (Js.Num.fin 0).le options.maxEntries)
    (q : ℚ) (hq : options.maxWeight = .fin q) (hnonneg : 0 ≤ q) (hle : q ≤ 2 ^ 52) (now : Js.Num)
    (s : Memo)
    (h : Machine.Reachable (M := memoMachine options) (Memo.empty now) s) :
    (∃ weights : List ℤ,
      s.cache.map (fun kv => (s.entry kv.2).weight) = weights.map (fun w : ℤ => Js.Num.fin w) ∧
        s.totalWeight = .fin weights.sum ∧ (weights.sum : ℚ) ≤ q) ∧
    (Js.Num.fin s.cache.length).le options.maxEntries ∧
    ∀ id, s.isLive (s.entry id).key id = false → ∀ call cacheable,
      (s.resolve options id call).cache = s.cache ∧
        (s.resolve options id call).totalWeight = s.totalWeight ∧
        (s.reject options id cacheable).cache = s.cache ∧
        (s.reject options id cacheable).totalWeight = s.totalWeight := by
  have hb : Memo.Bounded options := ⟨hentries, q, hq, hnonneg, hle⟩
  have hwithin : s.Within options := h.induct (I := fun s : Memo => s.Within options)
    (Memo.within_empty hb now) fun _ ih _ hstep => ih.step hb hstep
  obtain ⟨hcount, hweight⟩ := (Memo.exceeds_eq_false hq hwithin.exact).mp hwithin.bounds
  refine ⟨⟨s.cache.map fun kv => units (s.entry kv.2).weight, ?_, ?_, ?_⟩, ?_, ?_⟩
  · rw [List.map_map]
    refine List.map_congr_left fun kv hkv => ?_
    obtain ⟨n, -, hn⟩ := hwithin.exact.weights kv hkv
    rw [Function.comp_apply, hn, units_fin]
  · exact hwithin.exact.total
  · exact hweight
  · cases hmax : options.maxEntries with
    | nan =>
        rw [hmax] at hentries
        cases hentries
    | negInf =>
        rw [hmax] at hentries
        cases hentries
    | posInf => rfl
    | fin n =>
        rw [hmax, Js.Num.lt, decide_eq_false_iff_not, not_lt] at hcount
        rw [Js.Num.le, decide_eq_true_eq]
        exact hcount
  · intro id hlive call cacheable
    exact Memo.settle_of_not_live hlive call cacheable

/-! ## Runs on fixed options -/

def sampleOptions (maxWeight : ℚ) : MemoOptions where
  ttlMs := .fin 5000
  negativeTtlMs := .fin 2000
  maxEntries := .fin 100
  maxWeight := .fin maxWeight

/-- Two loads, and the second one is as heavy as may be. -/
def heavyRun (maxWeight : ℚ) : List MemoAct :=
  [.memo "a" none true, .resolve 0 (.value (.number (.fin (maxWeight - 1)))),
    .memo "b" none true, .resolve 1 (.value (.number (.fin maxWeight)))]

/-- With `maxWeight` one more than `2 ^ 52` a sum is rounded, and the total is not that of
the one entry that is left; a bound below zero is not met at the start. -/
theorem heavy_total_rounded :
    (∃ s : Memo, Machine.Reachable (M := memoMachine (sampleOptions (2 ^ 52 + 1)))
        (Memo.empty (.fin 0)) s ∧
      s.cache.map (fun kv => (s.entry kv.2).weight) = [.fin (2 ^ 52 + 1)] ∧
      s.totalWeight = .fin (2 ^ 52)) ∧
    (sampleOptions (-1)).maxWeight.lt (Memo.empty (.fin 0)).totalWeight = true := by
  have hrun : Machine.run (M := memoMachine (sampleOptions (2 ^ 52 + 1))) (Memo.empty (.fin 0))
      (heavyRun (2 ^ 52 + 1)) = some {
        entries := [⟨"a", none, false, .fin 5000, .fin (2 ^ 52)⟩,
          ⟨"b", none, false, .fin 5000, .fin (2 ^ 52 + 1)⟩]
        cache := [("b", 1)], totalWeight := .fin (2 ^ 52), now := .fin 0 } := by
    decide +kernel
  exact ⟨⟨_, Machine.reaches_of_run hrun, by decide +kernel, rfl⟩, by decide +kernel⟩

/-- `memo_bounded` where the first entry has made room for the second. -/
theorem memo_bounded_heavy : ∃ s : Memo,
    Machine.Reachable (M := memoMachine (sampleOptions (2 ^ 52))) (Memo.empty (.fin 0)) s ∧
      s.cache = [("b", 1)] ∧ (Js.Num.fin s.cache.length).le (.fin 100) := by
  have hrun : Machine.run (M := memoMachine (sampleOptions (2 ^ 52))) (Memo.empty (.fin 0))
      (heavyRun (2 ^ 52)) = some {
        entries := [⟨"a", none, false, .fin 5000, .fin (2 ^ 52 - 1)⟩,
          ⟨"b", none, false, .fin 5000, .fin (2 ^ 52)⟩]
        cache := [("b", 1)], totalWeight := .fin (2 ^ 52), now := .fin 0 } := by
    decide +kernel
  have hreach := Machine.reaches_of_run hrun
  exact ⟨_, hreach, rfl, (memo_bounded (sampleOptions (2 ^ 52)) (by decide) (2 ^ 52) rfl
    (by norm_num) (le_refl _) (.fin 0) _ hreach).2.1⟩

end Upstream
