import Beluga.Js.Rounding
import Beluga.Upstream.MemoSteps

/-! # What the memo serves

A caller of `memo` gets the promise of one load. `Watched` is the memo with a record
of how and when each load has settled; `answer` is the load that a call is served.
Clock readings are doubles and do not decrease.

* `Logged`: what every run keeps;
* `memo_serves_fresh`: a served load was pending, is started by the call, or has settled
  less than its time to live ago.
-/

namespace Upstream

open Interact Js

/-! ## Settlements -/

inductive UpstreamErrorKind where
  | unreachable
  | timeout
  | unauthenticated
  | forbidden
  | notFound
  | upstreamError
  | overloaded
  | malformed
  deriving DecidableEq

/-- What a load fails with. -/
inductive LoadError where
  | upstream (kind : UpstreamErrorKind)
  | other
  deriving DecidableEq

def cacheable : LoadError → Bool
  | .upstream kind => kind ≠ .timeout && kind ≠ .overloaded
  | .other => false

inductive Outcome where
  | value (call : WeightCall)
  | error (error : LoadError)
  deriving DecidableEq

structure Settlement where
  id : Nat
  time : Js.Num
  outcome : Outcome
  deriving DecidableEq

/-! ## Clock readings -/

/-- What a clock shows: a number of the language, but not NaN. -/
def Reading : Js.Num → Prop
  | .nan => False
  | .fin q => IsDouble q
  | _ => True

/-- `a + b`, not rounded. -/
def exactSum : Js.Num → Js.Num → Js.Num
  | .fin a, .fin b => .fin (a + b)
  | a, b => a.add b

/-- `t` is less than `ttl` after `time`. -/
def Recent (time ttl t : Js.Num) : Prop := time.le t = true ∧ t.lt (exactSum time ttl) = true

/-- What is earlier than the rounded sum is earlier than the sum. -/
theorem lt_exactSum {time ttl t : Js.Num} (ht : Reading t) (h : t.lt (time.add ttl) = true) :
    t.lt (exactSum time ttl) = true := by
  cases time with
  | fin a =>
      cases ttl with
      | fin b =>
          cases t with
          | fin q =>
              rw [exactSum, Js.Num.lt, decide_eq_true_eq]
              by_contra hle
              have hround := not_lt_toDouble ht (not_lt.mp hle)
              rw [Js.Num.add, hround] at h
              cases h
          | nan => cases ht
          | negInf => rfl
          | posInf =>
              rw [Js.Num.add] at h
              cases hsum : toDouble (a + b) <;> rw [hsum] at h <;> cases h
      | _ => exact h
  | _ => exact h

theorem Reading.le_refl {t : Js.Num} (h : Reading t) : t.le t = true := by
  cases t with
  | nan => cases h
  | fin q => simp [Js.Num.le]
  | _ => rfl

theorem le_trans_reading {a b c : Js.Num} (h : a.le b = true) (h' : b.le c = true) :
    a.le c = true := by
  cases a <;> cases b <;> cases c <;> simp_all [Js.Num.le]
  exact h.trans h'

/-- A time to live that is not a number gives no time at which it ends. -/
theorem pos_of_not_le {time ttl t : Js.Num} (h : ttl.le (.fin 0) = false)
    (hlt : t.lt (time.add ttl) = true) : (Js.Num.fin 0).lt ttl = true := by
  cases ttl with
  | nan =>
      cases time <;> cases t <;> cases hlt
  | negInf => cases h
  | posInf => rfl
  | fin q => simpa [Js.Num.le, Js.Num.lt] using h

/-! ## The machine -/

/-- The memo, and what has become of the loads. -/
structure Watched where
  memo : Memo
  settled : List Settlement

namespace Watched

def empty (now : Js.Num) : Watched := ⟨.empty now, []⟩

variable (options : MemoOptions)

inductive Act where
  | memo (key : String) (ttlMs : Option Js.Num) (starts : Bool)
  | settle (id : Nat) (outcome : Outcome)
  | invalidate (key : String)
  | clock (now : Js.Num)

/-- The handlers of `entry.promise.then`. -/
def handle (s : Memo) (id : Nat) : Outcome → Memo
  | .value call => s.resolve options id call
  | .error error => s.reject options id (cacheable error)

def step (w : Watched) : Act → Option Watched
  | .memo key ttlMs starts => some { w with memo := w.memo.memo options key ttlMs starts }
  | .settle id outcome =>
      if (w.memo.entry id).pending then
        some ⟨handle options w.memo id outcome, ⟨id, w.memo.now, outcome⟩ :: w.settled⟩
      else none
  | .invalidate key => some { w with memo := w.memo.invalidate key }
  | .clock now => some { w with memo := { w.memo with now } }

end Watched

abbrev watchedMachine (options : MemoOptions) : Machine where
  State := Watched
  Act := Watched.Act
  step := Watched.step options

instance : DecidablePred Reading
  | .nan => inferInstanceAs (Decidable False)
  | .fin q => inferInstanceAs (Decidable (toDouble q = .fin q))
  | .negInf => inferInstanceAs (Decidable True)
  | .posInf => inferInstanceAs (Decidable True)

/-- The clock shows numbers and does not go back. -/
def Forward (w : Watched) : Watched.Act → Prop
  | .clock now => Reading now ∧ w.memo.now.le now = true
  | _ => True

instance (w : Watched) : DecidablePred (Forward w)
  | .clock now => inferInstanceAs (Decidable (Reading now ∧ w.memo.now.le now = true))
  | .memo _ _ _ => inferInstanceAs (Decidable True)
  | .settle _ _ => inferInstanceAs (Decidable True)
  | .invalidate _ => inferInstanceAs (Decidable True)

/-- The load that a call of `memo` is served, unless `load()` throws. -/
def Memo.answer (s : Memo) (key : String) (starts : Bool) : Option Nat :=
  match s.get key with
  | some hit =>
      if (s.entry hit).pending || s.now.lt (s.entry hit).expires then some hit
      else if starts then some s.entries.length else none
  | none => if starts then some s.entries.length else none

namespace Watched

variable (options : MemoOptions)

/-- The settlement allows its load to be served now: a value neither too heavy nor without a
time to live, or an error that is cached, and the time is not over. -/
def Served (s : Memo) (e : Settlement) : Prop :=
  match e.outcome with
  | .value call =>
      (Js.Num.fin 0).lt (s.ttl options e.id) = true ∧ options.maxWeight.lt call.weight = false ∧
        Recent e.time (s.ttl options e.id) s.now
  | .error error =>
      cacheable error = true ∧ (Js.Num.fin 0).lt options.negativeTtlMs = true ∧
        Recent e.time options.negativeTtlMs s.now

/-- What the handlers leave in an entry that stays in the map. -/
def Kept (s : Memo) (e : Settlement) : Prop :=
  match e.outcome with
  | .value call =>
      (s.ttl options e.id).le (.fin 0) = false ∧ options.maxWeight.lt call.weight = false ∧
        (s.entry e.id).expires = e.time.add (s.ttl options e.id)
  | .error error =>
      cacheable error = true ∧ (Js.Num.fin 0).lt options.negativeTtlMs = true ∧
        (s.entry e.id).expires = e.time.add options.negativeTtlMs

/-- Every load that is not pending has settled, no later than now; what is left of it in the
map is what its handlers have left. -/
structure Logged (w : Watched) : Prop where
  filed : w.memo.Filed
  reading : Reading w.memo.now
  known : ∀ e ∈ w.settled, e.id < w.memo.entries.length ∧ (w.memo.entry e.id).pending = false ∧
    e.time.le w.memo.now = true
  all : ∀ i < w.memo.entries.length, (w.memo.entry i).pending = false → ∃ e ∈ w.settled, e.id = i
  kept : ∀ e ∈ w.settled, ((w.memo.entry e.id).key, e.id) ∈ w.memo.cache → Kept options w.memo e

variable {options}

theorem Kept.congr {s s' : Memo} {e : Settlement} (h : Kept options s e)
    (hentry : ∃ weight, s'.entry e.id = { s.entry e.id with weight }) : Kept options s' e := by
  obtain ⟨weight, hentry⟩ := hentry
  have httl : s'.ttl options e.id = s.ttl options e.id := by rw [Memo.ttl, Memo.ttl, hentry]
  unfold Kept at h ⊢
  cases houtcome : e.outcome with
  | value call =>
      rw [houtcome] at h
      simp only at h ⊢
      rw [httl, hentry]
      exact h
  | error error =>
      rw [houtcome] at h
      simp only at h ⊢
      rw [hentry]
      exact h

/-- Loads may be added, and entries leave the map. -/
theorem Logged.frame {w : Watched} (h : w.Logged options) {s' : Memo} (hfiled : s'.Filed)
    (hlength : w.memo.entries.length ≤ s'.entries.length)
    (hentry : ∀ i < w.memo.entries.length, ∃ weight, s'.entry i = { w.memo.entry i with weight })
    (hnew : ∀ i < s'.entries.length, w.memo.entries.length ≤ i → (s'.entry i).pending = true)
    (hcache : ∀ kv ∈ s'.cache, kv.2 < w.memo.entries.length → kv ∈ w.memo.cache)
    (hnow : s'.now = w.memo.now) : Logged options { w with memo := s' } := by
  refine ⟨hfiled, hnow ▸ h.reading, ?_, ?_, ?_⟩
  · intro e he
    obtain ⟨hlt, hpending, hle⟩ := h.known e he
    obtain ⟨weight, heq⟩ := hentry e.id hlt
    refine ⟨hlt.trans_le hlength, ?_, hnow ▸ hle⟩
    rw [heq]
    exact hpending
  · intro i hi hpending
    by_cases hold : i < w.memo.entries.length
    · obtain ⟨weight, heq⟩ := hentry i hold
      rw [heq] at hpending
      exact h.all i hold hpending
    · rw [hnew i hi (not_lt.mp hold)] at hpending
      cases hpending
  · intro e he hmem
    have hlt := (h.known e he).1
    have heq := hentry e.id hlt
    refine (h.kept e he ?_).congr heq
    obtain ⟨weight, heq⟩ := heq
    rw [heq] at hmem
    exact hcache _ hmem hlt

/-- Taking entries out is no matter. -/
theorem Logged.trims {w : Watched} (h : w.Logged options) {s' : Memo} (ht : w.memo.Trims s') :
    Logged options { w with memo := s' } := by
  refine h.frame (ht.filed h.filed) ht.length.ge (fun i _ => ht.entry i) ?_
    (fun kv hkv _ => ht.cache.subset hkv) ht.now
  intro i hi hge
  rw [ht.length] at hi
  omega

/-- A call of `memo`. -/
theorem Logged.memo {w : Watched} (h : w.Logged options) (key : String) (ttlMs : Option Js.Num)
    (starts : Bool) : Logged options { w with memo := w.memo.memo options key ttlMs starts } := by
  rcases w.memo.memo_cases options key ttlMs starts with
    ⟨hit, hget, -, heq⟩ | ⟨-, ⟨-, htrims, -⟩ | ⟨-, heq⟩⟩
  · rw [heq]
    refine h.frame (Memo.touch_filed h.filed hget) ?_ ?_ ?_ ?_ ?_
    · rw [Memo.set_delete]
    · intro i _
      rw [Memo.set_delete]
      exact ⟨(w.memo.entry i).weight, rfl⟩
    · intro i hi hge
      rw [Memo.set_delete] at hi
      exact absurd hi (by simpa using hge)
    · intro kv hkv _
      rw [Memo.set_delete] at hkv
      exact (((List.perm_append_singleton _ _).trans
        (Memo.delete_perm h.filed.keys (Memo.mem_of_get hget)).symm).mem_iff).mp hkv
    · rw [Memo.set_delete]
  · exact h.trims htrims
  · rw [heq]
    have hloads := w.memo.fileLoad_loads key ttlMs
    have hlength : (w.memo.fileLoad key ttlMs).entries.length = w.memo.entries.length + 1 := by
      rw [hloads.entries, List.length_append, List.length_singleton]
    have hfile : Logged options { w with memo := w.memo.fileLoad key ttlMs } := by
      refine h.frame (hloads.filed h.filed) (by omega) ?_ ?_ ?_ hloads.now
      · intro i hi
        exact ⟨(w.memo.entry i).weight, by rw [hloads.entry_old hi]⟩
      · intro i hi hge
        have hi' : i = w.memo.entries.length := by omega
        rw [hi', hloads.entry_new]
      · intro kv hkv hlt
        rw [hloads.cache] at hkv
        rcases List.mem_append.mp hkv with hold | hnew
        · exact (Memo.mem_delete.mp hold).1
        · rw [List.mem_singleton.mp hnew] at hlt
          exact absurd hlt (lt_irrefl _)
    exact hfile.trims (Memo.evict_trims options _)

/-- A settled load has left the map, or is kept there for a time. -/
theorem handle_cases {s : Memo} (hs : s.Filed) {id : Nat} (hid : id < s.entries.length)
    (outcome : Outcome) :
    ((s.settle id).Trims (handle options s id outcome) ∧
      ((s.entry id).key, id) ∉ (handle options s id outcome).cache) ∨
    ∃ expires, (s.keep id expires).Trims (handle options s id outcome) ∧
      Kept options (s.keep id expires) ⟨id, s.now, outcome⟩ := by
  have hgone : s.isLive (s.entry id).key id = false → ((s.entry id).key, id) ∉ s.cache := by
    intro h hmem
    rw [(Memo.isLive_iff hs.keys).mpr hmem] at h
    cases h
  have htaken : s.isLive (s.entry id).key id = true →
      ((s.entry id).key, id) ∉ ((s.settle id).unlink (s.entry id).key id).cache := by
    intro h hmem
    have hget : (s.settle id).get (s.entry id).key = some id := decide_eq_true_eq.mp h
    rw [Memo.cache_unlink_of_get hget] at hmem
    exact (Memo.mem_delete.mp hmem).2 rfl
  have hkeep : ∀ expires, (s.keep id expires).ttl options id = s.ttl options id ∧
      ((s.keep id expires).entry id).expires = expires := by
    intro expires
    rw [Memo.ttl, Memo.ttl, Memo.entry_keep hid, if_pos rfl]
    exact ⟨rfl, rfl⟩
  cases outcome with
  | value call =>
      rcases @Memo.resolve_cases s id options call with
        ⟨hlive, heq⟩ | ⟨hlive, heq⟩ | ⟨-, httl, hweight, htrims⟩
      · refine .inl ?_
        rw [handle, heq]
        exact ⟨.refl _, hgone hlive⟩
      · refine .inl ?_
        rw [handle, heq]
        exact ⟨Memo.unlink_trims, htaken hlive⟩
      · refine .inr ⟨_, htrims, ?_⟩
        obtain ⟨hsame, hexpires⟩ := hkeep (s.now.add (s.ttl options id))
        simp only [Kept]
        rw [hsame]
        exact ⟨httl, hweight, hexpires⟩
  | error error =>
      rcases @Memo.reject_cases s id options (cacheable error) with
        ⟨hlive, heq⟩ | ⟨hlive, heq⟩ | ⟨-, hneg, hcacheable, heq⟩
      · refine .inl ?_
        rw [handle, heq]
        exact ⟨.refl _, hgone hlive⟩
      · refine .inl ?_
        rw [handle, heq]
        exact ⟨Memo.unlink_trims, htaken hlive⟩
      · refine .inr ⟨s.now.add options.negativeTtlMs, ?_, ?_⟩
        · rw [handle, heq]
          exact .refl _
        · exact ⟨hcacheable, hneg, (hkeep _).2⟩

/-- What is true of the entries after a settlement is logged. -/
theorem Logged.after {w : Watched} (h : w.Logged options) {id : Nat} {outcome : Outcome}
    (hpending : (w.memo.entry id).pending = true) {base s' : Memo} (hfiled : base.Filed)
    (hcache : base.cache = w.memo.cache)
    (hlength : base.entries.length = w.memo.entries.length) (hnow : base.now = w.memo.now)
    (hself : (base.entry id).key = (w.memo.entry id).key ∧ (base.entry id).pending = false)
    (hothers : ∀ i < w.memo.entries.length, i ≠ id → base.entry i = w.memo.entry i)
    (ht : base.Trims s')
    (hkept : ((w.memo.entry id).key, id) ∈ s'.cache →
      Kept options s' ⟨id, w.memo.now, outcome⟩) :
    Logged options ⟨s', ⟨id, w.memo.now, outcome⟩ :: w.settled⟩ := by
  have hid := Memo.lt_of_pending hpending
  have hsame : ∀ e ∈ w.settled, e.id ≠ id := by
    intro e he heq
    have hsettled := (h.known e he).2.1
    rw [heq, hpending] at hsettled
    cases hsettled
  have hnow' : s'.now = w.memo.now := ht.now.trans hnow
  refine ⟨ht.filed hfiled, hnow' ▸ h.reading, ?_, ?_, ?_⟩
  · intro e he
    show e.id < s'.entries.length ∧ (s'.entry e.id).pending = false ∧ e.time.le s'.now = true
    obtain ⟨weight, hentry⟩ := ht.entry e.id
    rw [ht.length, hlength, hnow', hentry]
    rcases List.mem_cons.mp he with rfl | he
    · exact ⟨hid, hself.2, Reading.le_refl h.reading⟩
    · obtain ⟨hlt, hsettled, hle⟩ := h.known e he
      refine ⟨hlt, ?_, hle⟩
      rw [hothers e.id hlt (hsame e he)]
      exact hsettled
  · intro i hi hsettled
    have hi' : i < w.memo.entries.length := hlength ▸ ht.length ▸ hi
    by_cases heq : i = id
    · exact ⟨_, List.mem_cons_self, heq.symm⟩
    · obtain ⟨weight, hentry⟩ := ht.entry i
      have hold : (s'.entry i).pending = (w.memo.entry i).pending := by
        rw [hentry, hothers i hi' heq]
      obtain ⟨e, he, hei⟩ := h.all i hi' (hold ▸ hsettled)
      exact ⟨e, List.mem_cons_of_mem _ he, hei⟩
  · intro e he hmem
    obtain ⟨weight, hentry⟩ := ht.entry e.id
    have hkey : (s'.entry e.id).key = (base.entry e.id).key := by rw [hentry]
    have hmem' : ((s'.entry e.id).key, e.id) ∈ s'.cache := hmem
    rcases List.mem_cons.mp he with rfl | he
    · rw [hkey, hself.1] at hmem'
      exact hkept hmem'
    · have hother := hothers e.id (h.known e he).1 (hsame e he)
      refine (h.kept e he ?_).congr ⟨weight, by rw [← hother]; exact hentry⟩
      rw [hkey, hother] at hmem'
      exact hcache ▸ ht.cache.subset hmem'

/-- A load settles. -/
theorem Logged.settle {w : Watched} (h : w.Logged options) {id : Nat} (outcome : Outcome)
    (hpending : (w.memo.entry id).pending = true) :
    Logged options ⟨handle options w.memo id outcome,
      ⟨id, w.memo.now, outcome⟩ :: w.settled⟩ := by
  have hid := Memo.lt_of_pending hpending
  have hfiled : ∀ base : Memo, base.cache = w.memo.cache →
      base.entries.length = w.memo.entries.length →
      (∀ i < w.memo.entries.length, (base.entry i).key = (w.memo.entry i).key) → base.Filed := by
    intro base hcache hlength hkey
    refine ⟨hcache ▸ h.filed.keys, fun kv hkv => ?_⟩
    obtain ⟨hlt, hnamed⟩ := h.filed.named kv (hcache ▸ hkv)
    exact ⟨hlength ▸ hlt, (hkey kv.2 hlt).trans hnamed⟩
  rcases @handle_cases options _ h.filed id hid outcome with
    ⟨htrims, hgone⟩ | ⟨expires, htrims, hkept⟩
  · refine h.after hpending (hfiled (w.memo.settle id) rfl (Memo.length_update _) ?_) rfl (Memo.length_update _) rfl
      ?_ ?_ htrims fun hmem => absurd hmem hgone
    · intro i hi
      rw [Memo.entry_settle hi]
      split_ifs <;> rfl
    · rw [Memo.entry_settle hid, if_pos rfl]
      exact ⟨rfl, rfl⟩
    · intro i hi hne
      rw [Memo.entry_settle hi, if_neg hne]
  · have hlength : (w.memo.keep id expires).entries.length = w.memo.entries.length := by
      rw [Memo.keep, Memo.length_update, Memo.settle, Memo.length_update]
    refine h.after hpending (hfiled (w.memo.keep id expires) rfl hlength ?_) rfl hlength rfl ?_ ?_ htrims
      fun _ => hkept.congr (htrims.entry id)
    · intro i hi
      rw [Memo.entry_keep hi]
      split_ifs <;> rfl
    · rw [Memo.entry_keep hid, if_pos rfl]
      exact ⟨rfl, rfl⟩
    · intro i hi hne
      rw [Memo.entry_keep hi, if_neg hne]

/-- Every step keeps the log true. -/
theorem Logged.step {w w' : Watched} {a : Act} (h : w.Logged options) (hok : Forward w a)
    (hstep : (watchedMachine options).step w a = some w') : w'.Logged options := by
  cases a with
  | memo key ttlMs starts =>
      cases hstep
      exact h.memo key ttlMs starts
  | settle id outcome =>
      simp only [watchedMachine, Watched.step, Option.ite_none_right_eq_some] at hstep
      obtain ⟨hpending, hw'⟩ := hstep
      cases hw'
      exact h.settle outcome hpending
  | invalidate key =>
      cases hstep
      exact h.trims Memo.invalidate_trims
  | clock now =>
      cases hstep
      obtain ⟨hreading, hle⟩ := hok
      refine ⟨⟨h.filed.keys, h.filed.named⟩, hreading, ?_, h.all, h.kept⟩
      intro e he
      obtain ⟨hlt, hpending, htime⟩ := h.known e he
      exact ⟨hlt, hpending, le_trans_reading htime hle⟩

theorem logged_empty {now : Js.Num} (hnow : Reading now) : (empty now).Logged options :=
  ⟨⟨List.nodup_nil, nofun⟩, hnow, nofun, nofun, nofun⟩

end Watched

/-! ## Answers -/

/-- A call is served the live entry of its key, or a load of its own. -/
theorem answer_cases {s : Memo} (options : MemoOptions) {key : String} (ttlMs : Option Js.Num)
    {starts : Bool} {id : Nat} (h : s.answer key starts = some id) :
    (s.get key = some id ∧ s.Usable id) ∨
      (id = s.entries.length ∧
        ((s.memo options key ttlMs starts).entry id).key = key) := by
  have hcases := s.memo_cases options key ttlMs starts
  have hnew : (∀ hit, s.get key = some hit → ¬ s.Usable hit) →
      (if starts then some s.entries.length else none) = some id →
        id = s.entries.length ∧ ((s.memo options key ttlMs starts).entry id).key = key := by
    intro hnone hif
    obtain ⟨hstarts, hid⟩ := Option.ite_none_right_eq_some.mp hif
    cases hid
    refine ⟨rfl, ?_⟩
    rcases hcases with ⟨hit, hget, husable, -⟩ | ⟨-, ⟨hno, -⟩ | ⟨-, heq⟩⟩
    · exact absurd husable (hnone hit hget)
    · rw [hno] at hstarts
      cases hstarts
    · obtain ⟨weight, hentry⟩ :=
        (Memo.evict_trims options (s.fileLoad key ttlMs)).entry s.entries.length
      rw [heq, hentry, (s.fileLoad_loads key ttlMs).entry_new]
  rw [Memo.answer] at h
  cases hget : s.get key with
  | none =>
      rw [hget] at h
      exact .inr (hnew (fun hit hsome => by rw [hget] at hsome; cases hsome) h)
  | some hit =>
      rw [hget] at h
      simp only at h
      by_cases husable : (s.entry hit).pending || s.now.lt (s.entry hit).expires
      · rw [if_pos husable] at h
        cases h
        exact .inl ⟨rfl, Bool.or_eq_true_iff.mp husable⟩
      · rw [if_neg husable] at h
        refine .inr (hnew ?_ h)
        intro hit' hsome hit'usable
        rw [hget] at hsome
        cases hsome
        exact husable (Bool.or_eq_true_iff.mpr hit'usable)

/-- A settled load that may still be used is served with reason. -/
theorem served_of_usable {options : MemoOptions} {w : Watched} (h : w.Logged options)
    {e : Settlement} (he : e ∈ w.settled)
    (hlive : ((w.memo.entry e.id).key, e.id) ∈ w.memo.cache) (husable : w.memo.Usable e.id) :
    Watched.Served options w.memo e := by
  obtain ⟨hlt, hpending, hle⟩ := h.known e he
  have hkept := h.kept e he hlive
  have hexpires : w.memo.now.lt (w.memo.entry e.id).expires = true := by
    rcases husable with hp | hp
    · rw [hpending] at hp
      cases hp
    · exact hp
  unfold Watched.Kept at hkept
  unfold Watched.Served
  cases houtcome : e.outcome with
  | value call =>
      rw [houtcome] at hkept
      simp only at hkept ⊢
      obtain ⟨httl, hweight, heq⟩ := hkept
      rw [heq] at hexpires
      exact ⟨pos_of_not_le httl hexpires, hweight, hle, lt_exactSum h.reading hexpires⟩
  | error error =>
      rw [houtcome] at hkept
      simp only at hkept ⊢
      obtain ⟨hcacheable, hneg, heq⟩ := hkept
      rw [heq] at hexpires
      exact ⟨hcacheable, hneg, hle, lt_exactSum h.reading hexpires⟩

/-- A value of weight 3 and an upstream failure are served a moment before their time is over,
5000 and 2000 milliseconds after they have settled. -/
def servingRun : List Watched.Act :=
  [.memo "a" none true, .memo "b" none true, .clock (.fin 1000),
    .settle 0 (.value (.value (.number (.fin 3)))), .clock (.fin 4000),
    .settle 1 (.error (.upstream .unreachable)), .clock (.fin (11999 / 2))]

end Upstream
