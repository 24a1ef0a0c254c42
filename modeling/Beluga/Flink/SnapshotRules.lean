import Beluga.Flink.SnapshotCache
import Mathlib.Data.Option.Basic

/-! # Invariants of the snapshot cache

* `Build.Sound`: a build that has returned has every outcome, so that it has a snapshot;
* `Adapter.Sound`: the promise of the cache is that of the only build in flight, which was
  started last, and its entry that of the latest completed one;
* `Adapter.Sound.run`: every run keeps this, and a build that is settled stays as it is.
-/

namespace Flink

open Interact Js

variable {lower : String → String} {config : FlinkAdapterConfig}

/-! ## Builds -/

namespace Build

variable {b b' : Build} {act : BuildAct} {now : Int}

/-- How many details are read. -/
def detailCount : Except Failure (List FlinkJobSummary) → Nat
  | .ok summaries => (selected summaries).length
  | .error _ => 0

structure Sound (config : FlinkAdapterConfig) (b : Build) : Prop where
  pool : b.pool.Sound
  length : ∀ answer, b.overview = some answer → b.pool.out.length = detailCount answer
  finished : b.finishedAt.isSome → b.overview.isSome ∧ b.pool.running = []
  settled : b.settledAt.isSome → b.finishedAt.isSome
  cleared : b.cleared = true → b.settledAt.isSome

theorem sound_start : start.Sound config where
  pool := ⟨Nat.le_refl 0, fun i hi => absurd hi (Nat.not_lt_zero i),
    fun h => absurd h (Nat.not_lt_zero 0)⟩
  length _ h := by cases h
  finished h := by cases h
  settled h := by cases h
  cleared h := by cases h

theorem requests_sound (answer : Except Failure (List FlinkJobSummary)) :
    (requests config answer).Sound ∧
      (requests config answer).out.length = detailCount answer := by
  cases answer with
  | error err => exact ⟨(@sound_start config).pool, rfl⟩
  | ok summaries => exact ⟨.start config.concurrency_pos, List.length_replicate⟩

/-- A build goes on until it has returned, and leaves the cache alone. -/
theorem step_running (h : b.Sound config) (hstep : b.step config now act = some b') :
    b.finishedAt = none ∧ b'.settledAt = b.settledAt ∧ b'.cleared = b.cleared := by
  have hfinished : b.finishedAt.isSome → b.overview.isSome ∧ b.pool.running = [] := h.finished
  cases act with
  | overview answer =>
      simp only [step, Option.ite_none_right_eq_some, Option.some.injEq] at hstep
      obtain ⟨hnone, rfl⟩ := hstep
      refine ⟨Option.not_isSome_iff_eq_none.mp fun hsome => ?_, rfl, rfl⟩
      rw [Option.isNone_iff_eq_none.mp hnone] at hfinished
      cases (hfinished hsome).1
  | detail i outcome =>
      simp only [step, Option.ite_none_right_eq_some, Option.some.injEq] at hstep
      obtain ⟨⟨hmem, -⟩, rfl⟩ := hstep
      refine ⟨Option.not_isSome_iff_eq_none.mp fun hsome => ?_, rfl, rfl⟩
      rw [(hfinished hsome).2] at hmem
      cases hmem
  | abort =>
      simp only [step, Option.ite_none_right_eq_some, Option.some.injEq] at hstep
      obtain ⟨hnone, rfl⟩ := hstep
      exact ⟨Option.isNone_iff_eq_none.mp hnone, rfl, rfl⟩
  | finish =>
      simp only [step, Option.ite_none_right_eq_some, Option.some.injEq] at hstep
      obtain ⟨⟨-, -, hnone⟩, rfl⟩ := hstep
      exact ⟨Option.isNone_iff_eq_none.mp hnone, rfl, rfl⟩

theorem Sound.step (h : b.Sound config) (hstep : b.step config now act = some b') :
    b'.Sound config := by
  obtain ⟨hopen, hsettled, hcleared⟩ := step_running h hstep
  have hrunning : ¬ b.finishedAt.isSome := by rw [hopen]; exact Bool.false_ne_true
  have huncleared : b'.cleared = true → b'.settledAt.isSome := by
    rw [hsettled, hcleared]
    exact h.cleared
  have hlate : b'.settledAt.isSome → b'.finishedAt.isSome := by
    rw [hsettled]
    exact fun hsome => absurd (h.settled hsome) hrunning
  cases act with
  | overview answer =>
      simp only [Build.step, Option.ite_none_right_eq_some, Option.some.injEq] at hstep
      obtain ⟨-, rfl⟩ := hstep
      obtain ⟨hpool, hlength⟩ := @requests_sound config answer
      exact ⟨hpool, fun _ heq => Option.some.inj heq ▸ hlength,
        fun hsome => absurd hsome hrunning, hlate, huncleared⟩
  | detail i outcome =>
      simp only [Build.step, Option.ite_none_right_eq_some, Option.some.injEq] at hstep
      obtain ⟨-, rfl⟩ := hstep
      refine ⟨h.pool.settle i outcome, fun answer heq => ?_,
        fun hsome => absurd hsome hrunning, hlate, huncleared⟩
      rw [Pool.length_settle]
      exact h.length answer heq
  | abort =>
      simp only [Build.step, Option.ite_none_right_eq_some, Option.some.injEq] at hstep
      obtain ⟨-, rfl⟩ := hstep
      exact ⟨h.pool, h.length, h.finished, hlate, huncleared⟩
  | finish =>
      simp only [Build.step, Option.ite_none_right_eq_some, Option.some.injEq] at hstep
      obtain ⟨⟨hread, hidle, -⟩, rfl⟩ := hstep
      exact ⟨h.pool, h.length, fun _ => ⟨hread, hidle⟩, hlate, huncleared⟩

/-- A build that has returned has a snapshot. -/
theorem Sound.exists_built (h : b.Sound config) (hfinished : b.finishedAt.isSome) :
    ∃ built, b.built lower config = some built := by
  obtain ⟨hread, hidle⟩ := h.finished hfinished
  obtain ⟨now, hnow⟩ := Option.isSome_iff_exists.mp hfinished
  obtain ⟨answer, hanswer⟩ := Option.isSome_iff_exists.mp hread
  obtain ⟨outcomes, houtcomes⟩ := h.pool.done hidle
  unfold built
  rw [hnow, hanswer]
  cases answer with
  | error err => exact ⟨_, rfl⟩
  | ok summaries => exact ⟨_, by rw [houtcomes]; rfl⟩

end Build

/-! ## The adapter -/

namespace Adapter

variable {s s' s'' : Adapter} {b : Nat} {build build' : Build}

/-- From the start of a build until its promise is taken out of the cache. -/
def InFlight (s : Adapter) (b : Nat) : Prop :=
  ∃ build, s.builds[b]? = some build ∧ build.cleared = false

/-- The build `b` was completed at `t`, with this snapshot. -/
def Completed (lower : String → String) (config : FlinkAdapterConfig) (s : Adapter) (b : Nat)
    (t : Int) (built : BuiltSnapshot) : Prop :=
  ∃ build, s.builds[b]? = some build ∧ build.settledAt = some t ∧
    build.built lower config = some built

/-- No build was completed after `b`, or later than `t`. -/
def Latest (s : Adapter) (b : Nat) (t : Int) : Prop :=
  ∀ (b' : Nat) (build' : Build) (t' : Int),
    s.builds[b']? = some build' → build'.settledAt = some t' → b' ≤ b ∧ t' ≤ t

/-- Where a call has its answer from. -/
def Backed (lower : String → String) (config : FlinkAdapterConfig) (s : Adapter) (c : Call) :
    Prop :=
  match c.source with
  | none => c.op.reads = false
  | some (.cached b value) => c.op.reads = true ∧
      ∃ t built, s.Completed lower config b t built ∧ built.value = value
  | some (.promise _) => c.op.reads = true

structure Sound (lower : String → String) (config : FlinkAdapterConfig) (s : Adapter) : Prop where
  builds : ∀ (b : Nat) (build : Build), s.builds[b]? = some build → build.Sound config
  times : ∀ (b : Nat) (build : Build) (t : Int), s.builds[b]? = some build → build.settledAt = some t → t ≤ s.now
  flying : ∀ b, s.InFlight b → s.cache.inflight = some b
  last : ∀ b, s.cache.inflight = some b → b + 1 = s.builds.length ∧ s.InFlight b
  entry : ∀ e, s.cache.entry = some e → ∃ t built, s.Completed lower config e.load t built ∧
    built.value = e.value ∧ e.expiresAt = t + built.ttlMs ∧ s.Latest e.load t
  calls : ∀ c ∈ s.calls, s.Backed lower config c

/-- A build that is settled stays as it is, up to its promise. -/
def Keeps (s s' : Adapter) : Prop :=
  ∀ (b : Nat) (build : Build), s.builds[b]? = some build → build.settledAt.isSome →
    ∃ cleared, s'.builds[b]? = some { build with cleared := cleared }

theorem Keeps.refl (s : Adapter) : s.Keeps s := fun _ build hb _ => ⟨build.cleared, hb⟩

theorem Keeps.trans (h : s.Keeps s') (h' : s'.Keeps s'') : s.Keeps s'' := by
  intro b build hb hsettled
  obtain ⟨cleared, hb'⟩ := h b build hb hsettled
  obtain ⟨cleared', hb''⟩ := h' b _ hb' hsettled
  exact ⟨cleared', hb''⟩

theorem Completed.keeps {t : Int} {built : BuiltSnapshot}
    (h : s.Completed lower config b t built) (hkeeps : s.Keeps s') :
    s'.Completed lower config b t built := by
  obtain ⟨build, hb, ht, hbuilt⟩ := h
  obtain ⟨cleared, hb'⟩ := hkeeps b build hb (by rw [ht]; rfl)
  exact ⟨_, hb', ht, hbuilt⟩

theorem Backed.keeps {c : Call} (h : s.Backed lower config c) (hkeeps : s.Keeps s') :
    s'.Backed lower config c := by
  unfold Backed at h ⊢
  split at h
  · exact h
  · obtain ⟨hreads, t, built, hcompleted, hvalue⟩ := h
    exact ⟨hreads, t, built, hcompleted.keeps hkeeps, hvalue⟩
  · exact h

/-- A build after one of them was replaced. -/
theorem get_set {builds : List Build} (hb : builds[b]? = some build) {j : Nat} {x : Build} :
    (builds.set b build')[j]? = some x ↔
      (j = b ∧ x = build') ∨ (j ≠ b ∧ builds[j]? = some x) := by
  have hlt := (List.getElem?_eq_some_iff.mp hb).1
  by_cases hj : j = b
  · rw [hj, List.getElem?_set_self hlt]
    constructor
    · intro h
      exact .inl ⟨rfl, (Option.some.inj h).symm⟩
    · rintro (⟨-, rfl⟩ | ⟨hne, -⟩)
      · rfl
      · exact absurd rfl hne
  · rw [List.getElem?_set_ne (Ne.symm hj)]
    constructor
    · exact fun h => .inr ⟨hj, h⟩
    · rintro (⟨rfl, -⟩ | ⟨-, h⟩)
      · exact absurd rfl hj
      · exact h

theorem start_sound (now : Int) : (Adapter.start now).Sound lower config where
  builds b build h := by cases h
  times b build t h := by cases h
  flying b h := by
    obtain ⟨build, h, -⟩ := h
    cases h
  last b h := by cases h
  entry e h := by cases h
  calls c h := by cases h

/-! ### A build goes on -/

theorem keeps_set (hb : s.builds[b]? = some build) (hopen : build.settledAt = none)
    (hs' : s'.builds = s.builds.set b build') : s.Keeps s' := by
  intro j x hj hsettled
  by_cases hjb : j = b
  · rw [hjb, hb] at hj
    rw [← Option.some.inj hj, hopen] at hsettled
    cases hsettled
  · refine ⟨x.cleared, ?_⟩
    rw [hs', (get_set hb).mpr (.inr ⟨hjb, hj⟩)]

theorem inFlight_set (hb : s.builds[b]? = some build) (hs' : s'.builds = s.builds.set b build')
    (hcleared : build'.cleared = build.cleared) {j : Nat} : s'.InFlight j ↔ s.InFlight j := by
  unfold InFlight
  rw [hs']
  constructor
  · rintro ⟨x, hx, hopen⟩
    rcases (get_set hb).mp hx with ⟨rfl, rfl⟩ | ⟨-, hx⟩
    · exact ⟨build, hb, hcleared ▸ hopen⟩
    · exact ⟨x, hx, hopen⟩
  · rintro ⟨x, hx, hopen⟩
    by_cases hjb : j = b
    · rw [hjb, hb] at hx
      refine ⟨build', (get_set hb).mpr (.inl ⟨hjb, rfl⟩), ?_⟩
      rw [hcleared, Option.some.inj hx]
      exact hopen
    · exact ⟨x, (get_set hb).mpr (.inr ⟨hjb, hx⟩), hopen⟩

/-- What settled builds are is what counts for the entry. -/
theorem Latest.congr {t : Int} (h : s.Latest b t)
    (hback : ∀ (j : Nat) (x' : Build) (t' : Int), s'.builds[j]? = some x' →
      x'.settledAt = some t' → ∃ x, s.builds[j]? = some x ∧ x.settledAt = some t') :
    s'.Latest b t := by
  intro j x' t' hj ht'
  obtain ⟨x, hx, ht⟩ := hback j x' t' hj ht'
  exact h j x t' hx ht

theorem Sound.goOn {act : BuildAct} (h : s.Sound lower config) (hb : s.builds[b]? = some build)
    (hstep : build.step config s.now act = some build') :
    let s' := { s with builds := s.builds.set b build' }
    s'.Sound lower config ∧ s.Keeps s' := by
  intro s'
  obtain ⟨hopen, hsettled, hcleared⟩ := Build.step_running (h.builds b build hb) hstep
  have hunsettled : build.settledAt = none := by
    by_contra hsome
    have hfinished := (h.builds b build hb).settled (Option.isSome_iff_ne_none.mpr hsome)
    rw [hopen] at hfinished
    cases hfinished
  have hkeeps : s.Keeps s' := keeps_set hb hunsettled rfl
  have hflight : ∀ j, s'.InFlight j ↔ s.InFlight j := fun j => inFlight_set hb rfl hcleared
  have hback : ∀ (j : Nat) (x' : Build) (t' : Int), s'.builds[j]? = some x' →
      x'.settledAt = some t' → ∃ x, s.builds[j]? = some x ∧ x.settledAt = some t' := by
    intro j x' t' hj ht'
    rcases (get_set hb).mp hj with ⟨rfl, rfl⟩ | ⟨-, hj⟩
    · rw [hsettled, hunsettled] at ht'
      cases ht'
    · exact ⟨x', hj, ht'⟩
  refine ⟨⟨fun j x hj => ?_, fun j x t hj ht => ?_, fun j hj => ?_, fun j hj => ?_,
    fun e he => ?_, fun c hc => (h.calls c hc).keeps hkeeps⟩, hkeeps⟩
  · rcases (get_set hb).mp hj with ⟨rfl, rfl⟩ | ⟨-, hj⟩
    · exact (h.builds _ build hb).step hstep
    · exact h.builds j x hj
  · obtain ⟨x', hx', ht'⟩ := hback j x t hj ht
    exact h.times j x' t hx' ht'
  · exact h.flying j ((hflight j).mp hj)
  · obtain ⟨hlast, hin⟩ := h.last j hj
    exact ⟨hlast.trans (List.length_set).symm, (hflight j).mpr hin⟩
  · obtain ⟨t, built, hcompleted, hvalue, hexpires, hlatest⟩ := h.entry e he
    exact ⟨t, built, hcompleted.keeps hkeeps, hvalue, hexpires, hlatest.congr hback⟩

/-! ### A build settles -/

theorem Sound.settle (h : s.Sound lower config) (hb : s.builds[b]? = some build)
    (hfinished : build.finishedAt.isSome) (hunsettled : build.settledAt = none)
    {built : BuiltSnapshot} (hbuilt : build.built lower config = some built) :
    let s' := { s with
      builds := s.builds.set b { build with settledAt := some s.now }
      cache := s.cache.store b built.value built.ttlMs s.now }
    s'.Sound lower config ∧ s.Keeps s' := by
  intro s'
  have hkeeps : s.Keeps s' := keeps_set hb hunsettled rfl
  have hflight : ∀ j, s'.InFlight j ↔ s.InFlight j := fun j =>
    @inFlight_set s s' b build { build with settledAt := some s.now } hb rfl rfl j
  have huncleared : build.cleared = false := by
    by_contra hcleared
    have hsettled := (h.builds b build hb).cleared (Bool.eq_true_of_not_eq_false hcleared)
    rw [hunsettled] at hsettled
    cases hsettled
  have hlast := (h.last b (h.flying b ⟨build, hb, huncleared⟩)).1
  refine ⟨⟨fun j x hj => ?_, fun j x t hj ht => ?_, fun j hj => ?_, fun j hj => ?_,
    fun e he => ?_, fun c hc => (h.calls c hc).keeps hkeeps⟩, hkeeps⟩
  · rcases (get_set hb).mp hj with ⟨rfl, rfl⟩ | ⟨-, hj⟩
    · have hsound := h.builds _ build hb
      exact ⟨hsound.pool, hsound.length, hsound.finished, fun _ => hfinished, fun _ => rfl⟩
    · exact h.builds j x hj
  · rcases (get_set hb).mp hj with ⟨-, rfl⟩ | ⟨-, hj⟩
    · cases ht
      exact Int.le_refl _
    · exact h.times j x t hj ht
  · exact h.flying j ((hflight j).mp hj)
  · obtain ⟨hend, hin⟩ := h.last j hj
    exact ⟨hend.trans (List.length_set).symm, (hflight j).mpr hin⟩
  · cases he
    refine ⟨s.now, built, ⟨_, (get_set hb).mpr (.inl ⟨rfl, rfl⟩), rfl, hbuilt⟩, rfl, rfl, ?_⟩
    -- this build was started last
    intro j x t hj ht
    rcases (get_set hb).mp hj with ⟨rfl, rfl⟩ | ⟨-, hj⟩
    · cases ht
      exact ⟨Nat.le_refl _, Int.le_refl _⟩
    · have hlt := (List.getElem?_eq_some_iff.mp hj).1
      have hle : j ≤ b := by omega
      exact ⟨hle, h.times j x t hj ht⟩

/-! ### A promise is taken out -/

theorem Sound.clear (h : s.Sound lower config) (hb : s.builds[b]? = some build)
    (hsettled : build.settledAt.isSome) (huncleared : build.cleared = false) :
    let s' := { s with
      builds := s.builds.set b { build with cleared := true }, cache := s.cache.clear b }
    s'.Sound lower config ∧ s.Keeps s' := by
  intro s'
  have hinflight := h.flying b ⟨build, hb, huncleared⟩
  have hempty : s'.cache = { s.cache with inflight := none } := if_pos hinflight
  have hkeeps : s.Keeps s' := by
    intro j x hj _
    by_cases hjb : j = b
    · rw [hjb, hb] at hj
      exact ⟨true, (get_set hb).mpr (.inl ⟨hjb, by rw [Option.some.inj hj]⟩)⟩
    · exact ⟨x.cleared, (get_set hb).mpr (.inr ⟨hjb, hj⟩)⟩
  have hback : ∀ (j : Nat) (x' : Build) (t' : Int), s'.builds[j]? = some x' →
      x'.settledAt = some t' → ∃ x, s.builds[j]? = some x ∧ x.settledAt = some t' := by
    intro j x' t' hj ht'
    rcases (get_set hb).mp hj with ⟨rfl, rfl⟩ | ⟨-, hj⟩
    · exact ⟨build, hb, ht'⟩
    · exact ⟨x', hj, ht'⟩
  refine ⟨⟨fun j x hj => ?_, fun j x t hj ht => ?_, fun j hj => ?_, fun j hj => ?_,
    fun e he => ?_, fun c hc => (h.calls c hc).keeps hkeeps⟩, hkeeps⟩
  · rcases (get_set hb).mp hj with ⟨rfl, rfl⟩ | ⟨-, hj⟩
    · have hsound := h.builds _ build hb
      exact ⟨hsound.pool, hsound.length, hsound.finished, hsound.settled, fun _ => hsettled⟩
    · exact h.builds j x hj
  · obtain ⟨x', hx', ht'⟩ := hback j x t hj ht
    exact h.times j x' t hx' ht'
  · -- it was the only one
    obtain ⟨x, hx, hopen⟩ := hj
    rcases (get_set hb).mp hx with ⟨-, rfl⟩ | ⟨hne, hx⟩
    · cases hopen
    · have hother := h.flying j ⟨x, hx, hopen⟩
      rw [hinflight] at hother
      exact absurd (Option.some.inj hother).symm hne
  · rw [hempty] at hj
    cases hj
  · rw [hempty] at he
    obtain ⟨t, built, hcompleted, hvalue, hexpires, hlatest⟩ := h.entry e he
    exact ⟨t, built, hcompleted.keeps hkeeps, hvalue, hexpires, hlatest.congr hback⟩

/-! ### A call -/

theorem keeps_append {bs : List Build} (hs' : s'.builds = s.builds ++ bs) : s.Keeps s' := by
  intro j x hj _
  refine ⟨x.cleared, ?_⟩
  rw [hs', List.getElem?_append_left (List.getElem?_eq_some_iff.mp hj).1, hj]

/-- How a call that reads a snapshot gets it. -/
theorem call_cases (h : s.Sound lower config) {op : Op} (hreads : op.reads = true) :
    (∃ e, s.cache.entry = some e ∧ s.now < e.expiresAt ∧
      s.call op = { s with calls := s.calls ++ [⟨op, some (.cached e.load e.value)⟩] }) ∨
    (∃ b, s.cache.inflight = some b ∧
      s.call op = { s with calls := s.calls ++ [⟨op, some (.promise b)⟩] }) ∨
    (s.cache.inflight = none ∧
      s.call op = { s with
        builds := s.builds ++ [.start]
        cache := { s.cache with inflight := some s.builds.length }
        calls := s.calls ++ [⟨op, some (.promise s.builds.length)⟩] }) := by
  unfold call SingleFlightCache.get
  rw [if_pos hreads]
  cases hentry : s.cache.entry.filter (s.now < ·.expiresAt) with
  | some e =>
      obtain ⟨he, hfresh⟩ := Option.filter_eq_some_iff.mp hentry
      exact .inl ⟨e, he, of_decide_eq_true hfresh, by simp⟩
  | none =>
      right
      cases hinflight : s.cache.inflight with
      | some b =>
          have hne : b ≠ s.builds.length := by
            have hlast := (h.last b hinflight).1
            omega
          exact .inl ⟨b, rfl, by simp [hne]⟩
      | none => exact .inr ⟨rfl, by simp⟩

/-- A call that starts no build. -/
theorem Sound.log (h : s.Sound lower config) {c : Call} (hc : s.Backed lower config c) :
    { s with calls := s.calls ++ [c] }.Sound lower config where
  builds := h.builds
  times := h.times
  flying := h.flying
  last := h.last
  entry := h.entry
  calls c' hc' := by
    rcases List.mem_append.mp hc' with hc' | hc'
    · exact h.calls c' hc'
    · rw [List.mem_singleton.mp hc']
      exact hc

/-- A call that starts one. -/
theorem Sound.load (h : s.Sound lower config) {c : Call} (hreads : c.op.reads = true)
    (hsource : c.source = some (.promise s.builds.length))
    (hidle : s.cache.inflight = none) :
    let s' := { s with
      builds := s.builds ++ [.start]
      cache := { s.cache with inflight := some s.builds.length }
      calls := s.calls ++ [c] }
    s'.Sound lower config ∧ s.Keeps s' := by
  intro s'
  have hkeeps : s.Keeps s' := keeps_append rfl
  have hnew : s'.builds[s.builds.length]? = some .start := by
    rw [List.getElem?_append_right (Nat.le_refl _), Nat.sub_self]
    rfl
  have hback : ∀ (j : Nat) (x : Build), s'.builds[j]? = some x →
      s.builds[j]? = some x ∨ (j = s.builds.length ∧ x = .start) := by
    intro j x hj
    by_cases hlt : j < s.builds.length
    · rw [List.getElem?_append_left hlt] at hj
      exact .inl hj
    · have hbound := (List.getElem?_eq_some_iff.mp hj).1
      rw [List.length_append, List.length_singleton] at hbound
      have hend : j = s.builds.length := by omega
      rw [hend, hnew] at hj
      exact .inr ⟨hend, (Option.some.inj hj).symm⟩
  have holder : ∀ (j : Nat) (x : Build) (t : Int), s'.builds[j]? = some x →
      x.settledAt = some t → ∃ x', s.builds[j]? = some x' ∧ x'.settledAt = some t := by
    intro j x t hj ht
    rcases hback j x hj with hj | ⟨-, rfl⟩
    · exact ⟨x, hj, ht⟩
    · cases ht
  refine ⟨⟨fun j x hj => ?_, fun j x t hj ht => ?_, fun j hj => ?_, fun j hj => ?_,
    fun e he => ?_, fun c' hc' => ?_⟩, hkeeps⟩
  · rcases hback j x hj with hj | ⟨-, rfl⟩
    · exact h.builds j x hj
    · exact Build.sound_start
  · obtain ⟨x', hx', ht'⟩ := holder j x t hj ht
    exact h.times j x' t hx' ht'
  · -- none of the older builds is in flight
    obtain ⟨x, hx, hopen⟩ := hj
    rcases hback j x hx with hx | ⟨rfl, -⟩
    · have hother := h.flying j ⟨x, hx, hopen⟩
      rw [hidle] at hother
      cases hother
    · rfl
  · rw [← Option.some.inj hj]
    exact ⟨(@List.length_append _ s.builds [.start]).symm, _, hnew, rfl⟩
  · obtain ⟨t, built, hcompleted, hvalue, hexpires, hlatest⟩ := h.entry e he
    exact ⟨t, built, hcompleted.keeps hkeeps, hvalue, hexpires, hlatest.congr holder⟩
  · rcases List.mem_append.mp hc' with hc' | hc'
    · exact (h.calls c' hc').keeps hkeeps
    · rw [List.mem_singleton.mp hc', Backed, hsource]
      exact hreads

theorem Sound.call (h : s.Sound lower config) (op : Op) :
    (s.call op).Sound lower config ∧ s.Keeps (s.call op) := by
  by_cases hreads : op.reads = true
  · rcases call_cases h hreads with ⟨e, he, -, heq⟩ | ⟨b, -, heq⟩ | ⟨hidle, heq⟩
    · rw [heq]
      obtain ⟨t, built, hcompleted, hvalue, -⟩ := h.entry e he
      exact ⟨h.log ⟨hreads, t, built, hcompleted, hvalue⟩, .refl s⟩
    · rw [heq]
      exact ⟨h.log hreads, .refl s⟩
    · rw [heq]
      exact h.load hreads rfl hidle
  · rw [Adapter.call, if_neg hreads]
    exact ⟨h.log (Bool.eq_false_iff.mpr hreads), .refl s⟩

/-! ### Runs -/

theorem Sound.step (h : s.Sound lower config) {a : Act}
    (hstep : s.step lower config a = some s') : s'.Sound lower config ∧ s.Keeps s' := by
  cases a with
  | call op =>
      cases hstep
      exact h.call op
  | build b act =>
      obtain ⟨build, hb, hstep⟩ := Option.bind_eq_some_iff.mp hstep
      obtain ⟨build', hbuild, hstep⟩ := Option.bind_eq_some_iff.mp hstep
      cases hstep
      exact h.goOn hb hbuild
  | settle b =>
      obtain ⟨build, hb, hstep⟩ := Option.bind_eq_some_iff.mp hstep
      obtain ⟨⟨⟩, hguard, hstep⟩ := Option.bind_eq_some_iff.mp hstep
      obtain ⟨hfinished, hunsettled⟩ := (Option.guard_eq_some' ()).mp hguard
      obtain ⟨built, hbuilt⟩ := @Build.Sound.exists_built lower _ _ (h.builds b build hb) hfinished
      rw [hbuilt] at hstep
      rw [← Option.some.inj hstep]
      exact h.settle hb hfinished (Option.isNone_iff_eq_none.mp hunsettled) hbuilt
  | clear b =>
      obtain ⟨build, hb, hstep⟩ := Option.bind_eq_some_iff.mp hstep
      obtain ⟨⟨⟩, hguard, hstep⟩ := Option.bind_eq_some_iff.mp hstep
      obtain ⟨hsettled, huncleared⟩ := (Option.guard_eq_some' ()).mp hguard
      rw [← Option.some.inj hstep]
      exact h.clear hb hsettled huncleared
  | clock now =>
      simp only [Adapter.step, Option.ite_none_right_eq_some, Option.some.injEq] at hstep
      obtain ⟨hle, rfl⟩ := hstep
      refine ⟨⟨h.builds, fun j x t hj ht => ?_, h.flying, h.last, h.entry, h.calls⟩, .refl s⟩
      exact Int.le_trans (h.times j x t hj ht) hle

theorem Sound.run (h : s.Sound lower config)
    (hrun : Machine.Reachable (M := adapterMachine lower config) s s') :
    s'.Sound lower config ∧ s.Keeps s' := by
  refine hrun.induct (I := fun s' => Adapter.Sound lower config s' ∧ s.Keeps s')
    ⟨h, .refl s⟩ fun _ ih _ hstep => ?_
  obtain ⟨hsound, hkeeps⟩ := ih.1.step hstep
  exact ⟨hsound, ih.2.trans hkeeps⟩

end Adapter

end Flink
