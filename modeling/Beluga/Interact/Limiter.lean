import Beluga.Interact.Machine
import Mathlib.Data.List.Nodup

/-! # Request limiters

A limiter lets at most `max` requests hold a slot and at most `maxQueue` wait for
one. A released slot goes to the first waiter without a change of the counter, and
an alarm takes a waiter out of the queue. The grant of a slot resolves a promise, so
the request goes on in a step of its own.

* `Balanced`: what every step keeps;
* `limiter_balanced`: it holds in every state that is reached;
* `Balanced.orderly`: what follows for the counter, the queue and the slots.
-/

namespace Interact

/-- Another element in one place changes a count by the difference. -/
theorem countP_set_add {α : Type} {p : α → Bool} {xs : List α} {i : Nat} {x : α}
    (h : xs[i]? = some x) (y : α) :
    (xs.set i y).countP p + (if p x then 1 else 0) = xs.countP p + if p y then 1 else 0 := by
  obtain ⟨hlt, rfl⟩ := List.getElem?_eq_some_iff.mp h
  have hle : (if p xs[i] then 1 else 0) ≤ xs.countP p := by
    split_ifs with hp
    · exact List.countP_pos_iff.mpr ⟨_, List.getElem_mem hlt, hp⟩
    · exact Nat.zero_le _
  rw [List.countP_set hlt]
  omega

/-- Where a request is. -/
inductive Phase where
  /-- It has not asked for a slot. -/
  | preparing
  | waiting
  /-- It has a slot and does not know yet. -/
  | granted
  | running
  | ended
  deriving DecidableEq, Repr

/-- The request holds a slot. -/
def Phase.holds : Phase → Bool
  | .granted | .running => true
  | _ => false

/-- The counter, the queue and its armed alarms; the requests, by their number; which of them were
granted a slot, and which have released one. -/
structure Limiter where
  inFlight : Int
  waiters : List Nat
  alarms : List Nat
  phases : List Phase
  grants : List Nat
  releases : List Nat
  deriving DecidableEq, Repr

namespace Limiter

def empty : Limiter := ⟨0, [], [], [], [], []⟩

def phase (s : Limiter) (id : Nat) : Option Phase := s.phases[id]?

def setPhase (s : Limiter) (id : Nat) (p : Phase) : Limiter :=
  { s with phases := s.phases.set id p }

/-- A slot is taken, or the request queues, or it is refused. -/
def acquire (max maxQueue : Nat) (s : Limiter) (id : Nat) : Limiter :=
  if s.inFlight < max then
    { s.setPhase id .granted with inFlight := s.inFlight + 1, grants := id :: s.grants }
  else if maxQueue ≤ s.waiters.length then s.setPhase id .ended
  else
    { s.setPhase id .waiting with waiters := s.waiters ++ [id], alarms := id :: s.alarms }

/-- The alarm is switched off and the promise resolved, unless it has settled. -/
def grant (s : Limiter) (id : Nat) : Limiter :=
  let s := { s with alarms := s.alarms.erase id }
  if s.phase id = some .waiting then
    { s.setPhase id .granted with grants := id :: s.grants }
  else s

/-- The waiter leaves the queue if it is there, and the promise is rejected, unless it has
settled. -/
def alarm (s : Limiter) (id : Nat) : Limiter :=
  let s := { s with waiters := s.waiters.erase id, alarms := s.alarms.erase id }
  if s.phase id = some .waiting then s.setPhase id .ended else s

/-- The slot is handed over, or given back. -/
def release (s : Limiter) : Limiter :=
  match s.waiters with
  | next :: rest => grant { s with waiters := rest } next
  | [] => { s with inFlight := s.inFlight - 1 }

/-- A request with a slot ends. -/
def finish (s : Limiter) (id : Nat) : Limiter :=
  release { s.setPhase id .ended with releases := id :: s.releases }

inductive Act where
  /-- A new request. -/
  | enter
  /-- A request ends before it asks for a slot. -/
  | leave (id : Nat)
  | acquire (id : Nat)
  | alarm (id : Nat)
  /-- A granted request goes on. -/
  | resume (id : Nat)
  | finish (id : Nat)
  deriving DecidableEq, Repr

def step (max maxQueue : Nat) (s : Limiter) : Act → Option Limiter
  | .enter => some { s with phases := s.phases ++ [.preparing] }
  | .leave id => if s.phase id = some .preparing then some (s.setPhase id .ended) else none
  | .acquire id => if s.phase id = some .preparing then some (s.acquire max maxQueue id) else none
  | .alarm id => if id ∈ s.alarms then some (s.alarm id) else none
  | .resume id => if s.phase id = some .granted then some (s.setPhase id .running) else none
  | .finish id => if s.phase id = some .running then some (s.finish id) else none

end Limiter

abbrev limiterMachine (max maxQueue : Nat) : Machine where
  State := Limiter
  Act := Limiter.Act
  step := Limiter.step max maxQueue

namespace Limiter

variable {max maxQueue : Nat} {s s' : Limiter} {id : Nat}

/-! ## The invariant -/

/-- The number of slots that are held. -/
def held (s : Limiter) : Nat := s.phases.countP Phase.holds

/-- The slots that the request `id` holds, 0 or 1. -/
def share (s : Limiter) (id : Nat) : Nat := if (s.phase id).any Phase.holds then 1 else 0

/-- A request has been granted at most one slot, and has released it unless it holds it. -/
structure Ledger (s : Limiter) : Prop where
  settled : ∀ id, s.grants.count id = s.releases.count id + s.share id
  once : ∀ id, s.grants.count id ≤ 1
  fresh : ∀ id, s.phase id = none ∨ s.phase id = some .preparing ∨ s.phase id = some .waiting →
    s.grants.count id = 0

/-- The waiters are the requests whose promise has not settled, and each has its alarm. -/
structure Queue (s : Limiter) : Prop where
  nodup : s.waiters.Nodup
  waiting : ∀ id, id ∈ s.waiters ↔ s.phase id = some .waiting
  alarmsNodup : s.alarms.Nodup
  alarms : ∀ id, id ∈ s.alarms ↔ id ∈ s.waiters

structure Balanced (max maxQueue : Nat) (s : Limiter) : Prop where
  counter : s.inFlight = s.held
  capped : s.inFlight ≤ max
  full : s.waiters ≠ [] → s.inFlight = max
  short : s.waiters.length ≤ maxQueue
  queue : s.Queue
  ledger : s.Ledger

theorem phase_setPhase (h : s.phase id ≠ none) (p : Phase) (i : Nat) :
    (s.setPhase id p).phase i = if i = id then some p else s.phase i := by
  have hlt : id < s.phases.length := by
    by_contra hge
    exact h (List.getElem?_eq_none (Nat.not_lt.mp hge))
  rw [phase, setPhase, List.getElem?_set]
  by_cases hi : i = id
  · rw [if_pos hi.symm, if_pos hi, if_pos hlt]
  · rw [if_neg (Ne.symm hi), if_neg hi, phase]

/-- A change of one phase changes the number of slots held by the difference. -/
theorem held_setPhase (h : s.phase id ≠ none) (p : Phase) :
    (s.setPhase id p).held + s.share id = s.held + (if p.holds then 1 else 0) := by
  obtain ⟨q, hq⟩ := Option.ne_none_iff_exists'.mp h
  have hcount := countP_set_add (p := Phase.holds) hq p
  rw [share, hq, Option.any_some]
  exact hcount

theorem share_setPhase (h : s.phase id ≠ none) (p : Phase) (i : Nat) :
    (s.setPhase id p).share i = if i = id then (if p.holds then 1 else 0) else s.share i := by
  rw [share, phase_setPhase h]
  by_cases hi : i = id
  · rw [if_pos hi, if_pos hi, Option.any_some]
  · rw [if_neg hi, if_neg hi, share]

theorem share_of_phase {p : Phase} (h : s.phase id = some p) :
    s.share id = if p.holds then 1 else 0 := by
  rw [share, h, Option.any_some]

theorem phase_ne_none {p : Phase} (h : s.phase id = some p) : s.phase id ≠ none := by
  rw [h]
  exact Option.some_ne_none p

/-! ## Slots -/

theorem Ledger.congr (h : s.Ledger) (hphase : ∀ i, s'.phase i = s.phase i)
    (hgrants : s'.grants = s.grants) (hreleases : s'.releases = s.releases) : s'.Ledger := by
  have hshare : ∀ i, s'.share i = s.share i := by
    intro i
    rw [share, share, hphase]
  refine ⟨?_, ?_, ?_⟩
  · intro i
    rw [hgrants, hreleases, hshare]
    exact h.settled i
  · intro i
    rw [hgrants]
    exact h.once i
  · intro i hi
    rw [hphase] at hi
    rw [hgrants]
    exact h.fresh i hi

/-- A request goes on without a slot more or less. -/
theorem Ledger.move (h : s.Ledger) {p p' : Phase} (hp : s.phase id = some p)
    (hholds : p'.holds = p.holds)
    (hfresh : p' = .preparing ∨ p' = .waiting → p = .preparing ∨ p = .waiting) :
    (s.setPhase id p').Ledger := by
  have hne := phase_ne_none hp
  have hshare : ∀ i, (s.setPhase id p').share i = s.share i := by
    intro i
    rw [share_setPhase hne]
    by_cases hi : i = id
    · rw [if_pos hi, hi, share_of_phase hp, hholds]
    · rw [if_neg hi]
  refine ⟨?_, h.once, ?_⟩
  · intro i
    rw [hshare]
    exact h.settled i
  · intro i hi
    rw [phase_setPhase hne] at hi
    by_cases hid : i = id
    · rw [if_pos hid] at hi
      refine h.fresh i (.inr ?_)
      rw [hid, hp]
      simpa using hfresh (by simpa using hi)
    · rw [if_neg hid] at hi
      exact h.fresh i hi

/-- A request without a slot is granted one. -/
theorem Ledger.grant (h : s.Ledger)
    (hp : s.phase id = some .preparing ∨ s.phase id = some .waiting) :
    Ledger { s.setPhase id .granted with grants := id :: s.grants } := by
  have hne : s.phase id ≠ none := hp.elim phase_ne_none phase_ne_none
  have hzero : s.grants.count id = 0 := h.fresh id (.inr hp)
  have hcount : ∀ i, (id :: s.grants).count i = s.grants.count i + if i = id then 1 else 0 := by
    intro i
    rw [List.count_cons]
    by_cases hi : i = id
    · rw [if_pos (by simp [hi]), if_pos hi]
    · rw [if_neg (by simpa using Ne.symm hi), if_neg hi]
  refine ⟨fun i => ?_, fun i => ?_, fun i hi => ?_⟩
  · show (id :: s.grants).count i = s.releases.count i + (s.setPhase id .granted).share i
    have hsettled := h.settled i
    rw [hcount, share_setPhase hne]
    by_cases hi : i = id
    · rw [if_pos hi, if_pos hi, show Phase.granted.holds = true from rfl, if_pos rfl]
      rw [hi] at hsettled ⊢
      omega
    · rw [if_neg hi, if_neg hi]
      exact hsettled
  · show (id :: s.grants).count i ≤ 1
    rw [hcount]
    by_cases hi : i = id
    · rw [if_pos hi, hi]
      omega
    · rw [if_neg hi]
      exact h.once i
  · show (id :: s.grants).count i = 0
    have hi' : (s.setPhase id .granted).phase i = none ∨
      (s.setPhase id .granted).phase i = some .preparing ∨
      (s.setPhase id .granted).phase i = some .waiting := hi
    rw [phase_setPhase hne] at hi'
    by_cases hid : i = id
    · rw [if_pos hid] at hi'
      simp at hi'
    · rw [if_neg hid] at hi'
      rw [hcount, if_neg hid]
      exact h.fresh i hi'

/-- A request ends and releases its slot. -/
theorem Ledger.release (h : s.Ledger) (hp : s.phase id = some .running) :
    Ledger { s.setPhase id .ended with releases := id :: s.releases } := by
  have hne := phase_ne_none hp
  have hone : s.share id = 1 := by
    rw [share_of_phase hp]
    rfl
  refine ⟨fun i => ?_, h.once, fun i hi => ?_⟩
  · show s.grants.count i = (id :: s.releases).count i + (s.setPhase id .ended).share i
    have hsettled := h.settled i
    rw [List.count_cons, share_setPhase hne]
    by_cases hi : i = id
    · rw [if_pos (by simp [hi]), if_pos hi, show Phase.ended.holds = false from rfl,
        if_neg Bool.false_ne_true]
      rw [hi] at hsettled ⊢
      omega
    · rw [if_neg (by simpa using Ne.symm hi), if_neg hi]
      exact hsettled
  · have hi' : (s.setPhase id .ended).phase i = none ∨
      (s.setPhase id .ended).phase i = some .preparing ∨
      (s.setPhase id .ended).phase i = some .waiting := hi
    rw [phase_setPhase hne] at hi'
    by_cases hid : i = id
    · rw [if_pos hid] at hi'
      simp at hi'
    · rw [if_neg hid] at hi'
      exact h.fresh i hi'

/-! ## The queue -/

/-- A request that does not queue goes on. -/
theorem Queue.move (h : s.Queue) {p p' : Phase} (hp : s.phase id = some p) (hpw : p ≠ .waiting)
    (hpw' : p' ≠ .waiting) : (s.setPhase id p').Queue := by
  refine ⟨h.nodup, fun i => ?_, h.alarmsNodup, h.alarms⟩
  rw [phase_setPhase (phase_ne_none hp)]
  by_cases hi : i = id
  · rw [if_pos hi, Option.some.injEq]
    refine ⟨fun hin => ?_, fun heq => absurd heq hpw'⟩
    rw [hi] at hin
    have hwaiting := (h.waiting id).mp hin
    rw [hp] at hwaiting
    exact absurd (Option.some.inj hwaiting) hpw
  · rw [if_neg hi]
    exact h.waiting i

/-- A request queues. -/
theorem Queue.push (h : s.Queue) (hp : s.phase id = some .preparing) :
    Queue { s.setPhase id .waiting with
      waiters := s.waiters ++ [id], alarms := id :: s.alarms } := by
  have hout : id ∉ s.waiters := by
    rw [h.waiting, hp]
    decide
  refine ⟨?_, fun i => ?_, ?_, fun i => ?_⟩
  · show (s.waiters ++ [id]).Nodup
    exact List.nodup_append.mpr ⟨h.nodup, List.nodup_singleton id,
      fun i hi j hj heq => hout (List.mem_singleton.mp hj ▸ heq ▸ hi)⟩
  · show i ∈ s.waiters ++ [id] ↔ (s.setPhase id .waiting).phase i = some .waiting
    rw [phase_setPhase (phase_ne_none hp), List.mem_append, List.mem_singleton, h.waiting]
    by_cases hi : i = id
    · simp [hi]
    · simp [hi]
  · show (id :: s.alarms).Nodup
    rw [List.nodup_cons, h.alarms]
    exact ⟨hout, h.alarmsNodup⟩
  · show i ∈ id :: s.alarms ↔ i ∈ s.waiters ++ [id]
    rw [List.mem_cons, List.mem_append, List.mem_singleton, h.alarms, or_comm]

/-- A waiter leaves the queue together with its alarm. -/
theorem Queue.drop (h : s.Queue) {p : Phase} (hp : p ≠ .waiting)
    (hphase : ∀ i, s'.phase i = if i = id then some p else s.phase i)
    (hwaiters : s'.waiters = s.waiters.erase id) (halarms : s'.alarms = s.alarms.erase id) :
    s'.Queue := by
  refine ⟨hwaiters ▸ h.nodup.erase id, fun i => ?_, halarms ▸ h.alarmsNodup.erase id, fun i => ?_⟩
  · rw [hwaiters, h.nodup.mem_erase_iff, hphase, h.waiting]
    by_cases hi : i = id
    · simp [hi, hp]
    · simp [hi]
  · rw [hwaiters, halarms, h.nodup.mem_erase_iff, h.alarmsNodup.mem_erase_iff, h.alarms]

/-! ## Steps -/

/-- A request goes on without the queue and without a slot more or less. -/
theorem Balanced.move (h : s.Balanced max maxQueue) {p p' : Phase} (hp : s.phase id = some p)
    (hholds : p'.holds = p.holds) (hpw : p ≠ .waiting) (hpw' : p' ≠ .waiting)
    (hpp' : p' ≠ .preparing) : (s.setPhase id p').Balanced max maxQueue := by
  have hheld := held_setPhase (phase_ne_none hp) p'
  rw [share_of_phase hp, hholds] at hheld
  refine ⟨?_, h.capped, h.full, h.short, h.queue.move hp hpw hpw', h.ledger.move hp hholds ?_⟩
  · rw [show (s.setPhase id p').held = s.held by omega]
    exact h.counter
  · intro hor
    exact absurd hor (not_or.mpr ⟨hpp', hpw'⟩)

theorem Balanced.enter (h : s.Balanced max maxQueue) :
    Balanced max maxQueue { s with phases := s.phases ++ [.preparing] } := by
  have hphase : ∀ i, Limiter.phase { s with phases := s.phases ++ [.preparing] } i = s.phase i ∨
      (s.phase i = none ∧
        Limiter.phase { s with phases := s.phases ++ [.preparing] } i = some .preparing) := by
    intro i
    rw [phase, phase, List.getElem?_append]
    split_ifs with hi
    · exact .inl rfl
    · by_cases heq : i = s.phases.length
      · refine .inr ⟨List.getElem?_eq_none (by omega), ?_⟩
        rw [heq, Nat.sub_self]
        rfl
      · refine .inl ?_
        rw [List.getElem?_eq_none (by simp; omega), List.getElem?_eq_none (by omega)]
  have hheld : held { s with phases := s.phases ++ [.preparing] } = s.held := by
    rw [held, held, List.countP_append]
    rfl
  refine ⟨?_, h.capped, h.full, h.short, ⟨h.queue.nodup, ?_, h.queue.alarmsNodup, h.queue.alarms⟩,
    ⟨?_, h.ledger.once, ?_⟩⟩
  · rw [hheld]
    exact h.counter
  · intro i
    show i ∈ s.waiters ↔ _
    rw [h.queue.waiting]
    rcases hphase i with heq | ⟨hnone, hnew⟩
    · rw [heq]
    · rw [hnone, hnew]
      simp
  · intro i
    have hshare : share { s with phases := s.phases ++ [.preparing] } i = s.share i := by
      rw [share, share]
      rcases hphase i with heq | ⟨hnone, hnew⟩
      · rw [heq]
      · rw [hnone, hnew]
        rfl
    rw [hshare]
    exact h.ledger.settled i
  · intro i hi
    refine h.ledger.fresh i ?_
    rcases hphase i with heq | ⟨hnone, -⟩
    · rwa [heq] at hi
    · exact .inl hnone

/-- A request that asks for a slot. -/
theorem Balanced.acquire (h : s.Balanced max maxQueue) (hp : s.phase id = some .preparing) :
    (s.acquire max maxQueue id).Balanced max maxQueue := by
  have hne := phase_ne_none hp
  have hnone : s.share id = 0 := by
    rw [share_of_phase hp]
    rfl
  have hcounter := h.counter
  rw [Limiter.acquire]
  split_ifs with hfree hfull
  · -- a free slot, so nobody waits
    have hempty : s.waiters = [] := by
      by_contra hsome
      exact absurd (h.full hsome) (by omega)
    have hheld := held_setPhase hne .granted
    rw [hnone, show Phase.granted.holds = true from rfl, if_pos rfl] at hheld
    refine ⟨?_, ?_, fun hsome => absurd hempty hsome, h.short, ?_, ?_⟩
    · show s.inFlight + 1 = ((s.setPhase id .granted).held : Int)
      omega
    · show s.inFlight + 1 ≤ max
      omega
    · have hqueue := h.queue.move hp (by decide) (show Phase.granted ≠ .waiting by decide)
      exact ⟨hqueue.nodup, hqueue.waiting, hqueue.alarmsNodup, hqueue.alarms⟩
    · exact (h.ledger.grant (.inl hp)).congr (fun _ => rfl) rfl rfl
  · exact h.move hp rfl (by decide) (by decide) (by decide)
  · -- the request queues, and no slot is free
    have hheld := held_setPhase hne .waiting
    rw [hnone, show Phase.waiting.holds = false from rfl, if_neg Bool.false_ne_true] at hheld
    refine ⟨?_, h.capped, ?_, ?_, h.queue.push hp, ?_⟩
    · show s.inFlight = ((s.setPhase id .waiting).held : Int)
      omega
    · intro _
      show s.inFlight = max
      have hcapped := h.capped
      omega
    · show (s.waiters ++ [id]).length ≤ maxQueue
      rw [List.length_append, List.length_singleton]
      omega
    · have hledger := h.ledger.move hp (show Phase.waiting.holds = Phase.preparing.holds from rfl)
        fun _ => .inl rfl
      exact hledger.congr (fun _ => rfl) rfl rfl

/-- The alarm of a waiter. -/
theorem Balanced.alarm (h : s.Balanced max maxQueue) (hin : id ∈ s.alarms) :
    (s.alarm id).Balanced max maxQueue := by
  have hwaits : id ∈ s.waiters := (h.queue.alarms id).mp hin
  have hp : s.phase id = some .waiting := (h.queue.waiting id).mp hwaits
  have hne := phase_ne_none hp
  have hp' : Limiter.phase { s with
      waiters := s.waiters.erase id, alarms := s.alarms.erase id } id = some .waiting := hp
  have hheld := held_setPhase hne .ended
  rw [share_of_phase hp, show Phase.ended.holds = false from rfl,
    show Phase.waiting.holds = false from rfl, if_neg Bool.false_ne_true] at hheld
  simp only [Limiter.alarm]
  rw [if_pos hp']
  refine ⟨?_, h.capped, ?_, ?_, ?_, ?_⟩
  · show s.inFlight = ((s.setPhase id .ended).held : Int)
    have hcounter := h.counter
    omega
  · intro _
    exact h.full (List.ne_nil_of_mem hwaits)
  · exact Nat.le_trans List.length_erase_le h.short
  · exact h.queue.drop (p := .ended) (by decide) (fun i => phase_setPhase hne .ended i) rfl rfl
  · have hledger := h.ledger.move hp (show Phase.ended.holds = Phase.waiting.holds from rfl)
      fun _ => .inr rfl
    exact hledger.congr (fun _ => rfl) rfl rfl

/-- A slot too many goes to the first waiter, or becomes free. -/
theorem balanced_release (hcounter : s.inFlight = s.held + 1) (hcapped : s.inFlight ≤ max)
    (hfull : s.waiters ≠ [] → s.inFlight = max) (hshort : s.waiters.length ≤ maxQueue)
    (hqueue : s.Queue) (hledger : s.Ledger) : s.release.Balanced max maxQueue := by
  unfold Limiter.release
  split
  next next rest hwaiters =>
    have hin : next ∈ s.waiters := by
      rw [hwaiters]
      exact List.mem_cons_self
    have hp : s.phase next = some .waiting := (hqueue.waiting next).mp hin
    have hne := phase_ne_none hp
    have hp' : Limiter.phase { s with waiters := rest, alarms := s.alarms.erase next } next =
        some .waiting := hp
    have hheld := held_setPhase hne .granted
    rw [share_of_phase hp, show Phase.granted.holds = true from rfl,
      show Phase.waiting.holds = false from rfl, if_neg Bool.false_ne_true, if_pos rfl] at hheld
    simp only [Limiter.grant]
    rw [if_pos hp']
    refine ⟨?_, hcapped, fun _ => hfull (List.ne_nil_of_mem hin), ?_, ?_, ?_⟩
    · show s.inFlight = ((s.setPhase next .granted).held : Int)
      omega
    · show rest.length ≤ maxQueue
      rw [hwaiters, List.length_cons] at hshort
      omega
    · refine hqueue.drop (p := .granted) (by decide) (fun i => phase_setPhase hne .granted i) ?_ rfl
      rw [hwaiters, List.erase_cons_head]
      rfl
    · exact (hledger.grant (.inr hp)).congr (fun _ => rfl) rfl rfl
  next hwaiters =>
    refine ⟨?_, ?_, fun hsome => absurd hwaiters hsome, hshort, ?_, ?_⟩
    · show s.inFlight - 1 = (s.held : Int)
      omega
    · show s.inFlight - 1 ≤ max
      omega
    · exact ⟨hqueue.nodup, hqueue.waiting, hqueue.alarmsNodup, hqueue.alarms⟩
    · exact hledger.congr (fun _ => rfl) rfl rfl

/-- A request with a slot ends. -/
theorem Balanced.finish (h : s.Balanced max maxQueue) (hp : s.phase id = some .running) :
    (s.finish id).Balanced max maxQueue := by
  have hheld := held_setPhase (phase_ne_none hp) .ended
  rw [share_of_phase hp, show Phase.ended.holds = false from rfl,
    show Phase.running.holds = true from rfl, if_neg Bool.false_ne_true, if_pos rfl] at hheld
  have hqueue := h.queue.move hp (by decide) (show Phase.ended ≠ .waiting by decide)
  rw [Limiter.finish]
  refine balanced_release ?_ h.capped h.full h.short
    ⟨hqueue.nodup, hqueue.waiting, hqueue.alarmsNodup, hqueue.alarms⟩ (h.ledger.release hp)
  show s.inFlight = ((s.setPhase id .ended).held : Int) + 1
  have hcounter := h.counter
  omega

/-- Every step keeps the balance. -/
theorem Balanced.step {a : Act} (h : s.Balanced max maxQueue)
    (hstep : (limiterMachine max maxQueue).step s a = some s') : s'.Balanced max maxQueue := by
  cases a with
  | enter =>
      cases hstep
      exact h.enter
  | leave i =>
      obtain ⟨hp, heq⟩ := Option.ite_none_right_eq_some.mp hstep
      cases heq
      exact h.move hp rfl (by decide) (by decide) (by decide)
  | acquire i =>
      obtain ⟨hp, heq⟩ := Option.ite_none_right_eq_some.mp hstep
      cases heq
      exact h.acquire hp
  | alarm i =>
      obtain ⟨hin, heq⟩ := Option.ite_none_right_eq_some.mp hstep
      cases heq
      exact h.alarm hin
  | resume i =>
      obtain ⟨hp, heq⟩ := Option.ite_none_right_eq_some.mp hstep
      cases heq
      exact h.move hp rfl (by decide) (by decide) (by decide)
  | finish i =>
      obtain ⟨hp, heq⟩ := Option.ite_none_right_eq_some.mp hstep
      cases heq
      exact h.finish hp

theorem balanced_empty (max maxQueue : Nat) : empty.Balanced max maxQueue :=
  ⟨rfl, Int.natCast_nonneg max, nofun, Nat.zero_le _,
    ⟨List.nodup_nil, fun _ => ⟨nofun, nofun⟩, List.nodup_nil, fun _ => Iff.rfl⟩,
    ⟨fun _ => rfl, fun _ => Nat.zero_le _, fun _ _ => rfl⟩⟩

/-! ## Every run -/

/-- What a limiter is for. -/
structure Orderly (max maxQueue : Nat) (s : Limiter) : Prop where
  counter : s.inFlight = s.held
  capped : s.inFlight ≤ max
  short : s.waiters.length ≤ maxQueue
  nodup : s.waiters.Nodup
  /-- Neither granted nor given up. -/
  waiting : ∀ id ∈ s.waiters, s.phase id = some .waiting
  full : s.waiters ≠ [] → s.inFlight = max
  /-- A slot that was granted is held, or has been released once. -/
  settled : ∀ id, s.grants.count id ≤ 1 ∧ s.grants.count id = s.releases.count id + s.share id
  idle : (∀ p ∈ s.phases, p = .ended) → s.inFlight = 0 ∧ s.waiters = []

theorem Balanced.orderly (h : s.Balanced max maxQueue) : s.Orderly max maxQueue := by
  refine ⟨h.counter, h.capped, h.short, h.queue.nodup, fun i => (h.queue.waiting i).mp, h.full,
    fun i => ⟨h.ledger.once i, h.ledger.settled i⟩, fun hended => ⟨?_, ?_⟩⟩
  · have hheld : s.held = 0 := by
      rw [held, List.countP_eq_zero]
      intro p hp
      rw [hended p hp]
      decide
    rw [h.counter, hheld]
    rfl
  · refine List.eq_nil_iff_forall_not_mem.mpr fun i hi => ?_
    have hp := (h.queue.waiting i).mp hi
    have hmem : Phase.waiting ∈ s.phases := List.mem_of_getElem? hp
    cases hended _ hmem

end Limiter

theorem limiter_balanced {max maxQueue : Nat} {s : Limiter}
    (h : Machine.Reachable (M := limiterMachine max maxQueue) .empty s) :
    s.Balanced max maxQueue :=
  h.induct (I := fun s : Limiter => s.Balanced max maxQueue) (Limiter.balanced_empty max maxQueue)
    fun _ ih _ hstep => Limiter.Balanced.step ih hstep

end Interact
