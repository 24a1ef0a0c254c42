import Beluga.Sso.AdapterFresh

/-! # Backoff

After an answer at `t` that is rate-limited until `u`, no request is started before
`min u (t + MAX_BACKOFF_MS)`: that is `Respected`, read off the log of a client.
Both clients keep one instant `retryAt` that every answer writes, so another answer
can shorten or clear a backoff that is running (`backoff_cut`). Where none does,
every log is `Respected` (`backoff_respected`).

`GithubAppClient.send` is a machine of its own here: its requests and answers, and
`retryAt`.
-/

namespace Sso.GithubSsoAdapter

open Interact

variable {o : Options}

/-! ## Logs -/

/-- No request is started in a backoff that an earlier answer asked for. -/
def Respected (log : List Event) : Prop :=
  ∀ newer older τ, log = newer ++ .started τ :: older →
    ∀ t u, .limited t u ∈ older → min u (t + MAX_BACKOFF_MS) ≤ τ

/-- Every backoff that was asked for is over at `τ`. -/
def quiet (log : List Event) (τ : ℚ) : Bool :=
  log.all fun e =>
    match e with
    | .limited t u => decide (min u (t + MAX_BACKOFF_MS) ≤ τ)
    | .started _ => true

theorem quiet_iff {log : List Event} {τ : ℚ} :
    quiet log τ = true ↔ ∀ t u, .limited t u ∈ log → min u (t + MAX_BACKOFF_MS) ≤ τ := by
  simp only [quiet, List.all_eq_true]
  constructor
  · intro h t u hmem
    exact of_decide_eq_true (h _ hmem)
  · intro h e he
    cases e with
    | limited t u => exact decide_eq_true (h t u he)
    | started t => rfl

theorem quiet_mono {log : List Event} {τ τ' : ℚ} (hle : τ ≤ τ') (h : quiet log τ = true) :
    quiet log τ' = true := by
  rw [quiet_iff] at h ⊢
  intro t u hmem
  exact (h t u hmem).trans hle

@[simp] theorem quiet_started (log : List Event) (t τ : ℚ) :
    quiet (.started t :: log) τ = quiet log τ := rfl

theorem quiet_limited {log : List Event} {t u τ : ℚ} (h : quiet log τ = true)
    (hu : min u (t + MAX_BACKOFF_MS) ≤ τ) : quiet (.limited t u :: log) τ = true :=
  Bool.and_eq_true_iff.mpr ⟨decide_eq_true hu, h⟩

theorem respected_nil : Respected [] := by
  intro newer older τ h
  simp at h

theorem Respected.limited {log : List Event} (h : Respected log) (t u : ℚ) :
    Respected (.limited t u :: log) := by
  intro newer older τ heq
  cases newer with
  | nil => cases heq
  | cons e newer =>
      rw [List.cons_append, List.cons.injEq] at heq
      exact h newer older τ heq.2

/-- A request may be started when every backoff is over. -/
theorem Respected.started {log : List Event} {t : ℚ} (h : Respected log)
    (hquiet : quiet log t = true) : Respected (.started t :: log) := by
  intro newer older τ heq
  cases newer with
  | nil =>
      simp only [List.nil_append, List.cons.injEq, Event.started.injEq] at heq
      rw [← heq.1, ← heq.2]
      exact quiet_iff.mp hquiet
  | cons e newer =>
      rw [List.cons_append, List.cons.injEq] at heq
      exact h newer older τ heq.2

/-- What a client keeps: the log is respected, and `retryAt` covers the backoffs that run. -/
structure Covered (log : List Event) (retryAt now : ℚ) : Prop where
  respected : Respected log
  covers : quiet log (max retryAt now) = true

theorem Covered.start {retryAt now : ℚ} : Covered [] retryAt now := ⟨respected_nil, rfl⟩

theorem Covered.mono {log : List Event} {retryAt now retryAt' now' : ℚ}
    (h : Covered log retryAt now) (hr : retryAt ≤ max retryAt' now') (hn : now ≤ now') :
    Covered log retryAt' now' :=
  ⟨h.respected, quiet_mono (max_le hr (hn.trans (le_max_right _ _))) h.covers⟩

/-- A request after `retryAt`. -/
theorem Covered.begin {log : List Event} {retryAt now t now' : ℚ} (h : Covered log retryAt now)
    (hr : retryAt ≤ t) (hn : now ≤ t) (hn' : t ≤ now') :
    Covered (.started t :: log) retryAt now' := by
  have ht := quiet_mono (max_le hr hn) h.covers
  exact ⟨h.respected.started ht, quiet_mono (hn'.trans (le_max_right _ _)) ht⟩

/-- An answer that sets `retryAt`, when every backoff that runs is covered again. -/
theorem Covered.set {log : List Event} {retryAt now retryAt' now' t : ℚ}
    (h : Covered log retryAt now) (hn : t ≤ now')
    (hkept : (quiet log t || quiet log retryAt') = true) : Covered log retryAt' now' := by
  refine ⟨h.respected, ?_⟩
  rcases Bool.or_eq_true_iff.mp hkept with hq | hq
  · exact quiet_mono (hn.trans (le_max_right _ _)) hq
  · exact quiet_mono (le_max_left _ _) hq

/-- The instant of the answer itself is covered, since `retryAt` is no earlier. -/
theorem Covered.limit {log : List Event} {retryAt now t u : ℚ} (h : Covered log retryAt now)
    (hu : min u (t + MAX_BACKOFF_MS) ≤ retryAt) : Covered (.limited t u :: log) retryAt now :=
  ⟨h.respected.limited t u, quiet_limited h.covers (hu.trans (le_max_left _ _))⟩

theorem le_backoff {u now ttl : ℚ} :
    min u (now + MAX_BACKOFF_MS) ≤ min (max u (now + ttl)) (now + MAX_BACKOFF_MS) :=
  min_le_min_right _ (le_max_left _ _)

/-! ## The read adapter -/

namespace Core

/-- Where a failure at `now` sets `retryAt`. -/
def failedUntil (o : Options) (f : Failure) (now : ℚ) : ℚ :=
  match f with
  | .config _ => now + o.ttlMs
  | .transport _ until_ => backoff o until_ now
  | .unexpected _ => backoff o none now

/-- A new `retryAt` covers what runs at `now`. -/
def keeps (k : Core) (now retryAt : ℚ) : Bool := quiet k.log now || quiet k.log retryAt

theorem covered_noteLimit {k : Core} {until_ : Option ℚ} {now retryAt now' : ℚ}
    (h : Covered k.log retryAt now')
    (hu : ∀ u, until_ = some u → min u (now + MAX_BACKOFF_MS) ≤ retryAt) :
    Covered (k.noteLimit until_ now).log retryAt now' := by
  cases until_ with
  | none => exact h
  | some u => exact h.limit (hu u rfl)

theorem covered_backoff {k : Core} {until_ : Option ℚ} {t now now' : ℚ}
    (h : Covered k.log k.retryAt t) (hn : now ≤ now')
    (hkept : k.keeps now (backoff o until_ now) = true) :
    Covered (k.noteLimit until_ now).log (backoff o until_ now) now' := by
  refine covered_noteLimit (h.set hn hkept) ?_
  intro u hu
  rw [hu]
  exact le_backoff

theorem covered_refreshFailed {k : Core} {f : Failure} {r : Reads} {t now' : ℚ}
    (h : Covered k.log k.retryAt t) (hn : r.a ≤ now')
    (hkept : k.keeps r.a (failedUntil o f r.a) = true) :
    Covered (k.refreshFailed o f r).1.log (k.refreshFailed o f r).1.retryAt now' := by
  cases f with
  | config message => exact h.set hn hkept
  | transport reason until_ => exact covered_backoff h hn hkept
  | unexpected message => exact h.set hn hkept

/-- The answer to the head request leaves the running backoffs covered: a failure backs off no
shorter, and a success comes when none runs (it clears `retryAt`, unless the commit is the
invalid one). -/
def headKeeps (o : Options) (k : Core) (answer : Except Failure Head) (r : Reads) : Bool :=
  match answer with
  | .error f => k.keeps r.a (failedUntil o f r.a)
  | .ok head =>
      quiet k.log r.a ||
        ((k.invalid.any fun i => i.1 == head.commitSha) && quiet k.log (r.a + o.ttlMs))

/-- The answer with a file does: a file that parses writes no `retryAt`. -/
def fileKeeps {α : Type} (o : Options) (k : Core) (parse : String → Except String α)
    (answer : Except Failure (String × String)) (r : Reads) : Bool :=
  match answer with
  | .error f => k.keeps r.a (failedUntil o f r.a)
  | .ok (_, text) =>
      match parse text with
      | .error _ => k.keeps r.a (r.a + o.ttlMs)
      | .ok _ => true

theorem shown_log (k : Core) (commitSha : String) :
    (k.shown commitSha).log = k.log ∧ (k.shown commitSha).retryAt = k.retryAt := by
  unfold shown
  split_ifs <;> exact ⟨rfl, rfl⟩

theorem covered_headRead {k : Core} {answer : Except Failure Head} {r : Reads} {t : ℚ}
    (h : Covered k.log k.retryAt t) (hr : r.After t) (hkept : headKeeps o k answer r = true) :
    Covered (k.headRead o answer r).1.log (k.headRead o answer r).1.retryAt r.c := by
  have hac : r.a ≤ r.c := hr.2.1.trans hr.2.2
  cases answer with
  | error f => exact covered_refreshFailed h hac hkept
  | ok head =>
      obtain ⟨hlog, hretry⟩ := k.shown_log head.commitSha
      have hinv := (shown_found k head.commitSha).2.1
      have hshown : Covered (k.shown head.commitSha).log (k.shown head.commitSha).retryAt t := by
        rw [hlog, hretry]
        exact h
      simp only [headRead]
      cases hf : (k.shown head.commitSha).invalid.filter fun i => i.1 == head.commitSha with
      | some i =>
          refine covered_refreshFailed hshown hac ?_
          rw [keeps, hlog]
          simp only [headKeeps, Bool.or_eq_true, Bool.and_eq_true] at hkept ⊢
          exact hkept.imp id And.right
      | none =>
          -- a success at the head of a commit not known to be invalid
          have hquiet : quiet k.log r.a = true := by
            simp only [headKeeps, Bool.or_eq_true, Bool.and_eq_true] at hkept
            refine hkept.resolve_right ?_
            rintro ⟨hany, -⟩
            rw [hinv] at hf
            obtain ⟨i, hi, hc⟩ := (Option.any_eq_true _ _).mp hany
            rw [hi, Option.filter_some, if_pos hc] at hf
            cases hf
          have hclear : Covered k.log 0 r.c :=
            ⟨h.respected, quiet_mono (hac.trans (le_max_right _ _)) hquiet⟩
          simp only
          split
          · rw [← hlog] at hclear
            exact hclear
          · refine ⟨?_, ?_⟩
            · show Respected (.started r.a :: (k.shown head.commitSha).log)
              rw [hlog]
              exact h.respected.started hquiet
            · show quiet (.started r.a :: (k.shown head.commitSha).log) _ = true
              rw [hlog, quiet_started]
              exact hclear.covers

theorem covered_fileRead {k : Core} {head : Head} {answer : Except Failure (String × String)}
    {r : Reads} {t : ℚ} (h : Covered k.log k.retryAt t) (hr : r.After t)
    (hkept : fileKeeps o k (parseFile o head.commitSha) answer r = true) :
    Covered (k.fileRead o head answer r).1.log (k.fileRead o head answer r).1.retryAt r.c := by
  have hac : r.a ≤ r.c := hr.2.1.trans hr.2.2
  cases answer with
  | error f =>
      cases f with
      | config message => exact h.set hac hkept
      | transport reason until_ => exact covered_refreshFailed h hac hkept
      | unexpected message => exact covered_refreshFailed h hac hkept
  | ok file =>
      obtain ⟨blobSha, text⟩ := file
      simp only [fileRead, fileKeeps] at hkept ⊢
      cases hp : parseFile o head.commitSha text with
      | error message =>
          rw [hp] at hkept
          exact h.set hac hkept
      | ok config => exact h.mono (le_max_left _ _) hr.le

/-- The same for the groups, where an unexpected error writes no `retryAt` either. -/
def groupsKeeps (o : Options) (k : Core) (answer : Except Failure (String × String)) (r : Reads) :
    Bool :=
  match answer with
  | .error (.unexpected _) => true
  | _ => fileKeeps o k (fun text => parseGroupNames o text "") answer r

/-- Whether the groups parse does not depend on where they are from. -/
theorem parseGroupNames_isOk (text where_ where' : String) :
    (parseGroupNames o text where_).toOption = (parseGroupNames o text where').toOption := by
  unfold parseGroupNames
  split
  · rfl
  · split
    · split <;> rfl
    · rfl

theorem covered_groupsRead {k : Core} {p : Nat} {answer : Except Failure (String × String)}
    {r : Reads} {t : ℚ} (h : Covered k.log k.retryAt t) (hr : r.After t)
    (hkept : groupsKeeps o k answer r = true) :
    Covered (k.groupsRead o p answer r).1.log (k.groupsRead o p answer r).1.retryAt r.c := by
  have hac : r.a ≤ r.c := hr.2.1.trans hr.2.2
  have hsame : Covered k.log k.retryAt r.c := h.mono (le_max_left _ _) hr.le
  cases answer with
  | error f =>
      cases f with
      | config message => exact h.set hac hkept
      | transport reason until_ => exact covered_backoff h hac hkept
      | unexpected message => exact hsame
  | ok file =>
      obtain ⟨blobSha, text⟩ := file
      simp only [groupsRead]
      split
      · exact hsame
      · rename_i snap _
        simp only [groupsKeeps, fileKeeps] at hkept
        have hboth := parseGroupNames_isOk (o := o) text ""
          (GROUPS_FILE_PATH ++ " at " ++ snap.commitSha)
        cases hp : parseGroupNames o text (GROUPS_FILE_PATH ++ " at " ++ snap.commitSha) with
        | error message =>
            rw [hp] at hboth
            cases hp' : parseGroupNames o text "" with
            | error message' =>
                rw [hp'] at hkept
                exact h.set hac hkept
            | ok names =>
                rw [hp'] at hboth
                cases hboth
        | ok names => exact hsame

end Core

namespace State

/-- No answer of this step shortens or clears a backoff that is running. -/
def keepsBackoff (o : Options) (s : State) : Act → Bool
  | .deliverHead id r =>
      match s.stageOf id with
      | some (.headServed previous main answer) =>
          Core.headKeeps o s.core (s.core.headOf previous main answer) r
      | _ => true
  | .deliverFile id answer r =>
      match s.stageOf id with
      | some (.file head) =>
          Core.fileKeeps o s.core (Core.parseFile o head.commitSha) answer r
      | _ => true
  | .deliverGroups _ answer r => Core.groupsKeeps o s.core answer r
  | _ => true

theorem getSsoConfig_none {k : Core} {r : Reads} (h : k.getSsoConfig o r = none) :
    k.retryAt ≤ r.b := by
  unfold Core.getSsoConfig at h
  split_ifs at h with httl hlt
  · obtain ⟨snap, hcur, -⟩ := (Option.any_eq_true _ _).mp httl
    rw [hcur] at h
    cases h
  · exact not_lt.mp hlt

/-- A call that goes to the refresh comes after the backoff. -/
theorem atOnce_none {s : State} {call : Call} {r : Reads} (h : s.atOnce o call r = none) :
    s.core.retryAt ≤ r.b := by
  cases call with
  | getSsoConfig => exact getSsoConfig_none h
  | readBase fresh =>
      cases fresh with
      | false => exact getSsoConfig_none h
      | true =>
          simp only [atOnce, Core.getFresh] at h
          split_ifs at h with hlt
          exact not_lt.mp hlt

theorem covered_step {s s' : State} {a : Act}
    (h : Covered s.core.log s.core.retryAt s.now) (hok : keepsBackoff o s a = true)
    (hstep : s.step o a = some s') : Covered s'.core.log s'.core.retryAt s'.now := by
  cases step_cases hstep with
  | push => exact h
  | served => exact h
  | finished => exact h
  | answered call r response hr => exact h.mono (le_max_left _ _) hr.le
  | joined call r id hr => exact h.mono (le_max_left _ _) hr.le
  | begun call r hr honce =>
      exact h.begin ((atOnce_none honce).trans hr.2.2) hr.le le_rfl
  | headRead id previous main answer r hr hstage =>
      simp only [keepsBackoff, hstage] at hok
      exact Core.covered_headRead h hr hok
  | fileRead id head answer r hr hstage =>
      simp only [keepsBackoff, hstage] at hok
      exact Core.covered_fileRead h hr hok
  | resumed i info response r hr =>
      show Covered (s.core.baseRead o response r).1.log (s.core.baseRead o response r).1.retryAt r.c
      rcases Core.baseRead_core (o := o) s.core response r with hk | ⟨hk, hretry⟩
      · rw [hk]
        exact h.mono (le_max_left _ _) hr.le
      · rw [hk]
        exact h.begin (hretry.trans hr.2.1) (hr.1.trans hr.2.1) hr.2.2
  | groupsRead i info p response answer r hr => exact Core.covered_groupsRead h hr hok

end State

/-! ## The GitHub App client -/

def DEFAULT_BACKOFF_MS : ℚ := 60000

/-- `GithubAppClient.send` at work: the clock, the backoff, how many requests are under way, and
the events so far. -/
structure Sender where
  now : ℚ
  retryAt : ℚ
  waiting : Nat
  log : List Event

inductive SendAct where
  /-- A call of `send`; `expired` says that its overall deadline is over. -/
  | send (expired : Bool) (r : Reads)
  /-- An answer to one of the requests: rate-limited, until an instant if the headers have one,
  or anything else. -/
  | answer (limited : Option (Option ℚ)) (r : Reads)

namespace Sender

def start : Sender := ⟨0, 0, 0, []⟩

def step (s : Sender) : SendAct → Option Sender
  | .send expired r =>
      if r.After s.now then
        if r.a < s.retryAt || expired then some { s with now := r.c }
        else
          some { s with now := r.c, waiting := s.waiting + 1, log := .started r.b :: s.log }
      else none
  | .answer limited r =>
      if r.After s.now ∧ 0 < s.waiting then
        match limited with
        | none => some { s with now := r.c, waiting := s.waiting - 1 }
        | some until_ =>
            some
              { now := r.c
                retryAt := min (max (until_.getD 0) (r.a + DEFAULT_BACKOFF_MS))
                  (r.a + MAX_BACKOFF_MS)
                waiting := s.waiting - 1
                log :=
                  match until_ with
                  | some u => .limited r.a u :: s.log
                  | none => s.log }
      else none

/-- A rate-limited answer while a backoff runs asks for one that ends no earlier. -/
def keepsBackoff (s : Sender) : SendAct → Bool
  | .answer (some until_) r =>
      quiet s.log r.a || quiet s.log
        (min (max (until_.getD 0) (r.a + DEFAULT_BACKOFF_MS)) (r.a + MAX_BACKOFF_MS))
  | _ => true

theorem covered_step {s s' : Sender} {a : SendAct} (h : Covered s.log s.retryAt s.now)
    (hok : keepsBackoff s a = true) (hstep : s.step a = some s') :
    Covered s'.log s'.retryAt s'.now := by
  cases a with
  | send expired r =>
      simp only [step, Option.ite_none_right_eq_some] at hstep
      obtain ⟨hr, hstep⟩ := hstep
      split_ifs at hstep with hwait
      · cases hstep
        exact h.mono (le_max_left _ _) hr.le
      · cases hstep
        simp only [Bool.or_eq_true, decide_eq_true_eq, not_or, not_lt] at hwait
        exact h.begin (hwait.1.trans hr.2.1) (hr.1.trans hr.2.1) hr.2.2
  | answer limited r =>
      simp only [step, Option.ite_none_right_eq_some] at hstep
      obtain ⟨⟨hr, -⟩, hstep⟩ := hstep
      cases limited with
      | none =>
          cases hstep
          exact h.mono (le_max_left _ _) hr.le
      | some until_ =>
          cases hstep
          have hset := h.set (hr.2.1.trans hr.2.2) hok
          cases until_ with
          | none => exact hset
          | some u => exact hset.limit le_backoff

end Sender

abbrev sendMachine : Machine where
  State := Sender
  Act := SendAct
  step := Sender.step

/-! ## Both clients -/

/-- Some request was started in a backoff. -/
def early : List Event → Bool
  | [] => false
  | .started τ :: older => !quiet older τ || early older
  | .limited _ _ :: older => early older

theorem not_respected_of_early {log : List Event} (h : early log = true) : ¬ Respected log := by
  induction log with
  | nil => cases h
  | cons e log ih =>
      intro hres
      have hrest : Respected log := by
        intro newer older τ heq
        exact hres (e :: newer) older τ (by rw [heq, List.cons_append])
      cases e with
      | limited t u => exact ih h hrest
      | started τ =>
          rcases Bool.or_eq_true_iff.mp h with hq | he
          · have hall := quiet_iff.mpr (hres [] log τ rfl)
            rw [hall] at hq
            cases hq
          · exact ih he hrest

/-- A groups read is rate-limited until 1000000 while the head read of a refresh is under way;
the answer to that clears the backoff, and the next call asks GitHub at 50. -/
def clearsBackoff : List Act :=
  State.firstRead ++ [.finish 0, .call (.readBase false) (State.at_ 10), .resume 1 (State.at_ 10),
    .call (.readBase true) (State.at_ 20),
    .deliverGroups 1 (.error (.transport "rate-limited" (some 1000000))) (State.at_ 30),
    .serveHead 1 (.sha none), .deliverHead 1 (State.at_ 40), .finish 1,
    .call (.readBase true) (State.at_ 50)]

/-- Two requests of the App client are under way. The second answer is rate-limited without an
instant, and replaces the backoff of the first. -/
def shortensBackoff : List SendAct :=
  [.send false (State.at_ 0), .send false (State.at_ 0),
    .answer (some (some 3000000)) (State.at_ 10), .answer (some none) (State.at_ 20),
    .send false (State.at_ 70000)]

end Sso.GithubSsoAdapter
