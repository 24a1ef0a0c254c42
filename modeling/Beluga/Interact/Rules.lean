import Beluga.Interact.System

/-! # Rely–guarantee rules

`wp` is the weakest precondition of a program that runs as thread `t` of a
system. Before each of its calls the other threads and the environment may
have moved the shared state along `rely t`; the call itself must then be `ok`.
A thread also carries a *monitor*: a summary `m` of its own history, updated
by `upd` with every reply, which `ok` and the postcondition may inspect.

* `wp_bind`, `wp_seq`, `wp_try`, `wp_each`, `wp_mono`: the program rules;
* `wp_of_calls`, `wp_keeps`: programs whose calls leave the monitor, or an invariant, alone;
* `Logic.sound`: if every task satisfies its `wp` when it is started, and
  every `ok` call preserves the invariant and what the others rely on, then every
  reachable state satisfies the invariant and the `wp` of each thread's rest;
* `Logic.sound_hist`: what every `ok` call establishes holds of all calls made so far.
-/

namespace Interact

variable {S : Sig} {ε ε' α β γ : Type}

/-- What a thread may assume and must guarantee. -/
structure Logic (Y : System S ε α) (M : Type) where
  /-- The global invariant. -/
  inv : Y.Shared → Prop
  /-- What the rest of the system can do between two calls of thread `t`. -/
  rely (t : Nat) : Y.Shared → Y.Shared → Prop
  /-- What thread `t` with monitor `m` may call. -/
  ok (t : Nat) : M → Y.Shared → S.Op → Prop
  upd : M → (op : S.Op) → S.Rep op → M
  rely_refl : ∀ {t} g, rely t g g
  rely_trans : ∀ {t a b c}, rely t a b → rely t b c → rely t a c

namespace Logic

variable {Y : System S ε α} {M : Type}

/-- The monitor after a history. -/
def monitor (L : Logic Y M) (m : M) (hist : List (Event S)) : M :=
  hist.foldl (fun m e => L.upd m e.op e.rep) m

@[simp] theorem monitor_nil (L : Logic Y M) (m : M) : L.monitor m [] = m := rfl

@[simp] theorem monitor_append (L : Logic Y M) (m : M) (h₁ h₂ : List (Event S)) :
    L.monitor m (h₁ ++ h₂) = L.monitor (L.monitor m h₁) h₂ := by
  simp [monitor]

@[simp] theorem monitor_cons (L : Logic Y M) (m : M) (e : Event S) (h : List (Event S)) :
    L.monitor m (e :: h) = L.monitor (L.upd m e.op e.rep) h := rfl

/-! ## The weakest precondition -/

/-- A postcondition: what holds of the outcome, the monitor and the shared
state when the program ends. -/
abbrev Post (Y : System S ε α) (M ε' β : Type) := Except ε' β → M → Y.Shared → Prop

/-- Thread `t` may run `p` from monitor `m` and shared state `g`, and ends in `Q`. -/
def wp (L : Logic Y M) (t : Nat) : Prog S ε' β → Post Y M ε' β → M → Y.Shared → Prop
  | .ret b, Q, m, g => ∀ g', L.inv g' → L.rely t g g' → Q (.ok b) m g'
  | .raise e, Q, m, g => ∀ g', L.inv g' → L.rely t g g' → Q (.error e) m g'
  | .call op k, Q, m, g => ∀ g', L.inv g' → L.rely t g g' → L.ok t m g' op ∧
      ∀ ans r g'', Y.exec g' t op ans = some (r, g'') → L.inv g'' →
        wp L t (k r) Q (L.upd m op r) g''

variable {L : Logic Y M} {t : Nat} {m : M} {g g' : Y.Shared}

/-- The rest of the system may move first. -/
theorem wp_stable {p : Prog S ε' β} {Q : Post Y M ε' β} (h : wp L t p Q m g)
    (hg : L.rely t g g') : wp L t p Q m g' := by
  cases p <;> exact fun g'' hinv hr => h g'' hinv (L.rely_trans hg hr)

theorem wp_ret {b : β} {Q : Post Y M ε' β}
    (h : ∀ g', L.inv g' → L.rely t g g' → Q (.ok b) m g') : wp L t (.ret b) Q m g := h

theorem wp_raise {e : ε'} {Q : Post Y M ε' β}
    (h : ∀ g', L.inv g' → L.rely t g g' → Q (.error e) m g') : wp L t (.raise e) Q m g := h

theorem wp_mono {p : Prog S ε' β} {Q Q' : Post Y M ε' β} (h : wp L t p Q m g)
    (hQ : ∀ r m g, L.inv g → Q r m g → Q' r m g) : wp L t p Q' m g := by
  induction p generalizing m g with
  | ret b => exact fun g' hinv hr => hQ _ _ _ hinv (h g' hinv hr)
  | raise e => exact fun g' hinv hr => hQ _ _ _ hinv (h g' hinv hr)
  | call op k ih =>
      intro g' hinv hr
      obtain ⟨hok, hk⟩ := h g' hinv hr
      exact ⟨hok, fun ans r g'' hexec hinv' => ih r (hk ans r g'' hexec hinv')⟩

/-- How `p >>= f` ends, in terms of how `p` ends. -/
def bindPost (L : Logic Y M) (t : Nat) (f : β → Prog S ε' γ) (Q : Post Y M ε' γ) :
    Post Y M ε' β
  | .ok b, m, g => wp L t (f b) Q m g
  | .error e, m, g => Q (.error e) m g

theorem wp_bind {p : Prog S ε' β} {f : β → Prog S ε' γ} {Q : Post Y M ε' γ}
    (hinv : L.inv g) (h : wp L t p (bindPost L t f Q) m g) : wp L t (p >>= f) Q m g := by
  rw [Prog.bind_eq]
  induction p generalizing m g with
  | ret b => exact h g hinv (L.rely_refl g)
  | raise e => exact h
  | call op k ih =>
      intro g' hinv' hr
      obtain ⟨hok, hk⟩ := h g' hinv' hr
      exact ⟨hok, fun ans r g'' hexec hinv'' => ih r hinv'' (hk ans r g'' hexec hinv'')⟩

theorem wp_attempt {p : Prog S ε' β} {Q : Post Y M γ (Except ε' β)}
    (h : wp L t p (fun r m g => Q (.ok r) m g) m g) : wp L t p.attempt Q m g := by
  induction p generalizing m g with
  | ret b => exact h
  | raise e => exact h
  | call op k ih =>
      intro g' hinv' hr
      obtain ⟨hok, hk⟩ := h g' hinv' hr
      exact ⟨hok, fun ans r g'' hexec hinv'' => ih r (hk ans r g'' hexec hinv'')⟩

/-- `p` then `f`, through a postcondition of `p`. -/
theorem wp_seq {p : Prog S ε' β} {f : β → Prog S ε' γ} {Q : Post Y M ε' γ} {R : Post Y M ε' β}
    (hinv : L.inv g) (hp : wp L t p R m g)
    (hok : ∀ b m' g', L.inv g' → R (.ok b) m' g' → wp L t (f b) Q m' g')
    (herr : ∀ e m' g', L.inv g' → R (.error e) m' g' → Q (.error e) m' g') :
    wp L t (p >>= f) Q m g := by
  refine wp_bind hinv (wp_mono hp ?_)
  rintro (e | b) m' g' hinv' hR
  · exact herr e m' g' hinv' hR
  · exact hok b m' g' hinv' hR

/-- `try p`, then `f` on how it ended. -/
theorem wp_try {ε₁ : Type} {p : Prog S ε' β} {f : Except ε' β → Prog S ε₁ γ} {Q : Post Y M ε₁ γ}
    {R : Post Y M ε' β} (hinv : L.inv g) (hp : wp L t p R m g)
    (h : ∀ r m' g', L.inv g' → R r m' g' → wp L t (f r) Q m' g') :
    wp L t (p.attempt >>= f) Q m g :=
  wp_bind hinv (wp_attempt (wp_mono hp h))

/-- One call followed by `f`. -/
theorem wp_perform {op : S.Op} {f : S.Rep op → Prog S ε' β} {Q : Post Y M ε' β}
    (h : ∀ g', L.inv g' → L.rely t g g' → L.ok t m g' op ∧
      ∀ ans r g'', Y.exec g' t op ans = some (r, g'') → L.inv g'' →
        wp L t (f r) Q (L.upd m op r) g'') :
    wp L t (Prog.perform op >>= f) Q m g := h

theorem wp_ofExcept {r : Except ε' β} {Q : Post Y M ε' β}
    (h : ∀ g', L.inv g' → L.rely t g g' → Q r m g') : wp L t (.ofExcept r) Q m g := by
  cases r with
  | ok b => exact wp_ret h
  | error e => exact wp_raise h

/-- A loop keeps the loop invariant `J` if every iteration does, and ends
normally if every iteration does. -/
theorem wp_each {body : β → Prog S ε' Unit} (J : M → Y.Shared → Prop) (xs : List β)
    (hstable : ∀ m g g', L.rely t g g' → J m g → J m g') (hinv : L.inv g) (hJ : J m g)
    (hbody : ∀ x ∈ xs, ∀ m g, L.inv g → J m g →
      wp L t (body x) (fun r m g => r = .ok () ∧ J m g) m g) :
    wp L t (Prog.each body xs) (fun r m g => r = .ok () ∧ J m g) m g := by
  induction xs generalizing m g with
  | nil => exact fun g' _ hr => ⟨rfl, hstable m g g' hr hJ⟩
  | cons x xs ih =>
      refine wp_bind (f := fun _ => Prog.each body xs) hinv ?_
      refine wp_mono (hbody x (by simp) m g hinv hJ) ?_
      rintro r m' g' hinv' ⟨rfl, hJ'⟩
      exact ih hinv' hJ' fun y hy => hbody y (by simp [hy])

/-- Calls that are always allowed, leave the monitor alone and respect `rely`
need no reasoning: whatever such a program returns is a possible outcome. -/
theorem wp_of_calls {P : S.Op → Prop} {p : Prog S ε' β} {Q : Post Y M ε' β} (hp : p.Calls P)
    (hok : ∀ op g', P op → L.inv g' → L.rely t g g' → L.ok t m g' op)
    (hupd : ∀ op r, P op → L.upd m op r = m)
    (hexec : ∀ op ans r g' g'', P op → L.inv g' → Y.exec g' t op ans = some (r, g'') →
      L.rely t g' g'')
    (h : ∀ r g', L.inv g' → L.rely t g g' → Q r m g') : wp L t p Q m g := by
  induction p generalizing g with
  | ret b => exact wp_ret fun g' hinv hr => h _ g' hinv hr
  | raise e => exact wp_raise fun g' hinv hr => h _ g' hinv hr
  | call op k ih =>
      intro g' hinv hr
      refine ⟨hok op g' hp.1 hinv hr, fun ans r g'' hx hinv' => ?_⟩
      have hr' : L.rely t g g'' := L.rely_trans hr (hexec op ans r g' g'' hp.1 hinv hx)
      rw [hupd op r hp.1]
      exact ih r (hp.2 r) (fun op g₃ hP hi h₃ => hok op g₃ hP hi (L.rely_trans hr' h₃))
        fun r g₃ hi h₃ => h r g₃ hi (L.rely_trans hr' h₃)

/-- What every call of a program and every move of the others keeps holds at its end. -/
theorem wp_keeps {P : S.Op → Prop} {J : M → Y.Shared → Prop} {p : Prog S ε' β} (hp : p.Calls P)
    (hstable : ∀ m g g', L.inv g' → L.rely t g g' → J m g → J m g')
    (hok : ∀ m g op, P op → L.inv g → J m g → L.ok t m g op)
    (hexec : ∀ m g op ans r g', P op → L.inv g → J m g → Y.exec g t op ans = some (r, g') →
      L.inv g' → J (L.upd m op r) g')
    (hJ : J m g) : wp L t p (fun _ m g => J m g) m g := by
  induction p generalizing m g with
  | ret b => exact wp_ret fun g' hinv hr => hstable m g g' hinv hr hJ
  | raise e => exact wp_raise fun g' hinv hr => hstable m g g' hinv hr hJ
  | call op k ih =>
      intro g' hinv hr
      have hJ' := hstable m g g' hinv hr hJ
      refine ⟨hok m g' op hp.1 hinv hJ', fun ans r g'' hx hinv' => ?_⟩
      exact ih r (hp.2 r) (hexec m g' op ans r g'' hp.1 hinv hJ' hx hinv')

/-- The end of a program is related by `rely` to its beginning, if its own
calls respect `rely`. -/
theorem wp_and_rely {p : Prog S ε' β} {Q : Post Y M ε' β}
    (hexec : ∀ m g op ans r g', L.inv g → L.ok t m g op → Y.exec g t op ans = some (r, g') →
      L.rely t g g')
    (h : wp L t p Q m g) : wp L t p (fun r m g' => Q r m g' ∧ L.rely t g g') m g := by
  suffices h' : ∀ g₀, L.rely t g₀ g → wp L t p (fun r m g' => Q r m g' ∧ L.rely t g₀ g') m g from
    h' g (L.rely_refl g)
  induction p generalizing m g with
  | ret b => exact fun g₀ h₀ g' hinv hr => ⟨h g' hinv hr, L.rely_trans h₀ hr⟩
  | raise e => exact fun g₀ h₀ g' hinv hr => ⟨h g' hinv hr, L.rely_trans h₀ hr⟩
  | call op k ih =>
      intro g₀ h₀ g' hinv hr
      obtain ⟨hok, hk⟩ := h g' hinv hr
      refine ⟨hok, fun ans r g'' hx hinv' => ih r (hk ans r g'' hx hinv') g₀ ?_⟩
      exact L.rely_trans h₀ (L.rely_trans hr (hexec m g' op ans r g'' hinv hok hx))

/-- What every call preserves of the monitor holds at the end. -/
theorem wp_monitor {I : M → Prop} {p : Prog S ε' β} {Q : Post Y M ε' β}
    (hupd : ∀ m op r, I m → I (L.upd m op r)) (hI : I m) (h : wp L t p Q m g) :
    wp L t p (fun r m g => Q r m g ∧ I m) m g := by
  induction p generalizing m g with
  | ret b => exact fun g' hinv hr => ⟨h g' hinv hr, hI⟩
  | raise e => exact fun g' hinv hr => ⟨h g' hinv hr, hI⟩
  | call op k ih =>
      intro g' hinv hr
      obtain ⟨hok, hk⟩ := h g' hinv hr
      exact ⟨hok, fun ans r g'' hx hinv' => ih r (hupd m op r hI) (hk ans r g'' hx hinv')⟩

theorem wp_returns {P : β → Prop} {p : Prog S ε' β} {Q : Post Y M ε' β} (hp : p.Returns P)
    (h : wp L t p Q m g) : wp L t p (fun r m g => Q r m g ∧ ∀ b, r = .ok b → P b) m g := by
  induction p generalizing m g with
  | ret b =>
      refine fun g' hinv hr => ⟨h g' hinv hr, ?_⟩
      rintro _ ⟨⟩
      exact hp
  | raise e => exact fun g' hinv hr => ⟨h g' hinv hr, by simp⟩
  | call op k ih =>
      intro g' hinv hr
      obtain ⟨hok, hk⟩ := h g' hinv hr
      exact ⟨hok, fun ans r g'' hexec hinv' => ih r (hp r) (hk ans r g'' hexec hinv')⟩

/-! ## Soundness -/

variable {init : Y.Shared} {m₀ : Y.Task → M} {Q : Y.Task → Post Y M ε α}

/-- The invariant holds and every thread may run what is left of it. -/
def Holds (L : Logic Y M) (m₀ : Y.Task → M) (Q : Y.Task → Post Y M ε α) (s : Y.State) : Prop :=
  L.inv s.shared ∧ ∀ t th, s.threads[t]? = some th →
    wp L t th.rest (Q th.task) (L.monitor (m₀ th.task) th.hist) s.shared

/-- The pending call of a thread is allowed. -/
theorem Holds.ok {s : Y.State} {th : Y.Thread} {op : S.Op} {k : S.Rep op → Prog S ε α}
    (h : L.Holds m₀ Q s) (hth : s.threads[t]? = some th) (hrest : th.rest = .call op k) :
    L.ok t (L.monitor (m₀ th.task) th.hist) s.shared op := by
  have hwp := h.2 t th hth
  rw [hrest] at hwp
  exact (hwp s.shared h.1 (L.rely_refl _)).1

/-- A thread that has ended satisfies its postcondition. -/
theorem Holds.post {s : Y.State} {th : Y.Thread} {a : α} (h : L.Holds m₀ Q s)
    (hth : s.threads[t]? = some th) (hrest : th.rest = .ret a) :
    Q th.task (.ok a) (L.monitor (m₀ th.task) th.hist) s.shared := by
  have hwp := h.2 t th hth
  rw [hrest] at hwp
  exact hwp s.shared h.1 (L.rely_refl _)

/-- A thread that has thrown satisfies its postcondition. -/
theorem Holds.post_error {s : Y.State} {th : Y.Thread} {e : ε} (h : L.Holds m₀ Q s)
    (hth : s.threads[t]? = some th) (hrest : th.rest = .raise e) :
    Q th.task (.error e) (L.monitor (m₀ th.task) th.hist) s.shared := by
  have hwp := h.2 t th hth
  rw [hrest] at hwp
  exact hwp s.shared h.1 (L.rely_refl _)

theorem Holds.step {s s' : Y.State} {a : Y.Act}
    (h : L.Holds m₀ Q s)
    (hspawn : ∀ k, wp L s.threads.length (Y.prog k) (Q k) (m₀ k) s.shared)
    (hexec : ∀ t ans th op k r g', s.threads[t]? = some th → th.rest = .call op k →
      L.ok t (L.monitor (m₀ th.task) th.hist) s.shared op →
      Y.exec s.shared t op ans = some (r, g') →
      L.inv g' ∧ ∀ t', t' ≠ t → L.rely t' s.shared g')
    (henv : ∀ e g', Y.env s.shared e = some g' → L.inv g' ∧ ∀ t, L.rely t s.shared g')
    (hstep : System.step s a = some s') : L.Holds m₀ Q s' := by
  obtain ⟨k, -, rfl⟩ | ⟨t, ans, th, op, k, r, g', -, hth, hrest, hx, rfl⟩ |
    ⟨e, g', -, hx, rfl⟩ := System.step_cases hstep
  · refine ⟨h.1, fun t th hth => ?_⟩
    rcases System.getElem?_append_spawn hth with hold | ⟨rfl, rfl⟩
    · exact h.2 t th hold
    · exact hspawn k
  · obtain ⟨hinv', hrely⟩ := hexec t ans th op k r g' hth hrest (h.ok hth hrest) hx
    refine ⟨hinv', fun t' th' hth' => ?_⟩
    rcases System.getElem?_set_advance hth hth' with ⟨rfl, rfl⟩ | ⟨hne, hold⟩
    · -- the thread that called: its `wp` after the reply
      have hwp := h.2 t' th hth
      rw [hrest] at hwp
      have hk := (hwp s.shared h.1 (L.rely_refl _)).2 ans r g' hx hinv'
      simpa [System.Thread.advance] using hk
    · -- any other thread: its `wp` is stable under the call
      exact wp_stable (h.2 t' th' hold) (hrely t' hne)
  · obtain ⟨hinv', hrely⟩ := henv e g' hx
    exact ⟨hinv', fun t th hth => wp_stable (h.2 t th hth) (hrely t)⟩

/-- Soundness of the logic on every reachable state. -/
theorem sound (hinit : L.inv init)
    (hspawn : ∀ s k, Y.Reachable init s → L.inv s.shared →
      wp L s.threads.length (Y.prog k) (Q k) (m₀ k) s.shared)
    (hexec : ∀ s t ans th op k r g', Y.Reachable init s → L.inv s.shared →
      s.threads[t]? = some th → th.rest = .call op k →
      L.ok t (L.monitor (m₀ th.task) th.hist) s.shared op →
      Y.exec s.shared t op ans = some (r, g') →
      L.inv g' ∧ ∀ t', t' ≠ t → L.rely t' s.shared g')
    (henv : ∀ s e g', Y.Reachable init s → L.inv s.shared → Y.env s.shared e = some g' →
      L.inv g' ∧ ∀ t, L.rely t s.shared g')
    {s : Y.State} (h : Y.Reachable init s) : L.Holds m₀ Q s := by
  refine System.Reachable.induct (I := L.Holds m₀ Q) ⟨hinit, ?_⟩ ?_ h
  · intro t th hth
    simp [System.init] at hth
  · intro s s' a hreach ih hstep
    exact Holds.step ih (fun k => hspawn s k hreach ih.1)
      (fun t ans th op k r g' => hexec s t ans th op k r g' hreach ih.1)
      (fun e g' => henv s e g' hreach ih.1) hstep

/-- What an `ok` call establishes of the monitor, the call and the state after it,
and every step keeps, holds of every call in every history. -/
theorem sound_hist {P : M → S.Op → Y.Shared → Prop}
    (hP : ∀ t m g op ans r g', L.inv g → L.ok t m g op → Y.exec g t op ans = some (r, g') →
      P m op g')
    (hkeep : ∀ s s' a m op, Y.Reachable init s → System.step s a = some s' →
      P m op s.shared → P m op s'.shared)
    (hholds : ∀ s, Y.Reachable init s → L.Holds m₀ Q s) {s : Y.State}
    (h : Y.Reachable init s) {th : Y.Thread} (hth : th ∈ s.threads) {h₁ h₂ : List (Event S)}
    {e : Event S} (hhist : th.hist = h₁ ++ e :: h₂) :
    P (L.monitor (m₀ th.task) h₁) e.op s.shared := by
  have hall : ∀ (t : Nat) (th : Y.Thread), s.threads[t]? = some th →
      ∀ h₁ e h₂, th.hist = h₁ ++ e :: h₂ → P (L.monitor (m₀ th.task) h₁) e.op s.shared := by
    refine System.Reachable.induct (I := fun s => ∀ (t : Nat) (th : Y.Thread),
      s.threads[t]? = some th → ∀ h₁ e h₂, th.hist = h₁ ++ e :: h₂ →
        P (L.monitor (m₀ th.task) h₁) e.op s.shared) ?_ ?_ h
    · intro t th hth
      simp [System.init] at hth
    · intro s s' a hreach ih hstep
      have hkeep := fun m op => hkeep s s' a m op hreach hstep
      obtain ⟨k, -, rfl⟩ | ⟨t, ans, th, op, k, r, g', -, hth, hrest, hx, rfl⟩ |
        ⟨e, g', -, hx, rfl⟩ := System.step_cases hstep
      · intro t th hth h₁ e h₂ heq
        rcases System.getElem?_append_spawn hth with hold | ⟨rfl, rfl⟩
        · exact ih t th hold h₁ e h₂ heq
        · simp at heq
      · intro t' th' hth' h₁ e h₂ heq
        rcases System.getElem?_set_advance hth hth' with ⟨rfl, rfl⟩ | ⟨-, hold⟩
        · -- the event is an old one of this thread, or the call just made
          simp only [System.Thread.advance] at heq ⊢
          rcases List.eq_nil_or_concat h₂ with rfl | ⟨h₂', e', rfl⟩
          · obtain ⟨rfl, heq'⟩ := List.append_inj' heq rfl
            obtain rfl := (List.cons.inj heq').1
            have hhold := hholds s hreach
            exact hP _ _ _ _ _ _ _ hhold.1 (hhold.ok hth hrest) hx
          · have hsplit : th.hist = h₁ ++ e :: h₂' := by
              have hcat : th.hist ++ [⟨op, r⟩] = (h₁ ++ e :: h₂') ++ [e'] := by simpa using heq
              exact (List.append_inj' hcat rfl).1
            exact hkeep _ _ (ih t' th hth h₁ e h₂' hsplit)
        · exact hkeep _ _ (ih t' th' hold h₁ e h₂ heq)
      · exact fun t th hth h₁ e' h₂ heq => hkeep _ _ (ih t th hth h₁ e' h₂ heq)
  obtain ⟨t, ht⟩ := List.mem_iff_getElem?.mp hth
  exact hall t th ht h₁ e h₂ hhist

end Logic

end Interact
