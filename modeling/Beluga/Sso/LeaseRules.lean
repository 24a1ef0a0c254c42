import Beluga.Interact.Rules
import Beluga.Sso.Lease

/-! # What happens to the lease's connection

`Ready` is what every path of `withReconcilerLease` brings its connection to
before it is given back: the session holds the lock only if the call knows that
something failed, or the lock query failed after the server had granted it.

* `wp_withReconcilerLease`: every path, whatever fails on it;
* `lease_exact`: one give-back for each connection, and when a connection that is
  given back for reuse still holds the lock;
* `lease_leaks`: such a connection, and another replica that is shut out by it.
-/

namespace Sso

open Interact Interact.Logic

/-! ## Interference -/

/-- What others can do to a session that a call has. -/
structure Session.Drift (x x' : Session) : Prop where
  place : x'.place = x.place
  failed : (x'.unlockFailed = x.unlockFailed ∧ x'.heard = x.heard) ∨
    (x'.unlockFailed = true ∧ x'.heard = true)
  locks : (x'.locks = x.locks ∧ x'.lost = x.lost) ∨ (x'.locks = 0 ∧ x'.lost = false)

theorem Session.Drift.refl (x : Session) : x.Drift x := ⟨rfl, .inl ⟨rfl, rfl⟩, .inl ⟨rfl, rfl⟩⟩

theorem Session.Drift.trans {x y z : Session} (h : x.Drift y) (h' : y.Drift z) : x.Drift z where
  place := h'.place.trans h.place
  failed := by
    rcases h'.failed with ⟨hfailed', hheard'⟩ | hboth
    · rcases h.failed with ⟨hfailed, hheard⟩ | ⟨hfailed, hheard⟩
      · exact .inl ⟨hfailed'.trans hfailed, hheard'.trans hheard⟩
      · exact .inr ⟨hfailed'.trans hfailed, hheard'.trans hheard⟩
    · exact .inr hboth
  locks := by
    rcases h'.locks with ⟨hlocks', hlost'⟩ | hzero
    · rcases h.locks with ⟨hlocks, hlost⟩ | ⟨hlocks, hlost⟩
      · exact .inl ⟨hlocks'.trans hlocks, hlost'.trans hlost⟩
      · exact .inr ⟨hlocks'.trans hlocks, hlost'.trans hlost⟩
    · exact .inr hzero

/-- What a call relies on: its own session only drifts. -/
structure LeaseRely (t : Nat) (g g' : Sessions) : Prop where
  leaks : g.leaks ≤ g'.leaks
  mine : ∀ (c : Nat) (x : Session), g.all[c]? = some x → x.place = .lent t →
    ∃ x', g'.all[c]? = some x' ∧ x.Drift x'

/-- Thread `t` has the connection `c`, in a session that satisfies `P`. -/
def Lent (t : Nat) (g : Sessions) (c : Nat) (P : Nat → Session → Prop) : Prop :=
  ∃ x, g.all[c]? = some x ∧ x.place = .lent t ∧ P g.leaks x

/-- Just checked out, or refused by the server. -/
structure Clear (leaks : Nat) (x : Session) : Prop where
  free : leaks = 0 → x.locks = 0
  known : x.lost = false
  noted : x.unlockFailed = x.heard

/-- The server granted the lock and said so. -/
structure Granted (leaks : Nat) (x : Session) : Prop where
  once : leaks = 0 → x.locks ≤ 1
  known : x.lost = false

/-- Ready to be given back. -/
structure Ready (leaks : Nat) (x : Session) : Prop where
  free : leaks = 0 → x.locks = 0 ∨ x.unlockFailed = true ∨ x.lost = true
  holds : x.lost = true → 0 < x.locks
  noted : x.lost = true → x.unlockFailed = x.heard

/-- A condition that drifting does not break. -/
def Stable (P : Nat → Session → Prop) : Prop :=
  ∀ n n' x x', n ≤ n' → Session.Drift x x' → P n x → P n' x'

theorem Session.Drift.noted {x x' : Session} (h : x.Drift x') (hx : x.unlockFailed = x.heard) :
    x'.unlockFailed = x'.heard := by
  rcases h.failed with ⟨hfailed, hheard⟩ | ⟨hfailed, hheard⟩
  · rw [hfailed, hheard, hx]
  · rw [hfailed, hheard]

theorem Session.Drift.known {x x' : Session} (h : x.Drift x') (hx : x.lost = false) :
    x'.lost = false := by
  rcases h.locks with ⟨-, hlost⟩ | ⟨-, hlost⟩
  · exact hlost.trans hx
  · exact hlost

theorem stable_known : Stable fun _ x => x.lost = false :=
  fun _ _ _ _ _ hdrift h => hdrift.known h

theorem stable_clear : Stable Clear := by
  intro n n' x x' hn hdrift h
  refine ⟨fun hzero => ?_, hdrift.known h.known, hdrift.noted h.noted⟩
  rcases hdrift.locks with ⟨hlocks, -⟩ | ⟨hlocks, -⟩
  · rw [hlocks]
    exact h.free (by omega)
  · exact hlocks

theorem stable_granted : Stable Granted := by
  intro n n' x x' hn hdrift h
  refine ⟨fun hzero => ?_, hdrift.known h.known⟩
  rcases hdrift.locks with ⟨hlocks, -⟩ | ⟨hlocks, -⟩
  · rw [hlocks]
    exact h.once (by omega)
  · omega

theorem stable_ready : Stable Ready := by
  intro n n' x x' hn hdrift h
  rcases hdrift.locks with ⟨hlocks, hlost⟩ | ⟨hlocks, hlost⟩
  · refine ⟨fun hzero => ?_, ?_, ?_⟩
    · rcases h.free (by omega) with hfree | hfailed | hknown
      · exact .inl (hlocks.trans hfree)
      · right; left
        rcases hdrift.failed with hsame | hboth
        · exact hsame.1.trans hfailed
        · exact hboth.1
      · exact .inr (.inr (hlost.trans hknown))
    · rw [hlost, hlocks]
      exact h.holds
    · rw [hlost]
      exact fun hx => hdrift.noted (h.noted hx)
  · -- a session that has ended holds nothing
    refine ⟨fun _ => .inl hlocks, ?_, ?_⟩
    · rw [hlost]
      exact fun h => by cases h
    · rw [hlost]
      exact fun h => by cases h

theorem Lent.rely {t : Nat} {g g' : Sessions} {c : Nat} {P : Nat → Session → Prop}
    (h : Lent t g c P) (hP : Stable P) (hg : LeaseRely t g g') : Lent t g' c P := by
  rcases h with ⟨x, hx, hplace, hp⟩
  rcases hg.mine c x hx hplace with ⟨x', hx', hdrift⟩
  exact ⟨x', hx', hdrift.place.trans hplace, hP _ _ x x' hg.leaks hdrift hp⟩

theorem Lent.mono {t : Nat} {g : Sessions} {c : Nat} {P P' : Nat → Session → Prop}
    (h : Lent t g c P) (hP : ∀ n x, P n x → P' n x) : Lent t g c P' := by
  rcases h with ⟨x, hx, hplace, hp⟩
  exact ⟨x, hx, hplace, hP _ x hp⟩

/-! ## The rules -/

/-- No idle session holds the lock, unless one was given back that way. -/
def NoneIdle (g : Sessions) : Prop :=
  g.leaks = 0 → ∀ x ∈ g.all, x.place = .idle → x.locks = 0

def leaseLogic : Logic leases Borrowed where
  inv := NoneIdle
  rely := LeaseRely
  ok t _ g op := match op with
    | .giveBack c => Lent t g c Ready
    | .lock c | .unlock c | .noteFailed c => Lent t g c fun _ _ => True
    | _ => True
  upd := Borrowed.upd
  rely_refl g := ⟨Nat.le_refl _, fun _ x hx _ => ⟨x, hx, .refl x⟩⟩
  rely_trans h h' := by
    refine ⟨Nat.le_trans h.leaks h'.leaks, fun c x hx hplace => ?_⟩
    rcases h.mine c x hx hplace with ⟨x', hx', hdrift⟩
    rcases h'.mine c x' hx' (hdrift.place.trans hplace) with ⟨x'', hx'', hdrift'⟩
    exact ⟨x'', hx'', hdrift.trans hdrift'⟩

variable {g g' : Sessions} {t : Nat} {m : Borrowed} {c : Nat} {x : Session}

theorem getElem?_change (g : Sessions) (c : Nat) (f : Session → Session) (i : Nat) :
    (g.change c f).all[i]? = g.all[i]?.map fun x => if c = i then f x else x := by
  simp [Sessions.change, List.getElem?_modify]

/-- A change of another's session, or of none's, is not noticed. -/
theorem rely_change (hx : g.all[c]? = some x) (hplace : x.place ≠ .lent t)
    (f : Session → Session) {leaks : Nat} (hleaks : g.leaks ≤ leaks) :
    LeaseRely t g { g.change c f with leaks := leaks } := by
  refine ⟨hleaks, fun i y hy hmine => ⟨y, ?_, .refl y⟩⟩
  have hne : c ≠ i := by
    intro heq
    subst heq
    rw [hx] at hy
    cases hy
    exact hplace hmine
  show (g.change c f).all[i]? = some y
  rw [getElem?_change, hy]
  simp [hne]

theorem mem_change {f : Session → Session} {y : Session} (h : y ∈ (g.change c f).all) :
    y ∈ g.all ∨ ∃ x, g.all[c]? = some x ∧ y = f x := by
  rcases List.getElem?_of_mem h with ⟨i, hi⟩
  rw [getElem?_change] at hi
  rcases Option.map_eq_some_iff.mp hi with ⟨x, hx, rfl⟩
  by_cases hc : c = i
  · subst hc
    exact .inr ⟨x, hx, by simp⟩
  · rw [if_neg hc]
    exact .inl (List.mem_of_getElem? hx)

theorem noneIdle_change (h : NoneIdle g) {f : Session → Session} {leaks : Nat}
    (hleaks : leaks = 0 → g.leaks = 0)
    (hf : leaks = 0 → ∀ x, g.all[c]? = some x → (f x).place = .idle → (f x).locks = 0) :
    NoneIdle { g.change c f with leaks := leaks } := by
  intro hzero y hy hidle
  rcases mem_change hy with hold | ⟨x, hx, rfl⟩
  · exact h (hleaks hzero) y hold hidle
  · exact hf hzero x hx hidle

/-- The session of a call after a change by that call. -/
theorem Lent.change {P P' : Nat → Session → Prop} {f : Session → Session} (h : Lent t g c P)
    (hplace : ∀ x, (f x).place = x.place) (hP : ∀ n x, P n x → P' n (f x)) :
    Lent t (g.change c f) c P' := by
  rcases h with ⟨x, hx, hmine, hp⟩
  refine ⟨f x, ?_, (hplace x).trans hmine, hP _ x hp⟩
  rw [getElem?_change, hx]
  simp

/-! ## What one call does -/

theorem serve_connect {a : LeaseAnswer} {r : Except String Nat}
    (h : leaseServe g t .connect a = some (r, g')) :
    (∃ c x, g.all[c]? = some x ∧ x.place = .idle ∧ r = .ok c ∧
      g' = g.change c fun x => x.checkedOut t) ∨
    (r = .ok g.all.length ∧ g' = { g with all := g.all ++ [{ place := .lent t }] }) ∨
    ((∃ e, r = .error e) ∧ g' = g) := by
  cases a with
  | take c =>
      left
      simp only [leaseServe] at h
      split at h
      · next x hx =>
          split_ifs at h with hidle
          cases h
          exact ⟨c, x, hx, hidle, rfl, rfl⟩
      · cases h
  | fresh =>
      cases h
      exact .inr (.inl ⟨rfl, rfl⟩)
  | fails =>
      cases h
      exact .inr (.inr ⟨⟨_, rfl⟩, rfl⟩)
  | _ => cases h

theorem serve_lock {a : LeaseAnswer} {r : Except String Bool}
    (h : leaseServe g t (.lock c) a = some (r, g')) :
    (r = .ok true ∧ g' = g.change c Session.locked) ∨ (r = .ok false ∧ g' = g) ∨
    ((∃ e, r = .error e) ∧ (g' = g ∨ g' = g.change c Session.lockedUnseen)) := by
  cases a with
  | served =>
      simp only [leaseServe] at h
      split at h
      · split_ifs at h
        · cases h
          exact .inl ⟨rfl, rfl⟩
        · cases h
          exact .inr (.inl ⟨rfl, rfl⟩)
      · cases h
  | failed =>
      cases h
      exact .inr (.inr ⟨⟨_, rfl⟩, .inl rfl⟩)
  | lost =>
      simp only [leaseServe] at h
      split at h
      · split_ifs at h
        cases h
        exact .inr (.inr ⟨⟨_, rfl⟩, .inr rfl⟩)
      · cases h
  | _ => cases h

theorem serve_unlock {a : LeaseAnswer} {r : Except String Unit}
    (h : leaseServe g t (.unlock c) a = some (r, g')) :
    (r = .ok () ∧ g' = g.change c Session.unlocked) ∨
    ((∃ e, r = .error e) ∧ (g' = g ∨ g' = g.change c Session.unlocked)) := by
  cases a with
  | served =>
      simp only [leaseServe] at h
      split at h
      · split_ifs at h
        cases h
        exact .inl ⟨rfl, rfl⟩
      · cases h
  | failed =>
      cases h
      exact .inr ⟨⟨_, rfl⟩, .inl rfl⟩
  | lost =>
      simp only [leaseServe] at h
      split at h
      · split_ifs at h
        cases h
        exact .inr ⟨⟨_, rfl⟩, .inr rfl⟩
      · cases h
  | _ => cases h

theorem serve_giveBack {a : LeaseAnswer} {r : Unit}
    (h : leaseServe g t (.giveBack c) a = some (r, g')) : ∃ x, g.all[c]? = some x ∧
      g' = { g.change c fun x => if x.unlockFailed then x.destroyed else x.returned with
        leaks := g.leaks + if x.unnoticed then 1 else 0 } := by
  cases a with
  | done =>
      simp only [leaseServe] at h
      split at h
      · next x hx =>
          cases h
          exact ⟨x, hx, rfl⟩
      · cases h
  | _ => cases h

/-- A change of a thread's own session that leaves it checked out. -/
theorem keeps_change {P : Nat → Session → Prop} {f : Session → Session} (hinv : NoneIdle g)
    (h : Lent t g c P) (hplace : ∀ x, (f x).place = x.place) :
    NoneIdle (g.change c f) ∧ ∀ t', t' ≠ t → LeaseRely t' g (g.change c f) := by
  rcases h with ⟨x, hx, hmine, -⟩
  refine ⟨noneIdle_change hinv (fun h => h) ?_, fun t' ht' => rely_change hx ?_ f (Nat.le_refl _)⟩
  · intro _ x' hx' hidle
    rw [hx] at hx'
    cases hx'
    rw [hplace, hmine] at hidle
    cases hidle
  · rw [hmine]
    intro heq
    cases heq
    exact ht' rfl

/-- What is given back for reuse does not hold the lock, if that was noticed. -/
theorem returned_free (h : Ready 0 x) (hnoticed : x.unnoticed = false)
    (hidle : (if x.unlockFailed then x.destroyed else x.returned).place = .idle) :
    (if x.unlockFailed then x.destroyed else x.returned).locks = 0 := by
  cases hfailed : x.unlockFailed with
  | true =>
      rw [hfailed, if_pos rfl] at hidle
      cases hidle
  | false =>
      rw [if_neg Bool.false_ne_true]
      show x.locks = 0
      rcases h.free rfl with hfree | hfailed' | hlost
      · exact hfree
      · rw [hfailed] at hfailed'
        cases hfailed'
      · have hheard := h.noted hlost
        rw [hfailed] at hheard
        simp [Session.unnoticed, hlost, ← hheard] at hnoticed

/-- What a call does is not noticed by the others, and leaves no idle session with the lock. -/
theorem leaseServe_keeps {op : LeaseOp} {a : LeaseAnswer} {r : LeaseOp.Rep op}
    (hinv : NoneIdle g) (hok : leaseLogic.ok t m g op) (hx : leaseServe g t op a = some (r, g')) :
    NoneIdle g' ∧ ∀ t', t' ≠ t → LeaseRely t' g g' := by
  have hsame : NoneIdle g ∧ ∀ t', t' ≠ t → LeaseRely t' g g :=
    ⟨hinv, fun t' _ => leaseLogic.rely_refl g⟩
  -- what a call may do to its own session while it has it
  have hmine : ∀ (c : Nat) (f : Session → Session), Lent t g c (fun _ _ => True) →
      (∀ x, (f x).place = x.place) →
      NoneIdle (g.change c f) ∧ ∀ t', t' ≠ t → LeaseRely t' g (g.change c f) :=
    fun c f h hplace => keeps_change hinv h hplace
  cases op with
  | connect =>
      rcases serve_connect hx with ⟨c, x, hc, hidle, -, rfl⟩ | ⟨-, rfl⟩ | ⟨-, rfl⟩
      · refine ⟨noneIdle_change hinv (fun h => h) ?_, fun t' _ =>
          rely_change hc (by rw [hidle]; exact fun h => by cases h) _ (Nat.le_refl _)⟩
        intro _ x' _ hidle'
        cases hidle'
      · refine ⟨?_, fun t' ht' => ⟨Nat.le_refl _, fun c x hc _ => ⟨x, ?_, .refl x⟩⟩⟩
        · intro hzero x hmem hidle
          rcases List.mem_append.mp hmem with hold | hnew
          · exact hinv hzero x hold hidle
          · rw [List.mem_singleton] at hnew
            subst hnew
            cases hidle
        · have hlt := (List.getElem?_eq_some_iff.mp hc).1
          show (g.all ++ [_])[c]? = some x
          rw [List.getElem?_append_left hlt]
          exact hc
      · exact hsame
  | lock c =>
      rcases serve_lock hx with ⟨-, rfl⟩ | ⟨-, rfl⟩ | ⟨-, rfl | rfl⟩
      · exact hmine c _ hok fun _ => rfl
      · exact hsame
      · exact hsame
      · exact hmine c _ hok fun _ => rfl
  | body =>
      cases a with
      | ran r =>
          cases hx
          exact hsame
      | _ => cases hx
  | unlock c =>
      rcases serve_unlock hx with ⟨-, rfl⟩ | ⟨-, rfl | rfl⟩
      · exact hmine c _ hok fun _ => rfl
      · exact hsame
      · exact hmine c _ hok fun _ => rfl
  | noteFailed c =>
      cases a with
      | done =>
          cases hx
          exact hmine c _ hok fun _ => rfl
      | _ => cases hx
  | giveBack c =>
      rcases hok with ⟨x, hc, hmine, hready⟩
      have hothers : ∀ t', t' ≠ t → x.place ≠ .lent t' := by
        intro t' ht' heq
        rw [hmine] at heq
        cases heq
        exact ht' rfl
      rcases serve_giveBack hx with ⟨x', hc', rfl⟩
      rw [hc] at hc'
      cases hc'
      refine ⟨noneIdle_change hinv (fun hzero => by omega) ?_,
        fun t' ht' => rely_change hc (hothers t' ht') _ (by omega)⟩
      intro hzero y hy hidle
      rw [hc] at hy
      cases hy
      have hnoticed : x.unnoticed = false := by
        cases hx : x.unnoticed with
        | false => rfl
        | true => simp [hx] at hzero
      have hnone : g.leaks = 0 := by omega
      exact returned_free (hnone ▸ hready) hnoticed hidle

theorem leaseEnv_keeps {e : LeaseEnv} (hinv : NoneIdle g) (hx : leaseEnv g e = some g') :
    NoneIdle g' ∧ ∀ t, LeaseRely t g g' := by
  have hchange : ∀ (c : Nat) (f : Session → Session), (∀ x : Session, x.Drift (f x)) →
      NoneIdle (g.change c f) ∧ ∀ t, LeaseRely t g (g.change c f) := by
    intro c f hdrift
    refine ⟨noneIdle_change hinv (fun h => h) ?_, fun t => ⟨Nat.le_refl _, ?_⟩⟩
    · intro hzero x hc hidle
      rw [(hdrift x).place] at hidle
      rcases (hdrift x).locks with hsame | hnone
      · rw [hsame.1]
        exact hinv hzero x (List.mem_of_getElem? hc) hidle
      · exact hnone.1
    · intro i x hi _
      refine ⟨if c = i then f x else x, by rw [getElem?_change, hi]; rfl, ?_⟩
      split_ifs
      · exact hdrift x
      · exact .refl x
  cases e with
  | error c =>
      cases hx
      refine hchange c Session.errors fun x => ?_
      unfold Session.errors
      cases hplace : x.place with
      | lent t => exact ⟨rfl, .inr ⟨rfl, rfl⟩, .inl ⟨rfl, rfl⟩⟩
      | idle => exact .refl x
      | destroyed => exact .refl x
  | dies c =>
      cases hx
      exact hchange c Session.dies fun x => ⟨rfl, .inl ⟨rfl, rfl⟩, .inr ⟨rfl, rfl⟩⟩

/-! ## The function -/

/-- How a call ends: what it was given it gave back, once. -/
def GaveBack {β : Type} : Post leases Borrowed JsError β :=
  fun _ m _ => m.given = m.taken ∧ m.taken.length ≤ 1

theorem wp_giveBack {Q : Post leases Borrowed JsError Unit} (h : Lent t g c Ready)
    (hQ : ∀ g', Q (.ok ()) { m with given := m.given ++ [c] } g') :
    leaseLogic.wp t (Prog.perform (S := leaseSig) (LeaseOp.giveBack c)) Q m g := by
  intro g₁ _ hg₁
  exact ⟨h.rely stable_ready hg₁, fun a r g₂ _ _ => wp_ret fun g₃ _ _ => hQ g₃⟩

/-- The `finally` of a call that does not have the lock. -/
theorem wp_leave_unheld {Q : Post leases Borrowed JsError Unit} (h : Lent t g c Ready)
    (hQ : ∀ g', Q (.ok ()) { m with given := m.given ++ [c] } g') :
    leaseLogic.wp t (leaveLease c false) Q m g := wp_giveBack h hQ

theorem Granted.unlocked {n : Nat} (h : Granted n x) : Ready n x.unlocked where
  free hzero := by
    left
    have hone := h.once hzero
    show x.locks - 1 = 0
    omega
  holds hlost := by
    rw [show x.unlocked.lost = x.lost from rfl, h.known] at hlost
    cases hlost
  noted hlost := by
    rw [show x.unlocked.lost = x.lost from rfl, h.known] at hlost
    cases hlost

/-- The variable makes a session ready, whatever it holds. -/
theorem ready_noted {n : Nat} (h : x.lost = false) : Ready n x.noted where
  free _ := .inr (.inl rfl)
  holds hlost := by
    rw [show x.noted.lost = x.lost from rfl, h] at hlost
    cases hlost
  noted hlost := by
    rw [show x.noted.lost = x.lost from rfl, h] at hlost
    cases hlost

/-- The `finally` of a call that has the lock: a failed unlock query is noted. -/
theorem wp_leave_held {Q : Post leases Borrowed JsError Unit} (h : Lent t g c Granted)
    (hQ : ∀ g', Q (.ok ()) { m with given := m.given ++ [c] } g') :
    leaseLogic.wp t (leaveLease c true) Q m g := by
  intro g₁ _ hg₁
  have h₁ := h.rely stable_granted hg₁
  refine ⟨h₁.mono fun _ _ _ => trivial, fun a r g₂ hx hinv₂ => ?_⟩
  rcases serve_unlock hx with ⟨rfl, rfl⟩ | ⟨⟨e, rfl⟩, hcase⟩
  · exact wp_giveBack (h₁.change (fun _ => rfl) fun _ _ h => h.unlocked) hQ
  · have hmine : Lent t g₂ c fun _ x => x.lost = false := by
      rcases hcase with rfl | rfl
      · exact h₁.mono fun _ _ h => h.known
      · exact h₁.change (fun _ => rfl) fun _ _ h => h.known
    intro g₃ _ hg₃
    have h₃ := hmine.rely stable_known hg₃
    refine ⟨h₃.mono fun _ _ _ => trivial, fun a r g₄ hx₄ hinv₄ => ?_⟩
    cases a with
    | done =>
        cases hx₄
        exact wp_giveBack (h₃.change (fun _ => rfl) fun _ _ h => ready_noted h) hQ
    | _ => cases hx₄

/-- The body runs with the lock held, and whatever it does the lock is still held. -/
theorem wp_runHeld_true (h : Lent t g c Granted) :
    leaseLogic.wp t (runHeld true) (fun _ m' g' => m' = m ∧ Lent t g' c Granted) m g := by
  intro g₁ _ hg₁
  refine ⟨trivial, fun a r g₂ hx _ => ?_⟩
  cases a with
  | ran r' =>
      cases hx
      have h₁ := h.rely stable_granted hg₁
      exact wp_ofExcept fun g₃ _ hg₃ => ⟨rfl, h₁.rely stable_granted hg₃⟩
  | _ => cases hx

theorem wp_runHeld_false (h : Lent t g c Ready) :
    leaseLogic.wp t (runHeld false) (fun _ m' g' => m' = m ∧ Lent t g' c Ready) m g :=
  wp_ret fun _ _ hg' => ⟨rfl, h.rely stable_ready hg'⟩

/-- Connecting gives the call a session that does not hold the lock. -/
theorem wp_connectClient : leaseLogic.wp t connectClient (fun r m' g' =>
    match r with
    | .ok c => m' = { m with taken := m.taken ++ [c] } ∧ Lent t g' c Clear
    | .error _ => m' = m) m g := by
  intro g₁ hinv₁ _
  refine ⟨trivial, fun a r g₂ hx hinv₂ => ?_⟩
  rcases serve_connect hx with ⟨c, x, hc, hidle, rfl, rfl⟩ | ⟨rfl, rfl⟩ | ⟨⟨e, rfl⟩, rfl⟩
  · refine wp_ret fun g₃ _ hg₃ => ⟨rfl, ?_⟩
    have hlent : Lent t (g₁.change c fun x => x.checkedOut t) c Clear := by
      refine ⟨x.checkedOut t, ?_, rfl, fun hzero => ?_, rfl, rfl⟩
      · rw [getElem?_change, hc]
        simp
      · exact hinv₁ hzero x (List.mem_of_getElem? hc) hidle
    exact hlent.rely stable_clear hg₃
  · refine wp_ret fun g₃ _ hg₃ => ⟨rfl, ?_⟩
    have hlent : Lent t { g₁ with all := g₁.all ++ [{ place := .lent t }] }
        g₁.all.length Clear :=
      ⟨{ place := .lent t }, by simp, rfl, fun _ => rfl, rfl, rfl⟩
    exact hlent.rely stable_clear hg₃
  · exact wp_raise fun g₃ _ _ => rfl

theorem Clear.ready {n : Nat} (h : Clear n x) : Ready n x where
  free hzero := .inl (h.free hzero)
  holds hlost := by
    rw [h.known] at hlost
    cases hlost
  noted _ := h.noted

/-- What the call knows after the lock query, and what it does not. -/
theorem wp_askLock (h : Lent t g c Clear) : leaseLogic.wp t (askLock c) (fun r m' g' =>
    m' = m ∧ match r with
    | .ok true => Lent t g' c Granted
    | _ => Lent t g' c Ready) m g := by
  intro g₁ _ hg₁
  have h₁ := h.rely stable_clear hg₁
  refine ⟨h₁.mono fun _ _ _ => trivial, fun a r g₂ hx _ => ?_⟩
  rcases serve_lock hx with ⟨rfl, rfl⟩ | ⟨rfl, rfl⟩ | ⟨⟨e, rfl⟩, rfl | rfl⟩
  · refine wp_ret fun g₃ _ hg₃ => ⟨rfl, ?_⟩
    have hgranted : Lent t (g₁.change c Session.locked) c Granted := by
      refine h₁.change (fun _ => rfl) fun n x hx => ⟨fun hzero => ?_, hx.known⟩
      show x.locks + 1 ≤ 1
      have hfree := hx.free hzero
      omega
    exact hgranted.rely stable_granted hg₃
  · exact wp_ret fun g₃ _ hg₃ => ⟨rfl, (h₁.mono fun _ _ hx => hx.ready).rely stable_ready hg₃⟩
  · exact wp_raise fun g₃ _ hg₃ => ⟨rfl, (h₁.mono fun _ _ hx => hx.ready).rely stable_ready hg₃⟩
  · -- the server has granted the lock, and the call does not know
    refine wp_raise fun g₃ _ hg₃ => ⟨rfl, ?_⟩
    have hready : Lent t (g₁.change c Session.lockedUnseen) c Ready :=
      h₁.change (fun _ => rfl) fun n x hx =>
        ⟨fun _ => .inr (.inr rfl), fun _ => Nat.succ_pos _, fun _ => hx.noted⟩
    exact hready.rely stable_ready hg₃

/-- Every path of the function, whatever fails on it. -/
theorem wp_withReconcilerLease (hinv : NoneIdle g) :
    leaseLogic.wp t withReconcilerLease GaveBack {} g := by
  refine wp_seq hinv wp_connectClient ?_ ?_
  · intro c m₁ g₁ hinv₁ h₁
    rcases h₁ with ⟨rfl, hclear⟩
    refine wp_try hinv₁ (wp_askLock hclear) ?_
    intro r m₂ g₂ hinv₂ h₂
    rcases h₂ with ⟨rfl, h₂⟩
    cases r with
    | error e =>
        refine wp_seq (R := GaveBack) hinv₂ (wp_leave_unheld h₂ fun g' => ⟨rfl, ?_⟩) ?_ ?_
        · simp
        · exact fun _ m' g' _ h => wp_raise fun _ _ _ => h
        · exact fun _ _ _ _ h => h
    | ok held =>
        cases held with
        | true =>
            refine wp_try hinv₂ (wp_runHeld_true h₂) ?_
            intro r m₃ g₃ hinv₃ h₃
            rcases h₃ with ⟨rfl, hgranted⟩
            refine wp_seq (R := GaveBack) hinv₃ (wp_leave_held hgranted fun g' => ⟨rfl, ?_⟩) ?_ ?_
            · simp
            · exact fun _ m' g' _ h => wp_ofExcept fun _ _ _ => h
            · exact fun _ _ _ _ h => h
        | false =>
            refine wp_try hinv₂ (wp_runHeld_false h₂) ?_
            intro r m₃ g₃ hinv₃ h₃
            rcases h₃ with ⟨rfl, hready⟩
            refine wp_seq (R := GaveBack) hinv₃ (wp_leave_unheld hready fun g' => ⟨rfl, ?_⟩) ?_ ?_
            · simp
            · exact fun _ m' g' _ h => wp_ofExcept fun _ _ _ => h
            · exact fun _ _ _ _ h => h
  · intro e m₁ g₁ hinv₁ h₁
    cases h₁
    exact ⟨rfl, Nat.zero_le _⟩

/-! ## Every run -/

theorem leases_hold {s : leases.State} (h : leases.Reachable {} s) :
    leaseLogic.Holds (fun _ => {}) (fun _ => GaveBack) s := by
  refine Logic.sound ?_ ?_ ?_ ?_ h
  · intro _ x hx
    cases hx
  · exact fun s _ _ hinv => wp_withReconcilerLease hinv
  · exact fun s t a th op k r g' _ hinv _ _ hok hx => leaseServe_keeps hinv hok hx
  · exact fun s e g' _ hinv hx => leaseEnv_keeps hinv hx

/-- Where no lock has gone unnoticed before, what a give-back leaves behind is safe
exactly when none goes unnoticed now. -/
theorem safelyBack_iff (hc : g.all[c]? = some x) (hready : Ready 0 x)
    (hserve : leaseServe g t (.giveBack c) .done = some ((), g')) :
    SafelyBack g' c ↔ x.unnoticed = false := by
  rcases serve_giveBack hserve with ⟨x', hc', rfl⟩
  rw [hc] at hc'
  cases hc'
  have hback : (g.change c fun x => if x.unlockFailed then x.destroyed else x.returned).all[c]?
      = some (if x.unlockFailed then x.destroyed else x.returned) := by
    rw [getElem?_change, hc]
    simp
  constructor
  · intro hsafe
    rcases hsafe with ⟨y, hy, hcase⟩
    rw [show y = _ from Option.some.inj (hy.symm.trans hback)] at hcase
    cases hlost : x.lost with
    | false => simp [Session.unnoticed, hlost]
    | true =>
        have hheard := hready.noted hlost
        cases hfailed : x.unlockFailed with
        | true =>
            rw [hfailed] at hheard
            simp [Session.unnoticed, ← hheard]
        | false =>
            rw [hfailed, if_neg Bool.false_ne_true] at hcase
            have hholds := hready.holds hlost
            rcases hcase with ⟨-, hfree⟩ | hgone
            · have hzero : x.locks = 0 := hfree
              omega
            · cases hgone
  · intro hnoticed
    refine ⟨_, hback, ?_⟩
    cases hfailed : x.unlockFailed with
    | true => exact .inr rfl
    | false =>
        have hfree := returned_free hready hnoticed
        rw [hfailed] at hfree
        exact .inl ⟨rfl, hfree rfl⟩

/-- In every run: a call that has ended gave back what it took, once; where no lock
went unnoticed, no idle connection holds it; and a connection that is given back
then is in the pool without the lock or destroyed exactly when its own lock query
did not fail unnoticed. -/
theorem lease_exact {s : leases.State} (hreach : leases.Reachable {} s) :
    (∀ (t : Nat) (th : leases.Thread), s.threads[t]? = some th → LeaseEnded th.rest →
      (borrowed th.hist).given = (borrowed th.hist).taken ∧
        (borrowed th.hist).taken.length ≤ 1) ∧
    (s.shared.leaks = 0 → ∀ x ∈ s.shared.all, x.place = .idle → x.locks = 0) ∧
    (∀ (t : Nat) (th : leases.Thread) (c : Nat) k, s.shared.leaks = 0 → s.threads[t]? = some th →
      th.rest = .call (LeaseOp.giveBack c) k → ∃ x g',
        s.shared.all[c]? = some x ∧ x.place = .lent t ∧
        leases.exec s.shared t (LeaseOp.giveBack c) .done = some ((), g') ∧
        (SafelyBack g' c ↔ x.unnoticed = false)) := by
  have hholds := leases_hold hreach
  refine ⟨?_, hholds.1, ?_⟩
  · intro t th hth hended
    rcases hended with ⟨b, hrest⟩ | ⟨e, hrest⟩
    · exact hholds.post hth hrest
    · exact hholds.post_error hth hrest
  · intro t th c k hnone hth hrest
    rcases hholds.ok hth hrest with ⟨x, hc, hplace, hready⟩
    rw [hnone] at hready
    cases hserve : leaseServe s.shared t (LeaseOp.giveBack c) .done with
    | none => simp [leaseServe, hc] at hserve
    | some served =>
        cases served with
        | mk r g' => exact ⟨x, g', hc, hplace, hserve, safelyBack_iff hc hready hserve⟩

/-- A tick whose connection breaks while it runs. -/
def droppedTick : List leases.Act :=
  [.spawn (), .act 0 .fresh, .act 0 .served, .env (.error 0), .env (.dies 0),
    .act 0 (.ran (.ok ())), .act 0 .failed, .act 0 .done]

theorem droppedTick_isSome : (System.run (System.init (Y := leases) {}) droppedTick).isSome := rfl

/-- `lease_exact` before that connection is given back: it is not reused. -/
theorem lease_exact_dropped :
    let s := (System.run (System.init (Y := leases) {}) droppedTick).get droppedTick_isSome
    s.shared.all[0]? =
      some { place := .lent 0, alive := false, unlockFailed := true, heard := true } ∧
    ∃ x g', s.shared.all[0]? = some x ∧ x.place = .lent 0 ∧
      leases.exec s.shared 0 (LeaseOp.giveBack 0) .done = some ((), g') ∧
      (SafelyBack g' 0 ↔ x.unnoticed = false) :=
  ⟨rfl, (lease_exact (System.reachable_get droppedTick_isSome)).2.2 0 _ 0 _ rfl rfl rfl⟩

/-- A call whose lock query times out after the server has granted the lock, and a
second replica's call after it. -/
def shutOut : List leases.Act :=
  [.spawn (), .act 0 .fresh, .act 0 .lost, .act 0 .done,
    .spawn (), .act 1 .fresh, .act 1 .served, .act 1 .done]

theorem shutOut_isSome : (System.run (System.init (Y := leases) {}) shutOut).isSome := rfl

/-- The first call throws, and its connection is idle and holds the lock; the second
call does not get it. -/
theorem lease_leaks :
    let s := (System.run (System.init (Y := leases) {}) shutOut).get shutOut_isSome
    leases.Reachable {} s ∧
    s.shared.all = [{ place := .idle, locks := 1, lost := true }, { place := .idle }] ∧
    s.threads.map (fun th => th.hist.map (·.op)) =
      [[LeaseOp.connect, .lock 0, .giveBack 0], [LeaseOp.connect, .lock 1, .giveBack 1]] ∧
    (∃ th e, s.threads[0]? = some th ∧ th.rest = .raise e) ∧
    ∃ th, s.threads[1]? = some th ∧ th.rest = .ret false :=
  ⟨System.reachable_get shutOut_isSome, rfl, rfl, ⟨_, _, rfl, rfl⟩, _, rfl, rfl⟩

end Sso
