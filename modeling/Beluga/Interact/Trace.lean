import Beluga.Interact.System

/-! # What a program calls after what it was told

Some disciplines need no shared state: whether a call is allowed depends only
on the calls the program has already made and their replies. `Prog.Traced P Q`
says that every call is allowed by `P` after the history before it, and that
`Q` holds of the whole history and the result when the program ends.

* `Traced.bind`, `Traced.attempt`, `Traced.mono`, `Calls.keeps`: the program rules;
* `Prog.AtMost n`: the program makes `n` calls at most, whatever it is told;
* `System.Reachable.traced`: a traced program stays so in every interleaving;
* `System.Reachable.traced_hist`: so `P` held before every call that was made.
-/

namespace Interact

variable {S : Sig} {ε ε' α β : Type}

/-- Every call of `p` satisfies `P` after `hist` and the calls before it, and
`p` ends in `Q`. -/
def Prog.Traced (P : List (Event S) → S.Op → Prop) (Q : List (Event S) → Except ε α → Prop) :
    List (Event S) → Prog S ε α → Prop
  | hist, .ret a => Q hist (.ok a)
  | hist, .raise e => Q hist (.error e)
  | hist, .call op k => P hist op ∧ ∀ r, (k r).Traced P Q (hist ++ [⟨op, r⟩])

namespace Prog.Traced

variable {P : List (Event S) → S.Op → Prop} {hist : List (Event S)}

theorem mono {Q Q' : List (Event S) → Except ε α → Prop} {p : Prog S ε α}
    (h : p.Traced P Q hist) (hQ : ∀ hist r, Q hist r → Q' hist r) : p.Traced P Q' hist := by
  induction p generalizing hist with
  | ret a => exact hQ _ _ h
  | raise e => exact hQ _ _ h
  | call op k ih => exact ⟨h.1, fun r => ih r (h.2 r)⟩

theorem bind {R : List (Event S) → Except ε α → Prop} {Q : List (Event S) → Except ε β → Prop}
    {p : Prog S ε α} {f : α → Prog S ε β} (hp : p.Traced P R hist)
    (hok : ∀ hist a, R hist (.ok a) → (f a).Traced P Q hist)
    (herr : ∀ hist e, R hist (.error e) → Q hist (.error e)) : (p >>= f).Traced P Q hist := by
  rw [Prog.bind_eq]
  induction p generalizing hist with
  | ret a => exact hok _ _ hp
  | raise e => exact herr _ _ hp
  | call op k ih => exact ⟨hp.1, fun r => ih r (hp.2 r)⟩

/-- A `try`: what follows gets the outcome of `p`. -/
theorem attempt {R : List (Event S) → Except ε α → Prop} {Q : List (Event S) → Except ε' β → Prop}
    {p : Prog S ε α} {f : Except ε α → Prog S ε' β} (hp : p.Traced P R hist)
    (h : ∀ hist r, R hist r → (f r).Traced P Q hist) : (p.attempt >>= f).Traced P Q hist := by
  rw [Prog.bind_eq]
  induction p generalizing hist with
  | ret a => exact h _ _ hp
  | raise e => exact h _ _ hp
  | call op k ih => exact ⟨hp.1, fun r => ih r (hp.2 r)⟩

end Prog.Traced

/-- Whatever a program may call, it may call after any history. -/
theorem Prog.Calls.traced {P : S.Op → Prop} {p : Prog S ε α} (h : p.Calls P)
    {hist : List (Event S)} : p.Traced (fun _ => P) (fun _ _ => True) hist := by
  induction p generalizing hist with
  | ret a => trivial
  | raise e => trivial
  | call op k ih => exact ⟨h.1, fun r => ih r (h.2 r)⟩

theorem Prog.traced_true (p : Prog S ε α) (hist : List (Event S)) :
    p.Traced (fun _ _ => True) (fun _ _ => True) hist := by
  induction p generalizing hist with
  | ret a => trivial
  | raise e => trivial
  | call op k ih => exact ⟨trivial, fun r => ih r _⟩

/-- Calls that are allowed wherever `I` holds, and keep `I`. -/
theorem Prog.Calls.keeps {C : S.Op → Prop} {P : List (Event S) → S.Op → Prop}
    {I : List (Event S) → Prop} {p : Prog S ε α} (h : p.Calls C)
    (hP : ∀ hist op, I hist → C op → P hist op)
    (hI : ∀ hist op r, I hist → C op → I (hist ++ [⟨op, r⟩])) {hist : List (Event S)}
    (hist_I : I hist) : p.Traced P (fun hist _ => I hist) hist := by
  induction p generalizing hist with
  | ret a => exact hist_I
  | raise e => exact hist_I
  | call op k ih => exact ⟨hP hist op hist_I h.1, fun r => ih r (h.2 r) (hI hist op r hist_I h.1)⟩

/-! ## How many calls -/

/-- `p` makes `n` calls at most. -/
def Prog.AtMost : Prog S ε α → Nat → Prop
  | .ret _, _ => True
  | .raise _, _ => True
  | .call _ k, n => 0 < n ∧ ∀ r, (k r).AtMost (n - 1)

namespace Prog.AtMost

variable {n m : Nat} {p : Prog S ε α}

theorem mono (h : p.AtMost n) (hle : n ≤ m) : p.AtMost m := by
  induction p generalizing n m with
  | ret a => trivial
  | raise e => trivial
  | call op k ih =>
      have hpos : 0 < n := h.1
      refine ⟨by omega, fun r => ih r (h.2 r) ?_⟩
      omega

theorem bind {f : α → Prog S ε β} (hp : p.AtMost n) (hf : ∀ a, (f a).AtMost m) :
    (p >>= f).AtMost (n + m) := by
  rw [Prog.bind_eq]
  induction p generalizing n with
  | ret a => exact (hf a).mono (by omega)
  | raise e => trivial
  | call op k ih =>
      have hpos : 0 < n := hp.1
      refine ⟨by omega, fun r => (ih r (hp.2 r)).mono ?_⟩
      omega

theorem attempt (hp : p.AtMost n) : (p.attempt : Prog S ε' (Except ε α)).AtMost n := by
  induction p generalizing n with
  | ret a => trivial
  | raise e => trivial
  | call op k ih => exact ⟨hp.1, fun r => ih r (hp.2 r)⟩

theorem perform (op : S.Op) : (perform op : Prog S ε _).AtMost 1 :=
  ⟨Nat.one_pos, fun _ => trivial⟩

theorem ofExcept (r : Except ε α) : (ofExcept r : Prog S ε α).AtMost 0 := by
  cases r <;> trivial

/-- Every call comes after fewer than `n`. -/
theorem traced {hist : List (Event S)} (h : p.AtMost n) (hle : hist.length + n ≤ m) :
    p.Traced (fun hist _ => hist.length < m) (fun _ _ => True) hist := by
  induction p generalizing hist n with
  | ret a => trivial
  | raise e => trivial
  | call op k ih =>
      have hpos : 0 < n := h.1
      refine ⟨by show hist.length < m; omega, fun r => ih r (h.2 r) ?_⟩
      rw [List.length_append, List.length_singleton]
      omega

end Prog.AtMost

namespace System

variable {Y : System S ε α} {P : Y.Task → List (Event S) → S.Op → Prop}
  {Q : Y.Task → List (Event S) → Except ε α → Prop} {g : Y.Shared}

/-- What is left of a traced program is traced. -/
theorem Reachable.traced (hprog : ∀ k, (Y.prog k).Traced (P k) (Q k) []) {s : Y.State}
    (h : Y.Reachable g s) {t : Nat} {th : Y.Thread} (hth : s.threads[t]? = some th) :
    th.rest.Traced (P th.task) (Q th.task) th.hist := by
  refine Reachable.induct (I := fun s : Y.State => ∀ (t : Nat) (th : Y.Thread),
    s.threads[t]? = some th → th.rest.Traced (P th.task) (Q th.task) th.hist) ?_ ?_ h t th hth
  · intro t th hth
    simp [init] at hth
  · intro s s' a _ ih hstep t th hth
    obtain ⟨k, -, rfl⟩ | ⟨t', ans, th', op, k, r, g', -, hth', hrest, -, rfl⟩ |
      ⟨_, g', -, -, rfl⟩ := step_cases hstep
    · rcases getElem?_append_spawn hth with hold | ⟨-, rfl⟩
      · exact ih t th hold
      · exact hprog k
    · rcases getElem?_set_advance hth' hth with ⟨rfl, rfl⟩ | ⟨-, hold⟩
      · have htraced := ih t th' hth'
        rw [hrest] at htraced
        exact htraced.2 r
      · exact ih t th hold
    · exact ih t th hth

/-- Every call that was made satisfied `P` after the history before it. -/
theorem Reachable.traced_hist (hprog : ∀ k, (Y.prog k).Traced (P k) (Q k) []) {s : Y.State}
    (h : Y.Reachable g s) {t : Nat} {th : Y.Thread} (hth : s.threads[t]? = some th)
    {h₁ h₂ : List (Event S)} {e : Event S} (hhist : th.hist = h₁ ++ e :: h₂) :
    P th.task h₁ e.op := by
  refine Reachable.induct (I := fun s : Y.State => ∀ (t : Nat) (th : Y.Thread),
    s.threads[t]? = some th → ∀ h₁ e h₂, th.hist = h₁ ++ e :: h₂ → P th.task h₁ e.op)
    ?_ ?_ h t th hth h₁ e h₂ hhist
  · intro t th hth
    simp [init] at hth
  · intro s s' a hreach ih hstep t th hth h₁ e h₂ hhist
    obtain ⟨k, -, rfl⟩ | ⟨t', ans, th', op, k, r, g', -, hth', hrest, -, rfl⟩ |
      ⟨_, g', -, -, rfl⟩ := step_cases hstep
    · rcases getElem?_append_spawn hth with hold | ⟨-, rfl⟩
      · exact ih t th hold h₁ e h₂ hhist
      · simp at hhist
    · rcases getElem?_set_advance hth' hth with ⟨rfl, rfl⟩ | ⟨-, hold⟩
      · -- the call just made, or an earlier one
        simp only [Thread.advance] at hhist ⊢
        rcases List.eq_nil_or_concat h₂ with rfl | ⟨h₂', e', rfl⟩
        · obtain ⟨rfl, heq⟩ := List.append_inj' hhist rfl
          obtain rfl := (List.cons.inj heq).1
          have htraced := hreach.traced hprog hth'
          rw [hrest] at htraced
          exact htraced.1
        · have hcat : th'.hist ++ [⟨op, r⟩] = (h₁ ++ e :: h₂') ++ [e'] := by simpa using hhist
          exact ih t th' hth' h₁ e h₂' (List.append_inj' hcat rfl).1
      · exact ih t th hold h₁ e h₂ hhist
    · exact ih t th hth h₁ e h₂ hhist

end System

end Interact
