import Mathlib.Logic.Basic

/-! # Interaction programs

A program is a tree: it returns a value, raises an error, or calls an
operation and goes on with the reply. Nothing is said here about what an
operation does: the same program can be run against any system that answers
its calls (`Beluga.Interact.System`), and reasoned about without running it
(`Beluga.Interact.Rules`).

* `Prog.bind` sequences two programs; an error skips the rest;
* `Prog.attempt` is the body of a `try`: the error becomes a value;
* `Prog.each` is a `for` loop over a list;
* `Prog.Calls P` says that every call the program can make satisfies `P`,
  whatever it is answered; `Prog.Returns P` that every value it can return does.
-/

namespace Interact

/-- The operations a program may call, each with the type of its reply. -/
structure Sig where
  Op : Type
  Rep : Op → Type

/-- A program over the operations of `S`, with errors `ε` and results `α`. -/
inductive Prog (S : Sig) (ε α : Type) : Type where
  | ret (a : α)
  | raise (e : ε)
  | call (op : S.Op) (k : S.Rep op → Prog S ε α)

namespace Prog

variable {S : Sig} {ε ε' α β : Type}

/-! ## Building programs -/

/-- Run `p`, then `f` on its result. -/
def bind : Prog S ε α → (α → Prog S ε β) → Prog S ε β
  | ret a, f => f a
  | raise e, _ => raise e
  | call op k, f => call op fun r => (k r).bind f

instance : Monad (Prog S ε) where
  pure := ret
  bind := bind

/-- Call one operation and return its reply. -/
def perform (op : S.Op) : Prog S ε (S.Rep op) := call op ret

/-- The body of a `try`: an error is handed to the caller as a value. -/
def attempt : Prog S ε α → Prog S ε' (Except ε α)
  | ret a => ret (.ok a)
  | raise e => ret (.error e)
  | call op k => call op fun r => (k r).attempt

/-- Continue with a reply that may itself be an error. -/
def ofExcept : Except ε α → Prog S ε α
  | .ok a => ret a
  | .error e => raise e

/-- `for (x of xs) body x`. -/
def each (body : α → Prog S ε Unit) : List α → Prog S ε Unit
  | [] => ret ()
  | x :: xs => (body x).bind fun _ => each body xs

theorem bind_eq (p : Prog S ε α) (f : α → Prog S ε β) : p >>= f = p.bind f := rfl

theorem pure_eq (a : α) : (Pure.pure a : Prog S ε α) = ret a := rfl

/-! ## What a program can call -/

/-- Every call `p` can make satisfies `P`, whatever the replies are. -/
def Calls (P : S.Op → Prop) : Prog S ε α → Prop
  | ret _ => True
  | raise _ => True
  | call op k => P op ∧ ∀ r, (k r).Calls P

variable {P P' : S.Op → Prop}

theorem Calls.mono {p : Prog S ε α} (hp : p.Calls P) (hP : ∀ op, P op → P' op) :
    p.Calls P' := by
  induction p with
  | ret a => trivial
  | raise e => trivial
  | call op k ih => exact ⟨hP op hp.1, fun r => ih r (hp.2 r)⟩

theorem Calls.bind {p : Prog S ε α} {f : α → Prog S ε β} (hp : p.Calls P)
    (hf : ∀ a, (f a).Calls P) : (p >>= f).Calls P := by
  rw [bind_eq]
  induction p with
  | ret a => exact hf a
  | raise e => trivial
  | call op k ih => exact ⟨hp.1, fun r => ih r (hp.2 r)⟩

theorem Calls.attempt {p : Prog S ε α} (hp : p.Calls P) :
    (p.attempt : Prog S ε' (Except ε α)).Calls P := by
  induction p with
  | ret a => trivial
  | raise e => trivial
  | call op k ih => exact ⟨hp.1, fun r => ih r (hp.2 r)⟩

theorem Calls.perform {op : S.Op} (h : P op) : (perform op : Prog S ε _).Calls P :=
  ⟨h, fun _ => trivial⟩

theorem Calls.ofExcept (r : Except ε α) : (ofExcept r : Prog S ε α).Calls P := by
  cases r <;> trivial

theorem Calls.each {body : α → Prog S ε Unit} (xs : List α)
    (hbody : ∀ x ∈ xs, (body x).Calls P) : (Prog.each body xs).Calls P := by
  induction xs with
  | nil => trivial
  | cons x xs ih =>
      refine Calls.bind (hbody x (by simp)) fun _ => ih ?_
      intro y hy
      exact hbody y (by simp [hy])

/-- Every value `p` can return satisfies `P`. -/
def Returns (P : α → Prop) : Prog S ε α → Prop
  | ret a => P a
  | raise _ => True
  | call _ k => ∀ r, (k r).Returns P

theorem Returns.bind {P : β → Prop} (p : Prog S ε α) {f : α → Prog S ε β}
    (hf : ∀ a, (f a).Returns P) : (p >>= f).Returns P := by
  rw [bind_eq]
  induction p with
  | ret a => exact hf a
  | raise e => trivial
  | call op k ih => exact fun r => ih r

end Prog

end Interact
