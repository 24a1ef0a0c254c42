import Mathlib.Logic.Basic
import Mathlib.Tactic.Common

/-! # Scanners

A scanner goes through a text from left to right. Each step looks at the next
character and at the text behind it, changes the state and leaves the rest of the
text, which is never longer (`Shrinks`).

* `scan_cons`: what the first step does;
* `scan_invariant`: what each step preserves holds at the end.
-/

namespace Text

section Scan

variable {σ : Type} (step : σ → Char → List Char → σ × List Char)

/-- At most `n` steps. -/
def scanFrom : Nat → σ → List Char → σ
  | 0, s, _ => s
  | _ + 1, s, [] => s
  | n + 1, s, c :: cs => scanFrom n (step s c cs).1 (step s c cs).2

/-- As many steps as there are characters. -/
def scan (s : σ) (cs : List Char) : σ := scanFrom step cs.length s cs

/-- A step takes its character, or more. -/
def Shrinks : Prop := ∀ s c cs, (step s c cs).2.length ≤ cs.length

variable {step} {s : σ} {c : Char} {cs : List Char}

theorem scan_nil : scan step s [] = s := rfl

/-- Further steps find nothing to do. -/
theorem scanFrom_of_le (h : Shrinks step) {n : Nat} (hn : cs.length ≤ n) :
    scanFrom step n s cs = scan step s cs := by
  rw [scan]
  induction hlen : cs.length using Nat.strongRecOn generalizing n s cs with
  | ind m ih =>
      cases cs with
      | nil =>
          cases hlen
          cases n with
          | zero => rfl
          | succ n => rfl
      | cons c cs =>
          obtain ⟨n, rfl⟩ : ∃ k, n = k + 1 := Nat.exists_eq_succ_of_ne_zero (by
            rw [List.length_cons] at hn
            omega)
          rw [List.length_cons] at hlen hn
          subst hlen
          show scanFrom step n _ _ = scanFrom step cs.length _ _
          have hshrinks := h s c cs
          have hrest : (step s c cs).2.length < cs.length + 1 := by omega
          -- both have steps enough for the rest
          rw [ih _ hrest (by omega) rfl, ih _ hrest hshrinks rfl]

theorem scan_cons (h : Shrinks step) :
    scan step s (c :: cs) = scan step (step s c cs).1 (step s c cs).2 :=
  scanFrom_of_le h (h s c cs)

/-- What the steps preserve, of the state and the text that is left. -/
theorem scan_invariant (h : Shrinks step) {inv : σ → List Char → Prop}
    (hstep : ∀ s c cs, inv s (c :: cs) → inv (step s c cs).1 (step s c cs).2) (hs : inv s cs) :
    inv (scan step s cs) [] := by
  induction hlen : cs.length using Nat.strongRecOn generalizing s cs with
  | ind m ih =>
      cases cs with
      | nil => exact hs
      | cons c cs =>
          rw [scan_cons h]
          have hshrinks := h s c cs
          rw [List.length_cons] at hlen
          exact ih _ (by omega) (hstep s c cs hs) rfl

end Scan

/-! ## Tokens -/

section Tokens

variable {τ : Type} (next : Char → List Char → τ × List Char)

/-- The scanner that keeps the tokens it finds. -/
def collect (found : List τ) (c : Char) (cs : List Char) : List τ × List Char :=
  (found ++ [(next c cs).1], (next c cs).2)

/-- The tokens of a text, one after the other. -/
def tokens (cs : List Char) : List τ := scan (collect next) [] cs

variable {next} (h : ∀ c cs, (next c cs).2.length ≤ cs.length)

include h

theorem scan_collect {found : List τ} {cs : List Char} :
    scan (collect next) found cs = found ++ tokens next cs := by
  have hshrinks : Shrinks (collect next) := fun _ => h
  induction hlen : cs.length using Nat.strongRecOn generalizing found cs with
  | ind m ih =>
      cases cs with
      | nil => exact (List.append_nil found).symm
      | cons c cs =>
          have hrest : (next c cs).2.length < m := by
            have hle := h c cs
            rw [List.length_cons] at hlen
            omega
          rw [tokens, scan_cons hshrinks, scan_cons hshrinks, collect, collect, ih _ hrest rfl,
            ih _ hrest rfl, List.nil_append, List.append_assoc]

theorem tokens_cons {c : Char} {cs : List Char} :
    tokens next (c :: cs) = (next c cs).1 :: tokens next (next c cs).2 := by
  have hshrinks : Shrinks (collect next) := fun _ => h
  rw [tokens, scan_cons hshrinks, collect, scan_collect h]
  rfl

end Tokens

end Text
