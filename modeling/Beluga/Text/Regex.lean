import Mathlib.Logic.Basic

/-! # Regular expressions

Expressions over character classes, matched by derivatives, with the two classes
and the one flag that the expressions of this development use. `test` is
`RegExp.test` of an expression between `^` and `$`.

* `test_ident`: what an expression of the shape `^[p][q]*$` accepts.
-/

namespace Text

/-- What holds of the characters of a list is decided on the list, not on all characters. -/
instance (priority := high) decidableBall {p : Char → Prop} [DecidablePred p] (cs : List Char) :
    Decidable (∀ c ∈ cs, p c) := List.decidableBAll p cs

inductive Regex where
  /-- Matches nothing. -/
  | fail
  | empty
  | char (p : Char → Bool)
  | seq (a b : Regex)
  | alt (a b : Regex)
  | star (a : Regex)

namespace Regex

/-! ## Syntax -/

/-- The literal text `s`. -/
def lit (s : String) : Regex := s.toList.foldr (fun c r => seq (char (· = c)) r) empty

/-- `a?`. -/
def opt (a : Regex) : Regex := alt a empty

/-- `a+`. -/
def plus (a : Regex) : Regex := seq a (star a)

/-- One after the other. -/
def cat : List Regex → Regex
  | [] => empty
  | [a] => a
  | a :: rest => seq a (cat rest)

/-- `(?:a|b|c)`. -/
def any : List Regex → Regex
  | [] => fail
  | [a] => a
  | a :: rest => alt a (any rest)

/-- `\d`. -/
def digit (c : Char) : Bool := '0' ≤ c && c ≤ '9'

/-- `\s`: white space and line terminators. -/
def space (c : Char) : Bool :=
  let n := c.toNat
  (9 ≤ n && n ≤ 13) || n = 32 || n = 0xa0 || n = 0x1680 || (0x2000 ≤ n && n ≤ 0x200a) ||
    n = 0x2028 || n = 0x2029 || n = 0x202f || n = 0x205f || n = 0x3000 || n = 0xfeff

/-- The flag `i`. Without the flag `u` no character outside ASCII equals a letter inside. -/
def caseless : Regex → Regex
  | fail => fail
  | empty => empty
  | char p => char fun c => p c || p c.toLower || p c.toUpper
  | seq a b => seq a.caseless b.caseless
  | alt a b => alt a.caseless b.caseless
  | star a => star a.caseless

/-! ## Matching -/

def nullable : Regex → Bool
  | fail => false
  | empty => true
  | char _ => false
  | seq a b => a.nullable && b.nullable
  | alt a b => a.nullable || b.nullable
  | star _ => true

/-- `seq`, without what is left over of matched parts. -/
def mkSeq : Regex → Regex → Regex
  | fail, _ => fail
  | empty, b => b
  | a, b => seq a b

/-- `alt`, without alternatives that failed. -/
def mkAlt : Regex → Regex → Regex
  | fail, b => b
  | a, fail => a
  | a, b => alt a b

/-- What is left to match after the character `c`. -/
def deriv (c : Char) : Regex → Regex
  | fail => fail
  | empty => fail
  | char p => if p c then empty else fail
  | seq a b =>
      if a.nullable then mkAlt (mkSeq (a.deriv c) b) (b.deriv c) else mkSeq (a.deriv c) b
  | alt a b => mkAlt (a.deriv c) (b.deriv c)
  | star a => mkSeq (a.deriv c) (star a)

def matches' (r : Regex) (cs : List Char) : Bool := (cs.foldl (fun r c => r.deriv c) r).nullable

/-- `/^r$/.test(s)`. -/
def test (r : Regex) (s : String) : Bool := r.matches' s.toList

theorem matches_fail (cs : List Char) : matches' fail cs = false := by
  induction cs with
  | nil => rfl
  | cons c cs ih => exact ih

theorem matches_star_char (q : Char → Bool) (cs : List Char) :
    matches' (star (char q)) cs = cs.all q := by
  induction cs with
  | nil => rfl
  | cons c cs ih =>
      rw [List.all_cons, ← ih]
      cases hq : q c with
      | false => simpa [matches', deriv, hq, mkSeq] using matches_fail cs
      | true => simp [matches', deriv, hq, mkSeq]

theorem matches_ident (p q : Char → Bool) (c : Char) (cs : List Char) :
    matches' (seq (char p) (star (char q))) (c :: cs) = (p c && cs.all q) := by
  cases hp : p c with
  | false => simpa [matches', deriv, nullable, hp, mkSeq] using matches_fail cs
  | true => simpa [matches', deriv, nullable, hp, mkSeq] using matches_star_char q cs

/-- `^[p][q]*$` accepts a character of `p` before any number of `q`. -/
theorem test_ident (p q : Char → Bool) (s : String) :
    test (seq (char p) (star (char q))) s = true ↔
      ∃ c cs, s.toList = c :: cs ∧ p c = true ∧ ∀ d ∈ cs, q d = true := by
  rw [test]
  cases s.toList with
  | nil => simp [matches', nullable]
  | cons c cs =>
      rw [matches_ident, Bool.and_eq_true, List.all_eq_true]
      constructor
      · exact fun h => ⟨c, cs, rfl, h⟩
      · rintro ⟨_, _, heq, h⟩
        obtain ⟨rfl, rfl⟩ := List.cons.inj heq
        exact h

end Regex

end Text
