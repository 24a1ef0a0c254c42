import Mathlib.Algebra.Order.Field.Power
import Mathlib.Algebra.Order.Floor.Ring
import Mathlib.Data.Rat.Floor
import Mathlib.Tactic.Linarith
import Mathlib.Tactic.NormNum

/-! # Numbers

The numbers of JavaScript: doubles, as the rationals they stand for, with NaN and
the infinities; the two zeros are one. A sum is the exact one, rounded to the
nearest double.

* `toDouble_intCast`: whole numbers up to `2 ^ 53` are exact, so their sums are.
-/

namespace Js

inductive Num where
  | nan
  | negInf
  | fin (q : ℚ)
  | posInf
  deriving DecidableEq

/-- The nearest whole number, the even one of two. -/
def roundHalfEven (q : ℚ) : ℤ :=
  if q - ⌊q⌋ < 1 / 2 then ⌊q⌋
  else if 1 / 2 < q - ⌊q⌋ then ⌊q⌋ + 1
  else if ⌊q⌋ % 2 = 0 then ⌊q⌋ else ⌊q⌋ + 1

/-- The exponent of the first bit, or one more. -/
def firstBit (q : ℚ) : ℤ := (Nat.log2 q.num.natAbs : ℤ) - Nat.log2 q.den

/-- The exponent of the last of 53 bits. -/
def lastBit (q : ℚ) : ℤ :=
  max ((if |q| < 2 ^ firstBit q then firstBit q - 1 else firstBit q) - 52) (-1074)

/-- The nearest double. -/
def toDouble (q : ℚ) : Num :=
  let r : ℚ := roundHalfEven (q / 2 ^ lastBit q) * 2 ^ lastBit q
  if |r| < 2 ^ 1024 then .fin r else if 0 < r then .posInf else .negInf

namespace Num

def neg : Num → Num
  | nan => nan
  | negInf => posInf
  | fin q => fin (-q)
  | posInf => negInf

/-- `a + b`. -/
def add : Num → Num → Num
  | nan, _ | _, nan => nan
  | posInf, negInf | negInf, posInf => nan
  | posInf, _ | _, posInf => posInf
  | negInf, _ | _, negInf => negInf
  | fin a, fin b => toDouble (a + b)

/-- `a - b`. -/
def sub (a b : Num) : Num := a.add b.neg

/-- `a < b`. -/
def lt : Num → Num → Bool
  | nan, _ | _, nan => false
  | _, negInf => false
  | negInf, _ => true
  | posInf, _ => false
  | _, posInf => true
  | fin a, fin b => a < b

/-- `a <= b`. -/
def le : Num → Num → Bool
  | nan, _ | _, nan => false
  | negInf, _ => true
  | _, posInf => true
  | _, negInf => false
  | posInf, _ => false
  | fin a, fin b => a ≤ b

/-- `Math.ceil(a)`. -/
def ceil : Num → Num
  | fin q => fin ⌈q⌉
  | a => a

end Num

/-! ## Whole numbers -/

theorem roundHalfEven_intCast (n : ℤ) : roundHalfEven n = n := by
  simp [roundHalfEven]

/-- A multiple of the last bit is a double. -/
theorem toDouble_of_multiple {q : ℚ} {m : ℤ} (hm : q = m * 2 ^ lastBit q) (hq : |q| < 2 ^ 1024) :
    toDouble q = .fin q := by
  have hpos : (2 : ℚ) ^ lastBit q ≠ 0 := zpow_ne_zero _ two_ne_zero
  have hdiv : q / 2 ^ lastBit q = m := by
    rw [div_eq_iff hpos]
    exact hm
  have hround : (roundHalfEven (q / 2 ^ lastBit q) : ℚ) * 2 ^ lastBit q = q := by
    rw [hdiv, roundHalfEven_intCast]
    exact hm.symm
  simp only [toDouble, hround, if_pos hq]

theorem firstBit_intCast (n : ℤ) : firstBit n = Nat.log2 n.natAbs := by
  have hone : Nat.log2 1 = 0 := rfl
  rw [firstBit, Rat.num_intCast, Rat.den_intCast, hone, Nat.cast_zero, sub_zero]

/-- Below `2 ^ 53` the last bit is no fraction of one. -/
theorem lastBit_intCast {n : ℤ} (h : |n| < 2 ^ 53) : lastBit n ≤ 0 := by
  have hlog : Nat.log2 n.natAbs < 53 := by
    by_cases hn : n.natAbs = 0
    · rw [hn]
      decide
    · rw [Nat.log2_lt hn]
      rw [Int.abs_eq_natAbs] at h
      omega
  rw [lastBit, firstBit_intCast]
  split_ifs
  · omega
  · omega

/-- Whole numbers up to `2 ^ 53` are doubles. -/
theorem toDouble_intCast {n : ℤ} (h : |n| ≤ 2 ^ 53) : toDouble n = .fin n := by
  have hsmall : |(n : ℚ)| < 2 ^ 1024 := by
    have hq : |(n : ℚ)| ≤ 2 ^ 53 := by exact_mod_cast h
    exact lt_of_le_of_lt hq (pow_lt_pow_right₀ one_lt_two (by norm_num))
  rcases lt_or_eq_of_le h with hlt | heq
  · -- no bit is lost
    have hlast := lastBit_intCast hlt
    obtain ⟨k, hk⟩ : ∃ k : ℕ, lastBit n = -k := ⟨(-lastBit n).toNat, by omega⟩
    refine toDouble_of_multiple (m := n * 2 ^ k) ?_ hsmall
    rw [hk, Int.cast_mul, Int.cast_pow, Int.cast_ofNat, zpow_neg, zpow_natCast, mul_assoc,
      mul_inv_cancel₀ (pow_ne_zero _ two_ne_zero), mul_one]
  · -- the number of 54 bits ends in a zero
    have habs : n.natAbs = 2 ^ 53 := by
      rw [Int.abs_eq_natAbs] at heq
      omega
    have hlast : lastBit n = 1 := by
      rw [lastBit, firstBit_intCast, habs, Nat.log2_two_pow, if_neg]
      · rfl
      · have hq : |(n : ℚ)| = 2 ^ 53 := by exact_mod_cast heq
        rw [hq]
        exact lt_irrefl _
    obtain ⟨m, hm⟩ : ∃ m, n = m * 2 := ⟨n / 2, by omega⟩
    refine toDouble_of_multiple (m := m) ?_ hsmall
    rw [hlast, zpow_one, hm, Int.cast_mul, Int.cast_ofNat]

namespace Num

/-- Sums of whole numbers are exact up to `2 ^ 53`. -/
theorem add_intCast {a b : ℤ} (h : |a + b| ≤ 2 ^ 53) : add (fin a) (fin b) = fin (a + b : ℤ) := by
  rw [add, ← Int.cast_add, toDouble_intCast h]

theorem sub_intCast {a b : ℤ} (h : |a - b| ≤ 2 ^ 53) : sub (fin a) (fin b) = fin (a - b : ℤ) := by
  rw [sub, neg, ← Int.cast_neg, add_intCast (by rwa [← sub_eq_add_neg]), sub_eq_add_neg]

end Num

end Js
