import Beluga.Js.Numbers

/-! # Rounding never passes a double

The first of the 53 bits of a number bounds it from both sides (`lt_lastBit`,
`lastBit_le`), so a number below a double is rounded to one that is not above it.

* `not_lt_toDouble`: rounding does not lift a number over a double.
-/

namespace Js

/-- A number that is its own nearest double. -/
def IsDouble (q : ℚ) : Prop := toDouble q = .fin q

/-! ## The bits of a number -/

private theorem two_pos : (0 : ℚ) < 2 := by norm_num

theorem log2_bounds {n : ℕ} (hn : n ≠ 0) :
    (2 : ℚ) ^ (Nat.log2 n : ℤ) ≤ n ∧ (n : ℚ) < 2 ^ ((Nat.log2 n : ℤ) + 1) := by
  have hle := Nat.log2_self_le hn
  have hlt := @Nat.lt_log2_self n
  have hexp : ((Nat.log2 n : ℤ) + 1) = ((Nat.log2 n + 1 : ℕ) : ℤ) := by push_cast; rfl
  rw [hexp, zpow_natCast, zpow_natCast]
  exact ⟨by exact_mod_cast hle, by exact_mod_cast hlt⟩

/-- The quotient of the first bits is off by one at most. -/
theorem firstBit_bounds {q : ℚ} (hq : q ≠ 0) :
    (2 : ℚ) ^ (firstBit q - 1) ≤ |q| ∧ |q| < 2 ^ (firstBit q + 1) := by
  have hnum : q.num.natAbs ≠ 0 := by
    rw [Int.natAbs_ne_zero]
    exact Rat.num_ne_zero.mpr hq
  obtain ⟨hn, hn'⟩ := log2_bounds hnum
  obtain ⟨hd, hd'⟩ := log2_bounds q.den_ne_zero
  have hden : (0 : ℚ) < q.den := by exact_mod_cast q.den_pos
  have habs : |q| = (q.num.natAbs : ℚ) / q.den := by
    conv_lhs => rw [← Rat.num_div_den q]
    rw [abs_div, Nat.abs_cast, Nat.cast_natAbs, Int.cast_abs]
  rw [habs, le_div_iff₀ hden, div_lt_iff₀ hden]
  refine ⟨?_, ?_⟩
  · calc (2 : ℚ) ^ (firstBit q - 1) * q.den
        ≤ 2 ^ (firstBit q - 1) * 2 ^ ((Nat.log2 q.den : ℤ) + 1) :=
          mul_le_mul_of_nonneg_left hd'.le (zpow_nonneg two_pos.le _)
      _ = 2 ^ (Nat.log2 q.num.natAbs : ℤ) := by
          rw [← zpow_add₀ two_pos.ne', firstBit]
          congr 1
          omega
      _ ≤ q.num.natAbs := hn
  · calc (q.num.natAbs : ℚ) < 2 ^ ((Nat.log2 q.num.natAbs : ℤ) + 1) := hn'
      _ = 2 ^ (firstBit q + 1) * 2 ^ (Nat.log2 q.den : ℤ) := by
          rw [← zpow_add₀ two_pos.ne', firstBit]
          congr 1
          omega
      _ ≤ 2 ^ (firstBit q + 1) * q.den :=
          mul_le_mul_of_nonneg_left hd (zpow_nonneg two_pos.le _)

/-- A number has no more than 53 bits before its last one. -/
theorem lt_lastBit {q : ℚ} (hq : q ≠ 0) : |q| < 2 ^ (lastBit q + 53) := by
  obtain ⟨-, hlt⟩ := firstBit_bounds hq
  unfold lastBit
  split_ifs with h
  · exact lt_of_lt_of_le h (zpow_le_zpow_right₀ one_le_two (by omega))
  · exact lt_of_lt_of_le hlt (zpow_le_zpow_right₀ one_le_two (by omega))

/-- And it has 53, but for those close to zero. -/
theorem lastBit_le {q : ℚ} (hq : q ≠ 0) (h : -1074 < lastBit q) : 2 ^ (lastBit q + 52) ≤ |q| := by
  obtain ⟨hle, -⟩ := firstBit_bounds hq
  unfold lastBit at h ⊢
  split_ifs at h ⊢ with hfirst
  · have hexp : max (firstBit q - 1 - 52) (-1074) + 52 = firstBit q - 1 := by omega
    rw [hexp]
    exact hle
  · have hexp : max (firstBit q - 52) (-1074) + 52 = firstBit q := by omega
    rw [hexp]
    exact not_lt.mp hfirst

theorem lastBit_ge (q : ℚ) : -1074 ≤ lastBit q := le_max_right _ _

/-! ## Rounding -/

/-- The nearest whole number is not above a whole number that is not below. -/
theorem roundHalfEven_le {q : ℚ} {n : ℤ} (h : q ≤ n) : roundHalfEven q ≤ n := by
  have hfloor : (⌊q⌋ : ℚ) ≤ q := Int.floor_le q
  have hle : ⌊q⌋ ≤ n := by exact_mod_cast hfloor.trans h
  rcases hle.lt_or_eq with hlt | heq
  · unfold roundHalfEven
    split_ifs <;> omega
  · -- then `q` is that whole number
    have hq : q - ⌊q⌋ < 1 / 2 := by
      rw [heq]
      linarith
    rw [roundHalfEven, if_pos hq]
    exact hle

/-- What a number is rounded to, before the range is looked at. -/
def rounded (q : ℚ) : ℚ := roundHalfEven (q / 2 ^ lastBit q) * 2 ^ lastBit q

theorem toDouble_eq (q : ℚ) : toDouble q =
    if |rounded q| < 2 ^ 1024 then .fin (rounded q) else if 0 < rounded q then .posInf else .negInf :=
  rfl

theorem rounded_of_isDouble {q : ℚ} (h : IsDouble q) : rounded q = q ∧ |q| < 2 ^ 1024 := by
  rw [IsDouble, toDouble_eq] at h
  split_ifs at h with hsmall
  have heq : rounded q = q := Num.fin.inj h
  exact ⟨heq, by rwa [heq] at hsmall⟩

/-- A number is rounded to no more than a multiple of its last bit above it. -/
theorem rounded_le {q : ℚ} {m : ℤ} (h : q ≤ m * 2 ^ lastBit q) :
    rounded q ≤ m * 2 ^ lastBit q := by
  have hpos : (0 : ℚ) < 2 ^ lastBit q := zpow_pos two_pos _
  have hround := roundHalfEven_le ((div_le_iff₀ hpos).mpr h)
  exact mul_le_mul_of_nonneg_right (by exact_mod_cast hround) hpos.le

theorem abs_lt_of_lastBit_lt {x t : ℚ} (h : lastBit t < lastBit x) (hx : x ≠ 0) :
    |t| < 2 ^ (lastBit x + 52) ∧ 2 ^ (lastBit x + 52) ≤ |x| := by
  refine ⟨?_, lastBit_le hx ((lastBit_ge t).trans_lt h)⟩
  by_cases ht : t = 0
  · rw [ht, abs_zero]
    exact zpow_pos two_pos _
  · exact (lt_lastBit ht).trans_le (zpow_le_zpow_right₀ one_le_two (by omega))

theorem rounded_le_of_isDouble {x t : ℚ} (ht : IsDouble t) (h : x ≤ t) : rounded x ≤ t := by
  obtain ⟨hround, -⟩ := rounded_of_isDouble ht
  by_cases hx : x = 0
  · have hzero : rounded x = 0 := by
      rw [hx, rounded, zero_div]
      simp [roundHalfEven]
    rw [hzero, ← hx]
    exact h
  · by_cases hlast : lastBit x ≤ lastBit t
    · -- `t` is a multiple of the last bit of `x`
      obtain ⟨k, hk⟩ : ∃ k : ℕ, lastBit t = lastBit x + k :=
        ⟨(lastBit t - lastBit x).toNat, by omega⟩
      have hmultiple :
          t = ((roundHalfEven (t / 2 ^ lastBit t) * 2 ^ k : ℤ) : ℚ) * 2 ^ lastBit x := by
        conv_lhs => rw [← hround, rounded, hk, zpow_add₀ two_pos.ne', zpow_natCast]
        push_cast
        rw [hk, zpow_add₀ two_pos.ne', zpow_natCast]
        ring
      have hle := @rounded_le x (roundHalfEven (t / 2 ^ lastBit t) * 2 ^ k)
      rw [← hmultiple] at hle
      exact hle h
    · -- `x` is larger, so it is negative
      obtain ⟨hsmall, hlarge⟩ := abs_lt_of_lastBit_lt (not_le.mp hlast) hx
      obtain ⟨hlow, hhigh⟩ := abs_lt.mp hsmall
      have hneg : x < 0 := by
        by_contra hnonneg
        rw [abs_of_nonneg (not_lt.mp hnonneg)] at hlarge
        linarith
      rw [abs_of_neg hneg] at hlarge
      have hmultiple : ((-2 ^ 52 : ℤ) : ℚ) * 2 ^ lastBit x = -2 ^ (lastBit x + 52) := by
        rw [zpow_add₀ two_pos.ne']
        norm_num
        ring
      have hle := @rounded_le x (-2 ^ 52)
      rw [hmultiple] at hle
      linarith [hle (by linarith)]

/-- Rounding does not lift a number over a double. -/
theorem not_lt_toDouble {x t : ℚ} (ht : IsDouble t) (h : x ≤ t) :
    (Num.fin t).lt (toDouble x) = false := by
  have hle := rounded_le_of_isDouble ht h
  rw [toDouble_eq]
  split_ifs with hsmall hpos
  · simpa [Num.lt] using hle
  · -- a sum that overflows is above every double
    obtain ⟨-, hrange⟩ := rounded_of_isDouble ht
    rw [abs_of_pos hpos] at hsmall
    exact absurd (hle.trans_lt ((le_abs_self t).trans_lt hrange)) hsmall
  · rfl

end Js
