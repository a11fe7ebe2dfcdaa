import Cookbook.Proofs.Number.Rounding
import Mathlib.Algebra.Order.Field.Basic
import Mathlib.Tactic.FieldSimp
import Mathlib.Tactic.Linarith

/-!
# How far rounding moves a fraction

Rounding leaves a whole number of few bits alone, and moves a fraction by no more than half of the
last place that its leading bits leave room for.
-/

namespace Cookbook

theorem roundEven_mul {d : Nat} (positive : 0 < d) (n : Nat) : roundEven (n * d) d = n :=
  roundEven_eq positive (by omega) (by omega) (.inr (by omega))

/-- What is half of `w` steps away at most in whole numbers is so as a fraction. -/
theorem abs_sub_div_le {a n d w : Nat} (positive : 0 < d) (low : 2 * (a * d) ≤ 2 * n + d * w)
    (high : 2 * n ≤ 2 * (a * d) + d * w) : |(a : ℚ) - n / d| ≤ w / 2 := by
  have divisor : (0 : ℚ) < d := Nat.cast_pos.mpr positive
  have low' : (2 : ℚ) * (a * d) ≤ 2 * n + d * w := by exact_mod_cast low
  have high' : (2 : ℚ) * n ≤ 2 * (a * d) + d * w := by exact_mod_cast high
  have split : (a - n / d : ℚ) = (a * d - n) / d := by field_simp
  rw [split, abs_div, abs_of_pos divisor, div_le_iff₀ divisor, abs_le]
  constructor <;> linarith

theorem abs_roundEven_sub_le {n d : Nat} (positive : 0 < d) :
    |(roundEven n d : ℚ) - n / d| ≤ 1 / 2 := by
  obtain ⟨low, high, _⟩ := @roundEven_near n d positive
  have near := @abs_sub_div_le (roundEven n d) n d 1 positive (by omega) (by omega)
  rwa [Nat.cast_one] at near

namespace Binary64

variable {e num den : Nat}

/-- A whole number of 53 bits is not rounded. -/
theorem roundedBy_mul {n : Nat} (positive : 0 < den) (small : n < 2 ^ 53) :
    roundedBy (2 ^ e) (n * den) den = n * 2 ^ e := by
  have whole : n * den * 2 ^ e / den = n * 2 ^ e := by
    rw [Nat.mul_right_comm, Nat.mul_div_cancel _ positive]
  have scale : scaleOf (n * 2 ^ e) ≤ e := scaleOf_le_of_lt (mul_two_pow_lt small)
  rw [roundedBy, whole]
  generalize scaleOf (n * 2 ^ e) = k at scale ⊢
  obtain ⟨j, rfl⟩ := Nat.exists_eq_add_of_le' scale
  have step : 0 < den * 2 ^ k := Nat.mul_pos positive (Nat.two_pow_pos k)
  have aligned : n * den * 2 ^ (j + k) = n * 2 ^ j * (den * 2 ^ k) := by ring
  rw [aligned, roundEven_mul step, Nat.pow_add, Nat.mul_assoc]

/-- Rounding moves a fraction below `2 ^ b` by half of the last of 53 bits at most. -/
theorem abs_roundedBy_sub_le {b : Nat} (positive : 0 < den) (small : num < 2 ^ b * den)
    (fine : 53 ≤ b + e) :
    |(roundedBy (2 ^ e) num den : ℚ) / 2 ^ e - num / den| ≤ 2 ^ b / 2 ^ 54 := by
  obtain ⟨k, bits⟩ := Nat.exists_eq_add_of_le fine
  have scale : scaleOf (num * 2 ^ e / den) ≤ k := by
    apply scaleOf_le_of_lt
    rw [← bits, Nat.div_lt_iff_lt_mul positive, Nat.pow_add, Nat.mul_right_comm]
    exact Nat.mul_lt_mul_of_pos_right small (Nat.two_pow_pos e)
  have step : den * 2 ^ scaleOf (num * 2 ^ e / den) ≤ den * 2 ^ k :=
    Nat.mul_le_mul_left den (Nat.pow_le_pow_right (by decide) scale)
  obtain ⟨low, high⟩ := @roundedBy_near (2 ^ e) num den positive
  have unit : (0 : ℚ) < 2 ^ e := by positivity
  have near := @abs_sub_div_le (roundedBy (2 ^ e) num den) (num * 2 ^ e) den (2 ^ k) positive
    (low.trans (Nat.add_le_add_left step _)) (high.trans (Nat.add_le_add_left step _))
  have last : (2 ^ b / 2 ^ 54 * 2 ^ e : ℚ) = 2 ^ k / 2 := by
    calc (2 : ℚ) ^ b / 2 ^ 54 * 2 ^ e = 2 ^ (b + e) / 2 ^ 54 := by ring
      _ = 2 ^ k / 2 := by rw [bits]; ring
  have scaled : (roundedBy (2 ^ e) num den / 2 ^ e - num / den : ℚ) =
      (roundedBy (2 ^ e) num den - num * 2 ^ e / den) / 2 ^ e := by field_simp
  rw [scaled, abs_div, abs_of_pos unit, div_le_iff₀ unit, last]
  exact_mod_cast near

end Binary64

end Cookbook
