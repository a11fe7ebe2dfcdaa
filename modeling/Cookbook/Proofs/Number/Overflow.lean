import Cookbook.Proofs.Number.Decimal
import Cookbook.Proofs.Number.Rounding

/-!
# Overflow

The fractions that are rounded to a finite number are those below half a step beyond the largest
one.  At half a step the tie goes to the even neighbour, which is out of range.
-/

namespace Cookbook.Binary64

/-- The least magnitude that is rounded to an infinity. -/
def overflow : ℚ := 2 ^ 1024 - 2 ^ 970

section Fraction

variable {u num den top : Nat} {negative : Bool}

/-- Half a step below a power of two is rounded up to it. -/
theorem roundedBy_half (top : Nat) :
    roundedBy 1 ((2 ^ 54 - 1) * 2 ^ top) 2 = 2 ^ (53 + top) := by
  have step := Nat.two_pow_pos top
  have scale : scaleOf ((2 ^ 54 - 1) * 2 ^ top * 1 / 2) = top := by
    apply scaleOf_eq
    · rw [Nat.pow_add]
      omega
    · cases top with
      | zero => exact .inl rfl
      | succ k =>
        have next : 2 ^ (52 + (k + 1)) = 2 ^ 52 * 2 ^ (k + 1) := Nat.pow_add ..
        omega
  have rounded : roundEven ((2 ^ 54 - 1) * 2 ^ top * 1) (2 * 2 ^ top) = 2 ^ 53 := by
    apply roundEven_eq
    · omega
    · omega
    · omega
    · exact .inl rfl
  rw [roundedBy, scale, rounded, Nat.pow_add]

/-- A fraction is rounded to less than a power of two if it is more than half a step below it. -/
theorem roundedBy_lt_iff (positive : 0 < den) : roundedBy u num den < 2 ^ (53 + top) ↔
    2 * (num * u) < (2 ^ 54 - 1) * 2 ^ top * den := by
  constructor
  · contrapose!
    intro large
    have mono : roundedBy 1 ((2 ^ 54 - 1) * 2 ^ top) 2 ≤ roundedBy 1 (num * u) den :=
      roundedBy_mono Nat.two_pos positive (by omega)
    rw [roundedBy_half] at mono
    refine mono.trans_eq ?_
    rw [roundedBy, roundedBy, Nat.mul_one]
  · intro small
    have whole : (2 ^ 54 - 1) * 2 ^ top * den + den * 2 ^ top = 2 * (2 ^ (53 + top) * den) := by
      rw [Nat.pow_add]
      ring
    have scale : scaleOf (num * u / den) ≤ top := by
      apply scaleOf_le_of_lt
      rw [Nat.div_lt_iff_lt_mul positive]
      omega
    have step : den * 2 ^ scaleOf (num * u / den) ≤ den * 2 ^ top :=
      Nat.mul_le_mul_left den (Nat.pow_le_pow_right (by decide) scale)
    obtain ⟨near, _⟩ := @roundedBy_near u num den positive
    apply Nat.lt_of_mul_lt_mul_right (a := den)
    omega

theorem isFinite_ofRatioBy_iff (positive : 0 < den) :
    (ofRatioBy u negative num den).isFinite = true ↔
      2 * (num * u) < (2 ^ 54 - 1) * 2 ^ maxScale * den := by
  rw [← roundedBy_lt_iff positive]
  rcases @ofRatioBy_cases u num den negative positive with
    ⟨large, same⟩ | ⟨small, s, k, same, _⟩
  · rw [same]
    exact iff_of_false nofun large.not_gt
  · rw [same]
    exact iff_of_true rfl small

theorem overflow_mul :
    overflow * (2 * unitsPerOne) = (((2 ^ 54 - 1) * 2 ^ maxScale : Nat) : ℚ) := by
  obtain ⟨n, units, top⟩ : ∃ n, unitsPerOne = 2 ^ n ∧ maxScale = 970 + (1 + n) :=
    ⟨1074, by decide +kernel, by decide⟩
  have high : (2 : ℚ) ^ 1024 = 2 ^ 970 * 2 ^ 54 := by rw [← pow_add]
  rw [overflow, high, units, top]
  push_cast
  rw [pow_add, pow_add]
  generalize (2 : ℚ) ^ 970 = a
  ring

/-- A fraction is rounded to a finite number exactly below the overflow. -/
theorem isFinite_ofRatio_iff (positive : 0 < den) :
    (ofRatio negative num den).isFinite = true ↔ (num : ℚ) / den < overflow := by
  have divisor : (0 : ℚ) < den := by exact_mod_cast positive
  have steps : (0 : ℚ) < 2 * unitsPerOne := by
    exact mul_pos two_pos (by exact_mod_cast unitsPerOne_pos)
  rw [ofRatio_eq, isFinite_ofRatioBy_iff positive, div_lt_iff₀ divisor,
    ← mul_lt_mul_iff_of_pos_right steps, mul_right_comm overflow, overflow_mul,
    ← Nat.cast_lt (α := ℚ)]
  push_cast
  ring_nf

theorem overflow_le : overflow ≤ 10 ^ 310 := by
  have nonneg : (0 : ℚ) ≤ 2 ^ 970 := pow_nonneg (by norm_num) _
  have large : (2 : ℚ) ^ 1024 ≤ 10 ^ 310 := by
    exact_mod_cast (show 2 ^ 1024 ≤ 10 ^ 310 by decide +kernel)
  exact (sub_le_self _ nonneg).trans large

theorem one_lt_overflow : 1 < overflow := by
  have apart : (1 : ℚ) + 2 ^ 970 < 2 ^ 1024 := by
    exact_mod_cast (show 1 + 2 ^ 970 < 2 ^ 1024 by decide +kernel)
  exact lt_sub_iff_add_lt.mpr apart

/-- A decimal is read as a finite number exactly below the overflow: powers of ten are cut off only
where this is decided. -/
theorem isFinite_ofDecimal_iff (digits : Nat) (exponent : Int) :
    (ofDecimal negative digits exponent).isFinite = true ↔
      digits * (10 : ℚ) ^ exponent < overflow := by
  have ten : (1 : ℚ) ≤ 10 := by norm_num
  unfold ofDecimal
  dsimp only
  split
  next zero =>
    subst zero
    rw [Nat.cast_zero, zero_mul]
    exact iff_of_true rfl (zero_lt_one.trans one_lt_overflow)
  next nonzero =>
    split
    next large =>
      refine iff_of_false nofun (not_lt.mpr ?_)
      calc overflow ≤ 10 ^ (310 : ℤ) := overflow_le
        _ ≤ 10 ^ (((Nat.toDigits 10 digits).length : Int) + exponent - 1) :=
          zpow_le_zpow_right₀ ten (by omega)
        _ ≤ digits * 10 ^ exponent :=
          Numeral.ten_zpow_le_mul (Nat.pos_of_ne_zero nonzero) exponent
    split
    next small =>
      refine iff_of_true rfl ?_
      calc (digits : ℚ) * 10 ^ exponent
          < 10 ^ (((Nat.toDigits 10 digits).length : Int) + exponent) :=
            Numeral.mul_lt_ten_zpow digits exponent
        _ ≤ 10 ^ (0 : ℤ) := zpow_le_zpow_right₀ ten (by omega)
        _ < overflow := one_lt_overflow
    split
    next whole =>
      obtain ⟨e, rfl⟩ := Int.eq_ofNat_of_zero_le whole
      rw [isFinite_ofRatio_iff Nat.one_pos]
      simp
    next fraction =>
      obtain ⟨e, rfl⟩ : ∃ e : Nat, exponent = -e := ⟨(-exponent).toNat, by omega⟩
      have divisor : 0 < Nat.pow 10 (- -(e : Int)).toNat := Nat.pow_pos (by decide)
      rw [isFinite_ofRatio_iff divisor]
      simp [div_eq_mul_inv]

end Fraction

end Cookbook.Binary64
