import Cookbook.Number.Shortest
import Cookbook.Proofs.Number.Value
import Mathlib.Tactic.Ring

/-!
# The nearest number

The basin of a positive number holds the fractions that are nearer to it than to its neighbours, and
those half way to a neighbour if its significand is even.  Rounding takes every fraction in the
basin to the number, and always ends in the one spelling of a number.
-/

namespace Cookbook

/-- The rounded quotient is a whole number no more than a half away, and an even one if a half. -/
theorem roundEven_eq {n d s : Nat} (positive : 0 < d) (low : 2 * (s * d) ≤ 2 * n + d)
    (high : 2 * n ≤ 2 * (s * d) + d)
    (tie : s % 2 = 0 ∨ 2 * (s * d) < 2 * n + d ∧ 2 * n < 2 * (s * d) + d) :
    roundEven n d = s := by
  have division := Nat.div_add_mod n d
  have rest := Nat.mod_lt n positive
  have near : n / d = s ∨ n / d + 1 = s := by
    have first : s < n / d + 2 := by
      refine Nat.lt_of_mul_lt_mul_right (a := d) ?_
      rw [Nat.add_mul, Nat.mul_comm (n / d) d]
      omega
    have last : n / d ≤ s := by
      refine Nat.le_of_lt_succ (Nat.lt_of_mul_lt_mul_right (a := d) ?_)
      rw [Nat.succ_mul, Nat.mul_comm (n / d) d]
      omega
    omega
  unfold roundEven
  dsimp only
  rcases near with rfl | rfl
  · rw [Nat.mul_comm (n / d) d] at low high tie
    split
    · rfl
    · split
      · omega
      · split
        · rfl
        · omega
  · rw [Nat.add_mul, Nat.one_mul, Nat.mul_comm (n / d) d] at low high tie
    split
    · omega
    · split
      · rfl
      · split
        · omega
        · rfl

theorem roundEven_le {n d m : Nat} (small : n < m * d) : roundEven n d ≤ m := by
  have below : n / d < m := Nat.div_lt_of_lt_mul (Nat.mul_comm m d ▸ small)
  unfold roundEven
  dsimp only
  split
  · exact below.le
  · split
    · exact below
    · split
      · exact below.le
      · exact below

theorem le_roundEven {n d m : Nat} (positive : 0 < d) (large : m * d ≤ n) :
    m ≤ roundEven n d := by
  have above : m ≤ n / d := (Nat.le_div_iff_mul_le positive).mpr large
  unfold roundEven
  dsimp only
  split
  · exact above
  · split
    · exact above.trans (Nat.le_succ _)
    · split
      · exact above
      · exact above.trans (Nat.le_succ _)

namespace Binary64

/-- The scale on which the significand has 53 bits, or the finest one. -/
theorem scaleOf_eq {n k : Nat} (upper : n < 2 ^ (53 + k)) (lower : k = 0 ∨ 2 ^ (52 + k) ≤ n) :
    scaleOf n = k := by
  unfold scaleOf
  by_cases zero : n = 0
  · subst zero
    rcases lower with rfl | lower
    · rfl
    · exact absurd (Nat.two_pow_pos (52 + k)) (Nat.not_lt.mpr lower)
  · have above := (Nat.log2_lt zero).mpr upper
    rcases lower with rfl | lower
    · omega
    · have below := (Nat.le_log2 zero).mpr lower
      omega

theorem lt_two_pow_scaleOf (n : Nat) : n < 2 ^ (53 + scaleOf n) := by
  refine Nat.lt_log2_self.trans_le (Nat.pow_le_pow_right (by decide) ?_)
  unfold scaleOf
  omega

theorem two_pow_scaleOf_le {n : Nat} (scaled : scaleOf n ≠ 0) : 2 ^ (52 + scaleOf n) ≤ n := by
  unfold scaleOf at scaled ⊢
  have positive : n ≠ 0 := by
    rintro rfl
    exact scaled rfl
  refine (Nat.pow_le_pow_right (by decide) ?_).trans (Nat.log2_self_le positive)
  omega

section Rounded

variable {u num den s k : Nat} {negative : Bool}

theorem ofRatioBy_eq (scale : scaleOf (num * u / den) = k)
    (rounded : roundEven (num * u) (den * 2 ^ k) = s) (fits : s < 2 ^ 53) (small : k ≤ maxScale) :
    ofRatioBy u negative num den = finite negative s k := by
  unfold ofRatioBy
  dsimp only
  rw [scale, Nat.pow_eq, rounded, if_neg (show ¬s = Nat.pow 2 53 from fits.ne)]
  exact if_neg (Nat.not_lt.mpr small)

theorem ofRatioBy_eq_of_carry (scale : scaleOf (num * u / den) = k)
    (rounded : roundEven (num * u) (den * 2 ^ k) = 2 ^ 53) (small : k + 1 ≤ maxScale) :
    ofRatioBy u negative num den = finite negative (2 ^ 52) (k + 1) := by
  unfold ofRatioBy
  dsimp only
  rw [scale, Nat.pow_eq, rounded, if_pos (show 2 ^ 53 = Nat.pow 2 53 from rfl)]
  exact if_neg (Nat.not_lt.mpr small)

/-- A fraction is rounded to the one spelling of a number. -/
theorem canonical_ofRatioBy (positive : 0 < den) :
    (ofRatioBy u negative num den).Canonical := by
  have upper := lt_two_pow_scaleOf (num * u / den)
  have lower := @two_pow_scaleOf_le (num * u / den)
  unfold ofRatioBy
  dsimp only
  generalize scaleOf (num * u / den) = k at upper lower ⊢
  have below : num * u < 2 ^ 53 * (den * 2 ^ k) := by
    rw [Nat.mul_left_comm, ← Nat.pow_add]
    exact ((Nat.div_lt_iff_lt_mul positive).mp upper).trans_eq (Nat.mul_comm _ _)
  have most : roundEven (num * u) (den * Nat.pow 2 k) ≤ 2 ^ 53 := roundEven_le below
  have least (scaled : k ≠ 0) : 2 ^ 52 ≤ roundEven (num * u) (den * Nat.pow 2 k) := by
    refine le_roundEven (Nat.mul_pos positive (Nat.two_pow_pos k)) ?_
    rw [Nat.pow_eq, Nat.mul_left_comm, ← Nat.pow_add]
    exact (Nat.mul_le_mul_left den (lower scaled)).trans (Nat.mul_div_le _ _)
  generalize roundEven (num * u) (den * Nat.pow 2 k) = s at most least ⊢
  by_cases carry : s = Nat.pow 2 53
  · rw [if_pos carry]
    dsimp only
    split
    · trivial
    next fits => exact ⟨by decide, Nat.not_lt.mp fits, .inl le_rfl⟩
  · rw [if_neg carry]
    dsimp only
    split
    · trivial
    next fits =>
      refine ⟨lt_of_le_of_ne most carry, Nat.not_lt.mp fits, ?_⟩
      by_cases finest : k = 0
      · exact .inr finest
      · exact .inl (least finest)

end Rounded

namespace Basin

/-- The fraction is one that rounds to the number. -/
def Holds (b : Basin) (x : ℚ) : Prop :=
  if b.closed then b.low ≤ x * quartersPerOne ∧ x * quartersPerOne ≤ b.high
  else b.low < x * quartersPerOne ∧ x * quartersPerOne < b.high

variable {b : Basin} {num den : Nat}

theorem holds_div_iff (positive : 0 < den) : b.Holds (num / den) ↔
    if b.closed then b.low * den ≤ num * quartersPerOne ∧ num * quartersPerOne ≤ b.high * den
    else b.low * den < num * quartersPerOne ∧ num * quartersPerOne < b.high * den := by
  have divisor : (0 : ℚ) < den := Nat.cast_pos.mpr positive
  unfold Holds
  rw [div_mul_eq_mul_div, le_div_iff₀ divisor, div_le_iff₀ divisor, lt_div_iff₀ divisor,
    div_lt_iff₀ divisor]
  exact_mod_cast Iff.rfl

theorem Holds.bounds {x : ℚ} (near : b.Holds x) :
    b.low ≤ x * quartersPerOne ∧ x * quartersPerOne ≤ b.high := by
  unfold Holds at near
  split at near
  · exact near
  · exact ⟨near.1.le, near.2.le⟩

end Basin

section Nearest

variable {u num den s k : Nat} {negative : Bool}

/-- The lower end of a basin lies a quarter of a step below the number where the step halves, and
half a step below it elsewhere. -/
theorem low_basin_mul (positive : 0 < s) (den : Nat) :
    ((basin s k).low * den + 2 * (den * 2 ^ k) = 4 * (s * (den * 2 ^ k)) ∧
      ¬(s = 2 ^ 52 ∧ 0 < k)) ∨
    ((basin s k).low * den + den * 2 ^ k = 4 * (s * (den * 2 ^ k)) ∧ s = 2 ^ 52 ∧ 0 < k) := by
  obtain ⟨r, rfl⟩ := Nat.exists_eq_add_of_lt positive
  simp only [basin, Nat.pow_eq]
  split
  next halves =>
    refine .inr ⟨?_, halves⟩
    rw [show 4 * (0 + r + 1) - 1 = 4 * r + 3 by omega]
    ring
  next whole =>
    refine .inl ⟨?_, whole⟩
    rw [show 4 * (0 + r + 1) - 2 = 4 * r + 2 by omega]
    ring

/-- Between the ends of a basin, and strictly so where the significand is odd, rounding gives the
number. -/
theorem ofRatioBy_eq_of_bounds (canonical : (finite negative s k).Canonical) (positive : 0 < s)
    (divisor : 0 < den) (low : (basin s k).low * den ≤ 4 * (num * u))
    (high : 4 * (num * u) ≤ (basin s k).high * den)
    (inside : s % 2 = 0 ∨
      (basin s k).low * den < 4 * (num * u) ∧ 4 * (num * u) < (basin s k).high * den) :
    ofRatioBy u negative num den = finite negative s k := by
  obtain ⟨fits, small, normal⟩ := canonical
  simp only [Nat.pow_eq] at fits normal
  have top : (basin s k).high * den = 4 * (s * (den * 2 ^ k)) + 2 * (den * 2 ^ k) := by
    simp only [basin, Nat.pow_eq]
    ring
  have step : 0 < den * 2 ^ k := Nat.mul_pos divisor (Nat.two_pow_pos k)
  have most : s * (den * 2 ^ k) ≤ (2 ^ 53 - 1) * (den * 2 ^ k) :=
    Nat.mul_le_mul_right _ (by omega)
  rw [top] at high inside
  have upper : num * u / den < 2 ^ (53 + k) := by
    rw [Nat.div_lt_iff_lt_mul divisor, Nat.pow_add, Nat.mul_assoc, Nat.mul_comm (2 ^ k)]
    omega
  have lower {j : Nat} (large : 2 ^ 52 * (den * 2 ^ j) ≤ num * u) :
      2 ^ (52 + j) ≤ num * u / den := by
    rw [Nat.le_div_iff_mul_le divisor, Nat.pow_add, Nat.mul_assoc, Nat.mul_comm (2 ^ j)]
    exact large
  rcases @low_basin_mul s k positive den with ⟨least, whole⟩ | ⟨least, rfl, scaled⟩
  · have scale : scaleOf (num * u / den) = k := by
      refine scaleOf_eq upper ((Nat.eq_zero_or_pos k).imp id fun scaled => lower ?_)
      have more : (2 ^ 52 + 1) * (den * 2 ^ k) ≤ s * (den * 2 ^ k) :=
        Nat.mul_le_mul_right _ (by omega)
      omega
    refine ofRatioBy_eq scale (roundEven_eq step (by omega) (by omega) ?_) fits small
    rcases inside with even | inside
    · exact .inl even
    · exact .inr (by omega)
  · by_cases reached : 2 ^ 52 * (den * 2 ^ k) ≤ num * u
    · have scale := scaleOf_eq upper (.inr (lower reached))
      exact ofRatioBy_eq scale
        (roundEven_eq step (by omega) (by omega) (.inl (by decide))) fits small
    · -- Below the number the step is half as long, and rounding carries into the next scale.
      obtain ⟨j, rfl⟩ := Nat.exists_eq_succ_of_ne_zero scaled.ne'
      have halved : den * 2 ^ (j + 1) = 2 * (den * 2 ^ j) := by ring
      rw [halved] at high inside least reached step
      have scale : scaleOf (num * u / den) = j := by
        refine scaleOf_eq ?_ (.inr (lower (by omega)))
        rw [Nat.div_lt_iff_lt_mul divisor, Nat.pow_add, Nat.mul_assoc, Nat.mul_comm (2 ^ j)]
        omega
      exact ofRatioBy_eq_of_carry scale
        (roundEven_eq (by omega) (by omega) (by omega) (.inl (by decide))) small

/-- A fraction in the basin of a number is rounded to the number. -/
theorem ofRatio_eq_of_holds (canonical : (finite negative s k).Canonical) (positive : 0 < s)
    (divisor : 0 < den) (near : (basin s k).Holds (num / den)) :
    ofRatio negative num den = finite negative s k := by
  have quarters : num * quartersPerOne = 4 * (num * unitsPerOne) := Nat.mul_left_comm ..
  have bounds := (Basin.holds_div_iff divisor).mp near
  rw [quarters] at bounds
  rw [ofRatio_eq]
  split at bounds
  next even =>
    exact ofRatioBy_eq_of_bounds canonical positive divisor bounds.1 bounds.2
      (.inl (of_decide_eq_true even))
  next =>
    exact ofRatioBy_eq_of_bounds canonical positive divisor bounds.1.le bounds.2.le (.inr bounds)

theorem canonical_ofRatio (divisor : 0 < den) : (ofRatio negative num den).Canonical :=
  canonical_ofRatioBy divisor

end Nearest

end Binary64

/-- The one spelling of a number. -/
def Number.Canonical : Number → Prop
  | int _ => True
  | float x => x.Canonical

instance : DecidablePred Number.Canonical := fun
  | .int _ => inferInstanceAs (Decidable True)
  | .float x => inferInstanceAs (Decidable x.Canonical)

end Cookbook
