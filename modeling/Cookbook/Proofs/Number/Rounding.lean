import Cookbook.Proofs.Number.Nearest

/-!
# Rounding keeps the order

A fraction is rounded to a number no more than half a step away, and of two fractions the greater
one never to the smaller number.  Numbers have a rank, in which the infinities stand beyond all
finite numbers, and compare as their ranks do.
-/

namespace Cookbook

section Whole

variable {n d m e : Nat}

/-- The rounded quotient is at most a half away, and even if it is a half away. -/
theorem roundEven_near (positive : 0 < d) :
    2 * (roundEven n d * d) ≤ 2 * n + d ∧ 2 * n ≤ 2 * (roundEven n d * d) + d ∧
      (roundEven n d % 2 = 0 ∨
        2 * (roundEven n d * d) < 2 * n + d ∧ 2 * n < 2 * (roundEven n d * d) + d) := by
  have division := Nat.div_add_mod n d
  have rest := Nat.mod_lt n positive
  have up : (n / d + 1) * d = d * (n / d) + d := by rw [Nat.succ_mul, Nat.mul_comm]
  have down : n / d * d = d * (n / d) := Nat.mul_comm ..
  unfold roundEven
  dsimp only
  split
  · rw [down]
    omega
  split
  · rw [up]
    omega
  split
  · rw [down]
    omega
  · rw [up]
    omega

/-- A greater fraction is rounded to no smaller whole number. -/
theorem roundEven_mono (first : 0 < d) (second : 0 < e) (le : n * e ≤ m * d) :
    roundEven n d ≤ roundEven m e := by
  obtain ⟨low, _, even⟩ := @roundEven_near n d first
  obtain ⟨_, high, even'⟩ := @roundEven_near m e second
  generalize roundEven n d = a at low even ⊢
  generalize roundEven m e = b at high even' ⊢
  by_contra greater
  -- Only two fractions that are equal, half way between `b` and `a`, could be rounded so.
  have apart : (b + 1) * (d * e) ≤ a * (d * e) := Nat.mul_le_mul_right _ (by omega)
  have low' : 2 * (a * (d * e)) ≤ 2 * (n * e) + d * e := by
    have scaled := Nat.mul_le_mul_right e low
    calc 2 * (a * (d * e)) = 2 * (a * d) * e := by ring
      _ ≤ (2 * n + d) * e := scaled
      _ = 2 * (n * e) + d * e := by ring
  have high' : 2 * (m * d) ≤ 2 * (b * (d * e)) + d * e := by
    have scaled := Nat.mul_le_mul_right d high
    calc 2 * (m * d) = 2 * m * d := by ring
      _ ≤ (2 * (b * e) + e) * d := scaled
      _ = 2 * (b * (d * e)) + d * e := by ring
  have tied : a = b + 1 := by
    refine Nat.eq_of_mul_eq_mul_right (Nat.mul_pos first second) (le_antisymm ?_ apart)
    rw [Nat.succ_mul]
    omega
  rw [Nat.succ_mul] at apart
  have below : ¬ 2 * (a * d) < 2 * n + d := by
    intro less
    have scaled := Nat.mul_lt_mul_of_pos_right less second
    have left : 2 * (a * d) * e = 2 * (a * (d * e)) := by ring
    have right : (2 * n + d) * e = 2 * (n * e) + d * e := by ring
    omega
  have above : ¬ 2 * m < 2 * (b * e) + e := by
    intro less
    have scaled := Nat.mul_lt_mul_of_pos_right less first
    have left : 2 * m * d = 2 * (m * d) := by ring
    have right : (2 * (b * e) + e) * d = 2 * (b * (d * e)) + d * e := by ring
    omega
  have both : a % 2 = 0 ∧ b % 2 = 0 :=
    ⟨even.resolve_right fun inside => below inside.1,
      even'.resolve_right fun inside => above inside.2⟩
  omega

end Whole

namespace Binary64

/-- The magnitude to which a fraction is rounded, were there no largest one. -/
def roundedBy (u num den : Nat) : Nat :=
  roundEven (num * u) (den * 2 ^ scaleOf (num * u / den)) * 2 ^ scaleOf (num * u / den)

theorem scaleOf_mono {n m : Nat} (le : n ≤ m) : scaleOf n ≤ scaleOf m := by
  unfold scaleOf
  refine Nat.sub_le_sub_right ?_ 52
  by_cases zero : n = 0
  · subst zero
    exact Nat.zero_le _
  · have most : n.log2 < m.log2 + 1 := (Nat.log2_lt zero).mpr (le.trans_lt Nat.lt_log2_self)
    omega

theorem scaleOf_le_of_lt {n k : Nat} (small : n < 2 ^ (53 + k)) : scaleOf n ≤ k := by
  by_contra coarser
  have large := two_pow_scaleOf_le (Nat.ne_zero_of_lt (Nat.not_le.mp coarser))
  have le : 2 ^ (53 + k) ≤ 2 ^ (52 + scaleOf n) := Nat.pow_le_pow_right (by decide) (by omega)
  omega

section Fraction

variable {u num den num' den' k : Nat} {negative : Bool}

theorem roundEven_scaled_le (positive : 0 < den) :
    roundEven (num * u) (den * 2 ^ scaleOf (num * u / den)) ≤ 2 ^ 53 := by
  refine roundEven_le ?_
  rw [Nat.mul_left_comm, ← Nat.pow_add]
  exact ((Nat.div_lt_iff_lt_mul positive).mp (lt_two_pow_scaleOf _)).trans_eq (Nat.mul_comm _ _)

theorem le_roundEven_scaled (positive : 0 < den) (scaled : scaleOf (num * u / den) ≠ 0) :
    2 ^ 52 ≤ roundEven (num * u) (den * 2 ^ scaleOf (num * u / den)) := by
  refine le_roundEven (Nat.mul_pos positive (Nat.two_pow_pos _)) ?_
  rw [Nat.mul_left_comm, ← Nat.pow_add]
  exact (Nat.mul_le_mul_left den (two_pow_scaleOf_le scaled)).trans (Nat.mul_div_le _ _)

/-- Rounding moves a fraction by half a step of its scale at most. -/
theorem roundedBy_near (positive : 0 < den) :
    2 * (roundedBy u num den * den) ≤ 2 * (num * u) + den * 2 ^ scaleOf (num * u / den) ∧
      2 * (num * u) ≤ 2 * (roundedBy u num den * den) + den * 2 ^ scaleOf (num * u / den) := by
  have step : 0 < den * 2 ^ scaleOf (num * u / den) := Nat.mul_pos positive (Nat.two_pow_pos _)
  obtain ⟨low, high, _⟩ := @roundEven_near (num * u) _ step
  have same : roundedBy u num den * den = roundEven (num * u)
      (den * 2 ^ scaleOf (num * u / den)) * (den * 2 ^ scaleOf (num * u / den)) := by
    rw [roundedBy]
    ring
  rw [same]
  exact ⟨low, high⟩

theorem roundedBy_mono (first : 0 < den) (second : 0 < den') (le : num * den' ≤ num' * den) :
    roundedBy u num den ≤ roundedBy u num' den' := by
  have steps : num * u * den' ≤ num' * u * den := by
    calc num * u * den' = num * den' * u := by ring
      _ ≤ num' * den * u := Nat.mul_le_mul_right u le
      _ = num' * u * den := by ring
  have quotients : num * u / den ≤ num' * u / den' := by
    rw [Nat.le_div_iff_mul_le second]
    refine Nat.le_of_mul_le_mul_right ?_ first
    calc num * u / den * den' * den = num * u / den * den * den' := by ring
      _ ≤ num * u * den' := Nat.mul_le_mul_right _ (Nat.div_mul_le_self _ _)
      _ ≤ num' * u * den := steps
  rcases (scaleOf_mono quotients).eq_or_lt with same | coarser
  · rw [roundedBy, roundedBy, same]
    refine Nat.mul_le_mul_right _ (roundEven_mono ?_ ?_ ?_)
    · exact Nat.mul_pos first (Nat.two_pow_pos _)
    · exact Nat.mul_pos second (Nat.two_pow_pos _)
    · calc num * u * (den' * 2 ^ scaleOf (num' * u / den'))
          = num * u * den' * 2 ^ scaleOf (num' * u / den') := by ring
        _ ≤ num' * u * den * 2 ^ scaleOf (num' * u / den') := Nat.mul_le_mul_right _ steps
        _ = num' * u * (den * 2 ^ scaleOf (num' * u / den')) := by ring
  · -- On a coarser scale the least significand stands for more than the greatest one before.
    have least := @le_roundEven_scaled u num' den' second (Nat.ne_zero_of_lt coarser)
    calc roundedBy u num den
        ≤ 2 ^ 53 * 2 ^ scaleOf (num * u / den) := Nat.mul_le_mul_right _ (roundEven_scaled_le first)
      _ = 2 ^ 52 * 2 ^ (scaleOf (num * u / den) + 1) := by ring
      _ ≤ 2 ^ 52 * 2 ^ scaleOf (num' * u / den') :=
          Nat.mul_le_mul_left _ (Nat.pow_le_pow_right (by decide) coarser)
      _ ≤ roundedBy u num' den' := Nat.mul_le_mul_right _ least

/-- The magnitude that a fraction is rounded to decides between a finite number and an infinity. -/
theorem ofRatioBy_cases (positive : 0 < den) :
    (limit ≤ roundedBy u num den ∧ ofRatioBy u negative num den = infinite negative) ∨
      roundedBy u num den < limit ∧ ∃ s k, ofRatioBy u negative num den = finite negative s k ∧
        s * 2 ^ k = roundedBy u num den := by
  have most := @roundEven_scaled_le u num den positive
  have least := @le_roundEven_scaled u num den positive
  unfold ofRatioBy roundedBy limit
  dsimp only [Nat.pow_eq]
  generalize scaleOf (num * u / den) = k at most least ⊢
  generalize roundEven (num * u) (den * 2 ^ k) = s at most least ⊢
  -- A closed power of two as great as this one is never to be computed.
  generalize maxScale = top
  by_cases carry : s = 2 ^ 53
  · have shifted : 2 ^ 52 * 2 ^ (k + 1) = s * 2 ^ k := by rw [carry]; ring
    simp only [if_pos carry]
    by_cases large : top < k + 1
    · refine .inl ⟨?_, if_pos large⟩
      rw [carry, ← Nat.pow_add]
      exact Nat.pow_le_pow_right (by decide) (by omega)
    · refine .inr ⟨?_, 2 ^ 52, k + 1, if_neg large, shifted⟩
      rw [carry, ← Nat.pow_add]
      exact Nat.pow_lt_pow_right (by decide) (by omega)
  · simp only [if_neg carry]
    by_cases large : top < k
    · refine .inl ⟨?_, if_pos large⟩
      calc 2 ^ (53 + top) = 2 ^ 52 * 2 ^ (top + 1) := by
            rw [← Nat.pow_add, Nat.add_comm top, ← Nat.add_assoc]
        _ ≤ s * 2 ^ k := Nat.mul_le_mul (least (by omega)) (Nat.pow_le_pow_right (by decide) large)
    · refine .inr ⟨?_, s, k, if_neg large, rfl⟩
      calc s * 2 ^ k < 2 ^ 53 * 2 ^ k :=
            Nat.mul_lt_mul_of_pos_right (lt_of_le_of_ne most carry) (Nat.two_pow_pos k)
        _ ≤ 2 ^ 53 * 2 ^ top :=
            Nat.mul_le_mul_left _ (Nat.pow_le_pow_right (by decide) (Nat.not_lt.mp large))
        _ = 2 ^ (53 + top) := (Nat.pow_add ..).symm

theorem ofRatioBy_ne_nan (positive : 0 < den) : ofRatioBy u negative num den ≠ nan := by
  intro undefined
  rcases @ofRatioBy_cases u num den negative positive with ⟨_, same⟩ | ⟨_, _, _, same, _⟩
  · cases undefined.symm.trans same
  · cases undefined.symm.trans same

theorem rank_ofRatioBy (positive : 0 < den) : (ofRatioBy u negative num den).rank =
    if negative then -((min (roundedBy u num den) limit : Nat) : Int)
    else (min (roundedBy u num den) limit : Nat) := by
  rcases @ofRatioBy_cases u num den negative positive with
    ⟨large, same⟩ | ⟨small, s, k, same, steps⟩
  · rw [same, Nat.min_eq_right large]
    cases negative <;> rfl
  · rw [same, Nat.min_eq_left small.le, ← steps]
    cases negative <;> rfl

/-- On a scale that has room for it a fraction is rounded to a number that is at most half a step
away. -/
theorem rank_ofRatioBy_near (positive : 0 < den) (small : num * u / den < 2 ^ (53 + k))
    (room : k ≤ maxScale) :
    ∃ n : Nat, (ofRatioBy u negative num den).rank = (if negative then -(n : Int) else n) ∧
      2 * (n * den) ≤ 2 * (num * u) + den * 2 ^ k ∧
      2 * (num * u) ≤ 2 * (n * den) + den * 2 ^ k := by
  have scale := scaleOf_le_of_lt small
  have step : den * 2 ^ scaleOf (num * u / den) ≤ den * 2 ^ k :=
    Nat.mul_le_mul_left den (Nat.pow_le_pow_right (by decide) scale)
  have least : roundedBy u num den ≤ limit := by
    unfold limit
    generalize maxScale = top at room ⊢
    calc roundedBy u num den
        ≤ 2 ^ 53 * 2 ^ scaleOf (num * u / den) :=
          Nat.mul_le_mul_right _ (roundEven_scaled_le positive)
      _ ≤ 2 ^ 53 * 2 ^ top :=
          Nat.mul_le_mul_left _ (Nat.pow_le_pow_right (by decide) (scale.trans room))
      _ = 2 ^ (53 + top) := (Nat.pow_add ..).symm
  obtain ⟨low, high⟩ := @roundedBy_near u num den positive
  refine ⟨roundedBy u num den, ?_, by omega, by omega⟩
  rw [rank_ofRatioBy positive, Nat.min_eq_left least]

/-- An order of fractions is one of the numbers that they are rounded to. -/
theorem min_roundedBy_mono (first : 0 < den) (second : 0 < den')
    (le : num * den' ≤ num' * den) :
    min (roundedBy u num den) limit ≤ min (roundedBy u num' den') limit :=
  min_le_min_right limit (roundedBy_mono first second le)

end Fraction

section Signed

variable {u den k : Nat} {a b : Int}

/-- The greater of two whole numbers is rounded to no smaller number of the parts. -/
theorem rank_ofRatioBy_mono (positive : 0 < den) (le : a ≤ b) :
    (ofRatioBy u (decide (a < 0)) a.natAbs den).rank ≤
      (ofRatioBy u (decide (b < 0)) b.natAbs den).rank := by
  have grows {m n : Nat} (le : m ≤ n) := @min_roundedBy_mono u m den n den positive positive
    (Nat.mul_le_mul_right _ le)
  simp only [rank_ofRatioBy positive, decide_eq_true_eq]
  by_cases below : b < 0
  · have grown := grows (show b.natAbs ≤ a.natAbs by omega)
    rw [if_pos (le.trans_lt below), if_pos below]
    omega
  by_cases across : a < 0
  · rw [if_pos across, if_neg below]
    omega
  · have grown := grows (show a.natAbs ≤ b.natAbs by omega)
    rw [if_neg across, if_neg below]
    omega

/-- On a scale that has room for it a whole number of parts is rounded to a number that is at most
half a step away. -/
theorem rank_ofRatioBy_between (positive : 0 < den) (small : a.natAbs * u / den < 2 ^ (53 + k))
    (room : k ≤ maxScale) :
    2 * (a * u) - (den * 2 ^ k : Nat) ≤
        2 * ((ofRatioBy u (decide (a < 0)) a.natAbs den).rank * den) ∧
      2 * ((ofRatioBy u (decide (a < 0)) a.natAbs den).rank * den) ≤
        2 * (a * u) + (den * 2 ^ k : Nat) := by
  obtain ⟨n, rank, low, high⟩ :=
    @rank_ofRatioBy_near u a.natAbs den k (decide (a < 0)) positive small room
  have product : a * (u : Int) =
      if a < 0 then -((a.natAbs * u : Nat) : Int) else (a.natAbs * u : Nat) := by
    rw [Nat.cast_mul]
    split
    next below => rw [Int.ofNat_natAbs_of_nonpos below.le, Int.neg_mul, neg_neg]
    next above => rw [Int.natAbs_of_nonneg (not_lt.mp above)]
  have scaled : (n : Int) * (den : Int) = (n * den : Nat) := (Nat.cast_mul n den).symm
  simp only [rank, product, decide_eq_true_eq]
  generalize a.natAbs * u = m at low high ⊢
  split
  · rw [Int.neg_mul, scaled]
    generalize n * den = p at low high ⊢
    omega
  · rw [scaled]
    generalize n * den = p at low high ⊢
    omega

end Signed

section Rank

variable {x y : Binary64}

theorem natAbs_units_lt (canonical : x.Canonical) : x.units.natAbs < limit := by
  cases x with
  | finite negative s k =>
    obtain ⟨fits, small, _⟩ := canonical
    have bound : s * Nat.pow 2 k < limit := by
      unfold limit
      generalize maxScale = top at small ⊢
      calc s * 2 ^ k < 2 ^ 53 * 2 ^ k := Nat.mul_lt_mul_of_pos_right fits (Nat.two_pow_pos k)
        _ ≤ 2 ^ 53 * 2 ^ top := Nat.mul_le_mul_left _ (Nat.pow_le_pow_right (by decide) small)
        _ = 2 ^ (53 + top) := (Nat.pow_add ..).symm
    cases negative <;> simpa only [units, Int.natAbs_neg, Int.natAbs_natCast] using bound
  | nan => exact Nat.two_pow_pos _
  | infinite _ => exact Nat.two_pow_pos _

theorem rank_of_isFinite (finite : x.isFinite = true) : x.rank = x.units := by
  cases x with
  | finite _ _ _ => rfl
  | nan => cases finite
  | infinite _ => cases finite

theorem addInt_of_isFinite (finite : x.isFinite = true) (n : Int) : x.addInt n =
    ofRatio (decide (x.units + n * unitsPerOne < 0)) (x.units + n * unitsPerOne).natAbs
      unitsPerOne := by
  cases x with
  | finite _ _ _ => rfl
  | nan => cases finite
  | infinite _ => cases finite

/-- A finite number stands between the two infinities. -/
theorem units_between (canonical : x.Canonical) :
    (infinite true).rank < x.units ∧ x.units < (infinite false).rank := by
  have inside := natAbs_units_lt canonical
  change -(limit : Int) < x.units ∧ x.units < (limit : Int)
  omega

/-- Numbers compare as their ranks do. -/
theorem compare?_eq_compare_rank (left : x.Canonical) (right : y.Canonical)
    (number : x ≠ nan) (number' : y ≠ nan) : x.compare? y = some (compare x.rank y.rank) := by
  have apart : (infinite true).rank < (infinite false).rank :=
    (units_between left).1.trans (units_between left).2
  cases x with
  | nan => exact absurd rfl number
  | infinite a =>
    cases y with
    | nan => exact absurd rfl number'
    | infinite b =>
      cases a <;> cases b
      · exact congrArg some (compare_eq_iff_eq.mpr rfl).symm
      · exact congrArg some (compare_gt_iff_gt.mpr apart).symm
      · exact congrArg some (compare_lt_iff_lt.mpr apart).symm
      · exact congrArg some (compare_eq_iff_eq.mpr rfl).symm
    | finite b t j =>
      cases a
      · exact congrArg some (compare_gt_iff_gt.mpr (units_between right).2).symm
      · exact congrArg some (compare_lt_iff_lt.mpr (units_between right).1).symm
  | finite a s k =>
    cases y with
    | nan => exact absurd rfl number'
    | infinite b =>
      cases b
      · exact congrArg some (compare_lt_iff_lt.mpr (units_between left).2).symm
      · exact congrArg some (compare_gt_iff_gt.mpr (units_between left).1).symm
    | finite b t j => rfl

end Rank

end Binary64

end Cookbook
