import Cookbook.Proofs.Listing.Answered
import Cookbook.Proofs.Number.Error

/-!
# How progress goes with the counts

A percentage is rounded three times: the quotient, a hundred times the quotient, and the decimal
with two places.  Each rounding keeps the order and leaves alone what is a whole number, so that the
percentage never falls when more is published, and is off by little more than half of its last
place.
-/

namespace Cookbook

namespace Binary64

/-- The number is finite, not negative, and this many finest steps above zero. -/
def AtStep (x : Binary64) (n : Nat) : Prop := ∃ s k, x = finite false s k ∧ s * 2 ^ k = n

variable {x y : Binary64} {n m num den : Nat}

namespace AtStep

theorem isFinite (stands : x.AtStep n) : x.isFinite = true := by
  obtain ⟨s, k, rfl, _⟩ := stands
  rfl

theorem units (stands : x.AtStep n) : x.units = n := by
  obtain ⟨s, k, rfl, rfl⟩ := stands
  rfl

theorem value (stands : x.AtStep n) : x.value = n / unitsPerOne := by
  rw [Binary64.value, stands.units, Int.cast_natCast]

theorem value_le (left : x.AtStep n) (right : y.AtStep m) (le : n ≤ m) : x.value ≤ y.value := by
  rw [left.value, right.value]
  exact div_le_div_of_nonneg_right (Nat.cast_le.mpr le) (Nat.cast_nonneg _)

theorem compare? (left : x.AtStep n) (right : y.AtStep m) :
    x.compare? y = some (compare n m) := by
  obtain ⟨s, k, rfl, rfl⟩ := left
  obtain ⟨t, j, rfl, rfl⟩ := right
  have cast := Nat.strictMono_cast (α := Int) |>.cmp_map_eq (s * 2 ^ k) (t * 2 ^ j)
  rw [cmp_eq_compare, cmp_eq_compare] at cast
  exact congrArg some cast

theorem scaleBy (stands : x.AtStep n) (factor : Nat) :
    x.scaleBy factor = ofRatio false (n * factor) unitsPerOne := by
  obtain ⟨s, k, rfl, rfl⟩ := stands
  rfl

theorem roundTo (stands : x.AtStep n) (places : Nat) : x.roundTo places =
    ofRatio false (roundEven (n * 10 ^ places) unitsPerOne) (10 ^ places) := by
  obtain ⟨s, k, rfl, rfl⟩ := stands
  rfl

end AtStep

theorem atStep_ofRatioBy {u : Nat} (positive : 0 < den) (small : roundedBy u num den < limit) :
    (ofRatioBy u false num den).AtStep (roundedBy u num den) := by
  rcases @ofRatioBy_cases u num den false positive with ⟨large, _⟩ | ⟨_, s, k, same, steps⟩
  · exact absurd small large.not_gt
  · exact ⟨s, k, same, steps⟩

end Binary64

namespace Progress

open Binary64

/-- The steps of a hundred times a quotient, and of no more than a hundred. -/
def hundredfold (u published target : Nat) : Nat :=
  min (roundedBy u (roundedBy u published target * 100) u) (100 * u)

/-- The steps of the decimal with two places that is nearest to `n` steps. -/
def twoPlaces (u n : Nat) : Nat := roundedBy u (roundEven (n * 100) u) 100

/-- The steps of a percentage on a grid of `u` steps in one. -/
def percentSteps (u published target : Nat) : Nat := twoPlaces u (hundredfold u published target)

section Steps

variable {u e n m p q t t' : Nat}

theorem twoPlaces_mono (unit : 0 < u) (le : n ≤ m) : twoPlaces u n ≤ twoPlaces u m :=
  roundedBy_mono (by decide) (by decide) <| Nat.mul_le_mul_right 100 <|
    roundEven_mono unit unit <| Nat.mul_le_mul_right u <| Nat.mul_le_mul_right 100 le

theorem twoPlaces_hundred : twoPlaces (2 ^ e) (100 * 2 ^ e) = 100 * 2 ^ e := by
  rw [twoPlaces, Nat.mul_right_comm, roundEven_mul (Nat.two_pow_pos e),
    roundedBy_mul (by decide) (by decide)]

theorem hundredfold_mono (unit : 0 < u) (first : 0 < t) (second : 0 < t')
    (le : p * t' ≤ q * t) : hundredfold u p t ≤ hundredfold u q t' :=
  min_le_min_right _ <| roundedBy_mono unit unit <|
    Nat.mul_le_mul_right u <| Nat.mul_le_mul_right 100 <| roundedBy_mono first second le

theorem roundedBy_self (positive : 0 < t) : roundedBy (2 ^ e) t t = 2 ^ e := by
  have one := @roundedBy_mul e t 1 positive (by decide)
  rwa [Nat.one_mul, Nat.one_mul] at one

theorem hundredfold_self (positive : 0 < t) : hundredfold (2 ^ e) t t = 100 * 2 ^ e := by
  rw [hundredfold, roundedBy_self positive, Nat.mul_comm (2 ^ e),
    roundedBy_mul (Nat.two_pow_pos e) (by decide), Nat.min_self]

/-- A greater share of the target is no smaller percentage. -/
theorem percentSteps_mono (unit : 0 < u) (first : 0 < t) (second : 0 < t')
    (le : p * t' ≤ q * t) : percentSteps u p t ≤ percentSteps u q t' :=
  twoPlaces_mono unit (hundredfold_mono unit first second le)

theorem percentSteps_le (e p t : Nat) : percentSteps (2 ^ e) p t ≤ 100 * 2 ^ e :=
  (twoPlaces_mono (Nat.two_pow_pos e) (Nat.min_le_right _ _)).trans_eq twoPlaces_hundred

theorem percentSteps_of_le (positive : 0 < t) (reached : t ≤ p) :
    percentSteps (2 ^ e) p t = 100 * 2 ^ e := by
  refine le_antisymm (percentSteps_le e p t) ?_
  have whole : percentSteps (2 ^ e) t t = 100 * 2 ^ e := by
    rw [percentSteps, hundredfold_self positive, twoPlaces_hundred]
  rw [← whole]
  exact percentSteps_mono (Nat.two_pow_pos e) positive positive (Nat.mul_le_mul_right t reached)

/-- Half of the second place comes from the decimal, and next to nothing from the other
roundings. -/
theorem percentSteps_near (fine : 53 ≤ e) (positive : 0 < t) (short : p < t) :
    |(percentSteps (2 ^ e) p t : ℚ) / 2 ^ e - 100 * p / t| < 6 / 1000 := by
  -- Each stage is close to the exact value of the stage before it, and small enough for the next.
  have unit := Nat.two_pow_pos e
  have quotient := @abs_roundedBy_sub_le e p t 0 positive (by omega) (by omega)
  have most : roundedBy (2 ^ e) p t ≤ 2 ^ e :=
    (roundedBy_mono positive positive (Nat.mul_le_mul_right t short.le)).trans_eq
      (roundedBy_self positive)
  rw [percentSteps, hundredfold]
  generalize roundedBy (2 ^ e) p t = a at quotient most ⊢
  have product := @abs_roundedBy_sub_le e (a * 100) (2 ^ e) 7 unit (by omega) (by omega)
  have most : roundedBy (2 ^ e) (a * 100) (2 ^ e) ≤ 100 * 2 ^ e :=
    (roundedBy_mono unit unit (Nat.mul_le_mul_right _ (by omega))).trans_eq
      (roundedBy_mul unit (by decide))
  rw [Nat.min_eq_left most]
  generalize roundedBy (2 ^ e) (a * 100) (2 ^ e) = b at product most ⊢
  have hundredths := @abs_roundEven_sub_le (b * 100) (2 ^ e) unit
  have most : roundEven (b * 100) (2 ^ e) ≤ 10000 :=
    (roundEven_mono unit unit (Nat.mul_le_mul_right _ (by omega))).trans_eq
      (roundEven_mul unit 10000)
  rw [twoPlaces]
  generalize roundEven (b * 100) (2 ^ e) = d at hundredths most ⊢
  have decimal := @abs_roundedBy_sub_le e d 100 7 (by decide) (by omega) (by omega)
  push_cast at product hundredths decimal
  rw [mul_div_right_comm] at product hundredths
  rw [mul_div_assoc]
  rw [abs_le] at quotient product hundredths decimal
  rw [abs_lt]
  constructor <;> linarith

end Steps

/-- One is a power of two of the finest steps, and a hundred is far below the largest number. -/
theorem exists_unitsPerOne_eq : ∃ e, unitsPerOne = 2 ^ e ∧ 53 ≤ e ∧ 100 * 2 ^ e < limit := by
  obtain ⟨e, units, fine, room⟩ : ∃ e, unitsPerOne = 2 ^ e ∧ 53 ≤ e ∧ 7 + e ≤ 53 + maxScale :=
    ⟨1074, by decide +kernel, by decide, by decide⟩
  refine ⟨e, units, fine, ?_⟩
  calc 100 * 2 ^ e < 2 ^ 7 * 2 ^ e := Nat.mul_lt_mul_of_pos_right (by decide) (Nat.two_pow_pos e)
    _ = 2 ^ (7 + e) := (Nat.pow_add ..).symm
    _ ≤ limit := Nat.pow_le_pow_right (by decide) room

theorem atStep_hundred : (ofInt 100).AtStep (100 * unitsPerOne) := by
  obtain ⟨e, units, -, room⟩ := exists_unitsPerOne_eq
  have exact : roundedBy unitsPerOne 100 1 = 100 * unitsPerOne := by
    rw [units]
    exact @roundedBy_mul e 1 100 Nat.one_pos (by decide)
  have small : roundedBy unitsPerOne 100 1 < limit := by rwa [exact, units]
  rw [show ofInt 100 = ofRatio false 100 1 from rfl, ofRatio_eq, ← exact]
  exact atStep_ofRatioBy Nat.one_pos small

theorem atStep_clamp_infinite : (clamp (infinite false)).AtStep (100 * unitsPerOne) := by
  have hundred := atStep_hundred
  unfold clamp
  obtain ⟨s, k, same, steps⟩ := hundred
  dsimp only
  rw [same]
  exact ⟨s, k, rfl, steps⟩

theorem atStep_clamp {x : Binary64} {n : Nat} (stands : x.AtStep n) :
    (clamp x).AtStep (min n (100 * unitsPerOne)) := by
  have zero : Binary64.zero.AtStep 0 := ⟨0, 0, rfl, Nat.zero_mul _⟩
  have least : (Binary64.zero.compare? x == some .gt) = false := by
    rw [zero.compare? stands, beq_eq_false_iff_ne, Ne, Option.some.injEq, compare_gt_iff_gt]
    exact Nat.not_lt_zero n
  unfold clamp
  dsimp only
  rw [least, if_neg Bool.false_ne_true, atStep_hundred.compare? stands]
  by_cases beyond : 100 * unitsPerOne < n
  · rw [if_pos (beq_iff_eq.mpr (congrArg some (compare_lt_iff_lt.mpr beyond))),
      Nat.min_eq_right beyond.le]
    exact atStep_hundred
  · have within : compare (100 * unitsPerOne) n ≠ .lt := mt compare_lt_iff_lt.mp beyond
    rw [if_neg (mt beq_iff_eq.mp (mt Option.some.inj within)),
      Nat.min_eq_left (Nat.not_lt.mp beyond)]
    exact stands

/-- Whatever a hundred times a quotient is, an infinity included, it is cut off at a hundred. -/
theorem atStep_clamp_scaleBy {x : Binary64} {n : Nat} (stands : x.AtStep n) :
    (clamp (x.scaleBy 100)).AtStep
      (min (roundedBy unitsPerOne (n * 100) unitsPerOne) (100 * unitsPerOne)) := by
  rw [stands.scaleBy, ofRatio_eq]
  rcases @ofRatioBy_cases unitsPerOne (n * 100) unitsPerOne false unitsPerOne_pos with
    ⟨large, same⟩ | ⟨_, s, k, same, steps⟩
  · obtain ⟨e, units, -, room⟩ := exists_unitsPerOne_eq
    rw [← units] at room
    rw [same, Nat.min_eq_right (room.le.trans large)]
    exact atStep_clamp_infinite
  · exact atStep_clamp ⟨s, k, same, steps⟩

/-- The steps of the percentage of any target. -/
def stepsOf (published : Nat) (target : Int) : Nat :=
  if target ≤ 0 then 0 else percentSteps unitsPerOne published target.toNat

section Computed

variable {p q : Nat} {target further : Int}

theorem stepsOf_le_of_published (more : p ≤ q) : stepsOf p target ≤ stepsOf q target := by
  unfold stepsOf
  split
  next => exact le_rfl
  next positive =>
    have divisor : 0 < target.toNat := by omega
    exact percentSteps_mono unitsPerOne_pos divisor divisor (Nat.mul_le_mul_right _ more)

theorem stepsOf_le_of_target (positive : 0 < target) (less : target ≤ further) :
    stepsOf p further ≤ stepsOf p target := by
  rw [stepsOf, stepsOf, if_neg (by omega), if_neg (by omega)]
  exact percentSteps_mono unitsPerOne_pos (by omega) (by omega) (Nat.mul_le_mul_left p (by omega))

theorem exists_atStep_percent? (word : (Number.int p).FitsWord) (target : Int) :
    ∃ x, percent? p target = some x ∧ x.AtStep (stepsOf p target) := by
  unfold percent? stepsOf
  split
  next => exact ⟨_, rfl, 0, 0, rfl, Nat.zero_mul _⟩
  next positive =>
    have divisor : 0 < target.toNat := by omega
    have sign : decide ((p : Int) < 0) = false := by simp
    have small : p < 2 ^ 64 := by
      obtain ⟨_, high⟩ := word
      omega
    have finite := @isFinite_ofRatio false p target.toNat small
    have quotient : (ofRatio false p target.toNat).AtStep
        (roundedBy unitsPerOne p target.toNat) := by
      rcases @ofRatioBy_cases unitsPerOne p target.toNat false divisor with
        ⟨_, same⟩ | ⟨_, s, k, same, steps⟩
      · rw [ofRatio_eq, same] at finite
        cases finite
      · exact ⟨s, k, same, steps⟩
    have most : percentSteps unitsPerOne p target.toNat < limit := by
      obtain ⟨e, units, -, room⟩ := exists_unitsPerOne_eq
      rw [units]
      exact (percentSteps_le ..).trans_lt room
    rw [sign, Int.natAbs_natCast]
    dsimp only
    rw [if_pos finite]
    refine ⟨_, rfl, ?_⟩
    rw [(atStep_clamp_scaleBy quotient).roundTo, ofRatio_eq]
    exact atStep_ofRatioBy (by decide) most

theorem atStep_of_percent?_eq_some {x : Binary64} (word : (Number.int p).FitsWord)
    (computed : percent? p target = some x) : x.AtStep (stepsOf p target) := by
  obtain ⟨y, same, stands⟩ := exists_atStep_percent? word target
  rwa [Option.some.inj (computed.symm.trans same)]

/-- Where the percentage of a target lies. -/
theorem value_bounds {x : Binary64} (stands : x.AtStep (stepsOf p target)) :
    0 ≤ x.value ∧ x.value ≤ 100 ∧ (target ≤ 0 → x.value = 0) ∧
      (0 < target → (target ≤ p → x.value = 100) ∧
        |x.value - min 100 (100 * (p : ℚ) / (target : ℚ))| < 6 / 1000) := by
  obtain ⟨e, units, fine, -⟩ := exists_unitsPerOne_eq
  have value := stands.value
  rw [stepsOf, units, Nat.cast_pow, Nat.cast_ofNat] at value
  have unit : (0 : ℚ) < 2 ^ e := by positivity
  by_cases none : target ≤ 0
  · rw [if_pos none, Nat.cast_zero, zero_div] at value
    rw [value]
    exact ⟨le_rfl, by norm_num, fun _ => rfl, fun positive => absurd none (by omega)⟩
  · obtain ⟨t, rfl⟩ := Int.eq_ofNat_of_zero_le (by omega : 0 ≤ target)
    have divisor : 0 < t := by omega
    rw [if_neg none, Int.toNat_natCast] at value
    have most : (percentSteps (2 ^ e) p t : ℚ) ≤ 100 * 2 ^ e := by
      exact_mod_cast percentSteps_le e p t
    have divisor' : (0 : ℚ) < t := Nat.cast_pos.mpr divisor
    rw [value, Int.cast_natCast]
    refine ⟨div_nonneg (Nat.cast_nonneg _) unit.le, (div_le_iff₀ unit).mpr most,
      fun low => absurd low none, fun _ => ?_⟩
    by_cases reached : t ≤ p
    · have whole : (percentSteps (2 ^ e) p t : ℚ) / 2 ^ e = 100 := by
        rw [percentSteps_of_le divisor reached, Nat.cast_mul, Nat.cast_pow]
        exact mul_div_cancel_right₀ _ unit.ne'
      have beyond : (100 : ℚ) ≤ 100 * p / t := by
        rw [le_div_iff₀ divisor']
        exact mul_le_mul_of_nonneg_left (Nat.cast_le.mpr reached) (by norm_num)
      rw [whole, min_eq_left beyond, sub_self, abs_zero]
      exact ⟨fun _ => rfl, by norm_num⟩
    · have within : 100 * (p : ℚ) / t ≤ 100 := by
        rw [div_le_iff₀ divisor']
        exact mul_le_mul_of_nonneg_left (Nat.cast_le.mpr (by omega)) (by norm_num)
      rw [min_eq_right within]
      exact ⟨fun enough => absurd enough (by omega), percentSteps_near fine divisor (by omega)⟩

end Computed

/-- The progress is a number that has reached the threshold. -/
def Reaches (x : Binary64) (threshold : Number) : Prop :=
  ∃ o, (Number.float x).compare? threshold = some o ∧ o ≠ .lt

/-- What has reached a threshold does not fall below it by growing. -/
theorem Reaches.mono {x y : Binary64} {n m : Nat} {threshold : Number}
    (reached : Reaches x threshold) (less : x.AtStep n) (more : y.AtStep m) (le : n ≤ m) :
    Reaches y threshold := by
  have units : x.units ≤ y.units := by
    rw [less.units, more.units]
    exact Int.ofNat_le.mpr le
  have grown {v : Int} (least : compare x.units v ≠ .lt) : compare y.units v ≠ .lt := by
    rw [Ne, compare_lt_iff_lt] at *
    omega
  obtain ⟨s, k, rfl, -⟩ := less
  obtain ⟨t, j, rfl, -⟩ := more
  obtain ⟨o, compared, least⟩ := reached
  cases threshold with
  | int v =>
    obtain rfl := Option.some.inj compared
    exact ⟨_, rfl, grown least⟩
  | float z =>
    cases z with
    | nan => cases compared
    | infinite negative =>
      obtain rfl := Option.some.inj compared
      exact ⟨_, rfl, least⟩
    | finite negative r i =>
      obtain rfl := Option.some.inj compared
      exact ⟨_, rfl, grown least⟩

section Counted

variable {counts : Counts} {minRequired target : Int} {threshold : Number} {p : Progress}

theorem of_of_eq_ok (measured : Progress.of counts minRequired target threshold = .ok p) :
    percent? counts.published target = some p.progress ∧
      p.qualified = decide (minRequired ≤ counts.published) ∧
      (p.near = true ↔ p.qualified = false ∧ Reaches p.progress threshold) := by
  unfold Progress.of at measured
  split at measured
  next => cases measured
  next x computed =>
    obtain rfl := Except.ok.inj measured
    refine ⟨computed, rfl, ?_⟩
    rw [Bool.and_eq_true, Bool.not_eq_true']
    refine and_congr_right' ?_
    unfold Reaches
    cases (Number.float x).compare? threshold <;> simp

theorem displayWord_ne_unqualifiedWord_iff :
    p.displayWord ≠ unqualifiedWord ↔ p.qualified = true ∨ p.near = true := by
  unfold displayWord
  cases p.qualified <;> cases p.near <;> decide

/-- With more published recipes and the same thresholds a collection that qualified still
qualifies, and one that was near is no plain unqualified one. -/
theorem of_grows {counts' : Counts} (nonneg : 0 ≤ counts.published)
    (more : counts.published ≤ counts'.published) (word : (Number.int counts'.published).FitsWord)
    (measured : Progress.of counts minRequired target threshold = .ok p) :
    ∃ q, Progress.of counts' minRequired target threshold = .ok q ∧
      (p.qualified = true → q.qualified = true) ∧
      (p.displayWord ≠ unqualifiedWord → q.displayWord ≠ unqualifiedWord) := by
  obtain ⟨q, measured'⟩ := exists_of word minRequired target threshold
  obtain ⟨computed, qualified, near⟩ := of_of_eq_ok measured
  obtain ⟨computed', qualified', near'⟩ := of_of_eq_ok measured'
  have grown : Reaches p.progress threshold → Reaches q.progress threshold := by
    obtain ⟨n, same⟩ := Int.eq_ofNat_of_zero_le nonneg
    obtain ⟨m, same'⟩ := Int.eq_ofNat_of_zero_le (nonneg.trans more)
    have fits : (Number.int counts.published).FitsWord := by
      obtain ⟨_, high⟩ := word
      constructor <;> omega
    rw [same] at computed fits
    rw [same'] at computed' word
    exact fun reached => reached.mono (atStep_of_percent?_eq_some fits computed)
      (atStep_of_percent?_eq_some word computed') (stepsOf_le_of_published (by omega))
  have kept : p.qualified = true → q.qualified = true := by
    rw [qualified, qualified', decide_eq_true_iff, decide_eq_true_iff]
    exact fun enough => enough.trans more
  refine ⟨q, measured', kept, ?_⟩
  rw [displayWord_ne_unqualifiedWord_iff, displayWord_ne_unqualifiedWord_iff]
  rintro (enough | reached)
  · exact .inl (kept enough)
  · cases short : q.qualified with
    | true => exact .inl rfl
    | false => exact .inr (near'.mpr ⟨short, grown (near.mp reached).2⟩)

end Counted

/-- The percentage lies within 0 and 100, is exact at both ends, goes with the published recipes and
against a positive target, and is off by less than 0.006.  So nothing is lost by publishing more. -/
theorem percent_bounded_monotone_close {published : Int} (nonneg : 0 ≤ published)
    (word : (Number.int published).FitsWord) :
    (∀ target, ∃ x, percent? published target = some x ∧ x.isFinite = true ∧
      0 ≤ x.value ∧ x.value ≤ 100 ∧ (target ≤ 0 → x.value = 0) ∧
      (0 < target → (target ≤ published → x.value = 100) ∧
        |x.value - min 100 (100 * (published : ℚ) / (target : ℚ))| < 6 / 1000)) ∧
    (∀ more target x y, published ≤ more → (Number.int more).FitsWord →
      percent? published target = some x → percent? more target = some y → x.value ≤ y.value) ∧
    (∀ target further x y, 0 < target → target ≤ further →
      percent? published target = some x → percent? published further = some y →
        y.value ≤ x.value) ∧
    ∀ (counts counts' : Counts) (minRequired target : Int) (threshold : Number) (p : Progress),
      counts.published = published → published ≤ counts'.published →
      (Number.int counts'.published).FitsWord →
      Progress.of counts minRequired target threshold = .ok p →
      ∃ q, Progress.of counts' minRequired target threshold = .ok q ∧
        (p.qualified = true → q.qualified = true) ∧
        (p.displayWord ≠ unqualifiedWord → q.displayWord ≠ unqualifiedWord) := by
  obtain ⟨n, rfl⟩ := Int.eq_ofNat_of_zero_le nonneg
  refine ⟨fun target => ?_, ?_, ?_, ?_⟩
  · obtain ⟨x, computed, stands⟩ := exists_atStep_percent? word target
    exact ⟨x, computed, stands.isFinite, by simpa using value_bounds stands⟩
  · intro more target x y less word' first second
    obtain ⟨m, rfl⟩ := Int.eq_ofNat_of_zero_le (nonneg.trans less)
    exact (atStep_of_percent?_eq_some word first).value_le (atStep_of_percent?_eq_some word' second)
      (stepsOf_le_of_published (by omega))
  · intro target further x y positive less first second
    exact (atStep_of_percent?_eq_some word second).value_le (atStep_of_percent?_eq_some word first)
      (stepsOf_le_of_target positive less)
  · rintro counts counts' minRequired target threshold p same more word' measured
    exact of_grows (same ▸ nonneg) (same ▸ more) word' measured

/-- The binary64 number nearest to 66.67. -/
def twoThirds : Binary64 := .finite false 4691484174324859 1028

theorem percent_bounded_monotone_close_thirds :
    percent? 2 3 = some twoThirds ∧ |twoThirds.value - 200 / 3| < 6 / 1000 ∧
    twoThirds.value ≤ 100 ∧ (∀ y, percent? 3 3 = some y → twoThirds.value ≤ y.value) ∧
    (∀ y, percent? 2 4 = some y → y.value ≤ twoThirds.value) ∧
    Progress.of ⟨2, 2, 0, 0⟩ 3 3 (.int 66) = .ok ⟨twoThirds, false, true⟩ ∧
    ∃ q, Progress.of ⟨3, 3, 0, 0⟩ 3 3 (.int 66) = .ok q ∧ q.displayWord ≠ unqualifiedWord := by
  have computed : percent? 2 3 = some twoThirds := by decide +kernel
  have near : Progress.of ⟨2, 2, 0, 0⟩ 3 3 (.int 66) = .ok ⟨twoThirds, false, true⟩ := by
    decide +kernel
  have word : (Number.int 3).FitsWord := by decide
  obtain ⟨values, grows, falls, kept⟩ :=
    percent_bounded_monotone_close (by decide : (0 : Int) ≤ 2) (by decide)
  obtain ⟨x, same, -, -, most, -, close⟩ := values 3
  obtain rfl := Option.some.inj (computed.symm.trans same)
  obtain ⟨q, measured, -, still⟩ := kept _ ⟨3, 3, 0, 0⟩ _ _ _ _ rfl (by decide) word near
  refine ⟨computed, ?_, most, fun y => grows 3 3 _ y (by decide) (by decide) computed,
    fun y => falls 3 4 _ y (by decide) (by decide) computed, near, q, measured, still (by decide)⟩
  have off := (close (by decide)).2
  rw [min_eq_right (by norm_num)] at off
  norm_num at off ⊢
  exact off

end Progress

end Cookbook
