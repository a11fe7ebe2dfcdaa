import Cookbook.Proofs.Number.Decimal
import Mathlib.Tactic.FieldSimp

/-!
# The shortest digits

The digits that are written of a number stand for a fraction in its basin.  A grid of 17 digits is
so fine that one of the two points around the number lies in the basin, so the search always ends.
-/

namespace Cookbook

namespace Binary64

variable {s k count : Nat} {negative : Bool} {grid : Int}

/-- A grid point as a ratio of quarter steps. -/
theorem gridPoint_eq (grid : Int) (count : Nat) :
    0 < (gridPoint grid count).2 ∧
      ((gridPoint grid count).1 : ℚ) =
        count * (10 : ℚ) ^ grid * quartersPerOne * (gridPoint grid count).2 := by
  unfold gridPoint
  generalize quartersPerOne = q
  split
  next whole =>
    obtain ⟨e, rfl⟩ := Int.eq_ofNat_of_zero_le whole
    simp
  next fraction =>
    obtain ⟨e, rfl⟩ : ∃ e : Nat, grid = -e := ⟨(-grid).toNat, by omega⟩
    have power : (10 : ℚ) ^ e ≠ 0 := pow_ne_zero e (by norm_num)
    simp
    field_simp

namespace Basin

variable {b : Basin}

theorem Holds.of_lt {x : ℚ} (low : b.low < x * quartersPerOne)
    (high : x * quartersPerOne < b.high) : b.Holds x := by
  unfold Holds
  split
  · exact ⟨low.le, high.le⟩
  · exact ⟨low, high⟩

theorem contains_iff : b.contains grid count = true ↔ b.Holds (count * (10 : ℚ) ^ grid) := by
  obtain ⟨positive, ratio⟩ := gridPoint_eq grid count
  unfold contains Holds
  generalize gridPoint grid count = p at positive ratio ⊢
  obtain ⟨num, den⟩ := p
  dsimp only at positive ratio ⊢
  have divisor : (0 : ℚ) < den := Nat.cast_pos.mpr positive
  have le_num (n : Nat) : n * den ≤ num ↔ (n : ℚ) ≤ count * (10 : ℚ) ^ grid * quartersPerOne := by
    rw [← Nat.cast_le (α := ℚ), ratio, Nat.cast_mul, mul_le_mul_iff_of_pos_right divisor]
  have num_le (n : Nat) : num ≤ n * den ↔ count * (10 : ℚ) ^ grid * quartersPerOne ≤ n := by
    rw [← Nat.cast_le (α := ℚ), ratio, Nat.cast_mul, mul_le_mul_iff_of_pos_right divisor]
  simp only [← not_le (b := num), ← not_le (a := num), ← not_le (α := ℚ)]
  split <;> simp only [Bool.and_eq_true, decide_eq_true_eq, le_num, num_le]

theorem contains_of_onGrid? (found : b.onGrid? grid = some count) :
    b.contains grid count = true := by
  unfold onGrid? at found
  dsimp only at found
  split at found
  next below _ =>
    obtain rfl := Option.some.inj found
    exact below
  next _ above =>
    obtain rfl := Option.some.inj found
    exact above
  next => cases found
  next below above =>
    split at found
    · obtain rfl := Option.some.inj found
      exact below
    · split at found
      · obtain rfl := Option.some.inj found
        exact above
      · split at found
        · obtain rfl := Option.some.inj found
          exact below
        · obtain rfl := Option.some.inj found
          exact above

theorem exists_onGrid? (near : b.contains grid (b.floorOn grid) = true ∨
    b.contains grid (b.floorOn grid + 1) = true) : ∃ count, b.onGrid? grid = some count := by
  unfold onGrid?
  dsimp only
  split
  · exact ⟨_, rfl⟩
  · exact ⟨_, rfl⟩
  next below above => simp [below, above] at near
  · repeat' split
    all_goals exact ⟨_, rfl⟩

/-- The value lies between a grid point and the next one. -/
theorem floorOn_bounds (b : Basin) (grid : Int) :
    b.floorOn grid * ((10 : ℚ) ^ grid * quartersPerOne) ≤ b.value ∧
      b.value < (b.floorOn grid + 1) * ((10 : ℚ) ^ grid * quartersPerOne) := by
  obtain ⟨c, d, factor, divisor, floor, ratio⟩ : ∃ c d : Nat, 0 < c ∧ 0 < d ∧
      b.floorOn grid = b.value * c / d ∧ (d : ℚ) = (10 : ℚ) ^ grid * quartersPerOne * c := by
    have quarters : 0 < quartersPerOne := by exact_mod_cast quartersPerOne_pos
    unfold floorOn
    split
    next whole =>
      obtain ⟨e, rfl⟩ := Int.eq_ofNat_of_zero_le whole
      have power : 0 < 10 ^ e := Nat.pow_pos (by decide)
      refine ⟨1, 10 ^ e * quartersPerOne, Nat.one_pos, Nat.mul_pos power quarters, ?_, ?_⟩
      · rw [Nat.mul_one]
        rfl
      · rw [Nat.cast_mul, Nat.cast_pow, Nat.cast_ofNat, Nat.cast_one, mul_one]
        rfl
    next fraction =>
      obtain ⟨e, rfl⟩ : ∃ e : Nat, grid = -e := ⟨(-grid).toNat, by omega⟩
      have power : (10 : ℚ) ^ e ≠ 0 := pow_ne_zero e (by norm_num)
      refine ⟨10 ^ e, quartersPerOne, Nat.pow_pos (by decide), quarters, by simp, ?_⟩
      simp only [zpow_neg, zpow_natCast, Nat.cast_pow, Nat.cast_ofNat]
      field_simp
  have factor : (0 : ℚ) < c := Nat.cast_pos.mpr factor
  have lower : ((b.value * c / d * d : Nat) : ℚ) ≤ (b.value * c : Nat) :=
    Nat.cast_le.mpr (Nat.div_mul_le_self _ _)
  have upper : ((b.value * c : Nat) : ℚ) < (b.value * c / d * d + d : Nat) :=
    Nat.cast_lt.mpr (Nat.lt_div_mul_add divisor)
  rw [← floor, Nat.cast_mul, Nat.cast_mul, ratio] at lower
  rw [← floor, Nat.cast_mul, Nat.cast_add, Nat.cast_mul, ratio] at upper
  constructor
  · refine le_of_mul_le_mul_right ?_ factor
    linarith
  · refine lt_of_mul_lt_mul_right ?_ factor.le
    linarith

/-- The power of ten of the first digit is not above the value. -/
theorem ten_zpow_leading_le (visible : quartersPerOne ≤ b.value * Nat.pow 10 330) :
    (10 : ℚ) ^ b.leading * quartersPerOne ≤ b.value := by
  have quarters : 0 < quartersPerOne := by exact_mod_cast quartersPerOne_pos
  have positive : 0 < b.value * Nat.pow 10 330 / quartersPerOne := Nat.div_pos visible quarters
  have counted := Nat.div_mul_le_self (b.value * Nat.pow 10 330) quartersPerOne
  unfold leading
  generalize b.value * Nat.pow 10 330 / quartersPerOne = n at positive counted ⊢
  have scaled := (Nat.mul_le_mul_right quartersPerOne (Numeral.ten_pow_length_le positive)).trans
    counted
  obtain ⟨l, length⟩ := Nat.exists_eq_succ_of_ne_zero
    (Nat.length_toDigits_pos (b := 10) (n := n)).ne'
  rw [length, Nat.succ_sub_one] at scaled
  rw [length, show ((l.succ : Nat) : Int) - 331 = (l : Int) - (330 : Nat) by omega]
  clear visible counted
  generalize 330 = a at scaled ⊢
  have scaled : (10 : ℚ) ^ l * quartersPerOne ≤ b.value * 10 ^ a := by exact_mod_cast scaled
  rw [zpow_sub₀ (by norm_num), zpow_natCast, zpow_natCast, div_mul_eq_mul_div,
    div_le_iff₀ (pow_pos (by norm_num) a)]
  exact scaled

end Basin

/-- The ends of a basin lie four quarter steps apart, or three where the step halves. -/
theorem width_basin (positive : 0 < s) (fits : s < 2 ^ 53) :
    ((basin s k).low : ℚ) < (basin s k).value ∧ ((basin s k).value : ℚ) < (basin s k).high ∧
      (basin s k).value < ((basin s k).high - (basin s k).low : ℚ) * 10 ^ 16 := by
  have step : (0 : ℚ) < 2 ^ k := pow_pos (by norm_num) k
  have value : ((basin s k).value : ℚ) = 4 * (s * 2 ^ k) := by simp [basin, mul_assoc]
  have high : ((basin s k).high : ℚ) = 4 * (s * 2 ^ k) + 2 * 2 ^ k := by
    simp [basin]
    ring
  have most : (s : ℚ) * 2 ^ k ≤ 2 ^ 53 * 2 ^ k :=
    mul_le_mul_of_nonneg_right (by exact_mod_cast fits.le) step.le
  rcases @low_basin_mul s k positive 1 with ⟨low, _⟩ | ⟨low, half, _⟩
  · have low : ((basin s k).low : ℚ) + 2 * 2 ^ k = 4 * (s * 2 ^ k) := by
      simpa using congrArg (Nat.cast (R := ℚ)) low
    exact ⟨by linarith, by linarith, by linarith⟩
  · have low : ((basin s k).low : ℚ) + 2 ^ k = 4 * (s * 2 ^ k) := by
      simpa using congrArg (Nat.cast (R := ℚ)) low
    have half : (s : ℚ) * 2 ^ k = 2 ^ 52 * 2 ^ k := by rw [half, Nat.cast_pow, Nat.cast_ofNat]
    exact ⟨by linarith, by linarith, by linarith⟩

/-- On the grid of 17 digits a point lies in the basin: the points are closer to each other than its
ends are. -/
theorem exists_onGrid?_leading (positive : 0 < s) (fits : s < 2 ^ 53) :
    ∃ count, (basin s k).onGrid? ((basin s k).leading - 16) = some count := by
  have visible : quartersPerOne ≤ (basin s k).value * Nat.pow 10 330 := by
    have some : 1 ≤ 4 * s * 2 ^ k := Nat.mul_pos (by omega) (Nat.two_pow_pos k)
    have power : quartersPerOne ≤ Nat.pow 10 330 := by decide +kernel
    exact power.trans (Nat.le_mul_of_pos_left _ some)
  have leading := Basin.ten_zpow_leading_le visible
  have fine : (10 : ℚ) ^ ((basin s k).leading - 16) * quartersPerOne * 10 ^ 16 ≤
      (basin s k).value := by
    rw [zpow_sub₀ (by norm_num), div_mul_eq_mul_div, div_mul_eq_mul_div]
    refine (div_le_iff₀ (by norm_num)).mpr ?_
    rw [zpow_ofNat]
    linarith
  obtain ⟨floor_le, lt_next⟩ := (basin s k).floorOn_bounds ((basin s k).leading - 16)
  obtain ⟨low, high, wide⟩ := width_basin (k := k) positive fits
  refine Basin.exists_onGrid? ?_
  rw [Basin.contains_iff, Basin.contains_iff, Nat.cast_succ]
  generalize (10 : ℚ) ^ ((basin s k).leading - 16) = g at *
  generalize ((basin s k).floorOn ((basin s k).leading - 16) : ℚ) = p at *
  by_cases above : ((basin s k).low : ℚ) < p * g * quartersPerOne
  · exact .inl (.of_lt above (by linarith))
  · exact .inr (.of_lt (by linarith) (by linarith))

/-- Digits without a zero in front, whose fraction is in the basin if the first of them stands at
that power of ten. -/
structure Basin.Spells (b : Basin) (ds : List Char) (first : Int) : Prop where
  digits : ∀ d ∈ ds, d.isDigit = true
  leading : ∃ d rest, ds = d :: rest ∧ d ≠ '0'
  near : b.Holds (Numeral.ofDigits ds * (10 : ℚ) ^ (first + 1 - ds.length))

/-- Zeros at the end go into the power of ten. -/
theorem stripZeros_eq (ds : List Char) (grid : Int) :
    ∃ n : Nat, ds = (stripZeros ds grid).1 ++ List.replicate n '0' ∧
      (stripZeros ds grid).2 = grid + n := by
  have zeros : ds.reverse.takeWhile (· == '0') =
      List.replicate (ds.reverse.takeWhile (· == '0')).length '0' :=
    List.eq_replicate_length.mpr fun c among => by
      simpa using List.all_eq_true.mp List.all_takeWhile c among
  have parts : ds = (ds.reverse.dropWhile (· == '0')).reverse ++
      List.replicate (ds.reverse.takeWhile (· == '0')).length '0' := by
    rw [← List.reverse_replicate, ← zeros, ← List.reverse_append, List.takeWhile_append_dropWhile,
      List.reverse_reverse]
  refine ⟨_, parts, ?_⟩
  unfold stripZeros
  dsimp only
  have lengths := congrArg List.length parts
  rw [List.length_append, List.length_replicate] at lengths
  omega

/-- The search ends, and with a grid point in the basin. -/
theorem exists_search? (positive : 0 < s) (fits : s < 2 ^ 53) :
    ∃ (count : Nat) (grid : Int), (basin s k).search? = some (count, grid) ∧
      (basin s k).Holds (count * (10 : ℚ) ^ grid) := by
  obtain ⟨most, reached⟩ := exists_onGrid?_leading (k := k) positive fits
  unfold Basin.search?
  generalize (basin s k).leading = e at reached ⊢
  generalize basin s k = b at reached ⊢
  dsimp only
  cases found : (List.range 17).findSome? fun n : Nat =>
    (b.onGrid? (e - n)).map fun count => (count, e - n) with
  | some point =>
    obtain ⟨n, _, attempt⟩ := List.exists_of_findSome?_eq_some found
    obtain ⟨count, here, rfl⟩ := Option.map_eq_some_iff.mp attempt
    exact ⟨count, _, rfl, Basin.contains_iff.mp (Basin.contains_of_onGrid? here)⟩
  | none =>
    have missed := List.findSome?_eq_none_iff.mp found 16 (by decide)
    rw [show ((16 : Nat) : Int) = 16 from rfl, reached] at missed
    cases missed

theorem Basin.Holds.pos {b : Basin} (low : 1 ≤ b.low) {x : ℚ} (near : b.Holds x) : 0 < x := by
  have bound := near.bounds.1
  have low : (1 : ℚ) ≤ b.low := by exact_mod_cast low
  by_contra negative
  have product := mul_nonpos_of_nonpos_of_nonneg (not_lt.mp negative) quartersPerOne_pos.le
  linarith

theorem shortest_eq (s k : Nat) : shortest s k = (basin s k).digits (basin s k).search? := rfl

/-- The digits of a positive number are one of its spellings. -/
theorem spells_shortest (positive : 0 < s) (fits : s < 2 ^ 53) :
    (basin s k).Spells (shortest s k).1 (shortest s k).2 := by
  obtain ⟨count, grid, found, near⟩ := exists_search? (k := k) positive fits
  have some : 0 < count := by
    have fraction := near.pos (one_le_low_basin positive)
    have power : (0 : ℚ) < 10 ^ grid := zpow_pos (by norm_num) grid
    exact_mod_cast (mul_pos_iff_of_pos_right power).mp fraction
  rw [shortest_eq, found]
  generalize basin s k = b at near ⊢
  obtain ⟨n, parts, power⟩ := stripZeros_eq (Nat.toDigits 10 count) grid
  unfold Basin.digits
  dsimp only
  generalize (stripZeros (Nat.toDigits 10 count) grid).1 = ds at parts ⊢
  generalize (stripZeros (Nat.toDigits 10 count) grid).2 = last at power ⊢
  have value : count = Numeral.ofDigits ds * 10 ^ n := by
    rw [← Numeral.ofDigits_toDigits count, parts, Numeral.ofDigits_append_zeros]
  refine ⟨fun d among => ?_, ?_, ?_⟩
  · refine Numeral.isDigit_of_mem_toDigits (n := count) ?_
    rw [parts]
    exact List.mem_append_left _ among
  · obtain ⟨d, rest, whole, nonzero⟩ := Numeral.exists_toDigits_eq_cons some
    rw [parts] at whole
    cases ds with
    | nil =>
      rw [value] at some
      exact absurd some (by simp [Numeral.ofDigits])
    | cons e ds => exact ⟨e, ds, rfl, List.head_eq_of_cons_eq whole ▸ nonzero⟩
  · rw [value] at near
    rw [show last + ds.length - 1 + 1 - ds.length = n + grid by omega, zpow_add₀ (by norm_num),
      zpow_natCast, ← mul_assoc]
    exact_mod_cast near

end Binary64

end Cookbook
