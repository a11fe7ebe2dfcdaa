import Cookbook.Number.Numeral
import Cookbook.Proofs.Number.Nearest
import Mathlib.Algebra.Order.Field.Power
import Mathlib.Data.List.Induction
import Mathlib.Tactic.Linarith

/-!
# Decimals

Digits and a power of ten stand for a fraction, and reading them rounds it: the cut-offs for large
and small powers lie outside the basin of every number.
-/

namespace Cookbook

namespace Numeral

/-- The value that core reads off the digits. -/
theorem ofDigits_eq (ds : List Char) : ofDigits ds = Nat.ofDigitChars 10 ds 0 := by
  rw [ofDigits, Nat.ofDigitChars_eq_foldl]
  simp only [Nat.mul_comm]
  rfl

@[simp] theorem ofDigits_toDigits (n : Nat) : ofDigits (Nat.toDigits 10 n) = n := by
  rw [ofDigits_eq, Nat.ofDigitChars_ten_toDigits]

theorem ofDigits_append (ds es : List Char) :
    ofDigits (ds ++ es) = ofDigits ds * 10 ^ es.length + ofDigits es := by
  rw [ofDigits_eq, Nat.ofDigitChars_append, Nat.ofDigitChars_eq_ofDigitChars_zero, ofDigits_eq,
    ofDigits_eq, Nat.mul_comm]

theorem ofDigits_replicate_zero (n : Nat) : ofDigits (List.replicate n '0') = 0 := by
  rw [ofDigits_eq, Nat.ofDigitChars_replicate_zero, Nat.mul_zero]

theorem ofDigits_zeros_append (n : Nat) (ds : List Char) :
    ofDigits (List.replicate n '0' ++ ds) = ofDigits ds := by
  rw [ofDigits_append, ofDigits_replicate_zero, Nat.zero_mul, Nat.zero_add]

theorem ofDigits_append_zeros (ds : List Char) (n : Nat) :
    ofDigits (ds ++ List.replicate n '0') = ofDigits ds * 10 ^ n := by
  rw [ofDigits_append, ofDigits_replicate_zero, List.length_replicate, Nat.add_zero]

theorem isDigit_of_mem_replicate_zero {n : Nat} {d : Char} (among : d ∈ List.replicate n '0') :
    d.isDigit = true := by
  rw [List.eq_of_mem_replicate among]
  rfl

theorem isDigit_of_mem_toDigits {n : Nat} {d : Char} (among : d ∈ Nat.toDigits 10 n) :
    d.isDigit = true :=
  Nat.isDigit_of_mem_toDigits (by decide) le_rfl among

/-- Digits come to less than a one with as many zeros. -/
theorem ofDigits_lt {ds : List Char} (digits : ∀ d ∈ ds, d.isDigit = true) :
    ofDigits ds < 10 ^ ds.length := by
  induction ds using List.reverseRecOn with
  | nil => decide
  | append_singleton ds d ih =>
    obtain ⟨front, last⟩ := List.forall_mem_append.mp digits
    have below : d.toNat ≤ 57 := by
      have digit := last d (List.mem_singleton_self d)
      simp only [Char.isDigit, Bool.and_eq_true, decide_eq_true_eq] at digit
      exact digit.2
    have smaller := ih front
    rw [ofDigits_append, List.length_append, Nat.pow_add, List.length_singleton, Nat.pow_one]
    change ofDigits ds * 10 + (0 * 10 + (d.toNat - 48)) < 10 ^ ds.length * 10
    omega

theorem lt_ten_pow_length (n : Nat) : n < 10 ^ (Nat.toDigits 10 n).length :=
  (Nat.length_toDigits_le_iff (by decide) Nat.length_toDigits_pos).mp le_rfl

theorem ten_pow_length_le {n : Nat} (positive : 0 < n) :
    10 ^ ((Nat.toDigits 10 n).length - 1) ≤ n := by
  by_contra small
  by_cases single : (Nat.toDigits 10 n).length - 1 = 0
  · rw [single] at small
    omega
  · have shorter := (Nat.length_toDigits_le_iff (by decide) (by omega)).mpr (Nat.not_le.mp small)
    omega

/-- The place of the first digit bounds a decimal from below. -/
theorem ten_zpow_le_mul {n : Nat} (positive : 0 < n) (e : Int) :
    (10 : ℚ) ^ (((Nat.toDigits 10 n).length : Int) + e - 1) ≤ n * 10 ^ e := by
  have length := Nat.length_toDigits_pos (b := 10) (n := n)
  have first : (10 : ℚ) ^ (((Nat.toDigits 10 n).length - 1 : Nat) : ℤ) ≤ n := by
    rw [zpow_natCast]
    exact_mod_cast ten_pow_length_le positive
  have scaled := mul_le_mul_of_nonneg_right first (zpow_pos (by norm_num : (0 : ℚ) < 10) e).le
  rw [← zpow_add₀ (by norm_num)] at scaled
  rwa [show ((Nat.toDigits 10 n).length : Int) + e - 1 =
    (((Nat.toDigits 10 n).length - 1 : Nat) : ℤ) + e by omega]

theorem mul_lt_ten_zpow (n : Nat) (e : Int) :
    (n : ℚ) * 10 ^ e < 10 ^ (((Nat.toDigits 10 n).length : Int) + e) := by
  have last : (n : ℚ) < 10 ^ ((Nat.toDigits 10 n).length : ℤ) := by
    rw [zpow_natCast]
    exact_mod_cast lt_ten_pow_length n
  have scaled := mul_lt_mul_of_pos_right last (zpow_pos (by norm_num : (0 : ℚ) < 10) e)
  rwa [← zpow_add₀ (by norm_num)] at scaled

/-- A positive number has no zero in front. -/
theorem exists_toDigits_eq_cons {n : Nat} (positive : 0 < n) :
    ∃ d ds, Nat.toDigits 10 n = d :: ds ∧ d ≠ '0' := by
  have digits (d : Char) (among : d ∈ Nat.toDigits 10 n) := isDigit_of_mem_toDigits among
  have large := ten_pow_length_le positive
  have value := ofDigits_toDigits n
  cases parts : Nat.toDigits 10 n with
  | nil => exact absurd parts Nat.toDigits_ne_nil
  | cons d ds =>
    refine ⟨d, ds, rfl, ?_⟩
    rintro rfl
    rw [parts] at digits large value
    have small := ofDigits_lt fun d among => digits d (List.mem_cons_of_mem _ among)
    have same : ofDigits ('0' :: ds) = ofDigits ds := rfl
    rw [List.length_cons, Nat.add_sub_cancel] at large
    omega

end Numeral

namespace Binary64

variable {s k digits : Nat} {negative : Bool} {exponent : Int}

theorem quartersPerOne_pos : (0 : ℚ) < quartersPerOne := by
  exact_mod_cast (show 0 < quartersPerOne by decide +kernel)

theorem ten_zpow_neg_lt {x : ℚ} {q a : Nat} (few : q < 10 ^ a) (one : 1 ≤ x * q) :
    (10 : ℚ) ^ (-(a : ℤ)) < x := by
  have power : (0 : ℚ) < 10 ^ a := pow_pos (by norm_num) a
  have few : (q : ℚ) < 10 ^ a := by exact_mod_cast few
  have positive : 0 < x := by
    by_contra negative
    have product := mul_nonpos_of_nonpos_of_nonneg (not_lt.mp negative) (Nat.cast_nonneg q)
    linarith
  rw [zpow_neg, zpow_natCast, inv_lt_iff_one_lt_mul₀ power]
  exact one.trans_lt (mul_lt_mul_of_pos_left few positive)

theorem lt_ten_zpow {x : ℚ} {q a h : Nat} (many : h < 10 ^ a * q) (most : x * q ≤ h) :
    x < (10 : ℚ) ^ (a : ℤ) := by
  have many : (h : ℚ) < 10 ^ a * q := by exact_mod_cast many
  rw [zpow_natCast]
  exact lt_of_mul_lt_mul_right (most.trans_lt many) (Nat.cast_nonneg q)

theorem one_le_low_basin (positive : 0 < s) : 1 ≤ (basin s k).low := by
  have step := Nat.two_pow_pos k
  have more : 1 * 2 ^ k ≤ s * 2 ^ k := Nat.mul_le_mul_right _ positive
  have below := @low_basin_mul s k positive 1
  simp only [Nat.one_mul, Nat.mul_one] at below more
  omega

theorem high_basin_lt (fits : s < 2 ^ 53) (small : k ≤ maxScale) :
    (basin s k).high < 10 ^ 310 * quartersPerOne := by
  have scale : 2 ^ k ≤ 2 ^ maxScale := Nat.pow_le_pow_right (by decide) small
  calc (4 * s + 2) * 2 ^ k ≤ 2 ^ 55 * 2 ^ maxScale := Nat.mul_le_mul (by omega) scale
    _ < 10 ^ 310 * quartersPerOne := by decide +kernel

/-- No fraction in a basin is large or small enough to be cut off. -/
theorem Basin.Holds.range (canonical : (finite negative s k).Canonical) (positive : 0 < s) {x : ℚ}
    (near : (basin s k).Holds x) :
    ∃ a b : Nat, a ≤ 331 ∧ b ≤ 310 ∧ (10 : ℚ) ^ (-(a : ℤ)) < x ∧ x < (10 : ℚ) ^ (b : ℤ) := by
  obtain ⟨low, high⟩ := near.bounds
  have least : (1 : ℚ) ≤ (basin s k).low := by exact_mod_cast one_le_low_basin positive
  have few : quartersPerOne < 10 ^ 331 := by decide +kernel
  exact ⟨331, 310, le_rfl, le_rfl, ten_zpow_neg_lt few (least.trans low),
    lt_ten_zpow (high_basin_lt canonical.1 canonical.2.1) high⟩

/-- Digits that a power of ten takes into the basin of a number are read as the number. -/
theorem ofDecimal_eq_of_holds (canonical : (finite negative s k).Canonical) (positive : 0 < s)
    (near : (basin s k).Holds (digits * (10 : ℚ) ^ exponent)) :
    ofDecimal negative digits exponent = finite negative s k := by
  obtain ⟨a, b, small, large, least, most⟩ := near.range canonical positive
  have ten : (1 : ℚ) < 10 := by norm_num
  have nonzero : digits ≠ 0 := by
    rintro rfl
    rw [Nat.cast_zero, zero_mul] at least
    exact absurd least (zpow_pos (by norm_num) _).le.not_gt
  have top : ((Nat.toDigits 10 digits).length : Int) + exponent ≤ 310 := by
    have first := Numeral.ten_zpow_le_mul (Nat.pos_of_ne_zero nonzero) exponent
    have exponents := (zpow_lt_zpow_iff_right₀ ten).mp (first.trans_lt most)
    omega
  have bottom : -330 ≤ ((Nat.toDigits 10 digits).length : Int) + exponent := by
    have last := Numeral.mul_lt_ten_zpow digits exponent
    have exponents := (zpow_lt_zpow_iff_right₀ ten).mp (least.trans last)
    omega
  unfold ofDecimal
  dsimp only
  rw [if_neg nonzero, if_neg (not_lt.mpr top), if_neg (not_lt.mpr bottom)]
  split
  next whole =>
    refine ofRatio_eq_of_holds canonical positive Nat.one_pos ?_
    obtain ⟨e, rfl⟩ := Int.eq_ofNat_of_zero_le whole
    simpa using near
  next fraction =>
    obtain ⟨e, rfl⟩ : ∃ e : Nat, exponent = -e := ⟨(-exponent).toNat, by omega⟩
    refine ofRatio_eq_of_holds canonical positive (Nat.pow_pos (by decide)) ?_
    simpa [div_eq_mul_inv] using near

theorem canonical_ofDecimal (negative : Bool) (digits : Nat) (exponent : Int) :
    (ofDecimal negative digits exponent).Canonical := by
  unfold ofDecimal
  dsimp only
  repeat' split
  · exact ⟨by decide, by decide, .inr rfl⟩
  · trivial
  · exact ⟨by decide, by decide, .inr rfl⟩
  · exact canonical_ofRatio Nat.one_pos
  · exact canonical_ofRatio (Nat.pow_pos (by decide))

end Binary64

namespace Numeral

variable {negative : Bool} {cs : List Char} {x : Binary64}

theorem canonical_of_decimal? (read : decimal? negative cs = some x) : x.Canonical := by
  unfold decimal? at read
  dsimp only at read
  split at read
  all_goals
    split at read
    next => cases read
    next =>
      obtain ⟨e, _, rfl⟩ := Option.map_eq_some_iff.mp read
      exact Binary64.canonical_ofDecimal ..

theorem canonical_of_float? {a : Alphabet} (read : float? a cs = some x) : x.Canonical := by
  unfold float? at read
  obtain ⟨plain, _, read⟩ := Option.bind_eq_some_iff.mp read
  dsimp only at read
  split at read
  next =>
    obtain rfl := Option.some.inj read
    trivial
  split at read
  next =>
    obtain rfl := Option.some.inj read
    trivial
  next => exact canonical_of_decimal? read

end Numeral

end Cookbook
