import Cookbook.Number.Basic
import Cookbook.Predicate.Attribute
import Mathlib.Algebra.Order.Field.Rat
import Mathlib.Data.Rat.Cast.Order

/-!
# Numbers as fractions

A finite number is an exact fraction, and numbers compare as their fractions do: a whole number is
never rounded to be compared.  A fraction is rounded to a finite number unless it is far beyond a
word.
-/

namespace Cookbook

namespace Binary64

theorem unitsPerOne_pos : 0 < unitsPerOne := by decide +kernel

def value (x : Binary64) : ℚ := x.units / unitsPerOne

theorem compare_units (x : Binary64) (n : Int) :
    compare (n * (unitsPerOne : Int)) x.units = compare (n : ℚ) x.value := by
  have positive : (0 : ℚ) < unitsPerOne := by exact_mod_cast unitsPerOne_pos
  have units : x.value * unitsPerOne = x.units := div_mul_cancel₀ _ positive.ne'
  rw [← cmp_eq_compare, ← cmp_eq_compare, ← cmp_mul_pos_right positive, units,
    ← (Int.cast_strictMono (R := ℚ)).cmp_map_eq, Int.cast_mul, Int.cast_natCast]

theorem compareInt?_of_isFinite {x : Binary64} (finite : x.isFinite = true) (n : Int) :
    x.compareInt? n = some (compare x.units (n * (unitsPerOne : Int))) := by
  cases x with
  | finite negative s k => rfl
  | nan => cases finite
  | infinite negative => cases finite

theorem scaleOf_le {n b : Nat} (small : n < 2 ^ b) : scaleOf n ≤ b := by
  unfold scaleOf
  by_cases zero : n = 0
  · simp [zero]
  · have bits := (Nat.log2_lt zero).mpr small
    omega

/-- The number nearest to `num / den` on a grid of `u` steps in one. -/
def ofRatioBy (u : Nat) (negative : Bool) (num den : Nat) : Binary64 :=
  let steps := num * u
  let k := scaleOf (steps / den)
  let s := roundEven steps (den * Nat.pow 2 k)
  let (s, k) := if s = Nat.pow 2 53 then (Nat.pow 2 52, k + 1) else (s, k)
  if maxScale < k then infinite negative else finite negative s k

/-- With the number of steps as a variable no proof comes to compute with it. -/
theorem ofRatio_eq : ofRatio = ofRatioBy unitsPerOne := rfl

theorem isFinite_ofRatioBy {u : Nat} {negative : Bool} {num den : Nat}
    (small : num * u < 2 ^ (maxScale - 1)) : (ofRatioBy u negative num den).isFinite = true := by
  have scale := scaleOf_le ((Nat.div_le_self (num * u) den).trans_lt small)
  unfold ofRatioBy
  dsimp only
  generalize scaleOf (num * u / den) = k at scale ⊢
  split <;> split
  next top => exact absurd top (by simp only [maxScale] at scale ⊢; omega)
  next => rfl
  next top => exact absurd top (by simp only [maxScale] at scale ⊢; omega)
  next => rfl

theorem mul_two_pow_lt {n b c : Nat} (small : n < 2 ^ b) : n * 2 ^ c < 2 ^ (b + c) := by
  rw [Nat.pow_add]
  exact Nat.mul_lt_mul_of_pos_right small (Nat.two_pow_pos c)

/-- A fraction of a number of 64 bits is not too large. -/
theorem isFinite_ofRatio {negative : Bool} {num den : Nat} (small : num < 2 ^ 64) :
    (ofRatio negative num den).isFinite = true := by
  obtain ⟨bits, units, room⟩ : ∃ bits, unitsPerOne = 2 ^ bits ∧ 64 + bits ≤ maxScale - 1 :=
    ⟨1074, by decide +kernel, by decide⟩
  rw [ofRatio_eq, units]
  exact isFinite_ofRatioBy
    ((mul_two_pow_lt small).trans_le (Nat.pow_le_pow_right (by decide) room))

end Binary64

namespace Number

def value : Number → ℚ
  | int n => n
  | float x => x.value

/-- A whole number compares with a finite number by value. -/
theorem compare?_int {n : Number} (finite : n.isFinite = true) (v : Int) :
    (int v).compare? n = some (compare (v : ℚ) n.value) := by
  cases n with
  | int m =>
    have cast := (Int.cast_strictMono (R := ℚ)).cmp_map_eq v m
    rw [cmp_eq_compare, cmp_eq_compare] at cast
    simp [compare?, value, cast]
  | float x =>
    have swapped := cmp_swap x.units (v * (Binary64.unitsPerOne : Int))
    rw [cmp_eq_compare, cmp_eq_compare, Binary64.compare_units] at swapped
    change (x.compareInt? v).map Ordering.swap = some (compare (v : ℚ) x.value)
    rw [Binary64.compareInt?_of_isFinite finite, Option.map_some, swapped]

end Number

namespace Comparison

/-- The relation between two fractions that a comparison asks for. -/
def Relates (op : Comparison) (x y : ℚ) : Prop :=
  match op with
  | eq => x = y
  | neq => x ≠ y
  | lt => x < y
  | lte => x ≤ y
  | gt => y < x
  | gte => y ≤ x

theorem admits_compare (op : Comparison) (x y : ℚ) :
    op.admits (compare x y) = true ↔ op.Relates x y := by
  cases op with
  | eq => simp [admits, Relates]
  | neq => simp [admits, Relates]
  | lt => simpa [admits, Relates] using compare_lt_iff_lt
  | lte => simpa [admits, Relates] using compare_le_iff_le
  | gt => simpa [admits, Relates] using compare_gt_iff_gt
  | gte => simpa [admits, Relates] using compare_ge_iff_ge

end Comparison

end Cookbook
