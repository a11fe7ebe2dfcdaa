import Cookbook.Proofs.Attempt
import Cookbook.Proofs.Number.Rounding
import Cookbook.Proofs.Number.Value
import Cookbook.Zone
import Mathlib.Tactic.Linarith

/-!
# Times as numbers

A time is a number in every zone unless it is close to the first or the last day that clocks show.
Where clocks are never changed the numbers keep the order of times and, within `2 ^ 33` seconds of
the start of 1970, tell every two of them apart.  Farther away close times have one number.
-/

namespace Cookbook

namespace Zone

variable {z : Zone} {moment shown : Int}

/-- Clocks are never a day ahead of UTC, nor behind it. -/
def Bounded (z : Zone) : Prop :=
  z.offset.natAbs < 86400 ∧ ∀ change ∈ z.changes, change.2.natAbs < 86400

instance : DecidablePred Bounded := fun _ => inferInstanceAs (Decidable (_ ∧ _))

theorem Bounded.offsetAt (bounded : z.Bounded) (moment : Int) :
    (z.offsetAt moment).natAbs < 86400 := by
  obtain ⟨first, later⟩ := bounded
  unfold Zone.offsetAt
  generalize z.offset = before at first ⊢
  generalize z.changes = changes at later ⊢
  induction changes generalizing before with
  | nil => exact first
  | cons change changes ih =>
    obtain ⟨next, later⟩ := List.forall_mem_cons.mp later
    refine ih _ ?_ later
    dsimp only
    split
    · exact next
    · exact first

theorem exists_clock? (bounded : z.Bounded) (moment : Int)
    (low : firstDay * 86400 + 86400 ≤ moment) (high : moment + 86400 ≤ lastDay * 86400) :
    ∃ shown, z.clock? moment = .ok shown ∧ (shown - moment).natAbs < 86400 := by
  have near := bounded.offsetAt moment
  refine ⟨moment + z.offsetAt moment, if_pos ?_, by omega⟩
  generalize firstDay = first at low ⊢
  generalize lastDay = last at high ⊢
  omega

/-- Three days are enough for every step of looking for the moment. -/
theorem exists_moment? (bounded : z.Bounded) (shown : Int)
    (low : firstDay * 86400 + 3 * 86400 ≤ shown) (high : shown + 3 * 86400 ≤ lastDay * 86400) :
    ∃ moment, z.moment? shown = .ok moment := by
  obtain ⟨a, readShown, ahead⟩ := exists_clock? bounded shown (by omega) (by omega)
  generalize first : shown - (a - shown) = m at *
  obtain ⟨b, readFirst, _⟩ := exists_clock? bounded m (by omega) (by omega)
  generalize other : (if b = shown then m - 86400 else m) = n
  have before : m - 86400 ≤ n ∧ n ≤ m := by
    rw [← other]
    split <;> omega
  obtain ⟨c, readOther, ahead'⟩ := exists_clock? bounded n (by omega) (by omega)
  obtain ⟨d, readSecond, _⟩ :=
    exists_clock? bounded (shown - (c - n)) (by omega) (by omega)
  simp only [moment?, bind, Except.bind, readShown, first, readFirst, other, readOther, readSecond]
  split
  · exact ⟨_, rfl⟩
  split
  · exact ⟨_, rfl⟩
  · exact ⟨_, rfl⟩

theorem key?_eq_ok_iff {t : Instant} {k : Int} : z.key? t = .ok k ↔
    ∃ moment, z.moment? (t.micros / Instant.microsPerSecond) = .ok moment ∧
      ((Binary64.ofRatio false (t.micros % Instant.microsPerSecond).toNat 1000000).addInt
        moment).rank = k := by
  simp only [key?, timestamp?, Attempt.map_eq_ok_iff, Attempt.bind_eq_ok_iff, Except.ok.injEq]
  exact ⟨fun ⟨_, ⟨moment, found, same⟩, rank⟩ => ⟨moment, found, same ▸ rank⟩,
    fun ⟨moment, found, rank⟩ => ⟨_, ⟨moment, found, rfl⟩, rank⟩⟩

/-- A time has a number unless it is close to the first or to the last day. -/
theorem exists_key? (bounded : z.Bounded) {t : Instant}
    (low : (firstDay + 3) * 86400 ≤ t.micros / Instant.microsPerSecond)
    (high : t.micros / Instant.microsPerSecond ≤ (lastDay - 3) * 86400) :
    ∃ k, z.key? t = .ok k := by
  obtain ⟨moment, found⟩ := exists_moment? bounded
    (t.micros / Instant.microsPerSecond) (by omega) (by omega)
  exact ⟨_, key?_eq_ok_iff.mpr ⟨moment, found, rfl⟩⟩

/-- Five hours behind UTC, but only four from 8 March to 1 November 2026. -/
def newYork : Zone := ⟨-18000, [(1772953200, -14400), (1793512800, -18000)]⟩

/-- Half past two and three o'clock on the morning of 8 March, of which clocks never show the first,
and half past one on 1 November, which they show twice. -/
example : newYork.Bounded ∧ newYork.moment? 1772937000 = .ok 1772955000 ∧
    newYork.moment? 1772938800 = .ok 1772953200 ∧
    newYork.moment? 1793496600 = .ok 1793511000 := by decide

section Steady

variable (steady : z.changes = [])
include steady

theorem offsetAt_of_steady (moment : Int) : z.offsetAt moment = z.offset := by
  rw [offsetAt, steady, List.foldl_nil]

theorem eq_of_clock?_eq_ok (reads : z.clock? moment = .ok shown) : shown = moment + z.offset := by
  simp only [clock?, offsetAt_of_steady steady] at reads
  split at reads
  · exact (Except.ok.inj reads).symm
  · cases reads

/-- Where clocks are never changed a time is shown once. -/
theorem eq_of_moment?_eq_ok (found : z.moment? shown = .ok moment) :
    moment = shown - z.offset := by
  obtain ⟨a, readShown, found⟩ := Attempt.bind_eq_ok_iff.mp found
  obtain ⟨b, readFirst, found⟩ := Attempt.bind_eq_ok_iff.mp found
  obtain ⟨c, readOther, found⟩ := Attempt.bind_eq_ok_iff.mp found
  obtain ⟨d, readSecond, found⟩ := Attempt.bind_eq_ok_iff.mp found
  have first := eq_of_clock?_eq_ok steady readShown
  have second := eq_of_clock?_eq_ok steady readFirst
  have third := eq_of_clock?_eq_ok steady readOther
  have fourth := eq_of_clock?_eq_ok steady readSecond
  rw [if_pos (by omega)] at found
  have answer := Except.ok.inj found
  omega

end Steady

end Zone

namespace Instant

variable {s t : Instant} {j : Nat}

def seconds (t : Instant) : Int := t.micros / microsPerSecond

/-- The microseconds of a time as a part of a second. -/
def part (t : Instant) : Binary64 :=
  Binary64.ofRatio false (t.micros % microsPerSecond).toNat 1000000

/-- The place of a time among all times, counted in UTC, after rounding; later times have higher
places. -/
def place (t : Instant) : ℤ := (t.part.addInt t.seconds).rank

/-- Less than so many seconds before or after the start of 1970. -/
def Within (seconds : Nat) (t : Instant) : Prop := t.micros.natAbs < seconds * 1000000

instance (seconds : Nat) (t : Instant) : Decidable (t.Within seconds) :=
  inferInstanceAs (Decidable (_ < _))

theorem addSeconds_micros (t : Instant) (n : Int) :
    (t.addSeconds n).micros = t.micros + n * 1000000 := rfl

/-- Where clocks are never changed the number of a time is its place in UTC. -/
theorem place_of_steady {z : Zone} (steady : z.changes = []) {k : Int}
    (number : z.key? t = .ok k) : k = (t.addSeconds (-z.offset)).place := by
  obtain ⟨moment, found, rfl⟩ := Zone.key?_eq_ok_iff.mp number
  have same : (t.addSeconds (-z.offset)).micros % 1000000 = t.micros % 1000000 := by
    rw [addSeconds_micros]
    omega
  have shifted : (t.addSeconds (-z.offset)).micros / 1000000 = t.micros / 1000000 - z.offset := by
    rw [addSeconds_micros]
    omega
  rw [Zone.eq_of_moment?_eq_ok steady found, place, part, seconds, microsPerSecond, same, shifted]

/-- The place of a time before the last rounding. -/
def sum (t : Instant) : ℤ := t.part.units + t.seconds * Binary64.unitsPerOne

theorem micros_eq (t : Instant) :
    t.micros = t.seconds * 1000000 + (t.micros % microsPerSecond).toNat := by
  unfold seconds microsPerSecond
  omega

theorem isFinite_part (t : Instant) : t.part.isFinite = true := by
  apply Binary64.isFinite_ofRatio
  unfold microsPerSecond
  omega

theorem place_eq_rank (t : Instant) : t.place =
    (Binary64.ofRatioBy Binary64.unitsPerOne (decide (t.sum < 0)) t.sum.natAbs
      Binary64.unitsPerOne).rank := by
  rw [place, Binary64.addInt_of_isFinite t.isFinite_part, Binary64.ofRatio_eq, sum]

/-- A scale on which rounding a part of a second leaves no more than half a step. -/
theorem exists_fine : ∃ fine, Binary64.unitsPerOne = 2 ^ (53 + fine) ∧
    fine + 38 ≤ Binary64.maxScale :=
  ⟨1021, by decide +kernel, by decide⟩

theorem cast_unitsPerOne {fine : Nat} (units : Binary64.unitsPerOne = 2 ^ (53 + fine)) :
    (Binary64.unitsPerOne : ℤ) = 2 ^ 53 * 2 ^ fine := by
  rw [units, pow_add]
  push_cast
  rfl

section Fine

variable {fine : Nat} (units : Binary64.unitsPerOne = 2 ^ (53 + fine))
  (room : fine + 38 ≤ Binary64.maxScale)
include units room

theorem part_near (t : Instant) :
    2 * ((t.micros % microsPerSecond).toNat * Binary64.unitsPerOne : ℤ) - 1000000 * 2 ^ fine ≤
        2 * (t.part.units * 1000000) ∧
      2 * (t.part.units * 1000000) ≤
        2 * ((t.micros % microsPerSecond).toNat * Binary64.unitsPerOne : ℤ) +
          1000000 * 2 ^ fine := by
  have few : (t.micros % microsPerSecond).toNat < 1000000 := by
    unfold microsPerSecond
    omega
  have rank : t.part.units = (Binary64.ofRatioBy Binary64.unitsPerOne
      (decide (((t.micros % microsPerSecond).toNat : ℤ) < 0))
        ((t.micros % microsPerSecond).toNat : ℤ).natAbs 1000000).rank := by
    rw [← Binary64.rank_of_isFinite t.isFinite_part, part, Binary64.ofRatio_eq, Int.natAbs_natCast,
      decide_eq_false (by omega)]
  have small : ((t.micros % microsPerSecond).toNat : ℤ).natAbs * Binary64.unitsPerOne / 1000000 <
      2 ^ (53 + fine) := by
    rw [Int.natAbs_natCast, units, Nat.div_lt_iff_lt_mul (by decide), Nat.mul_comm]
    exact Nat.mul_lt_mul_of_pos_left few (Nat.two_pow_pos _)
  have near := Binary64.rank_ofRatioBy_between (by decide) small (by omega)
  rw [← rank] at near
  push_cast at near
  exact near

/-- Rounding the microseconds hardly moves a time. -/
theorem sum_near (t : Instant) :
    2 * (t.micros * Binary64.unitsPerOne) - 1000000 * 2 ^ fine ≤ 2000000 * t.sum ∧
      2000000 * t.sum ≤ 2 * (t.micros * Binary64.unitsPerOne) + 1000000 * 2 ^ fine := by
  obtain ⟨low, high⟩ := t.part_near units room
  have whole := congrArg (· * (Binary64.unitsPerOne : ℤ)) t.micros_eq
  simp only [add_mul] at whole
  have scaled : t.seconds * 1000000 * (Binary64.unitsPerOne : ℤ) =
      1000000 * (t.seconds * Binary64.unitsPerOne) := by ring
  unfold sum
  omega

end Fine

/-- A later time never has a lower place. -/
theorem place_le_of_le (le : s ≤ t) : s.place ≤ t.place := by
  rcases (show s.micros ≤ t.micros from le).eq_or_lt with same | less
  · rw [show s = t from congrArg mk same]
  rw [place_eq_rank, place_eq_rank]
  refine Binary64.rank_ofRatioBy_mono (by decide +kernel) ?_
  obtain ⟨fine, units, room⟩ := exists_fine
  have high := (s.sum_near units room).2
  have low := (t.sum_near units room).1
  have wide := cast_unitsPerOne units
  have positive : (0 : ℤ) < 2 ^ fine := pow_pos two_pos fine
  generalize (2 : ℤ) ^ fine = w at *
  generalize (Binary64.unitsPerOne : ℤ) = u at *
  have apart : (s.micros + 1) * u ≤ t.micros * u :=
    Int.mul_le_mul_of_nonneg_right less (by omega)
  rw [add_mul] at apart
  omega

/-- Within `2 ^ (33 + j)` seconds of 1970 rounding moves a time by less than half of `2 ^ j`
microseconds. -/
theorem place_near (near : t.Within (2 ^ (33 + j))) (few : j ≤ 5) :
    (2 * t.micros - 2 ^ j) * Binary64.unitsPerOne < 2000000 * t.place ∧
      2000000 * t.place < (2 * t.micros + 2 ^ j) * Binary64.unitsPerOne := by
  obtain ⟨fine, units, room⟩ := exists_fine
  obtain ⟨low, high⟩ := t.sum_near units room
  have positive : 0 < Binary64.unitsPerOne := units ▸ Nat.two_pow_pos _
  have wide := cast_unitsPerOne units
  have step : (0 : ℤ) < 2 ^ fine := pow_pos two_pos fine
  have small : t.sum.natAbs * Binary64.unitsPerOne / Binary64.unitsPerOne <
      2 ^ (53 + (fine + 33 + j)) := by
    have inside : (t.micros * (Binary64.unitsPerOne : ℤ)).natAbs + Binary64.unitsPerOne ≤
        2 ^ (33 + j) * Binary64.unitsPerOne * 1000000 := by
      rw [Int.natAbs_mul, Int.natAbs_natCast, ← Nat.succ_mul, mul_right_comm]
      exact Nat.mul_le_mul_right _ near
    rw [Nat.mul_div_cancel _ positive, show 53 + (fine + 33 + j) = 33 + j + (53 + fine) by ring,
      pow_add, ← units]
    generalize 2 ^ (33 + j) * Binary64.unitsPerOne = q at inside ⊢
    generalize t.micros * (Binary64.unitsPerOne : ℤ) = m at low high inside
    clear units positive
    generalize Binary64.unitsPerOne = u at wide inside
    generalize (2 : ℤ) ^ fine = w at *
    omega
  have close := Binary64.rank_ofRatioBy_between positive small (by omega)
  rw [← place_eq_rank, Nat.cast_mul] at close
  have scale : ((2 ^ (fine + 33 + j) : Nat) : ℤ) = 2 ^ 33 * (2 ^ j * 2 ^ fine) := by
    push_cast
    ring
  have wider : (2 : ℤ) ^ fine ≤ 2 ^ j * 2 ^ fine :=
    le_mul_of_one_le_left step.le (one_le_pow₀ one_le_two)
  have shift : (2 : ℤ) ^ j * Binary64.unitsPerOne = 2 ^ 53 * (2 ^ j * 2 ^ fine) := by
    rw [wide]
    ring
  rw [scale] at close
  rw [sub_mul, add_mul, mul_assoc, shift]
  have positive : (0 : ℤ) < Binary64.unitsPerOne := Nat.cast_pos.mpr positive
  generalize (2 : ℤ) ^ j * 2 ^ fine = e at *
  generalize (2 : ℤ) ^ fine = w at *
  generalize (Binary64.unitsPerOne : ℤ) = u at *
  have above : 2 * t.sum - 2 ^ 33 * e ≤ 2 * t.place :=
    Int.le_of_mul_le_mul_right (by linarith [close.1]) positive
  have below : 2 * t.place ≤ 2 * t.sum + 2 ^ 33 * e :=
    Int.le_of_mul_le_mul_right (by linarith [close.2]) positive
  constructor
  · linarith
  · linarith

/-- Times that are that far apart are told apart. -/
theorem place_lt_of_gap (near : s.Within (2 ^ (33 + j))) (near' : t.Within (2 ^ (33 + j)))
    (few : j ≤ 5) (gap : s.addMicros (2 ^ j) ≤ t) : s.place < t.place := by
  have gap : s.micros + 2 ^ j ≤ t.micros := gap
  have below := (place_near near few).2
  have above := (place_near near' few).1
  have apart : (2 * s.micros + 2 ^ j) * (Binary64.unitsPerOne : ℤ) ≤
      (2 * t.micros - 2 ^ j) * Binary64.unitsPerOne :=
    Int.mul_le_mul_of_nonneg_right (by omega) (Int.natCast_nonneg _)
  have less := (below.trans_le apart).trans above
  omega

end Instant

/-- A time is finite or infinite, and written in its one spelling. -/
theorem Zone.timestamp?_proper {z : Zone} {t : Instant} {x : Binary64}
    (stamped : z.timestamp? t = .ok x) : x.Canonical ∧ x ≠ .nan := by
  obtain ⟨moment, _, same⟩ := Attempt.bind_eq_ok_iff.mp stamped
  obtain rfl := Except.ok.inj same
  change (t.part.addInt moment).Canonical ∧ t.part.addInt moment ≠ .nan
  rw [Binary64.addInt_of_isFinite t.isFinite_part, Binary64.ofRatio_eq]
  have positive := Binary64.unitsPerOne_pos
  generalize Binary64.unitsPerOne = u at positive ⊢
  exact ⟨Binary64.canonical_ofRatioBy positive, Binary64.ofRatioBy_ne_nan positive⟩

/-- The numbers by which times are ordered compare as the times do as numbers of seconds. -/
theorem Zone.compare?_timestamp? {z : Zone} {s t : Instant} {x y : Binary64}
    (first : z.timestamp? s = .ok x) (second : z.timestamp? t = .ok y) :
    z.key? s = .ok x.rank ∧ z.key? t = .ok y.rank ∧
      x.compare? y = some (compare x.rank y.rank) := by
  obtain ⟨canonical, number⟩ := timestamp?_proper first
  obtain ⟨canonical', number'⟩ := timestamp?_proper second
  exact ⟨congrArg _ first, congrArg _ second,
    Binary64.compare?_eq_compare_rank canonical canonical' number number'⟩

end Cookbook
