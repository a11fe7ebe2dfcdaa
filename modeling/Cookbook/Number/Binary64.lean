/-!
# Binary64 numbers

A finite number is a significand on a power-of-two grid whose finest step is `2 ^ (-1074)`, so every
finite number is a whole count of such steps (`units`).  Order, equality and arithmetic are read off
the units; only `ofRatio` rounds, to the nearest grid point with ties to the even significand.
-/

namespace Cookbook

/-- The value of `finite n s k` is `s * 2 ^ k / 2 ^ 1074`, negated when `n` is true. -/
inductive Binary64 where
  | nan
  | infinite (negative : Bool)
  | finite (negative : Bool) (significand scale : Nat)
deriving DecidableEq, Repr, Inhabited

/-- The whole number nearest to `num / den`; a half goes to the even neighbour. -/
def roundEven (num den : Nat) : Nat :=
  let q := num / den
  let r := num % den
  if 2 * r < den then q
  else if den < 2 * r then q + 1
  else if q % 2 = 0 then q
  else q + 1

namespace Binary64

/-- The number of finest steps in one. -/
def unitsPerOne : Nat := Nat.pow 2 1074

def maxScale : Nat := 2045

/-- The one spelling that each finite value has. -/
def Canonical : Binary64 → Prop
  | nan => True
  | infinite _ => True
  | finite _ s k => s < Nat.pow 2 53 ∧ k ≤ maxScale ∧ (Nat.pow 2 52 ≤ s ∨ k = 0)

instance : DecidablePred Canonical := fun x =>
  match x with
  | nan => inferInstanceAs (Decidable True)
  | infinite _ => inferInstanceAs (Decidable True)
  | finite _ s k =>
    inferInstanceAs
      (Decidable (s < Nat.pow 2 53 ∧ k ≤ maxScale ∧ (Nat.pow 2 52 ≤ s ∨ k = 0)))

def units : Binary64 → Int
  | finite true s k => -((s * Nat.pow 2 k : Nat) : Int)
  | finite false s k => ((s * Nat.pow 2 k : Nat) : Int)
  | _ => 0

def isFinite : Binary64 → Bool
  | finite .. => true
  | _ => false

/-- The scale on which a magnitude of `n` finest steps has a 53 bit significand. -/
def scaleOf (n : Nat) : Nat := n.log2 - 52

/-- The binary64 number nearest to `num / den`; beyond the largest one, an infinity. -/
def ofRatio (negative : Bool) (num den : Nat) : Binary64 :=
  let steps := num * unitsPerOne
  let k := scaleOf (steps / den)
  let s := roundEven steps (den * Nat.pow 2 k)
  let (s, k) := if s = Nat.pow 2 53 then (Nat.pow 2 52, k + 1) else (s, k)
  if maxScale < k then infinite negative else finite negative s k

def ofInt (n : Int) : Binary64 := ofRatio (decide (n < 0)) n.natAbs 1

/-- The number nearest to `± digits * 10 ^ exponent`.  Exponents far outside the range are cut off
before the power is formed. -/
def ofDecimal (negative : Bool) (digits : Nat) (exponent : Int) : Binary64 :=
  let top : Int := (Nat.toDigits 10 digits).length + exponent
  if digits = 0 then finite negative 0 0
  else if 310 < top then infinite negative
  else if top < -330 then finite negative 0 0
  else if 0 ≤ exponent then ofRatio negative (digits * Nat.pow 10 exponent.toNat) 1
  else ofRatio negative digits (Nat.pow 10 (-exponent).toNat)

def zero : Binary64 := finite false 0 0

/-- The sum with a whole number. -/
def addInt (x : Binary64) (n : Int) : Binary64 :=
  match x with
  | finite .. =>
    let sum := x.units + n * unitsPerOne
    ofRatio (decide (sum < 0)) sum.natAbs unitsPerOne
  | _ => x

def scaleBy (x : Binary64) (n : Nat) : Binary64 :=
  match x with
  | finite neg s k => ofRatio neg (s * Nat.pow 2 k * n) unitsPerOne
  | infinite neg => if n = 0 then nan else infinite neg
  | nan => nan

/-- The number nearest to this one among the decimals with `places` digits after the point. -/
def roundTo (places : Nat) : Binary64 → Binary64
  | finite neg s k => ofRatio neg (roundEven (s * Nat.pow 2 k * Nat.pow 10 places) unitsPerOne)
      (Nat.pow 10 places)
  | x => x

/-- One more than the magnitude of any finite number can be. -/
def limit : Nat := Nat.pow 2 (53 + maxScale)

/-- The place of a number among all numbers. -/
def rank : Binary64 → Int
  | infinite true => -(limit : Int)
  | infinite false => limit
  | x => x.units

def compare? : Binary64 → Binary64 → Option Ordering
  | nan, _ => none
  | _, nan => none
  | infinite a, infinite b => some (compare b a)
  | infinite a, finite .. => some (if a then .lt else .gt)
  | finite .., infinite b => some (if b then .gt else .lt)
  | x@(finite ..), y@(finite ..) => some (compare x.units y.units)

/-- Comparison with a whole number, without rounding it. -/
def compareInt? : Binary64 → Int → Option Ordering
  | nan, _ => none
  | infinite a, _ => some (if a then .lt else .gt)
  | x@(finite ..), n => some (compare x.units (n * unitsPerOne))

def toInt? : Binary64 → Option Int
  | x@(finite ..) => if x.units % unitsPerOne = 0 then some (x.units / unitsPerOne) else none
  | _ => none

end Binary64

end Cookbook
