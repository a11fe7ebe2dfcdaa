import Cookbook.Number.Binary64

/-!
# Numbers

A number is a whole number of any size or a binary64 number.  The two kinds are told apart, and
compared by value: `2` and `2.0` are different numbers that are `alike`.
-/

namespace Cookbook

inductive Number where
  | int (value : Int)
  | float (value : Binary64)
deriving DecidableEq, Repr, Inhabited

namespace Number

/-- The order of two numbers as values; nothing compares with `nan`. -/
def compare? : Number → Number → Option Ordering
  | int a, int b => some (compare a b)
  | int a, float y => (y.compareInt? a).map Ordering.swap
  | float x, int b => x.compareInt? b
  | float x, float y => x.compare? y

def alike (a b : Number) : Bool := a.compare? b == some .eq

def isFinite : Number → Bool
  | int _ => true
  | float x => x.isFinite

/-- Fits a signed word of 64 bits if it is a whole number. -/
def FitsWord : Number → Prop
  | int n => -0x8000000000000000 ≤ n ∧ n < 0x8000000000000000
  | float _ => True

instance : DecidablePred FitsWord := fun
  | int n => inferInstanceAs (Decidable (-0x8000000000000000 ≤ n ∧ n < 0x8000000000000000))
  | float _ => inferInstanceAs (Decidable True)

end Number

end Cookbook
