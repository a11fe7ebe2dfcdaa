import Cookbook.Number.Binary64

/-!
# Shortest decimal text of a binary64 number

The digits written are the fewest that read back as the same number, and of those the nearest to
it.  A decimal grid holds a number that reads back exactly when one of the two grid points around
the value does, so trying the two neighbours on grids of 1, 2, … 17 digits is enough.
-/

namespace Cookbook

namespace Binary64

/-- The interval of reals that round to a positive number, in quarters of the finest step. -/
structure Basin where
  low : Nat
  value : Nat
  high : Nat
  closed : Bool

def basin (significand scale : Nat) : Basin where
  low := if significand = Nat.pow 2 52 ∧ 0 < scale then (4 * significand - 1) * Nat.pow 2 scale
    else (4 * significand - 2) * Nat.pow 2 scale
  value := 4 * significand * Nat.pow 2 scale
  high := (4 * significand + 2) * Nat.pow 2 scale
  closed := significand % 2 = 0

def quartersPerOne : Nat := 4 * unitsPerOne

/-- `count * 10 ^ grid` as a ratio of quarter steps. -/
def gridPoint (grid : Int) (count : Nat) : Nat × Nat :=
  if 0 ≤ grid then (count * Nat.pow 10 grid.toNat * quartersPerOne, 1)
  else (count * quartersPerOne, Nat.pow 10 (-grid).toNat)

def Basin.contains (b : Basin) (grid : Int) (count : Nat) : Bool :=
  let (num, den) := gridPoint grid count
  if b.closed then b.low * den ≤ num && num ≤ b.high * den
  else b.low * den < num && num < b.high * den

def Basin.floorOn (b : Basin) (grid : Int) : Nat :=
  if 0 ≤ grid then b.value / (Nat.pow 10 grid.toNat * quartersPerOne)
  else b.value * Nat.pow 10 (-grid).toNat / quartersPerOne

/-- The neighbour of the value on a grid that reads back as it; an exact tie goes to the even
one. -/
def Basin.onGrid? (b : Basin) (grid : Int) : Option Nat :=
  let below := b.floorOn grid
  match b.contains grid below, b.contains grid (below + 1) with
  | true, false => some below
  | false, true => some (below + 1)
  | false, false => none
  | true, true =>
    let (lowNum, den) := gridPoint grid below
    let (highNum, _) := gridPoint grid (below + 1)
    let distanceBelow := b.value * den - lowNum
    let distanceAbove := highNum - b.value * den
    if distanceBelow < distanceAbove then some below
    else if distanceAbove < distanceBelow then some (below + 1)
    else if below % 2 = 0 then some below
    else some (below + 1)

def Basin.leading (b : Basin) : Int :=
  ((Nat.toDigits 10 (b.value * Nat.pow 10 330 / quartersPerOne)).length : Int) - 331

def stripZeros (digits : List Char) (grid : Int) : List Char × Int :=
  let kept := (digits.reverse.dropWhile (· == '0')).reverse
  (kept, grid + (digits.length - kept.length : Nat))

/-- The count and the grid of the number that reads back on the coarsest of the grids that give 1,
2, … 17 digits. -/
def Basin.search? (b : Basin) : Option (Nat × Int) :=
  let e := b.leading
  (List.range 17).findSome? fun n : Nat => (b.onGrid? (e - n)).map fun count => (count, e - n)

/-- The digits of what was found, and the power of ten of the first of them. -/
def Basin.digits (b : Basin) : Option (Nat × Int) → List Char × Int
  | some (count, grid) =>
    let (digits, last) := stripZeros (Nat.toDigits 10 count) grid
    (digits, last + digits.length - 1)
  | none => (Nat.toDigits 10 (b.floorOn (b.leading - 16)), b.leading)

/-- The shortest digits of a positive number, and the power of ten of the first of them. -/
def shortest (significand scale : Nat) : List Char × Int :=
  let b := basin significand scale
  b.digits b.search?

structure Spelling where
  plainFrom : Int
  plainTo : Int
  exponentWidth : Nat
  nanText : String
  infinityText : String

/-- Numbers from `1e-4` up to `1e16` are plain and keep a fraction; exponents have a sign and at
least two digits. -/
def standard : Spelling where
  plainFrom := -4
  plainTo := 15
  exponentWidth := 2
  nanText := "nan"
  infinityText := "inf"

/-- A point stands between the digits of one and above and those below; each side has a digit. -/
def plainText (digits : List Char) (first : Int) : List Char :=
  if first < 0 then
    '0' :: '.' :: (List.replicate (-first - 1).toNat '0' ++ digits)
  else
    let whole := first.toNat + 1
    let padded := digits ++ List.replicate (whole - digits.length) '0'
    let fraction := digits.drop whole
    padded.take whole ++ '.' :: (if fraction.isEmpty then ['0'] else fraction)

def exponentText (n : Spelling) (digits : List Char) (first : Int) : List Char :=
  let mantissa := match digits with
    | [] => []
    | [d] => [d]
    | d :: rest => d :: '.' :: rest
  let size := Nat.toDigits 10 first.natAbs
  mantissa ++ 'e' :: (if first < 0 then '-' else '+') ::
    (List.replicate (n.exponentWidth - size.length) '0' ++ size)

def Spelling.layOut (n : Spelling) : List Char × Int → List Char
  | (digits, first) =>
    if n.plainFrom ≤ first ∧ first ≤ n.plainTo then plainText digits first
    else exponentText n digits first

def text (n : Spelling) : Binary64 → String
  | nan => n.nanText
  | infinite neg => (if neg then "-" else "") ++ n.infinityText
  | finite neg s k =>
    let sign := if neg then ['-'] else []
    let body := if s = 0 then ['0', '.', '0'] else n.layOut (shortest s k)
    String.ofList (sign ++ body)

end Binary64

end Cookbook
