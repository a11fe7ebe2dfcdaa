import Cookbook.Number.Basic
import Cookbook.Text.Character

/-!
# Reading numerals

A numeral is read in an alphabet, which says what counts as blank and what as a digit.  Single
underscores may stand between digits.
-/

namespace Cookbook.Numeral

structure Alphabet where
  blank : Char → Bool
  digit? : Char → Option Nat

def unicode : Alphabet := ⟨Text.isBlank, Text.digitValue?⟩

def ascii : Alphabet := ⟨Text.isWhite, Text.asciiDigitValue?⟩

/-- The text without blanks at its ends, with plain digits and a visible mark for every other
character outside ASCII. -/
def Alphabet.plain (a : Alphabet) (cs : List Char) : List Char :=
  (Text.trim a.blank cs).map fun c =>
    match a.digit? c with
    | some d => Char.ofNat (48 + d)
    | none => if c.toNat < 128 then c else '?'

def signed : List Char → Bool × List Char
  | '-' :: rest => (true, rest)
  | '+' :: rest => (false, rest)
  | rest => (false, rest)

/-- Digits with single underscores between them; `after` says that a digit came before. -/
def digitRun? (after : Bool) : List Char → Option (List Char)
  | [] => if after then some [] else none
  | '_' :: rest => if after then digitRun? false rest else none
  | c :: rest => if c.isDigit then (digitRun? true rest).map (c :: ·) else none

def ofDigits (ds : List Char) : Nat := ds.foldl (fun n d => n * 10 + (d.toNat - 48)) 0

/-- More digits than this are not read as a whole number. -/
def maxDigits : Nat := 4300

def withSign (negative : Bool) (n : Nat) : Int := if negative then -(n : Int) else n

def int? (a : Alphabet) (cs : List Char) : Option Int :=
  let (negative, body) := signed (a.plain cs)
  match digitRun? false body with
  | some ds => if ds.length ≤ maxDigits then some (withSign negative (ofDigits ds)) else none
  | none => none

def withoutUnderscores? (after : Bool) : List Char → Option (List Char)
  | [] => some []
  | '_' :: d :: rest =>
    if after && d.isDigit then (withoutUnderscores? true rest).map (d :: ·) else none
  | '_' :: [] => none
  | c :: rest => (withoutUnderscores? c.isDigit rest).map (c :: ·)

/-- The power of ten of a numeral: nothing, or a mark with a whole number. -/
def exponent? : List Char → Option Int
  | [] => some 0
  | c :: rest =>
    if c = 'e' ∨ c = 'E' then
      let (negative, ds) := signed rest
      if ds.isEmpty ∨ ds.any (fun d => !d.isDigit) then none
      else some (withSign negative (ofDigits ds))
    else none

def decimal? (negative : Bool) (cs : List Char) : Option Binary64 :=
  let whole := cs.takeWhile Char.isDigit
  let rest := cs.dropWhile Char.isDigit
  let (fraction, rest) := match rest with
    | '.' :: r => (r.takeWhile Char.isDigit, r.dropWhile Char.isDigit)
    | r => ([], r)
  if whole.isEmpty ∧ fraction.isEmpty then none
  else (exponent? rest).map fun e =>
    Binary64.ofDecimal negative (ofDigits (whole ++ fraction)) (e - fraction.length)

def float? (a : Alphabet) (cs : List Char) : Option Binary64 := do
  let plain ← withoutUnderscores? false (a.plain cs)
  let (negative, body) := signed plain
  let word := String.ofList (body.map Text.foldAscii)
  if word = "inf" ∨ word = "infinity" then some (.infinite negative)
  else if word = "nan" then some .nan
  else decimal? negative body

end Cookbook.Numeral
