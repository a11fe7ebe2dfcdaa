import Cookbook.Json.Display
import Cookbook.Number.Numeral

/-!
# Values of conditions

A number is given as such or as a numeral; truth values and numbers that are not finite do not
count.  Ids are given one by one or in a list, and any value stands for the id that its text is.
-/

namespace Cookbook.Json

/-- The number of a numeral: a whole number if it reads as one. -/
def numeral? (s : String) : Option Number :=
  let cs := Text.trim Text.isBlank s.toList
  match Numeral.int? Numeral.unicode cs with
  | some n => some (.int n)
  | none =>
    match Numeral.float? Numeral.unicode cs with
    | some x => if x.isFinite then some (.float x) else none
    | none => none

def number? : Json → Option Number
  | num n => if n.isFinite then some n else none
  | str s => numeral? s
  | _ => none

def ids : Json → List String
  | arr xs => xs.map display
  | j => [j.display]

end Cookbook.Json
