/-!
# Search patterns

In a pattern a percent sign stands for any text and an underscore for any one character, and neither
sign can be written for itself.  The letters A to Z match in either case.  Patterns and texts end at
their first null character, and the two last characters of the basic plane count as the replacement
character.
-/

namespace Cookbook.Text

def suffixes {α : Type} : List α → List (List α)
  | [] => [[]]
  | x :: xs => (x :: xs) :: suffixes xs

def anyText : Char := '%'

def anyChar : Char := '_'

def null : Char := '\x00'

/-- What is left of a text in a comparison. -/
def visible (cs : List Char) : List Char := cs.takeWhile (· != null)

def replaced (c : Char) : Char := if c = '\uFFFE' ∨ c = '\uFFFF' then '\uFFFD' else c

def alikeChars (c d : Char) : Bool := replaced c.toLower == replaced d.toLower

/-- The pattern on the left admits the text on the right. -/
def admits : List Char → List Char → Bool
  | [], s => s.isEmpty
  | c :: p, s =>
    if c = anyText then (suffixes s).any (admits p)
    else match s with
      | [] => false
      | d :: s => (c == anyChar || alikeChars c d) && admits p s

/-- The pattern that a search makes of what is looked for: it may stand anywhere. -/
def anywhere (sought : String) : List Char := anyText :: sought.toList ++ [anyText]

def Found (sought text : String) : Prop :=
  admits (visible (anywhere sought)) (visible text.toList) = true

instance (sought text : String) : Decidable (Found sought text) :=
  inferInstanceAs (Decidable (_ = true))

end Cookbook.Text
