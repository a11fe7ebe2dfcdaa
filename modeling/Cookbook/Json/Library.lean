import Cookbook.Failure
import Cookbook.Json.Printer
import Cookbook.Json.Reader
import Cookbook.Schema.Checked

/-!
# Libraries of JSON

A library writes values as texts and reads texts, as far as its bounds go: a value can be nested too
deep for it, a whole number can be too long, and a character can be half of a pair.  The one here
says of a text that it refuses where it stopped.
-/

namespace Cookbook.Json

mutual

/-- How many lists and objects are around the innermost value; an empty one is around none. -/
def nesting : Json → Nat
  | arr xs => nestingOfItems xs
  | obj ms => nestingOfMembers ms
  | _ => 0

def nestingOfItems : List Json → Nat
  | [] => 0
  | x :: xs => max (x.nesting + 1) (nestingOfItems xs)

def nestingOfMembers : Members → Nat
  | [] => 0
  | (_, x) :: ms => max (x.nesting + 1) (nestingOfMembers ms)

end

mutual

/-- The values that hold no others, and the names of members as texts. -/
def scalars : Json → List Json
  | arr xs => scalarsOfItems xs
  | obj ms => scalarsOfMembers ms
  | x => [x]

def scalarsOfItems : List Json → List Json
  | [] => []
  | x :: xs => x.scalars ++ scalarsOfItems xs

def scalarsOfMembers : Members → List Json
  | [] => []
  | (k, x) :: ms => str k :: (x.scalars ++ scalarsOfMembers ms)

end

/-- How far a library goes. -/
structure Bounds where
  nesting : Nat
  /-- The most characters of a whole number, with its sign. -/
  width : Nat
  /-- Characters that stand for halves of pairs, which no text has. -/
  halves : List Char

namespace Bounds

def Takes (b : Bounds) : Json → Prop
  | .num (.int n) => n.natAbs < Nat.pow 10 (if n < 0 then b.width - 1 else b.width)
  | .str s => ∀ c ∈ s.toList, c ∉ b.halves
  | _ => True

instance (b : Bounds) : DecidablePred b.Takes := fun
  | .num (.int n) =>
    inferInstanceAs (Decidable (n.natAbs < Nat.pow 10 (if n < 0 then b.width - 1 else b.width)))
  -- not by going through all characters there are
  | .str s => List.decidableBAll (· ∉ b.halves) s.toList
  | .null | .bool _ | .num (.float _) | .arr _ | .obj _ => inferInstanceAs (Decidable True)

def standard : Bounds := ⟨200, 4300, []⟩

end Bounds

def Within (b : Bounds) (j : Json) : Prop :=
  j.nesting ≤ b.nesting ∧ ∀ x ∈ j.scalars, b.Takes x

instance (b : Bounds) : DecidablePred (Within b) := fun j =>
  inferInstanceAs (Decidable (j.nesting ≤ b.nesting ∧ ∀ x ∈ j.scalars, b.Takes x))

structure Library where
  write : Json → Attempt String
  read : String → Schema.Checked Json

/-- What a reader is in the middle of. -/
inductive Spot where
  | between
  | text
  | escape
  /-- In the whole part of a number, after so many characters of it. -/
  | whole (length : Nat)
  | fraction
deriving DecidableEq, Repr

namespace Spot

def after (spot : Spot) (c : Char) : Spot :=
  match spot with
  | escape => text
  | text => if c = '"' then between else if c = '\\' then escape else text
  | whole n =>
    if c.isDigit then whole (n + 1) else if c = '.' ∨ c = 'e' ∨ c = 'E' then fraction else between
  | fraction => if c.isDigit ∨ c = '+' ∨ c = '-' ∨ c = 'e' ∨ c = 'E' then fraction else between
  | between => if c = '"' then text else if c.isDigit ∨ c = '-' then whole 1 else between

def inText : Spot → Bool
  | text | escape => true
  | _ => false

end Spot

/-- How far a reader is in a text; columns count bytes. -/
structure Scan where
  spot : Spot
  depth : Nat
  /-- What the innermost list or object holds begins next. -/
  first : Bool
  line : Nat
  column : Nat

namespace Scan

def start : Scan := ⟨.between, 0, false, 1, 1⟩

def isBlank (c : Char) : Bool := c = ' ' || c = '\n' || c = '\r' || c = '\t'

def past (s : Scan) (c : Char) : Scan :=
  let s := if c = '\n' then { s with line := s.line + 1, column := 1 }
    else { s with column := s.column + c.utf8Size }
  let inside := { s with spot := s.spot.after c }
  if s.spot.inText || isBlank c then inside
  else match c with
    | '[' => { inside with depth := s.depth + 1, first := true }
    | '\x7b' => { inside with depth := s.depth + 1, first := false }
    | ']' | '\x7d' => { inside with depth := s.depth - 1, first := false }
    | ':' => { inside with first := true }
    | _ => { inside with first := false }

def say (s : Scan) (complaint : String) : String :=
  complaint ++ " at line " ++ toString s.line ++ " column " ++ toString s.column

/-- What is wrong with the next character, if that is beyond the bounds. -/
def complaint? (b : Bounds) (s : Scan) (c : Char) : Option String :=
  if s.first && b.nesting < s.depth && !isBlank c && c != ']' then
    some (s.say "recursion limit exceeded")
  else match (s.past c).spot with
    | .whole n => if b.width < n then some ((s.past c).say "number out of range") else none
    | _ => none

/-- What is wrong with a text at the first place that is beyond the bounds. -/
def refusal? (b : Bounds) (s : Scan) : List Char → Option String
  | [] => none
  | c :: cs => (complaint? b s c).or (refusal? b (s.past c) cs)

end Scan

namespace Library

def standard : Library where
  write j :=
    if j.nesting ≤ 255 then .ok (j.text compact)
    else .error (.library "PydanticSerializationError"
      "Circular reference detected (depth exceeded)")
  read s :=
    let complaint := (Scan.start.refusal? .standard s.toList).getD "expected value"
    match ofText? s with
    | some j => if j.Within .standard then .ok j else .fault (.noJson complaint)
    | none => .fault (.noJson complaint)

end Library

end Cookbook.Json
