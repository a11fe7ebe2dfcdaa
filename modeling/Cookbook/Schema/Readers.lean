import Cookbook.Json.Display
import Cookbook.Schema.Shape

/-!
# Readers of a kind of values

Records are read from JSON and from what files hold, which has more kinds of values.  What a record
asks for is written once, over the readers of the kind that it is read from.
-/

namespace Cookbook.Schema

structure Readers (V : Type) where
  text : V → Checked String
  optional : {α : Type} → (V → Checked α) → V → Checked (Option α)
  list : {α : Type} → (V → Checked α) → V → Checked (List α)
  choice : List String → V → Checked String
  whole : V → Checked Int
  /-- What is taken of a value that may be of any kind. -/
  anything : V → Checked Json
  /-- The members of an object that have texts for names. -/
  members? : V → Option (List (String × V))
  /-- The text that the value is, and not only reads as. -/
  word? : V → Option String
  display : V → String

namespace Readers

abbrev json : Readers Json where
  text := Schema.text
  optional := Schema.optional
  list := Schema.list
  choice := Schema.choice
  whole := Schema.whole
  anything := Schema.anything
  members?
    | .obj ms => some ms
    | _ => none
  word?
    | .str s => some s
    | _ => none
  display := Json.display

variable {V : Type}

def atLeast (w : Readers V) (bound : Int) (v : V) : Checked Int :=
  (w.whole v).andThen fun n => if n < bound then .fault (.below bound) else .ok n

end Readers

end Cookbook.Schema
