/-!
# Issues

What can be wrong with a value that should have a certain shape, and where in it.  A fault has a
short code and a sentence; a few sentences differ for values that come from JSON text.
-/

namespace Cookbook.Schema

/-- A step into a value: a member of an object, an item of a list, or a case of a union. -/
inductive Step where
  | name (name : String)
  | index (index : Nat)
deriving DecidableEq, Repr

abbrev Path := List Step

inductive Fault where
  | missing
  | notText
  | notUnicode
  | notList
  | notTuple
  | notObject
  | notPart (kind : String)
  | notRecord
  | notWhole
  | wholeText
  | wholeFraction
  | wholeSize
  | notFinite
  | notNumber
  | numberText
  | notTruth
  | truthText
  | notChoice (choices : List String)
  | notMember (choices : List String)
  | below (bound : Int)
  | above (bound : Int)
  | emptyText
  | emptyList
  | noTag (discriminator : String)
  | unknownTag (discriminator tag : String) (expected : List String)
  | noJson (complaint : String)
deriving DecidableEq, Repr

namespace Fault

def code : Fault → String
  | missing => "missing"
  | notText => "string_type"
  | notUnicode => "string_unicode"
  | notList => "list_type"
  | notTuple => "tuple_type"
  | notObject => "dict_type"
  | notPart _ => "model_type"
  | notRecord => "model_attributes_type"
  | notWhole => "int_type"
  | wholeText => "int_parsing"
  | wholeFraction => "int_from_float"
  | wholeSize => "int_parsing_size"
  | notFinite => "finite_number"
  | notNumber => "float_type"
  | numberText => "float_parsing"
  | notTruth => "bool_type"
  | truthText => "bool_parsing"
  | notChoice _ => "literal_error"
  | notMember _ => "enum"
  | below _ => "greater_than_equal"
  | above _ => "less_than_equal"
  | emptyText => "string_too_short"
  | emptyList => "too_short"
  | noTag _ => "union_tag_not_found"
  | unknownTag .. => "union_tag_invalid"
  | noJson _ => "json_invalid"

def alternatives (choices : List String) : String :=
  let quoted := choices.map fun c => "'" ++ c ++ "'"
  match quoted.reverse with
  | [] => ""
  | [c] => c
  | last :: rest => ", ".intercalate rest.reverse ++ " or " ++ last

def message : Fault → String
  | missing => "Field required"
  | notText => "Input should be a valid string"
  | notUnicode => "Input should be a valid string, unable to parse raw data as a unicode string"
  | notList => "Input should be a valid list"
  | notTuple => "Input should be a valid tuple"
  | notObject => "Input should be a valid dictionary"
  | notPart kind => "Input should be a valid dictionary or instance of " ++ kind
  | notRecord => "Input should be a valid dictionary or object to extract fields from"
  | notWhole => "Input should be a valid integer"
  | wholeText => "Input should be a valid integer, unable to parse string as an integer"
  | wholeFraction => "Input should be a valid integer, got a number with a fractional part"
  | wholeSize => "Unable to parse input string as an integer, exceeded maximum size"
  | notFinite => "Input should be a finite number"
  | notNumber => "Input should be a valid number"
  | numberText => "Input should be a valid number, unable to parse string as a number"
  | notTruth => "Input should be a valid boolean"
  | truthText => "Input should be a valid boolean, unable to interpret input"
  | notChoice choices => "Input should be " ++ alternatives choices
  | notMember choices => "Input should be " ++ alternatives choices
  | below bound => "Input should be greater than or equal to " ++ toString bound
  | above bound => "Input should be less than or equal to " ++ toString bound
  | emptyText => "String should have at least 1 character"
  | emptyList => "List should have at least 1 item after validation, not 0"
  | noTag discriminator => "Unable to extract tag using discriminator '" ++ discriminator ++ "'"
  | unknownTag discriminator tag expected =>
    "Input tag '" ++ tag ++ "' found using '" ++ discriminator ++
      "' does not match any of the expected tags: " ++
      ", ".intercalate (expected.map fun t => "'" ++ t ++ "'")
  | noJson complaint => "Invalid JSON: " ++ complaint

/-- The sentence for a value read from JSON text, which speaks of arrays and objects. -/
def textMessage : Fault → String
  | notList => "Input should be a valid array"
  | notTuple => "Input should be a valid array"
  | notObject => "Input should be an object"
  | notPart _ => "Input should be an object"
  | notRecord => "Input should be an object"
  | fault => fault.message

end Fault

structure Issue where
  path : Path
  fault : Fault
deriving DecidableEq, Repr

def Issue.under (step : Step) (i : Issue) : Issue := { i with path := step :: i.path }

end Cookbook.Schema
