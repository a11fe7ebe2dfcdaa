import Cookbook.Json.Basic
import Cookbook.Rule.Field
import Cookbook.Schema.Issue

/-!
# Problems of rules

A problem is a cause at a location of the rule, filed under the name of a field.  The sentence shown
counts groups and conditions from one.
-/

namespace Cookbook.Rule

/-- A place in a rule, counted from zero. -/
structure Location where
  group : Option Int
  condition : Option Int
  exclude : Option Int
deriving DecidableEq, Repr

namespace Location

def whole : Location := ⟨none, none, none⟩

def ofGroup (i : Nat) : Location := ⟨some i, none, none⟩

def ofCondition (i j : Nat) : Location := ⟨some i, some j, none⟩

def ofExclude (i : Nat) : Location := ⟨none, none, some i⟩

def describe (l : Location) : String :=
  match l.exclude, l.group, l.condition with
  | some e, _, _ => "Exclude condition " ++ toString (e + 1)
  | none, some g, none => "Group " ++ toString (g + 1)
  | none, some g, some c => "Group " ++ toString (g + 1) ++ " condition " ++ toString (c + 1)
  | none, none, _ => "Rule"

def marks (l : Location) : List (String × Option Int) :=
  [("groupIndex", l.group), ("conditionIndex", l.condition), ("excludeIndex", l.exclude)]

end Location

abbrev Marks := List (String × Option Int)

def Marks.toJson (ms : Marks) : Json := .obj (ms.map fun (k, i) => (k, Json.ofOption .int i))

def Location.toJson (l : Location) : Json := Marks.toJson l.marks

inductive Cause where
  | shape (fault : Schema.Fault)
  | autoField
  | autoFieldUnknown (field : String)
  | autoValue
  | logic
  | field
  | fieldUnknown (field : String)
  | operator
  | operatorUnknown (operator : String)
  | value
  | operatorIllegal (field : Field) (operator : Operator)
  | tagType
  | number (field : Field)
  /-- Found by other means and put in words there. -/
  | stated (text : String)
deriving DecidableEq, Repr

def Cause.text : Cause → String
  | shape fault => fault.message
  | autoField => "auto rule requires a field"
  | autoFieldUnknown f => "invalid field '" ++ f ++ "' (expected one of " ++
      ", ".intercalate (Field.linkable.map Field.name) ++ ")"
  | autoValue => "auto rule requires a value"
  | logic => "logic must be AND or OR"
  | field => "field is required"
  | fieldUnknown f => "unknown field '" ++ f ++ "'"
  | operator => "operator is required"
  | operatorUnknown o => "unknown operator '" ++ o ++ "'"
  | value => "value is required"
  | operatorIllegal f o => f.kind.name ++ " field '" ++ f.name ++ "' does not support operator '" ++
      o.name ++ "'"
  | tagType => "tag conditions require a tagType"
  | number f => "numeric field '" ++ f.name ++ "' requires a number"
  | stated text => text

structure Problem where
  location : Location
  field : String
  cause : Cause
deriving DecidableEq, Repr

namespace Problem

def message (p : Problem) : String := p.location.describe ++ ": " ++ p.cause.text

def toJson (p : Problem) : Json :=
  .obj [("location", p.location.toJson), ("field", .str p.field), ("message", .str p.message)]

end Problem

end Cookbook.Rule
