import Cookbook.Json.Display
import Cookbook.Rule.Basic

/-!
# Rules in words

Groups are joined with AND, the conditions of a group with its own logic, and exclusions are listed
after them.  Names that are not known stand for themselves.
-/

namespace Cookbook.Rule

def fieldLabel (field : Option String) : String :=
  let name := (presentText? field).getD "?"
  match Field.ofName? name with
  | some f => f.label
  | none => name

def operatorLabel (operator : Option String) : String :=
  let name := (presentText? operator).getD "?"
  match Operator.ofName? name with
  | some o => o.symbol
  | none => name

def valueText : Json → String
  | .arr xs => "[" ++ ", ".intercalate (xs.map Json.display) ++ "]"
  | j => j.display

def Condition.describe (c : Condition) : String :=
  let label := fieldLabel c.field ++
    match presentText? c.tagType with
    | some t => "[" ++ t ++ "]"
    | none => ""
  label ++ " " ++ operatorLabel c.operator ++ " " ++ valueText c.value

def Group.describe (g : Group) : String :=
  let joiner := if g.IsAny then " OR " else " AND "
  "(" ++ joiner.intercalate (g.conditions.map Condition.describe) ++ ")"

def matchesAllText : String := "No rules (matches all)"

def describeCustom (groups : List Group) (exclude : List Condition) : String :=
  let groups := groups.filter (!·.conditions.isEmpty)
  if groups.isEmpty && exclude.isEmpty then matchesAllText
  else
    let body := if groups.isEmpty then "All recipes" else
      " AND ".intercalate (groups.map Group.describe)
    if exclude.isEmpty then body
    else body ++ " EXCLUDE: " ++ ", ".intercalate (exclude.map Condition.describe)

def describe : Rule → String
  | auto field _ _ => "Auto match " ++ fieldLabel field
  | custom groups exclude => describeCustom groups exclude

end Cookbook.Rule
