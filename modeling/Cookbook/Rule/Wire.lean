import Cookbook.Rule.Basic

/-!
# The JSON form of rules

What is absent is left out; the lists are always there.  A rule is stored with `null` for a number
that JSON cannot write, and is given with every value as it is.
-/

namespace Cookbook.Rule

def textMember (name : String) : Option String → Members
  | none => []
  | some s => [(name, .str s)]

section

variable (valueMember : Json → Members)

def Condition.json (c : Condition) : Json :=
  .obj (textMember "field" c.field ++ textMember "operator" c.operator ++ valueMember c.value ++
    textMember "tagType" c.tagType)

def Group.json (g : Group) : Json :=
  .obj (textMember "logic" g.logic ++
    [("conditions", .arr (g.conditions.map (Condition.json valueMember)))])

def json : Rule → Json
  | auto field value tagType =>
    .obj (("mode", .str Mode.auto.name) ::
      (textMember "field" field ++ textMember "value" value ++ textMember "tagType" tagType))
  | custom groups exclude =>
    .obj [("mode", .str Mode.custom.name), ("groups", .arr (groups.map (Group.json valueMember))),
      ("exclude", .arr (exclude.map (Condition.json valueMember)))]

end

def storedValue (value : Json) : Members :=
  if value = .null then [] else [("value", value.writable)]

def givenValue (value : Json) : Members := [("value", value)]

def Condition.toJson : Condition → Json := json storedValue

def Group.toJson : Group → Json := json storedValue

/-- The rule as it is stored. -/
def toJson : Rule → Json := json storedValue

theorem Condition.toJson_eq (c : Condition) :
    c.toJson = .obj (textMember "field" c.field ++ textMember "operator" c.operator ++
      storedValue c.value ++ textMember "tagType" c.tagType) := rfl

theorem Group.toJson_eq (g : Group) :
    g.toJson = .obj (textMember "logic" g.logic ++
      [("conditions", .arr (g.conditions.map Condition.toJson))]) := rfl

theorem toJson_custom (groups : List Group) (exclude : List Condition) :
    (custom groups exclude).toJson = .obj [("mode", .str Mode.custom.name),
      ("groups", .arr (groups.map Group.toJson)),
      ("exclude", .arr (exclude.map Condition.toJson))] := rfl

/-- The rule as a caller gives it. -/
def asGiven : Rule → Json := json givenValue

/-- The rule that matches everything, as it is stored. -/
def emptyJson : Json := (custom [] []).toJson

end Cookbook.Rule
