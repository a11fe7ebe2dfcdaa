import Cookbook.Rule.Basic
import Cookbook.Rule.Problem
import Cookbook.Schema.Readers

/-!
# Reading rules

The shape of a rule is read with all its issues, and each issue becomes a problem at the group,
condition or exclusion that its path leads to.
-/

namespace Cookbook.Rule

open Schema

def conditionKind : String := "RuleCondition"

def groupKind : String := "RuleGroup"

def tagTypeNames : List String := ["tagType", "tag_type"]

section

variable {V : Type} (w : Readers V)

def Condition.ofMembers (ms : List (String × V)) : Checked Condition :=
  Condition.mk <$> memberD ms ["field"] (w.optional w.text) none
    <*> memberD ms ["operator"] (w.optional w.text) none
    <*> memberD ms ["value"] w.anything .null
    <*> memberD ms tagTypeNames (w.optional w.text) none

def Condition.read (v : V) : Checked Condition :=
  match w.members? v with
  | some ms => ofMembers w ms
  | none => .fault (.notPart conditionKind)

def Group.ofMembers (ms : List (String × V)) : Checked Group :=
  Group.mk <$> memberD ms ["logic"] (w.optional w.text) none
    <*> memberD ms ["conditions"] (w.list (Condition.read w)) []

def Group.read (v : V) : Checked Group :=
  match w.members? v with
  | some ms => ofMembers w ms
  | none => .fault (.notPart groupKind)

def autoOfMembers (ms : List (String × V)) : Checked Rule :=
  Rule.auto <$> memberD ms ["field"] (w.optional w.text) none
    <*> memberD ms ["value"] (w.optional w.text) none
    <*> memberD ms tagTypeNames (w.optional w.text) none

def customOfMembers (ms : List (String × V)) : Checked Rule :=
  Rule.custom <$> memberD ms ["groups"] (w.list (Group.read w)) []
    <*> memberD ms ["exclude"] (w.list (Condition.read w)) []

end

def modeName : String := "mode"

/-- The mode is read first; an unknown one says nothing about the other members. -/
def ofMembers {V : Type} (w : Readers V) (ms : List (String × V)) : Checked Rule :=
  match ms.lookup modeName with
  | none => .fault (.noTag modeName)
  | some tag =>
    match w.word? tag with
    | some "auto" => autoOfMembers w ms
    | some "custom" => customOfMembers w ms
    | _ => .fault (.unknownTag modeName (w.display tag) Mode.names)

def Condition.ofJson : Shape Condition := Condition.read .json

def Group.ofJson : Shape Group := Group.read .json

@[simp] theorem Condition.read_json : Condition.read .json = Condition.ofJson := rfl

@[simp] theorem Group.read_json : Group.read .json = Group.ofJson := rfl

def shape : Shape Rule
  | .obj ms => ofMembers .json ms
  | _ => .fault .notRecord

/-- The location that a path leads to, with the last member name that is no index of a list. -/
def Location.ofPath (l : Location) (name : String) : Path → Location × String
  | .name n :: .index i :: rest =>
    if n = "groups" then ofPath { l with group := some i } name rest
    else if n = "conditions" then ofPath { l with condition := some i } name rest
    else if n = "exclude" then ofPath { l with exclude := some i } name rest
    else ofPath l n rest
  | .name n :: rest => ofPath l n rest
  | .index _ :: rest => ofPath l name rest
  | [] => (l, name)

def Problem.ofIssue (i : Issue) : Problem :=
  let (location, name) := Location.whole.ofPath "" i.path
  ⟨location, if name.isEmpty then modeName else name, .shape i.fault⟩

def ofJson (j : Json) : Except (List Problem) Rule :=
  match shape j with
  | .ok r => .ok r
  | .bad is => .error (is.map Problem.ofIssue)

end Cookbook.Rule
