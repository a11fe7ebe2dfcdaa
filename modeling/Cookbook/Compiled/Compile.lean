import Cookbook.Compiled.Warning
import Cookbook.Json.Display
import Cookbook.Predicate.Simplify
import Cookbook.Rule.Basic
import Cookbook.Rule.Value

/-!
# From rules to predicates

Conditions combine under the logic of their group, groups under AND, and the excluded conditions are
joined with OR and negated.  A condition that has no meaning is dropped with a warning, and a group
without conditions says nothing.
-/

namespace Cookbook.Rule

namespace Condition

/-- What a field, an operator and a value say together. -/
def meaning? (f : Field) (o : Operator) (value : Json) (tagType : Option String) :
    Option Predicate :=
  match f with
  | .relation r => o.membership?.map fun m => .relation r m value.ids
  | .measure m =>
    match o.comparison?, value.number? with
    | some op, some n => some (.numeric m op n)
    | _, _ => none
  | _ => o.membership?.map fun m =>
    .tag (if m.isPositive then .some else .none) value.ids (presentText? tagType)

def predicate? (c : Condition) : Option Predicate :=
  match c.field?, c.operator? with
  | some f, some o => if c.value = .null then none else meaning? f o c.value c.tagType
  | _, _ => none

def warning (c : Condition) (l : Location) : Warning where
  code := .unsupportedCondition
  message := l.describe ++ ": unsupported condition " ++ literalText c.field ++ " " ++
    literalText c.operator ++ " " ++ c.value.literal ++ "; ignored"
  location := some l.marks

def warnings (c : Condition) (l : Location) : List Warning :=
  match c.predicate? with
  | some _ => []
  | none => [c.warning l]

end Condition

namespace Group

def predicate? (g : Group) : Option Predicate :=
  match g.conditions.filterMap Condition.predicate? with
  | [] => none
  | ps => some (if g.IsAny then .or ps else .and ps)

def warnings (g : Group) (i : Nat) : List Warning :=
  (g.conditions.mapIdx fun j c => c.warnings (.ofCondition i j)).flatten

end Group

def Links.follow? (links : Links) : Field → Option (Option String)
  | .relation .cuisine => some links.cuisine
  | .relation .location => some links.location
  | .tagId => some links.tag
  | _ => none

def boundPredicate (f : Field) (id : String) : Predicate :=
  match f with
  | .relation r => .relation r .eq [id]
  | _ => .tag .some [id] none

def unsupportedField (field : Option String) : Warning where
  code := .unsupportedCondition
  message := "auto rule field '" ++ field.getD "None" ++ "' is not supported"
  location := none

def unlinkedField (f : Field) : Warning where
  code := .unresolvedReference
  message := "auto rule on '" ++ f.name ++ "' has no linked entity"
  location := none

/-- The entity that an automatic rule is bound to, or the warning why there is none. -/
def bind (field : Option String) (links : Links) : Except Warning (Field × String) :=
  match field.bind Field.ofName? with
  | none => .error (unsupportedField field)
  | some f =>
    match links.follow? f with
    | none => .error (unsupportedField field)
    | some link =>
      match presentText? link with
      | none => .error (unlinkedField f)
      | some id => .ok (f, id)

/-- All groups have to match and no exclusion may. -/
def customPredicate (groups : List Group) (exclude : List Condition) : Predicate :=
  let body := match groups.filterMap Group.predicate? with
    | [] => .all
    | ps => .and ps
  match exclude.filterMap Condition.predicate? with
  | [] => body
  | ps => .and [body, .not (.or ps)]

def customWarnings (groups : List Group) (exclude : List Condition) : List Warning :=
  (groups.mapIdx fun i g => g.warnings i).flatten ++
    (exclude.mapIdx fun i c => c.warnings (.ofExclude i)).flatten

def composed (r : Rule) (links : Links) : Predicate :=
  match r with
  | auto field _ _ =>
    match bind field links with
    | .ok (f, id) => boundPredicate f id
    | .error _ => .none
  | custom groups exclude => customPredicate groups exclude

def predicate (r : Rule) (links : Links) : Predicate := (r.composed links).simplify

def warnings (r : Rule) (links : Links) : List Warning :=
  match r with
  | auto field _ _ =>
    match bind field links with
    | .ok _ => []
    | .error w => [w]
  | custom groups exclude => customWarnings groups exclude

end Cookbook.Rule
