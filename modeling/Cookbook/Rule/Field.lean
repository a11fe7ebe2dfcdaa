import Cookbook.Predicate.Attribute

/-!
# Fields and operators of conditions

The closed vocabularies of a rule.  A field is of one of three kinds, and the kind decides which
operators make sense: membership for relations and tags, comparison for measures.
-/

namespace Cookbook.Rule

inductive Field where
  | relation (relation : Relation)
  | tagId
  /-- A tag of a type that the condition names. -/
  | tag
  | measure (measure : Measure)
deriving DecidableEq, Repr

inductive FieldKind where
  | relation
  | tag
  | numeric
deriving DecidableEq, Repr

inductive Operator where
  | eq
  | neq
  | isIn
  | notIn
  | lt
  | lte
  | gt
  | gte
deriving DecidableEq, Repr

def FieldKind.name : FieldKind → String
  | relation => "relation"
  | tag => "tag"
  | numeric => "numeric"

namespace Field

def all : List Field :=
  [relation .cuisine, relation .location, tagId, tag, measure .cookTime, measure .prepTime,
    measure .difficulty, measure .servings]

def name : Field → String
  | relation .cuisine => "cuisineId"
  | relation .location => "locationId"
  | tagId => "tagId"
  | tag => "tag"
  | measure .cookTime => "cookTime"
  | measure .prepTime => "prepTime"
  | measure .difficulty => "difficulty"
  | measure .servings => "servings"

def ofName? (s : String) : Option Field := all.find? (·.name == s)

@[simp] theorem ofName?_name (f : Field) : ofName? f.name = some f := by
  cases f with
  | relation r => cases r <;> decide
  | measure m => cases m <;> decide
  | _ => decide

def kind : Field → FieldKind
  | relation _ => .relation
  | tagId => .tag
  | tag => .tag
  | measure _ => .numeric

def label : Field → String
  | relation .cuisine => "cuisine"
  | relation .location => "location"
  | tagId => "tag"
  | tag => "tag"
  | measure .cookTime => "cook time"
  | measure .prepTime => "prep time"
  | measure .difficulty => "difficulty"
  | measure .servings => "servings"

def linkable : List Field := [relation .cuisine, relation .location, tagId]

end Field

namespace Operator

def all : List Operator := [eq, neq, isIn, notIn, lt, lte, gt, gte]

def name : Operator → String
  | eq => "eq"
  | neq => "neq"
  | isIn => "in"
  | notIn => "nin"
  | lt => "lt"
  | lte => "lte"
  | gt => "gt"
  | gte => "gte"

def ofName? (s : String) : Option Operator := all.find? (·.name == s)

@[simp] theorem ofName?_name (o : Operator) : ofName? o.name = some o := by
  cases o <;> decide

def symbol : Operator → String
  | eq => "="
  | neq => "!="
  | isIn => "in"
  | notIn => "not in"
  | lt => "<"
  | lte => "<="
  | gt => ">"
  | gte => ">="

def membership? : Operator → Option Membership
  | eq => some .eq
  | neq => some .neq
  | isIn => some .isIn
  | notIn => some .notIn
  | _ => none

def comparison? : Operator → Option Comparison
  | eq => some .eq
  | neq => some .neq
  | lt => some .lt
  | lte => some .lte
  | gt => some .gt
  | gte => some .gte
  | _ => none

/-- Whether an operator makes sense for a kind of field. -/
def Legal (o : Operator) (k : FieldKind) : Prop :=
  match k with
  | .numeric => o.comparison?.isSome
  | _ => o.membership?.isSome

instance (o : Operator) (k : FieldKind) : Decidable (o.Legal k) := by
  cases k <;> exact inferInstanceAs (Decidable (_ = true))

end Operator

end Cookbook.Rule
