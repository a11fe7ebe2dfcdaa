/-!
# Attributes and comparisons

What a predicate can ask about a recipe, and the ways to compare.  Every vocabulary is a finite list
of cases with a name each, and `ofName?` finds a case by its name.
-/

namespace Cookbook

inductive Relation where
  | cuisine
  | location
deriving DecidableEq, Repr

inductive Measure where
  | cookTime
  | prepTime
  | difficulty
  | servings
deriving DecidableEq, Repr

/-- Membership in a set of ids, or its negation; the first two are meant for one id. -/
inductive Membership where
  | eq
  | neq
  | isIn
  | notIn
deriving DecidableEq, Repr

inductive Comparison where
  | eq
  | neq
  | lt
  | lte
  | gt
  | gte
deriving DecidableEq, Repr

inductive Quantifier where
  | some
  | none
deriving DecidableEq, Repr

namespace Relation

def all : List Relation := [cuisine, location]

def column : Relation → String
  | cuisine => "cuisine_id"
  | location => "location_id"

def ofColumn? (s : String) : Option Relation := all.find? (·.column == s)

@[simp] theorem ofColumn?_column (r : Relation) : ofColumn? r.column = some r := by
  cases r <;> decide

end Relation

namespace Measure

def all : List Measure := [cookTime, prepTime, difficulty, servings]

def column : Measure → String
  | cookTime => "cook_time"
  | prepTime => "prep_time"
  | difficulty => "difficulty"
  | servings => "servings"

def ofColumn? (s : String) : Option Measure := all.find? (·.column == s)

@[simp] theorem ofColumn?_column (m : Measure) : ofColumn? m.column = some m := by
  cases m <;> decide

end Measure

namespace Membership

def all : List Membership := [eq, neq, isIn, notIn]

def name : Membership → String
  | eq => "eq"
  | neq => "neq"
  | isIn => "in"
  | notIn => "nin"

def ofName? (s : String) : Option Membership := all.find? (·.name == s)

@[simp] theorem ofName?_name (m : Membership) : ofName? m.name = some m := by
  cases m <;> decide

/-- Asks that the recipe has one of the values. -/
def isPositive : Membership → Bool
  | eq => true
  | isIn => true
  | neq => false
  | notIn => false

end Membership

namespace Comparison

def all : List Comparison := [eq, neq, lt, lte, gt, gte]

def name : Comparison → String
  | eq => "eq"
  | neq => "neq"
  | lt => "lt"
  | lte => "lte"
  | gt => "gt"
  | gte => "gte"

def ofName? (s : String) : Option Comparison := all.find? (·.name == s)

@[simp] theorem ofName?_name (c : Comparison) : ofName? c.name = some c := by
  cases c <;> decide

def admits : Comparison → Ordering → Bool
  | eq, o => o == .eq
  | neq, o => o != .eq
  | lt, o => o == .lt
  | lte, o => o != .gt
  | gt, o => o == .gt
  | gte, o => o != .lt

end Comparison

namespace Quantifier

def all : List Quantifier := [some, none]

def name : Quantifier → String
  | some => "some"
  | none => "none"

def ofName? (s : String) : Option Quantifier := all.find? (·.name == s)

@[simp] theorem ofName?_name (q : Quantifier) : ofName? q.name = Option.some q := by
  cases q <;> decide

end Quantifier

end Cookbook
