import Cookbook.Json.Basic
import Cookbook.Rule.Field

/-!
# Rules

An automatic rule follows the entity that its collection is linked to; a custom rule has groups of
conditions and conditions that exclude.  Names of fields and operators are kept as given, so that a
check can report every bad one.
-/

namespace Cookbook

namespace Rule

/-- A value that is absent is `null`. -/
structure Condition where
  field : Option String
  operator : Option String
  value : Json
  tagType : Option String
deriving DecidableEq, Repr

namespace Condition

def field? (c : Condition) : Option Field := c.field.bind Field.ofName?

def operator? (c : Condition) : Option Operator := c.operator.bind Operator.ofName?

end Condition

structure Group where
  logic : Option String
  conditions : List Condition
deriving DecidableEq, Repr

/-- Any condition of the group is enough; without this word all of them are needed. -/
def Group.IsAny (g : Group) : Prop := g.logic = some "OR"

instance (g : Group) : Decidable g.IsAny := inferInstanceAs (Decidable (_ = _))

structure Links where
  cuisine : Option String
  location : Option String
  tag : Option String
deriving DecidableEq, Repr

def Links.unlinked : Links := ⟨none, none, none⟩

inductive Mode where
  | auto
  | custom
deriving DecidableEq, Repr

namespace Mode

def name : Mode → String
  | auto => "auto"
  | custom => "custom"

def names : List String := [auto.name, custom.name]

def ofName? (s : String) : Option Mode := [auto, custom].find? (·.name == s)

@[simp] theorem ofName?_name (m : Mode) : ofName? m.name = some m := by
  cases m <;> decide

end Mode

end Rule

inductive Rule where
  | auto (field value tagType : Option String)
  | custom (groups : List Rule.Group) (exclude : List Rule.Condition)
deriving DecidableEq, Repr

def Rule.mode : Rule → Rule.Mode
  | auto .. => .auto
  | custom .. => .custom

def presentText? (s : Option String) : Option String := s.filter (!·.isEmpty)

end Cookbook
