import Cookbook.Rule.Problem

/-!
# Failures

Why an operation gives no answer.  The first six are part of what the operations are about and reach
their callers as answers of their own; the rest say that a request or a value cannot be worked on.
-/

namespace Cookbook

inductive Failure where
  | rule (problems : List Rule.Problem)
  | store (text : String) (operation : Option String)
  | unknownCollection (id : String)
  | unknownRecipes (ids : List String)
  | takenSlug (slug : String)
  | badOverride (text : String)
  /-- A failure of the same family without a kind of its own. -/
  | other (text : String)
  | request (issues : List Schema.Issue)
  | value (text : String)
  /-- A value is used as a predicate and is none. -/
  | noPredicate
  /-- A whole number does not fit the column or word it has to go into. -/
  | overflow
  /-- A text has a character that the database cannot be given. -/
  | unencodable
  /-- The database refuses to write or to read back. -/
  | database
  | noFile
  | noYaml
  | noMapping
  /-- A failure of a library, of a kind that nothing here makes a case of. -/
  | library (kind text : String)
deriving DecidableEq, Repr

namespace Failure

def message : Failure → String
  | rule ps => "Invalid rule configuration (" ++ toString ps.length ++ " error(s))"
  | store text _ => text
  | unknownCollection id => "Collection not found: " ++ id
  | unknownRecipes ids => "Recipes not found: " ++ ", ".intercalate ids
  | takenSlug slug => "Collection slug already exists: " ++ slug
  | badOverride text => text
  | other text => text
  | value text => text
  | library _ text => text
  | noPredicate => "Unknown predicate node: dict"
  | _ => ""

/-- Belongs to the family that callers are told about. -/
def IsOwn : Failure → Prop
  | rule _ => True
  | store .. => True
  | unknownCollection _ => True
  | unknownRecipes _ => True
  | takenSlug _ => True
  | badOverride _ => True
  | other _ => True
  | _ => False

instance : DecidablePred IsOwn := fun f => by
  cases f <;> unfold IsOwn <;> infer_instance

end Failure

abbrev Attempt := Except Failure

end Cookbook
