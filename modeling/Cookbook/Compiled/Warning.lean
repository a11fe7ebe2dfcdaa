import Cookbook.Rule.Problem

/-!
# Warnings

What was left out or could not be resolved while a rule was compiled.
-/

namespace Cookbook

namespace Warning

inductive Code where
  | unresolvedReference
  | unsupportedCondition
deriving DecidableEq, Repr

namespace Code

def all : List Code := [unresolvedReference, unsupportedCondition]

def name : Code → String
  | unresolvedReference => "unresolved_reference"
  | unsupportedCondition => "unsupported_condition"

end Code

end Warning

structure Warning where
  code : Warning.Code
  message : String
  location : Option Rule.Marks
deriving DecidableEq, Repr

namespace Warning

def toJson (w : Warning) : Json :=
  .obj [("code", .str w.code.name), ("message", .str w.message),
    ("location", Json.ofOption Rule.Marks.toJson w.location)]

end Warning

end Cookbook
