import Cookbook.Predicate.Basic
import Cookbook.Schema.Shape
import Cookbook.Json.Display

/-!
# The JSON form of predicates

A node is an object whose kind says which other members it has.  Reading reports every issue of the
whole tree; an expression given from outside is built node by node and fails at the first bad one.
-/

namespace Cookbook

namespace Predicate

open Schema

mutual

def toJson : Predicate → Json
  | all => .obj [("kind", .str "all")]
  | none => .obj [("kind", .str "none")]
  | relation f op vs =>
    .obj [("kind", .str "relation"), ("field", .str f.column), ("op", .str op.name),
      ("values", Json.texts vs)]
  | tag q is t =>
    .obj [("kind", .str "tag"), ("quantifier", .str q.name), ("tag_ids", Json.texts is),
      ("tag_type", Json.ofOption .str t)]
  | numeric f op n =>
    .obj [("kind", .str "numeric"), ("field", .str f.column), ("op", .str op.name),
      ("value", .num n)]
  | ids is => .obj [("kind", .str "ids"), ("ids", Json.texts is)]
  | and ps => .obj [("kind", .str "and"), ("children", .arr (toJsons ps))]
  | or ps => .obj [("kind", .str "or"), ("children", .arr (toJsons ps))]
  | not p => .obj [("kind", .str "not"), ("child", p.toJson)]

def toJsons : List Predicate → List Json
  | [] => []
  | p :: ps => p.toJson :: toJsons ps

end

def kindName : String := "kind"

def kinds : List String :=
  ["all", "none", "relation", "tag", "numeric", "ids", "and", "or", "not"]

def relationOf (ms : Members) : Checked Predicate :=
  relation <$> member ms ["field"] (named Relation.all Relation.column)
    <*> member ms ["op"] (named Membership.all Membership.name)
    <*> member ms ["values"] (tuple text)

def tagOf (ms : Members) : Checked Predicate :=
  tag <$> member ms ["quantifier"] (named Quantifier.all Quantifier.name)
    <*> member ms ["tag_ids"] (tuple text)
    <*> memberD ms ["tag_type"] (optional text) Option.none

def numericOf (ms : Members) : Checked Predicate :=
  numeric <$> member ms ["field"] (named Measure.all Measure.column)
    <*> member ms ["op"] (named Comparison.all Comparison.name)
    <*> member ms ["value"] number

def idsOf (ms : Members) : Checked Predicate := ids <$> member ms ["ids"] (tuple text)

/-- The fault of a value that is no node: the kind is missing or unknown. -/
def kindFault : Json → Fault
  | .obj ms =>
    match ms.lookup kindName with
    | some t => .unknownTag kindName t.display kinds
    | .none => .noTag kindName
  | _ => .notObject

mutual

def ofJson : Json → Checked Predicate
  | .obj ms =>
    match ms.lookup kindName with
    | some (.str "all") => .ok all
    | some (.str "none") => .ok none
    | some (.str "relation") => (relationOf ms).under (.name "relation")
    | some (.str "tag") => (tagOf ms).under (.name "tag")
    | some (.str "numeric") => (numericOf ms).under (.name "numeric")
    | some (.str "ids") => (idsOf ms).under (.name "ids")
    | some (.str "and") => ((childrenOf ms).map and).under (.name "and")
    | some (.str "or") => ((childrenOf ms).map or).under (.name "or")
    | some (.str "not") => ((childOf ms).map not).under (.name "not")
    | _ => .fault (kindFault (.obj ms))
  | j => .fault (kindFault j)
termination_by structural j => j

def childOf : List (String × Json) → Checked Predicate
  | [] => (Checked.fault .missing).under (.name "child")
  | (k, j) :: rest => if k = "child" then (ofJson j).under (.name "child") else childOf rest
termination_by structural ms => ms

def childrenOf : List (String × Json) → Checked (List Predicate)
  | [] => (Checked.fault .missing).under (.name "children")
  | (k, .arr js) :: rest =>
    if k = "children" then (ofJsons 0 js).under (.name "children") else childrenOf rest
  | (k, _) :: rest =>
    if k = "children" then (Checked.fault .notTuple).under (.name "children")
    else childrenOf rest
termination_by structural ms => ms

def ofJsons (n : Nat) : List Json → Checked (List Predicate)
  | [] => .ok []
  | j :: js => .apply (((ofJson j).under (.index n)).map List.cons) (ofJsons (n + 1) js)
termination_by structural js => js

end

end Predicate

end Cookbook
