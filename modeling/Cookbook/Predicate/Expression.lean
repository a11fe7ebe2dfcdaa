import Cookbook.Predicate.Json
import Cookbook.Predicate.Simplify

/-!
# Expressions from outside

A predicate given as JSON is built node by node, inner nodes first.  A value whose kind is not known
is no predicate: alone it is passed through unchanged, inside another node it is an issue there.
-/

namespace Cookbook

open Schema

inductive Expression where
  | predicate (p : Predicate)
  | foreign (value : Json)
deriving DecidableEq, Repr

namespace Expression

def toJson : Expression → Json
  | predicate p => p.toJson
  | foreign j => j

def asPart : Expression → Checked Predicate
  | predicate p => .ok p
  | foreign j => .fault (Predicate.kindFault j)

def asChildren (n : Nat) : List Expression → Checked (List Predicate)
  | [] => .ok []
  | e :: es => .apply ((e.asPart.under (.index n)).map List.cons) (asChildren (n + 1) es)

def junction (make : List Predicate → Predicate) (es : List Expression) :
    Except (List Issue) Expression :=
  (((asChildren 0 es).under (.name "children")).map fun ps => predicate (make ps)).toExcept

def negation (e : Expression) : Except (List Issue) Expression :=
  ((e.asPart.under (.name "child")).map fun p => predicate (.not p)).toExcept

def leaf (p : Checked Predicate) : Except (List Issue) Expression := (p.map predicate).toExcept

mutual

/-- Builds the expression that a value gives, or stops at the first node that is wrong. -/
def ofJson : Json → Except (List Issue) Expression
  | .obj ms =>
    match ms.lookup Predicate.kindName with
    | some (.str "all") => .ok (predicate .all)
    | some (.str "none") => .ok (predicate .none)
    | some (.str "relation") => leaf (Predicate.relationOf ms)
    | some (.str "tag") => leaf (Predicate.tagOf ms)
    | some (.str "numeric") => leaf (Predicate.numericOf ms)
    | some (.str "ids") => leaf (Predicate.idsOf ms)
    | some (.str "and") => childrenOf ms >>= junction .and
    | some (.str "or") => childrenOf ms >>= junction .or
    | some (.str "not") => childOf ms >>= negation
    | _ => .ok (foreign (.obj ms))
  | j => .ok (foreign j)
termination_by structural j => j

def childOf : List (String × Json) → Except (List Issue) Expression
  | [] => .ok (foreign .null)
  | (k, j) :: rest => if k = "child" then ofJson j else childOf rest
termination_by structural ms => ms

def childrenOf : List (String × Json) → Except (List Issue) (List Expression)
  | [] => .ok []
  | (k, .arr js) :: rest => if k = "children" then ofJsons js else childrenOf rest
  | (_, _) :: rest => childrenOf rest
termination_by structural ms => ms

def ofJsons : List Json → Except (List Issue) (List Expression)
  | [] => .ok []
  | j :: js => do
    let e ← ofJson j
    let es ← ofJsons js
    return e :: es
termination_by structural js => js

end

def simplify : Expression → Expression
  | predicate p => predicate p.simplify
  | foreign j => foreign j

def analyze : Expression → Predicate.Analysis
  | predicate p => p.analyze
  | foreign _ => ⟨1, 1, [], false, false⟩

def references (k : EntityKind) : Expression → List String
  | predicate p => sortedSet (p.references k)
  | foreign _ => []

def alike : Expression → Expression → Bool
  | predicate p, predicate q => p.alike q
  | foreign i, foreign j => i.alike j
  | _, _ => false

def without (e : Expression) (excluded : List String) : Except (List Issue) Expression :=
  match e with
  | predicate p => .ok (predicate (p.without excluded))
  | foreign j =>
    if excluded.isEmpty then .ok e
    else .error [⟨[.name "children", .index 0], Predicate.kindFault j⟩]

end Expression

end Cookbook
