import Cookbook.Query.Clause

/-!
# Clauses as queries write them

A truth value is left out of a junction where it changes nothing, and stands for the whole junction
where it decides it.  What is left of such a junction is no truth value to the next one, except
under a negation.  Only what is left is handed to the database with its values, in the order in
which it is written.
-/

namespace Cookbook

/-- A value that a query hands to the database. -/
inductive Parameter where
  | number (value : Number)
  | text (value : String)
deriving DecidableEq, Repr

inductive Written where
  | truth (value : Bool)
  | remnant (value : Bool)
  /-- A test of the row, with the values that it needs. -/
  | test (parameters : List Parameter)
deriving DecidableEq, Repr

namespace Written

def parameters : Written → List Parameter
  | test vs => vs
  | _ => []

def not : Written → Written
  | truth b => truth !b
  | remnant b => truth !b
  | test vs => test vs

/-- A junction for which one truth value is neutral; the other one decides it. -/
def junction (neutral : Bool) (ws : List Written) : Written :=
  if ws.contains (truth !neutral) then remnant !neutral
  else match ws.filter (· != truth neutral) with
    | [] => remnant neutral
    | [w] => w
    | ws => test (ws.flatMap parameters)

end Written

namespace Clause

mutual

def written : Clause → Written
  | constant b => .truth b
  | empty _ => .test []
  | filled _ => .test []
  | within _ vs => .test (vs.map .text)
  | notWithin _ vs => .test (vs.map .text)
  | idWithin vs => .test (vs.map .text)
  | compare _ _ n => .test [.number n]
  | tagged is t => .test ((is ++ t.toList).map .text)
  | and cs => .junction true (writtenAll cs)
  | or cs => .junction false (writtenAll cs)
  | not c => c.written.not

def writtenAll : List Clause → List Written
  | [] => []
  | c :: cs => c.written :: writtenAll cs

end

end Clause

/-- The values in the query for a predicate. -/
def Predicate.parameters (p : Predicate) : List Parameter :=
  (Clause.ofPredicate p).written.parameters

end Cookbook
