import Cookbook.Predicate.Inspect

/-!
# Simplification

Nested junctions of one kind are flattened, neutral children dropped, an absorbing child decides,
a junction of one is that one, negations of constants and negations are resolved, and an empty set
of ids matches nothing.
-/

namespace Cookbook.Predicate

/-- The children that a simplified child adds to a conjunction. -/
def conjuncts : Predicate → List Predicate
  | all => []
  | and ps => ps
  | p => [p]

def disjuncts : Predicate → List Predicate
  | none => []
  | or ps => ps
  | p => [p]

def conj (ps : List Predicate) : Predicate :=
  if none ∈ ps then none
  else match ps.flatMap conjuncts with
    | [] => all
    | [p] => p
    | qs => and qs

def disj (ps : List Predicate) : Predicate :=
  if all ∈ ps then all
  else match ps.flatMap disjuncts with
    | [] => none
    | [p] => p
    | qs => or qs

def negate : Predicate → Predicate
  | all => none
  | none => all
  | not p => p
  | p => not p

mutual

def simplify : Predicate → Predicate
  | and ps => conj (simplifyAll ps)
  | or ps => disj (simplifyAll ps)
  | not p => negate p.simplify
  | ids [] => none
  | p => p

def simplifyAll : List Predicate → List Predicate
  | [] => []
  | p :: ps => p.simplify :: simplifyAll ps

end

theorem simplifyAll_eq_map (ps : List Predicate) : simplifyAll ps = ps.map simplify := by
  induction ps with
  | nil => rfl
  | cons p ps ih => simp [simplifyAll, ih]

/-- Without the recipes of some ids. -/
def without (p : Predicate) (excluded : List String) : Predicate :=
  let unwanted := sortedSet excluded
  if unwanted.isEmpty then p else (and [p, not (ids unwanted)]).simplify

end Cookbook.Predicate
