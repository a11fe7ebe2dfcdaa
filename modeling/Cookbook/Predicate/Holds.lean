import Cookbook.Catalog
import Cookbook.Rule.Basic

/-!
# What predicates mean

A recipe without a value never has the value asked for; it counts as different from every value.
-/

namespace Cookbook.Predicate

/-- Whether a stored number, or none, stands in a comparison with a number. -/
def measureHolds (stored : Option Int) (op : Comparison) (n : Number) : Bool :=
  match stored with
  | Option.none => op == .neq
  | some v =>
    match (Number.int v).compare? n with
    | some o => op.admits o
    | Option.none => op == .neq

def relationHolds (stored : Option String) (op : Membership) (values : List String) : Bool :=
  (stored.any values.contains) == op.isPositive

mutual

def holds (c : Catalog) (r : Recipe) : Predicate → Bool
  | all => true
  | none => false
  | relation f op vs => relationHolds (r.related f) op vs
  | tag q is t => decide (c.HasTag r is (presentText? t)) == (q == .some)
  | numeric f op n => measureHolds (r.measured f) op n
  | ids is => is.contains r.id
  | and ps => allHold c r ps
  | or ps => anyHolds c r ps
  | not p => !p.holds c r

def allHold (c : Catalog) (r : Recipe) : List Predicate → Bool
  | [] => true
  | p :: ps => p.holds c r && allHold c r ps

def anyHolds (c : Catalog) (r : Recipe) : List Predicate → Bool
  | [] => false
  | p :: ps => p.holds c r || anyHolds c r ps

end

end Cookbook.Predicate
