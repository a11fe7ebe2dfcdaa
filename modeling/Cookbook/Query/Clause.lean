import Cookbook.Catalog
import Cookbook.Rule.Basic

/-!
# Query clauses

The filter that a predicate becomes over the rows of the catalog, in a logic of three values: a
comparison with a missing value is unknown, and a row is selected only when the filter is true.
Every leaf asks for presence or absence first, so that no clause of a predicate is ever unknown.
-/

namespace Cookbook

/-- Nothing when the truth is unknown. -/
abbrev Truth := Option Bool

namespace Truth

def and : Truth → Truth → Truth
  | some false, _ => some false
  | _, some false => some false
  | some true, some true => some true
  | _, _ => none

def or : Truth → Truth → Truth
  | some true, _ => some true
  | _, some true => some true
  | some false, some false => some false
  | _, _ => none

def not (t : Truth) : Truth := t.map (!·)

end Truth

inductive Column where
  | relation (field : Relation)
  | measure (field : Measure)
deriving DecidableEq, Repr

inductive Clause where
  | constant (value : Bool)
  | empty (column : Column)
  | filled (column : Column)
  | within (field : Relation) (values : List String)
  | notWithin (field : Relation) (values : List String)
  | idWithin (values : List String)
  | compare (field : Measure) (op : Comparison) (value : Number)
  | tagged (tagIds : List String) (tagType : Option String)
  | and (clauses : List Clause)
  | or (clauses : List Clause)
  | not (clause : Clause)
deriving Repr

namespace Clause

def isFilled (r : Recipe) : Column → Bool
  | .relation f => (r.related f).isSome
  | .measure f => (r.measured f).isSome

/-- A comparison is unknown when a side is missing or no number. -/
def compared (stored : Option Int) (op : Comparison) (value : Number) : Truth :=
  stored.bind fun v => ((Number.int v).compare? value).map op.admits

/-- The rows of the inner query of `tagged`: the links of the recipe to one of the tags, joined with
the rows of the tags when a type is asked for. -/
def taggings (c : Catalog) (r : Recipe) (tagIds : List String) (tagType : Option String) :
    List String :=
  let links := r.tags.filter tagIds.contains
  match tagType with
  | none => links
  | some t => links.flatMap fun id =>
      (c.tags.filter fun row => row.id == id && row.type == t).map Tag.id

mutual

def eval (c : Catalog) (r : Recipe) : Clause → Truth
  | constant b => some b
  | empty col => some (!isFilled r col)
  | filled col => some (isFilled r col)
  | within f vs => (r.related f).map vs.contains
  | notWithin f vs => (r.related f).map fun v => !vs.contains v
  | idWithin vs => some (vs.contains r.id)
  | compare f op n => compared (r.measured f) op n
  | tagged is t => some !(taggings c r is t).isEmpty
  | and cs => evalAnd c r cs
  | or cs => evalOr c r cs
  | not d => (d.eval c r).not

def evalAnd (c : Catalog) (r : Recipe) : List Clause → Truth
  | [] => some true
  | d :: ds => (d.eval c r).and (evalAnd c r ds)

def evalOr (c : Catalog) (r : Recipe) : List Clause → Truth
  | [] => some false
  | d :: ds => (d.eval c r).or (evalOr c r ds)

end

def ofRelation (f : Relation) (op : Membership) (vs : List String) : Clause :=
  if vs.isEmpty then constant (!op.isPositive)
  else if op.isPositive then and [filled (.relation f), within f vs]
  else or [empty (.relation f), notWithin f vs]

def ofTag (q : Quantifier) (is : List String) (t : Option String) : Clause :=
  if is.isEmpty then constant (q == .none)
  else match q with
    | .some => tagged is (presentText? t)
    | .none => not (tagged is (presentText? t))

def ofNumeric (f : Measure) (op : Comparison) (n : Number) : Clause :=
  if op = .neq then or [empty (.measure f), compare f .neq n]
  else and [filled (.measure f), compare f op n]

def ofIds (is : List String) : Clause := if is.isEmpty then constant false else idWithin is

mutual

def ofPredicate : Predicate → Clause
  | .all => constant true
  | .none => constant false
  | .relation f op vs => ofRelation f op vs
  | .tag q is t => ofTag q is t
  | .numeric f op n => ofNumeric f op n
  | .ids is => ofIds is
  | .and ps => and (constant true :: ofPredicates ps)
  | .or ps => or (constant false :: ofPredicates ps)
  | .not p => not (ofPredicate p)

def ofPredicates : List Predicate → List Clause
  | [] => []
  | p :: ps => ofPredicate p :: ofPredicates ps

end

end Clause

def Catalog.select (c : Catalog) (p : Predicate) : List Recipe :=
  c.recipes.filter fun r => (Clause.ofPredicate p).eval c r == some true

end Cookbook
