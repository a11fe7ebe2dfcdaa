import Cookbook.Distinct
import Cookbook.Predicate.Basic

/-!
# What a predicate consists of

Its size, the attributes it asks about, and the entities it refers to.
-/

namespace Cookbook

inductive EntityKind where
  | recipe
  | cuisine
  | location
  | tag
deriving DecidableEq, Repr

namespace EntityKind

def all : List EntityKind := [recipe, cuisine, location, tag]

def name : EntityKind → String
  | recipe => "recipe"
  | cuisine => "cuisine"
  | location => "location"
  | tag => "tag"

def ofName? (s : String) : Option EntityKind := all.find? (·.name == s)

/-- The kinds that predicates refer to, in the order of reports. -/
def referable : List EntityKind := [cuisine, location, tag]

end EntityKind

def Relation.entity : Relation → EntityKind
  | cuisine => .cuisine
  | location => .location

namespace Predicate

mutual

def nodeCount : Predicate → Nat
  | and ps => nodeCountAll ps + 1
  | or ps => nodeCountAll ps + 1
  | not p => p.nodeCount + 1
  | _ => 1

def nodeCountAll : List Predicate → Nat
  | [] => 0
  | p :: ps => p.nodeCount + nodeCountAll ps

end

mutual

def depth : Predicate → Nat
  | and ps => depthAll ps + 1
  | or ps => depthAll ps + 1
  | not p => p.depth + 1
  | _ => 1

def depthAll : List Predicate → Nat
  | [] => 0
  | p :: ps => max p.depth (depthAll ps)

end

mutual

/-- The attributes asked about, with repetitions. -/
def attributes : Predicate → List String
  | relation f _ _ => [f.column]
  | numeric f _ _ => [f.column]
  | tag .. => ["tags"]
  | ids _ => ["id"]
  | and ps => attributesAll ps
  | or ps => attributesAll ps
  | not p => p.attributes
  | _ => []

def attributesAll : List Predicate → List String
  | [] => []
  | p :: ps => p.attributes ++ attributesAll ps

end

mutual

def references (k : EntityKind) : Predicate → List String
  | relation f _ vs => if f.entity = k then vs else []
  | tag _ is _ => if k = .tag then is else []
  | and ps => referencesAll k ps
  | or ps => referencesAll k ps
  | not p => p.references k
  | _ => []

def referencesAll (k : EntityKind) : List Predicate → List String
  | [] => []
  | p :: ps => p.references k ++ referencesAll k ps

end

structure Analysis where
  nodeCount : Nat
  depth : Nat
  fieldsUsed : List String
  matchesNothing : Bool
  matchesEverything : Bool
deriving DecidableEq, Repr

def analyze (p : Predicate) : Analysis where
  nodeCount := p.nodeCount
  depth := p.depth
  fieldsUsed := sortedSet p.attributes
  matchesNothing := p == none
  matchesEverything := p == all

end Predicate

end Cookbook
