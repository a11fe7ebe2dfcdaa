import Cookbook.Number.Basic
import Cookbook.Predicate.Attribute

/-!
# Predicates

What a rule asks of a recipe, without saying how the answer is found.  `same` is equality; `alike`
also takes numbers of different kinds for equal when their values are.
-/

namespace Cookbook

inductive Predicate where
  | all
  | none
  | relation (field : Relation) (op : Membership) (values : List String)
  /-- With a type that is not empty, only tags of that type count. -/
  | tag (quantifier : Quantifier) (tagIds : List String) (tagType : Option String)
  | numeric (field : Measure) (op : Comparison) (value : Number)
  | ids (ids : List String)
  | and (children : List Predicate)
  | or (children : List Predicate)
  | not (child : Predicate)
deriving Repr, Inhabited

namespace Predicate

mutual

def same : Predicate → Predicate → Bool
  | all, all => true
  | none, none => true
  | relation f o vs, relation g p ws => f == g && o == p && vs == ws
  | tag q is t, tag r js u => q == r && is == js && t == u
  | numeric f o n, numeric g p m => f == g && o == p && n == m
  | ids is, ids js => is == js
  | and ps, and qs => sameAll ps qs
  | or ps, or qs => sameAll ps qs
  | not p, not q => p.same q
  | _, _ => false

def sameAll : List Predicate → List Predicate → Bool
  | [], [] => true
  | p :: ps, q :: qs => p.same q && sameAll ps qs
  | _, _ => false

end

mutual

theorem same_iff : ∀ p q : Predicate, p.same q = true ↔ p = q
  | all, q => by cases q <;> simp [same]
  | none, q => by cases q <;> simp [same]
  | relation .., q => by cases q <;> simp [same, and_assoc]
  | tag .., q => by cases q <;> simp [same, and_assoc]
  | numeric .., q => by cases q <;> simp [same, and_assoc]
  | ids _, q => by cases q <;> simp [same]
  | and ps, q => by
    cases q with
    | and qs => simp [same, sameAll_iff ps qs]
    | _ => simp [same]
  | or ps, q => by
    cases q with
    | or qs => simp [same, sameAll_iff ps qs]
    | _ => simp [same]
  | not p, q => by
    cases q with
    | not q => simp [same, same_iff p q]
    | _ => simp [same]

theorem sameAll_iff : ∀ ps qs : List Predicate, sameAll ps qs = true ↔ ps = qs
  | [], qs => by cases qs <;> simp [sameAll]
  | p :: ps, qs => by
    cases qs with
    | nil => simp [sameAll]
    | cons q qs => simp [sameAll, same_iff p q, sameAll_iff ps qs]

end

instance : DecidableEq Predicate := fun p q => decidable_of_iff _ (same_iff p q)

mutual

def alike : Predicate → Predicate → Bool
  | numeric f o n, numeric g p m => f == g && o == p && n.alike m
  | and ps, and qs => alikeAll ps qs
  | or ps, or qs => alikeAll ps qs
  | not p, not q => p.alike q
  | p, q => p.same q

def alikeAll : List Predicate → List Predicate → Bool
  | [], [] => true
  | p :: ps, q :: qs => p.alike q && alikeAll ps qs
  | _, _ => false

end

end Predicate

end Cookbook
