import Cookbook.Proofs.Number.Value
import Cookbook.Proofs.Predicate.Meaning
import Cookbook.Query.Store
import Mathlib.Data.List.Nodup

/-!
# Queries are exact

The clause of a predicate is never unknown: each leaf asks for presence or absence before it
compares, so the junctions above only ever join known truths.  A query therefore selects exactly the
recipes of which its predicate holds.
-/

namespace Cookbook

/-- The rows of each kind are told apart by their ids. -/
def Catalog.Keyed (c : Catalog) : Prop := ∀ k, (c.idsOf k).Nodup

instance (c : Catalog) : Decidable c.Keyed :=
  decidable_of_iff (∀ k ∈ EntityKind.all, (c.idsOf k).Nodup)
    ⟨fun listed k => listed k (by cases k <;> decide), fun keyed k _ => keyed k⟩

theorem Catalog.Keyed.eq_of_id {c : Catalog} (keyed : c.Keyed) {r t : Recipe}
    (first : r ∈ c.recipes) (second : t ∈ c.recipes) (same : r.id = t.id) : r = t :=
  List.inj_on_of_nodup_map (keyed .recipe) first second same

namespace Truth

@[simp] theorem and_some (a b : Bool) : Truth.and (some a) (some b) = some (a && b) := by
  cases a <;> cases b <;> rfl

@[simp] theorem or_some (a b : Bool) : Truth.or (some a) (some b) = some (a || b) := by
  cases a <;> cases b <;> rfl

@[simp] theorem not_some (a : Bool) : Truth.not (some a) = some !a := rfl

/-- A missing value spoils no conjunction that also asks for its presence. -/
@[simp] theorem and_false (t : Truth) : Truth.and (some false) t = some false := by
  cases t <;> rfl

@[simp] theorem or_true (t : Truth) : Truth.or (some true) t = some true := by
  cases t <;> rfl

end Truth

namespace Clause

variable (c : Catalog) (r : Recipe)

theorem evalAnd_map {α : Type} (clause : α → Clause) (truth : α → Bool) (xs : List α)
    (known : ∀ x ∈ xs, (clause x).eval c r = some (truth x)) :
    evalAnd c r (xs.map clause) = some (xs.all truth) := by
  induction xs with
  | nil => rfl
  | cons x xs ih =>
    have first := known x List.mem_cons_self
    have rest := ih fun y member => known y (List.mem_cons_of_mem _ member)
    simp [evalAnd, first, rest]

theorem evalOr_map {α : Type} (clause : α → Clause) (truth : α → Bool) (xs : List α)
    (known : ∀ x ∈ xs, (clause x).eval c r = some (truth x)) :
    evalOr c r (xs.map clause) = some (xs.any truth) := by
  induction xs with
  | nil => rfl
  | cons x xs ih =>
    have first := known x List.mem_cons_self
    have rest := ih fun y member => known y (List.mem_cons_of_mem _ member)
    simp [evalOr, first, rest]

theorem ofPredicates_eq_map (ps : List Predicate) : ofPredicates ps = ps.map ofPredicate := by
  induction ps with
  | nil => rfl
  | cons p ps ih => simp [ofPredicates, ih]

theorem taggings_ne_nil_iff (is : List String) (tagType : Option String) :
    taggings c r is tagType ≠ [] ↔ c.HasTag r is tagType := by
  cases tagType with
  | none => simp [taggings, Catalog.HasTag, Catalog.TagCounts]
  | some t =>
    simp only [taggings, Catalog.HasTag, Catalog.TagCounts, ne_eq, List.flatMap_eq_nil_iff,
      List.map_eq_nil_iff, List.filter_eq_nil_iff, List.mem_filter, not_forall]
    constructor
    · rintro ⟨id, ⟨linked, asked⟩, row, among, typed⟩
      simp only [Bool.and_eq_true, beq_iff_eq, not_not] at typed
      exact ⟨id, linked, by simpa using asked, row, among, typed⟩
    · rintro ⟨id, linked, asked, row, among, typed⟩
      refine ⟨id, ⟨linked, by simpa using asked⟩, row, among, ?_⟩
      simpa using typed

theorem eval_ofRelation (f : Relation) (op : Membership) (vs : List String) :
    (ofRelation f op vs).eval c r = some (Predicate.relationHolds (r.related f) op vs) := by
  unfold ofRelation
  cases stored : r.related f with
  | none =>
    split
    · cases op <;> simp [eval, Predicate.relationHolds]
    · cases op <;>
        simp [eval, evalAnd, evalOr, isFilled, stored, Predicate.relationHolds,
          Membership.isPositive]
  | some v =>
    split
    next empty =>
      rw [List.isEmpty_iff.mp empty]
      cases op <;> simp [eval, Predicate.relationHolds, Membership.isPositive]
    next =>
      cases op <;>
        simp [eval, evalAnd, evalOr, isFilled, stored, Predicate.relationHolds,
          Membership.isPositive]

theorem eval_ofTag (q : Quantifier) (is : List String) (t : Option String) :
    (ofTag q is t).eval c r = some ((Predicate.tag q is t).holds c r) := by
  have found : (!(taggings c r is (presentText? t)).isEmpty) =
      decide (c.HasTag r is (presentText? t)) := by
    rw [Bool.eq_iff_iff]
    simpa using taggings_ne_nil_iff c r is (presentText? t)
  unfold ofTag
  split
  next empty =>
    have without : ¬ c.HasTag r is (presentText? t) := by
      rw [List.isEmpty_iff.mp empty]
      rintro ⟨_, _, absent, _⟩
      exact List.not_mem_nil absent
    cases q <;> simp [eval, Predicate.holds, without]
  next =>
    cases q with
    | some => simp [eval, Predicate.holds, found]
    | none =>
      have negative : (Quantifier.none == Quantifier.some) = false := rfl
      simp [eval, Predicate.holds, found, negative]

theorem eval_ofNumeric (f : Measure) (op : Comparison) {n : Number} (finite : n.isFinite = true) :
    (ofNumeric f op n).eval c r = some (Predicate.measureHolds (r.measured f) op n) := by
  unfold ofNumeric
  cases stored : r.measured f with
  | none =>
    cases op <;>
      simp [eval, evalAnd, evalOr, isFilled, compared, stored, Predicate.measureHolds]
  | some v =>
    have comparable := Number.compare?_int finite v
    cases op <;>
      simp [eval, evalAnd, evalOr, isFilled, compared, stored, comparable, Predicate.measureHolds]

theorem eval_ofIds (is : List String) : (ofIds is).eval c r = some (is.contains r.id) := by
  unfold ofIds
  split
  next empty => rw [List.isEmpty_iff.mp empty]; rfl
  next => rfl

/-- The clause of a predicate is true or false, never unknown, and true when the predicate holds. -/
theorem eval_ofPredicate (p : Predicate) (finite : ∀ n ∈ p.numbers, n.isFinite = true) :
    (ofPredicate p).eval c r = some (p.holds c r) := by
  induction p with
  | all => rfl
  | none => rfl
  | relation f op vs => exact eval_ofRelation c r f op vs
  | tag q is t => exact eval_ofTag c r q is t
  | numeric f op n => exact eval_ofNumeric c r f op (finite n (by simp [Predicate.numbers]))
  | ids is => exact eval_ofIds c r is
  | and ps ih =>
    have children := evalAnd_map c r ofPredicate (Predicate.holds c r) ps fun p member =>
      ih p member fun n number => finite n (Predicate.mem_numbers_and.mpr ⟨p, member, number⟩)
    simp [ofPredicate, eval, evalAnd, ofPredicates_eq_map, children]
  | or ps ih =>
    have children := evalOr_map c r ofPredicate (Predicate.holds c r) ps fun p member =>
      ih p member fun n number => finite n (Predicate.mem_numbers_or.mpr ⟨p, member, number⟩)
    simp [ofPredicate, eval, evalOr, ofPredicates_eq_map, children]
  | not p ih => simp [ofPredicate, eval, ih finite]

end Clause

end Cookbook
