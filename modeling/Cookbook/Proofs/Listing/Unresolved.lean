import Cookbook.Proofs.Listing.Answered
import Cookbook.Proofs.Rule.References

/-!
# Unresolved references

A listing warns of what its rule refers to and the catalog does not have.  The ids are collected
from the predicate, made a sorted set for every kind, and looked up.
-/

namespace Cookbook

theorem distinct_sublist {α : Type} [DecidableEq α] (xs : List α) : (distinct xs).Sublist xs := by
  induction xs with
  | nil => exact .slnil
  | cons x xs ih => exact (List.filter_sublist.trans ih).cons_cons x

/-- A sorted set is in increasing order without repetitions. -/
theorem pairwise_sortedSet (ss : List String) : (sortedSet ss).Pairwise (· < ·) := by
  have sorted : (sortedSet ss).Pairwise (· ≤ ·) :=
    (pairwise_mergeSort_key (fun s => s) ss).sublist (distinct_sublist _)
  have unique : (sortedSet ss).Nodup := nodup_distinct _
  exact (sorted.and unique).imp fun ⟨le, ne⟩ => Std.lt_of_le_of_ne le ne

namespace Listing

/-- Warnings tell ids apart, and kinds as well. -/
theorem unresolved_inj {k l : EntityKind} {i j : String} :
    unresolved k i = unresolved l j ↔ k = l ∧ i = j := by
  constructor
  · intro same
    have message := congrArg (fun w : Warning => w.message.toList) same
    cases k <;> cases l <;> simp [unresolved, EntityKind.name] at message ⊢
    all_goals exact String.toList_injective message
  · rintro ⟨rfl, rfl⟩
    rfl

end Listing

namespace Store

variable {s : Store}

/-- The ids that are not in the catalog. -/
def missing (s : Store) (k : EntityKind) (ids : List String) : List String :=
  (sortedSet ids).filter fun id => decide (id ∉ s.catalog.idsOf k)

theorem eq_of_unresolvedOf_eq_ok {k : EntityKind} {ids : List String} {ws : List Warning}
    (looked : s.unresolvedOf k (sortedSet ids) = .ok ws) :
    ws = (s.missing k ids).map (Listing.unresolved k) := by
  obtain ⟨existing, found, answer⟩ := Attempt.bind_eq_ok_iff.mp looked
  obtain rfl := Except.ok.inj answer
  refine congrArg _ (List.filter_congr fun id member => ?_)
  rw [Bool.eq_iff_iff]
  simp [mem_of_existingIds_eq_ok found, member]

theorem mem_missing {k : EntityKind} {ids : List String} {id : String} :
    id ∈ s.missing k ids ↔ id ∈ ids ∧ id ∉ s.catalog.idsOf k := by
  simp [missing, mem_sortedSet]

theorem pairwise_missing (s : Store) (k : EntityKind) (ids : List String) :
    (s.missing k ids).Pairwise (· < ·) :=
  (pairwise_sortedSet ids).filter _

theorem nodup_unresolved (s : Store) (k : EntityKind) (ids : List String) :
    ((s.missing k ids).map (Listing.unresolved k)).Nodup := by
  have unique : (s.missing k ids).Nodup :=
    (s.pairwise_missing k ids).imp String.ne_of_lt
  exact unique.map fun i j same => (Listing.unresolved_inj.mp same).2

/-- The kinds are looked up one after the other. -/
theorem eq_of_checkReferences_eq_ok {references : EntityKind → List String} {ws : List Warning}
    (checked : s.checkReferences references = .ok ws) :
    ws = EntityKind.referable.flatMap fun k =>
      (s.missing k (references k)).map (Listing.unresolved k) := by
  obtain ⟨found, looked, answer⟩ := Attempt.bind_eq_ok_iff.mp checked
  obtain rfl := Except.ok.inj answer
  rw [List.flatMap_def, Attempt.eq_map_of_mapM_eq_ok (fun k _ => eq_of_unresolvedOf_eq_ok) looked]

theorem predicate_of_listing_eq_ok {r : Rule} {ctx : Context} {l : Listing}
    (listed : s.listing r ctx = .ok l) : l.predicate = r.predicate ctx.links := by
  obtain ⟨_, _, _, _, _, _, _, _, rfl⟩ := listing_eq_ok_iff.mp listed
  rfl

/-- The warnings of a listing of an accepted custom rule are one for every id that one of its
conditions names and the catalog does not have: cuisines before locations before tags, those of a
kind in increasing order, and none twice.  Simplification keeps every reference. -/
theorem warnings_exact {groups : List Rule.Group} {exclude : List Rule.Condition} {ctx : Context}
    {l : Listing} (sound : (Rule.custom groups exclude).Sound)
    (listed : s.listing (.custom groups exclude) ctx = .ok l) :
    ∃ absent : EntityKind → List String,
      l.warnings = (absent .cuisine).map (Listing.unresolved .cuisine) ++
        (absent .location).map (Listing.unresolved .location) ++
        (absent .tag).map (Listing.unresolved .tag) ∧
      (∀ k id, id ∈ absent k ↔
        (∃ c ∈ (Rule.custom groups exclude).conditions, c.Names k id) ∧
          id ∉ s.catalog.idsOf k) ∧
      (∀ k, (absent k).Pairwise (· < ·)) ∧
      l.warnings.Nodup ∧
      ∀ k, l.predicate.references k =
        ((Rule.custom groups exclude).composed ctx.links).references k := by
  have compiled := fun c part => sound.exists_predicate? (c := c) part
  obtain ⟨unresolved, checked, warnings⟩ := warnings_of_listing_eq_ok listed
  rw [Rule.warnings, Rule.customWarnings_eq, sound.dropped_eq_nil, List.map_nil, List.nil_append,
    eq_of_checkReferences_eq_ok checked] at warnings
  refine ⟨fun k => s.missing k ((Rule.custom groups exclude).predicate ctx.links |>.references k),
    ?_, fun k id => ?_, fun k => s.pairwise_missing k _, ?_, fun k => ?_⟩
  · simpa [EntityKind.referable] using warnings
  · rw [mem_missing, Rule.mem_references_predicate compiled]
  · rw [warnings, List.nodup_flatMap]
    refine ⟨fun k _ => s.nodup_unresolved k _, ?_⟩
    have kinds : EntityKind.referable.Nodup := by decide
    refine kinds.imp fun {k k'} other => ?_
    intro w first second
    obtain ⟨i, _, rfl⟩ := List.mem_map.mp first
    obtain ⟨j, _, same⟩ := List.mem_map.mp second
    exact other (Listing.unresolved_inj.mp same).1.symm
  · rw [predicate_of_listing_eq_ok listed, Predicate.references_eq_flatMap_leaves,
      Rule.leaves_predicate_custom, ← Predicate.references_eq_flatMap_leaves]

/-- It has no row for the cuisine of its own recipe. -/
def annex : Store :=
  ⟨⟨.utc, [⟨"it", "Italian", "italian"⟩], [], [⟨"t1", "Fried", "fried", "method"⟩],
    [{ Recipe.bare "a" Status.published with cuisineId := some "fr" }]⟩, none⟩

/-- The groups and the exclusions share ids, those that exist and others.  One id is a number that
stands in no list. -/
def farFetched : Rule :=
  .custom [⟨some "AND", [⟨some "cuisineId", some "in", .arr [.str "it", .str "fr"], none⟩,
      ⟨some "cookTime", some "lt", .num (.int 30), none⟩]⟩,
    ⟨some "OR", [⟨some "tagId", some "neq", .str "t9", none⟩,
      ⟨some "locationId", some "eq", .num (.int 7), none⟩]⟩]
    [⟨some "cuisineId", some "in", .arr [.str "fr", .str "de"], none⟩,
      ⟨some "tag", some "in", .arr [.str "t9", .str "t1"], some "method"⟩]

theorem warnings_exact_annex :
    farFetched.Sound ∧ ∃ l, annex.listing farFetched ⟨.unlinked, [], []⟩ = .ok l ∧
      l.warnings = [Listing.unresolved .cuisine "de", Listing.unresolved .cuisine "fr",
        Listing.unresolved .location "7", Listing.unresolved .tag "t9"] ∧
      l.warnings.Nodup ∧
      ∀ k, l.predicate.references k = (farFetched.composed .unlinked).references k := by
  have sound : farFetched.Sound := by decide
  have sets (k : EntityKind) : sortedSet ((farFetched.predicate .unlinked).references k) =
      match k with
      | .cuisine => ["de", "fr", "it"]
      | .location => ["7"]
      | .tag => ["t1", "t9"]
      | _ => [] := by
    have cuisines : (farFetched.predicate .unlinked).references .cuisine =
        ["it", "fr", "fr", "de"] := by decide +kernel
    have tags : (farFetched.predicate .unlinked).references .tag = ["t9", "t9", "t1"] := by
      decide +kernel
    cases k with
    | cuisine =>
      simp [cuisines, sortedSet, List.mergeSort, List.MergeSort.Internal.splitInTwo, distinct]
    | tag => simp [tags, sortedSet, List.mergeSort, List.MergeSort.Internal.splitInTwo, distinct]
    | location => decide +kernel
    | recipe => decide +kernel
  have warned : (annex.listing farFetched ⟨.unlinked, [], []⟩).map Listing.warnings =
      .ok [Listing.unresolved .cuisine "de", Listing.unresolved .cuisine "fr",
        Listing.unresolved .location "7", Listing.unresolved .tag "t9"] := by
    simp only [listing, checkReferences, sets]
    decide +kernel
  obtain ⟨l, listed, warnings⟩ := Attempt.map_eq_ok_iff.mp warned
  obtain ⟨_, _, _, _, once, kept⟩ := warnings_exact sound listed
  exact ⟨sound, l, listed, warnings, once, kept⟩

end Store

end Cookbook
