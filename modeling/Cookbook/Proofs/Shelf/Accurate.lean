import Cookbook.Proofs.Shelf.Commit

/-!
# Accurate counts

Counts that are stored with a time are those of the listing as the rule stands now.  A change of a
row keeps them so when it leaves alone what the listing depends on, when it clears the time, and
when it takes the counts anew.
-/

namespace Cookbook

theorem Store.currentListing_congr {c d : Collection} (s : Store) (rules : d.rules = c.rules)
    (context : d.context = c.context) : s.currentListing d = s.currentListing c := by
  simp only [currentListing, rules, context]

namespace Collection

/-- Counts with a time are those of the listing as it would be now. -/
def Accurate (cat : Catalog) (c : Collection) : Prop :=
  c.cachedAt ≠ none → ∃ l, (Store.mk cat none).currentListing c = .ok l ∧ l.counts = c.cached

variable {cat : Catalog} {c d : Collection}

theorem accurate_of_cachedAt_eq_none (cleared : c.cachedAt = none) : c.Accurate cat :=
  fun kept => absurd cleared kept

theorem Accurate.congr (accurate : c.Accurate cat) (rules : d.rules = c.rules)
    (context : d.context = c.context) (cached : d.cached = c.cached)
    (cachedAt : d.cachedAt = c.cachedAt) : d.Accurate cat := by
  intro kept
  obtain ⟨l, listed, counts⟩ := accurate (cachedAt ▸ kept)
  exact ⟨l, (Store.currentListing_congr _ rules context).trans listed, counts.trans cached.symm⟩

theorem accurate_of_currentListing {l : Listing}
    (listed : (Store.mk cat none).currentListing c = .ok l) (rules : d.rules = c.rules)
    (context : d.context = c.context) (cached : d.cached = l.counts) : d.Accurate cat :=
  fun _ => ⟨l, (Store.currentListing_congr _ rules context).trans listed, cached.symm⟩

theorem Accurate.change (accurate : c.Accurate cat) (ch : Changes) (now : Instant) :
    (c.change ch now).Accurate cat := by
  by_cases differ : InputsDiffer c (c.edited ch)
  · refine accurate_of_cachedAt_eq_none ?_
    simp [Collection.change, differ, invalidate]
  · have kept : (c.change ch now) = { c.edited ch with updatedAt := now } := by
      simp [Collection.change, differ]
    simp only [InputsDiffer, ne_eq, not_or, Decidable.not_not] at differ
    obtain ⟨rules, links, pinned, excluded⟩ := differ
    rw [kept]
    refine accurate.congr rules ?_ rfl rfl
    simp only [Collection.context, pinnedIds, excludedIds, links, pinned, excluded]

theorem Accurate.unpublished (accurate : c.Accurate cat) (now : Instant) :
    (c.unpublished now).Accurate cat := accurate.congr rfl rfl rfl rfl

end Collection

def Shelf.Accurate (s : Shelf) : Prop := ∀ c ∈ s.collections, c.Accurate s.catalog

/-- Whatever a call makes of an accurate row is accurate. -/
theorem Revises.accurate {s : Shelf} {now : Instant} {c d : Collection} {call : Call}
    (revises : Revises s now c call d) (accurate : c.Accurate s.catalog) :
    d.Accurate s.catalog := by
  cases revises with
  | update => exact accurate.change _ now
  | refresh _ listed => exact Collection.accurate_of_currentListing listed rfl rfl rfl
  | publish _ _ listed => exact Collection.accurate_of_currentListing listed rfl rfl rfl
  | unpublish => exact accurate.unpublished now
  | _ => exact Collection.accurate_of_cachedAt_eq_none rfl

theorem Commit.accurate {env : Surroundings} {call : Call} {s t : Shelf}
    (commit : Commit env call s t) (accurate : s.Accurate) : t.Accurate := by
  unfold Shelf.Accurate
  rw [commit.catalog_eq]
  intro d member
  cases commit.arises member with
  | kept row => exact accurate d row
  | created => exact Collection.accurate_of_cachedAt_eq_none rfl
  | linked => exact Collection.accurate_of_cachedAt_eq_none rfl
  | revised row revises => exact revises.accurate (accurate _ row)

end Cookbook
