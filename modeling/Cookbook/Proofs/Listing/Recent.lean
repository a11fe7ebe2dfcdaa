import Cookbook.Proofs.Listing.Tally

/-!
# Last changed first

The order of recipes by their last change is total, so the first recipes of a sorted list are the
ones that were changed last.
-/

namespace Cookbook

/-- Later ones come first, and those of one time in an order of their own. -/
def LaterFirst {α : Type} (time : α → Instant) (next : α → α → Prop) (a b : α) : Prop :=
  time b < time a ∨ time a = time b ∧ next a b

namespace LaterFirst

variable {α : Type} {time : α → Instant} {next : α → α → Prop} {a b c : α}

theorem trans (closed : next a b → next b c → next a c) (first : LaterFirst time next a b)
    (second : LaterFirst time next b c) : LaterFirst time next a c := by
  rcases first with later | ⟨same, before⟩ <;> rcases second with later' | ⟨same', before'⟩
  · exact .inl (Int.lt_trans later' later)
  · exact .inl (same' ▸ later)
  · exact .inl (same ▸ later')
  · exact .inr ⟨same.trans same', closed before before'⟩

theorem total (some : next a b ∨ next b a) :
    LaterFirst time next a b ∨ LaterFirst time next b a := by
  rcases lt_trichotomy (time a).micros (time b).micros with less | equal | more
  · exact .inr (.inl less)
  · have same : time a = time b := congrArg Instant.mk equal
    exact some.imp (.inr ⟨same, ·⟩) (.inr ⟨same.symm, ·⟩)
  · exact .inl (.inl more)

end LaterFirst

namespace Recipe

variable {a b c : Recipe}

theorem newerFirst_iff :
    a.newerFirst b = true ↔ LaterFirst createdAt (fun x y => x.id ≤ y.id) a b := by
  simp [newerFirst, LaterFirst]

theorem recentFirst_iff : a.recentFirst b = true ↔
    LaterFirst updatedAt (fun x y => x.newerFirst y = true) a b := by
  simp [recentFirst, LaterFirst]

theorem newerFirst_trans (first : a.newerFirst b = true) (second : b.newerFirst c = true) :
    a.newerFirst c = true :=
  newerFirst_iff.mpr ((newerFirst_iff.mp first).trans String.le_trans (newerFirst_iff.mp second))

theorem newerFirst_total (a b : Recipe) : a.newerFirst b = true ∨ b.newerFirst a = true := by
  rw [newerFirst_iff, newerFirst_iff]
  exact LaterFirst.total (String.le_total a.id b.id)

theorem recentFirst_trans (first : a.recentFirst b = true) (second : b.recentFirst c = true) :
    a.recentFirst c = true :=
  recentFirst_iff.mpr
    ((recentFirst_iff.mp first).trans newerFirst_trans (recentFirst_iff.mp second))

theorem recentFirst_total (a b : Recipe) : a.recentFirst b = true ∨ b.recentFirst a = true := by
  rw [recentFirst_iff, recentFirst_iff]
  exact LaterFirst.total (newerFirst_total a b)

theorem updatedAt_le_of_recentFirst (recent : a.recentFirst b = true) :
    b.updatedAt ≤ a.updatedAt := by
  rcases recentFirst_iff.mp recent with later | ⟨same, _⟩
  · exact Int.le_of_lt later
  · exact same ▸ Int.le_refl _

end Recipe

namespace Catalog

variable (c : Catalog) (P : Recipe → Prop) [DecidablePred P]

/-- The recipes with a property, last changed first. -/
def recent : List Recipe := (c.recipes.filter fun x => decide (P x)).mergeSort Recipe.recentFirst

variable {c P}

theorem mem_recent {r : Recipe} : r ∈ c.recent P ↔ r ∈ c.recipes ∧ P r := by
  simp [recent, List.mem_mergeSort]

theorem length_recent : ((c.recent P).length : Int) = (c.tally P).matched := by
  simp [recent, tally, Counts.ofStatuses, List.length_mergeSort]

theorem pairwise_recent : (c.recent P).Pairwise fun a b => b.updatedAt ≤ a.updatedAt := by
  have sorted : (c.recent P).Pairwise fun a b => a.recentFirst b = true := by
    apply pairwise_mergeSort_of_iff
    · exact Iff.rfl
    · exact Recipe.recentFirst_trans
    · exact Recipe.recentFirst_total
  exact sorted.imp Recipe.updatedAt_le_of_recentFirst

theorem nodup_recent (keyed : c.Keyed) : ((c.recent P).map Recipe.id).Nodup := by
  have perm : (c.recent P).Perm (c.recipes.filter fun x => decide (P x)) := List.mergeSort_perm _ _
  refine (perm.map Recipe.id).nodup_iff.mpr ?_
  exact (List.filter_sublist.map Recipe.id).nodup (keyed .recipe)

end Catalog

end Cookbook
