/-!
# Lists without repetitions

`distinct` keeps the first of equal elements, so the order of first occurrence stays.
-/

namespace Cookbook

variable {α : Type} [DecidableEq α]

def distinct : List α → List α
  | [] => []
  | x :: xs => x :: (distinct xs).filter (· ≠ x)

@[simp] theorem distinct_nil : distinct ([] : List α) = [] := rfl

@[simp] theorem mem_distinct {x : α} {xs : List α} : x ∈ distinct xs ↔ x ∈ xs := by
  induction xs with
  | nil => simp
  | cons y ys ih =>
    simp only [distinct, List.mem_cons, List.mem_filter, ih, decide_eq_true_eq]
    by_cases h : x = y <;> simp [h]

theorem nodup_distinct (xs : List α) : (distinct xs).Nodup := by
  induction xs with
  | nil => simp
  | cons y ys ih =>
    simp only [distinct, List.nodup_cons, List.mem_filter, decide_eq_true_eq]
    exact ⟨fun h => h.2 rfl, ih.filter _⟩

theorem distinct_eq_self {xs : List α} (h : xs.Nodup) : distinct xs = xs := by
  induction xs with
  | nil => rfl
  | cons y ys ih =>
    obtain ⟨absent, rest⟩ := List.nodup_cons.mp h
    simp only [distinct, ih rest, List.cons.injEq, true_and]
    refine List.filter_eq_self.mpr fun a member => decide_eq_true fun same => ?_
    exact absent (same ▸ member)

/-- A list in increasing order without repetitions. -/
def sortedSet (ss : List String) : List String :=
  distinct (ss.mergeSort fun a b => decide (a ≤ b))

/-- Sorting by a test puts a list in the order that it decides. -/
theorem pairwise_mergeSort_of_iff {β : Type} {le : β → β → Bool} {R : β → β → Prop}
    (decides : ∀ {a b}, le a b = true ↔ R a b) (trans : ∀ {a b c}, R a b → R b c → R a c)
    (total : ∀ a b, R a b ∨ R b a) (xs : List β) : (xs.mergeSort le).Pairwise R := by
  have sorted : (xs.mergeSort le).Pairwise fun a b => le a b = true := by
    apply List.pairwise_mergeSort
    · intro a b c first second
      exact decides.mpr (trans (decides.mp first) (decides.mp second))
    · intro a b
      rw [Bool.or_eq_true, decides, decides]
      exact total a b
  exact sorted.imp decides.mp

theorem pairwise_mergeSort_key {β : Type} (key : β → String) (xs : List β) :
    (xs.mergeSort fun a b => decide (key a ≤ key b)).Pairwise fun a b => key a ≤ key b := by
  apply pairwise_mergeSort_of_iff
  · exact decide_eq_true_iff
  · exact String.le_trans
  · exact fun a b => String.le_total (key a) (key b)

end Cookbook
