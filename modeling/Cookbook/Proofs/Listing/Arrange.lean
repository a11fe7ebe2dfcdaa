import Cookbook.Listing.Order
import Cookbook.Proofs.Attempt

/-!
# The arranged list

Keeping first occurrences commutes with appending and selecting, so an arranged list is the pinned
ids in the order of their first occurrence, followed by matches that are not pinned.
-/

namespace Cookbook

section Distinct

variable {α : Type} [DecidableEq α]

theorem distinct_filter (p : α → Bool) (xs : List α) :
    distinct (xs.filter p) = (distinct xs).filter p := by
  induction xs with
  | nil => rfl
  | cons x xs ih =>
    by_cases kept : p x
    · simp only [List.filter_cons_of_pos kept, distinct, ih, List.filter_filter, Bool.and_comm]
    · have others : ∀ a ∈ distinct xs, (p a && decide (a ≠ x)) = p a := by
        intro a _
        by_cases same : a = x
        · simp [same, kept]
        · simp [same]
      simp only [List.filter_cons_of_neg kept, distinct, ih, List.filter_filter]
      exact (List.filter_congr others).symm

theorem distinct_append (xs ys : List α) :
    distinct (xs ++ ys) = distinct xs ++ (distinct ys).filter (· ∉ xs) := by
  induction xs with
  | nil => simp [List.filter_eq_self.mpr]
  | cons x xs ih =>
    simp only [List.cons_append, distinct, ih, List.filter_append, List.filter_filter,
      List.mem_cons, not_or, Bool.decide_and]

end Distinct

section Merge

variable {matched : List Ranked} {pinned excluded : List String}

theorem mem_merge {id : String} : id ∈ merge matched pinned excluded ↔
    (id ∈ pinned ∨ ∃ r ∈ matched, r.id = id) ∧ id ∉ excluded := by
  simp [merge, or_and_right]

theorem nodup_merge (matched : List Ranked) (pinned excluded : List String) :
    (merge matched pinned excluded).Nodup := nodup_distinct _

/-- Pinned ids stand before all others, in the order of their first occurrence. -/
theorem merge_eq_append (matched : List Ranked) (pinned excluded : List String) :
    ∃ rest, merge matched pinned excluded =
        (distinct pinned).filter (fun id => !excluded.contains id) ++ rest ∧
      ∀ id ∈ rest, id ∉ pinned := by
  simp only [merge, List.filter_append, distinct_append, distinct_filter]
  refine ⟨_, rfl, fun id later => ?_⟩
  simp only [List.mem_filter, mem_distinct, decide_eq_true_eq, not_and] at later
  obtain ⟨⟨_, wanted⟩, unpinned⟩ := later
  exact fun pin => unpinned pin wanted

end Merge

namespace Dated

variable {key : Instant → Attempt Int} {base : List Dated} {matched : List Ranked}

theorem id_eq_of_ranked_eq_ok {d : Dated} {r : Ranked} (ranked : d.ranked key = .ok r) :
    r.id = d.id := by
  unfold Dated.ranked at ranked
  split at ranked
  · obtain ⟨k, _, rfl⟩ := Attempt.map_eq_ok_iff.mp ranked
    rfl
  · cases ranked
    rfl

theorem map_id_eq_of_mapM_eq_ok (ranked : base.mapM (Dated.ranked key) = .ok matched) :
    matched.map Ranked.id = base.map Dated.id := by
  rw [Attempt.mapM_eq_ok_iff] at ranked
  induction ranked with
  | nil => rfl
  | cons first _ ih => rw [List.map_cons, List.map_cons, ih, id_eq_of_ranked_eq_ok first]

end Dated

section Arrange

variable {key : Instant → Attempt Int} {base : List Dated} {pinned excluded ids : List String}

theorem arrange_eq_ok_iff : arrange key base pinned excluded = .ok ids ↔
    ∃ matched, base.mapM (Dated.ranked key) = .ok matched ∧
      merge matched pinned excluded = ids := by
  simp only [arrange, Attempt.bind_eq_ok_iff, Except.ok.injEq]

theorem mem_of_arrange_eq_ok (arranged : arrange key base pinned excluded = .ok ids)
    {id : String} : id ∈ ids ↔ (id ∈ pinned ∨ ∃ d ∈ base, d.id = id) ∧ id ∉ excluded := by
  obtain ⟨matched, ranked, rfl⟩ := arrange_eq_ok_iff.mp arranged
  rw [mem_merge, ← List.mem_map, Dated.map_id_eq_of_mapM_eq_ok ranked, List.mem_map]

theorem nodup_of_arrange_eq_ok (arranged : arrange key base pinned excluded = .ok ids) :
    ids.Nodup := by
  obtain ⟨matched, _, rfl⟩ := arrange_eq_ok_iff.mp arranged
  exact nodup_merge matched pinned excluded

theorem eq_append_of_arrange_eq_ok (arranged : arrange key base pinned excluded = .ok ids) :
    ∃ rest, ids = (distinct pinned).filter (fun id => !excluded.contains id) ++ rest ∧
      ∀ id ∈ rest, id ∉ pinned := by
  obtain ⟨matched, _, rfl⟩ := arrange_eq_ok_iff.mp arranged
  exact merge_eq_append matched pinned excluded

end Arrange

end Cookbook
