import Cookbook.Proofs.Rule.Dropped

/-!
# What a rule refers to

References are collected from the predicate that a rule is compiled and simplified to.  Simplifying
drops whole parts of a predicate, but only next to a constant or a junction without children.  A
compiled rule has neither, except for a body that asks nothing, so all of its tests stay and refer
to what its conditions name.
-/

namespace Cookbook

namespace Predicate

variable {p : Predicate} {ps : List Predicate}

/-- There are tests in it, and simplification keeps every one of them. -/
structure Kept (p : Predicate) : Prop where
  leaves_ne_nil : p.leaves ≠ []
  leaves_simplify : p.simplify.leaves = p.leaves

/-- A predicate with tests does not become a constant. -/
theorem Kept.simplify_ne (kept : p.Kept) {q : Predicate} (constant : q.leaves = []) :
    p.simplify ≠ q := by
  rintro rfl
  exact kept.leaves_ne_nil (kept.leaves_simplify.symm.trans constant)

theorem leaves_simplifyAll (same : ∀ p ∈ ps, p.simplify.leaves = p.leaves) :
    (ps.map simplify).flatMap leaves = ps.flatMap leaves := by
  rw [List.flatMap_map, List.flatMap_def, List.flatMap_def]
  exact congrArg List.flatten (List.map_congr_left same)

theorem leaves_simplify_and (children : ∀ p ∈ ps, p = all ∨ p.Kept) :
    (and ps).simplify.leaves = (and ps).leaves := by
  have present : none ∉ ps.map simplify := by
    intro member
    obtain ⟨p, child, constant⟩ := List.mem_map.mp member
    rcases children p child with rfl | kept
    · cases constant
    · exact kept.simplify_ne rfl constant
  rw [simplify, simplifyAll_eq_map, leaves_conj present, leaves_and]
  refine leaves_simplifyAll fun p child => ?_
  rcases children p child with rfl | kept
  · rfl
  · exact kept.leaves_simplify

theorem flatMap_leaves_ne_nil (nonempty : ps ≠ []) (children : ∀ p ∈ ps, p.Kept) :
    ps.flatMap leaves ≠ [] := by
  obtain ⟨p, child⟩ := List.exists_mem_of_ne_nil ps nonempty
  obtain ⟨q, leaf⟩ := List.exists_mem_of_ne_nil _ (children p child).leaves_ne_nil
  exact List.ne_nil_of_mem (List.mem_flatMap.mpr ⟨p, child, leaf⟩)

theorem kept_and (nonempty : ps ≠ []) (children : ∀ p ∈ ps, p.Kept) : (and ps).Kept where
  leaves_ne_nil := leaves_and ps ▸ flatMap_leaves_ne_nil nonempty children
  leaves_simplify := leaves_simplify_and fun p child => .inr (children p child)

theorem kept_or (nonempty : ps ≠ []) (children : ∀ p ∈ ps, p.Kept) : (or ps).Kept where
  leaves_ne_nil := leaves_or ps ▸ flatMap_leaves_ne_nil nonempty children
  leaves_simplify := by
    have present : all ∉ ps.map simplify := by
      intro member
      obtain ⟨p, child, constant⟩ := List.mem_map.mp member
      exact (children p child).simplify_ne rfl constant
    rw [simplify, simplifyAll_eq_map, leaves_disj present, leaves_or]
    exact leaves_simplifyAll fun p child => (children p child).leaves_simplify

theorem kept_not (kept : p.Kept) : (not p).Kept where
  leaves_ne_nil := kept.leaves_ne_nil
  leaves_simplify := by rw [simplify, leaves_negate, kept.leaves_simplify, leaves_not]

end Predicate

namespace Rule

/-- The kind of entity that the ids of a condition stand for. -/
def Field.entity? : Field → Option EntityKind
  | relation r => some r.entity
  | tagId => some .tag
  | tag => some .tag
  | measure _ => none

namespace Condition

variable {c : Condition} {p : Predicate} {k : EntityKind}

/-- The id is among the values of the condition, which are ids of this kind. -/
def Names (c : Condition) (k : EntityKind) (id : String) : Prop :=
  ∃ f, c.field? = some f ∧ f.entity? = some k ∧ id ∈ c.value.ids

/-- A text names itself, any other single value its literal, and a list what its items spell. -/
theorem names_iff {id : String} : c.Names k id ↔
    ∃ f : Field, c.field = some f.name ∧ f.entity? = some k ∧ c.value.Lists id := by
  simp only [Names, field?_eq_some_iff, Json.mem_ids_iff]

example : (⟨some "cuisineId", none, .str "it", none⟩ : Condition).Names .cuisine "it" ∧
    (⟨some "tagId", none, .num (.int 7), none⟩ : Condition).Names .tag "7" ∧
    (⟨some "tag", none, .arr [.str "v", .bool true], none⟩ : Condition).Names .tag "True" := by
  refine ⟨⟨.relation .cuisine, ?_⟩, ⟨.tagId, ?_⟩, ⟨.tag, ?_⟩⟩ <;> decide

theorem kept_of_predicate? (compiled : c.predicate? = some p) : p.Kept := by
  rcases test_of_predicate? compiled with
    ⟨r, op, _, rfl⟩ | ⟨f, q, t, _, _, rfl⟩ | ⟨m, op, n, _, rfl⟩ <;>
  exact ⟨List.cons_ne_nil _ _, rfl⟩

/-- The test of a condition refers to what the condition names. -/
theorem mem_references_of_predicate? (compiled : c.predicate? = some p) {id : String} :
    id ∈ p.references k ↔ c.Names k id := by
  rcases test_of_predicate? compiled with
    ⟨r, op, field, rfl⟩ | ⟨f, q, t, field, kind, rfl⟩ | ⟨m, op, n, field, rfl⟩
  · simp [Names, field, Field.entity?, Predicate.references]
  · rcases kind with rfl | rfl
    · simp [Names, field, Field.entity?, Predicate.references, eq_comm]
    · simp [Names, field, Field.entity?, Predicate.references, eq_comm]
  · simp [Names, field, Field.entity?, Predicate.references]

end Condition

theorem Group.kept_of_predicate? {g : Group} {p : Predicate} (compiled : g.predicate? = some p) :
    p.Kept := by
  have tests : ∀ q ∈ g.conditions.filterMap Condition.predicate?, q.Kept := by
    intro q member
    obtain ⟨c, _, compiled⟩ := List.mem_filterMap.mp member
    exact Condition.kept_of_predicate? compiled
  unfold predicate? at compiled
  split at compiled
  next => cases compiled
  next some =>
    obtain rfl := Option.some.inj compiled
    split
    · exact Predicate.kept_or some tests
    · exact Predicate.kept_and some tests

/-- Simplifying what a custom rule is put together to loses none of its tests. -/
theorem leaves_predicate_custom (groups : List Group) (exclude : List Condition) (links : Links) :
    ((custom groups exclude).predicate links).leaves =
      ((custom groups exclude).composed links).leaves := by
  have asked : ∀ p ∈ groups.filterMap Group.predicate?, p.Kept := by
    intro p member
    obtain ⟨g, _, compiled⟩ := List.mem_filterMap.mp member
    exact Group.kept_of_predicate? compiled
  have unwanted : ∀ p ∈ exclude.filterMap Condition.predicate?, p.Kept := by
    intro p member
    obtain ⟨c, _, compiled⟩ := List.mem_filterMap.mp member
    exact Condition.kept_of_predicate? compiled
  rw [predicate, composed]
  unfold customPredicate
  extract_lets body
  have asks : body = .all ∨ body.Kept := by
    unfold body
    split
    next => exact .inl rfl
    next some => exact .inr (Predicate.kept_and some asked)
  split
  next =>
    rcases asks with constant | kept
    · rw [constant]
      rfl
    · exact kept.leaves_simplify
  next some =>
    apply Predicate.leaves_simplify_and
    intro p child
    simp only [List.mem_cons, List.not_mem_nil, or_false] at child
    rcases child with rfl | rfl
    · exact asks
    · exact .inr (Predicate.kept_not (Predicate.kept_or some unwanted))

/-- The predicate of a rule whose conditions all compile refers to what the conditions name. -/
theorem mem_references_predicate {groups : List Group} {exclude : List Condition}
    (compiled : ∀ c ∈ (custom groups exclude).conditions, ∃ p, c.predicate? = some p)
    (links : Links) {k : EntityKind} {id : String} :
    id ∈ ((custom groups exclude).predicate links).references k ↔
      ∃ c ∈ (custom groups exclude).conditions, c.Names k id := by
  rw [Predicate.references_eq_flatMap_leaves, leaves_predicate_custom, leaves_composed_custom]
  simp only [List.mem_flatMap, List.mem_filterMap]
  constructor
  · rintro ⟨p, ⟨c, part, test⟩, reference⟩
    exact ⟨c, part, (Condition.mem_references_of_predicate? test).mp reference⟩
  · rintro ⟨c, part, named⟩
    obtain ⟨p, test⟩ := compiled c part
    exact ⟨p, ⟨c, part, test⟩, (Condition.mem_references_of_predicate? test).mpr named⟩

end Rule

end Cookbook
