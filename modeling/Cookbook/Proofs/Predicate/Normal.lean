import Cookbook.Proofs.Predicate.Meaning

/-!
# The normal form of predicates

Simplification goes over a predicate once, from the leaves up.  A junction of one child and a double
negation give way to a node that was below them, and the node above them has to take that in as
well.  It does: what comes up is simplified already, so it is a constant, which the node above
resolves, or reduced, and then only its own kind matters.
-/

namespace Cookbook.Predicate

/-- Simplification has nothing to do at this node: it is no constant and no empty set of ids, a
junction has two children at least and none of its own kind, and a negation is not negated. -/
def Plain : Predicate → Prop
  | all => False
  | none => False
  | ids is => is ≠ []
  | and ps => 2 ≤ ps.length ∧ ∀ qs, and qs ∉ ps
  | or ps => 2 ≤ ps.length ∧ ∀ qs, or qs ∉ ps
  | not p => ∀ q, p ≠ not q
  | _ => True

def Reduced (p : Predicate) : Prop := ∀ q ∈ p.nodes, q.Plain

/-- A constant, or reduced throughout. -/
def Normal (p : Predicate) : Prop := p = all ∨ p = none ∨ p.Reduced

variable {p q : Predicate} {ps : List Predicate}

theorem plain_and : (and ps).Plain ↔ 2 ≤ ps.length ∧ ∀ qs, and qs ∉ ps := Iff.rfl

theorem plain_or : (or ps).Plain ↔ 2 ≤ ps.length ∧ ∀ qs, or qs ∉ ps := Iff.rfl

theorem plain_not : (not p).Plain ↔ ∀ q, p ≠ not q := Iff.rfl

theorem self_mem_nodes (p : Predicate) : p ∈ p.nodes := by
  cases p <;> exact List.mem_cons_self

theorem Reduced.plain (reduced : p.Reduced) : p.Plain := reduced p p.self_mem_nodes

theorem Reduced.ne_all (reduced : p.Reduced) : p ≠ all := by
  rintro rfl
  exact reduced.plain

theorem Reduced.ne_none (reduced : p.Reduced) : p ≠ none := by
  rintro rfl
  exact reduced.plain

theorem reduced_and : (and ps).Reduced ↔
    (2 ≤ ps.length ∧ ∀ qs, and qs ∉ ps) ∧ ∀ p ∈ ps, p.Reduced := by
  simp only [Reduced, nodes_and, List.forall_mem_cons, List.forall_mem_flatMap, plain_and]

theorem reduced_or : (or ps).Reduced ↔
    (2 ≤ ps.length ∧ ∀ qs, or qs ∉ ps) ∧ ∀ p ∈ ps, p.Reduced := by
  simp only [Reduced, nodes_or, List.forall_mem_cons, List.forall_mem_flatMap, plain_or]

theorem reduced_not : (not p).Reduced ↔ (∀ q, p ≠ not q) ∧ p.Reduced := by
  simp only [Reduced, nodes_not, List.forall_mem_cons, plain_not]

theorem reduced_of_nodes_eq (single : p.nodes = [p]) (plain : p.Plain) : p.Reduced := by
  intro q node
  rw [single] at node
  exact List.mem_singleton.mp node ▸ plain

section Junctions

/-- What a simplified child adds to a conjunction is reduced and no conjunction any more. -/
theorem Normal.of_mem_conjuncts (normal : p.Normal) (present : p ≠ none) (part : q ∈ conjuncts p) :
    q.Reduced ∧ ∀ qs, and qs ≠ q := by
  rcases normal with rfl | rfl | reduced
  · cases part
  · exact absurd rfl present
  · cases p with
    | and ps =>
      obtain ⟨⟨_, flat⟩, children⟩ := reduced_and.mp reduced
      exact ⟨children q part, fun qs same => flat qs (same ▸ part)⟩
    | all => cases part
    | _ =>
      obtain rfl := List.mem_singleton.mp part
      exact ⟨reduced, nofun⟩

theorem Normal.of_mem_disjuncts (normal : p.Normal) (present : p ≠ all) (part : q ∈ disjuncts p) :
    q.Reduced ∧ ∀ qs, or qs ≠ q := by
  rcases normal with rfl | rfl | reduced
  · exact absurd rfl present
  · cases part
  · cases p with
    | or ps =>
      obtain ⟨⟨_, flat⟩, children⟩ := reduced_or.mp reduced
      exact ⟨children q part, fun qs same => flat qs (same ▸ part)⟩
    | none => cases part
    | _ =>
      obtain rfl := List.mem_singleton.mp part
      exact ⟨reduced, nofun⟩

theorem normal_conj (normal : ∀ p ∈ ps, p.Normal) : (conj ps).Normal := by
  unfold conj
  split
  next => exact .inr (.inl rfl)
  next present =>
    have parts : ∀ q ∈ ps.flatMap conjuncts, q.Reduced ∧ ∀ qs, and qs ≠ q := by
      intro q member
      obtain ⟨p, child, part⟩ := List.mem_flatMap.mp member
      exact (normal p child).of_mem_conjuncts (fun same => present (same ▸ child)) part
    generalize ps.flatMap conjuncts = qs at parts
    obtain _ | ⟨q, _ | ⟨q', qs⟩⟩ := qs
    · exact .inl rfl
    · exact .inr (.inr (parts q List.mem_cons_self).1)
    · refine .inr (.inr (reduced_and.mpr ⟨⟨by simp, fun rs child => ?_⟩, fun p child => ?_⟩))
      · exact (parts _ child).2 rs rfl
      · exact (parts p child).1

theorem normal_disj (normal : ∀ p ∈ ps, p.Normal) : (disj ps).Normal := by
  unfold disj
  split
  next => exact .inl rfl
  next present =>
    have parts : ∀ q ∈ ps.flatMap disjuncts, q.Reduced ∧ ∀ qs, or qs ≠ q := by
      intro q member
      obtain ⟨p, child, part⟩ := List.mem_flatMap.mp member
      exact (normal p child).of_mem_disjuncts (fun same => present (same ▸ child)) part
    generalize ps.flatMap disjuncts = qs at parts
    obtain _ | ⟨q, _ | ⟨q', qs⟩⟩ := qs
    · exact .inr (.inl rfl)
    · exact .inr (.inr (parts q List.mem_cons_self).1)
    · refine .inr (.inr (reduced_or.mpr ⟨⟨by simp, fun rs child => ?_⟩, fun p child => ?_⟩))
      · exact (parts _ child).2 rs rfl
      · exact (parts p child).1

theorem normal_negate (normal : p.Normal) : (negate p).Normal := by
  rcases normal with rfl | rfl | reduced
  · exact .inr (.inl rfl)
  · exact .inl rfl
  · cases p with
    | all => exact absurd rfl reduced.ne_all
    | none => exact absurd rfl reduced.ne_none
    | not q => exact .inr (.inr (reduced_not.mp reduced).2)
    | _ => exact .inr (.inr (reduced_not.mpr ⟨nofun, reduced⟩))

theorem flatMap_eq_self {parts : Predicate → List Predicate} (alone : ∀ p ∈ ps, parts p = [p]) :
    ps.flatMap parts = ps := by
  rw [List.flatMap_def, List.map_congr_left alone, ← List.flatMap_def, List.flatMap_singleton']

/-- The children of a reduced conjunction stay as they are. -/
theorem conj_of_reduced (reduced : (and ps).Reduced) : conj ps = and ps := by
  obtain ⟨⟨several, flat⟩, children⟩ := reduced_and.mp reduced
  have present : none ∉ ps := fun child => (children none child).ne_none rfl
  have parts : ps.flatMap conjuncts = ps := by
    refine flatMap_eq_self fun p child => ?_
    cases p with
    | all => exact absurd rfl (children _ child).ne_all
    | and qs => exact absurd child (flat qs)
    | _ => rfl
  rw [conj, if_neg present, parts]
  obtain _ | ⟨p, _ | ⟨q, qs⟩⟩ := ps
  · simp at several
  · simp at several
  · rfl

theorem disj_of_reduced (reduced : (or ps).Reduced) : disj ps = or ps := by
  obtain ⟨⟨several, flat⟩, children⟩ := reduced_or.mp reduced
  have present : all ∉ ps := fun child => (children all child).ne_all rfl
  have parts : ps.flatMap disjuncts = ps := by
    refine flatMap_eq_self fun p child => ?_
    cases p with
    | none => exact absurd rfl (children _ child).ne_none
    | or qs => exact absurd child (flat qs)
    | _ => rfl
  rw [disj, if_neg present, parts]
  obtain _ | ⟨p, _ | ⟨q, qs⟩⟩ := ps
  · simp at several
  · simp at several
  · rfl

theorem negate_of_reduced (reduced : (not p).Reduced) : negate p = not p := by
  obtain ⟨single, child⟩ := reduced_not.mp reduced
  cases p with
  | all => exact absurd rfl child.ne_all
  | none => exact absurd rfl child.ne_none
  | not q => exact absurd rfl (single q)
  | _ => rfl

end Junctions

theorem normal_simplify (p : Predicate) : p.simplify.Normal := by
  induction p with
  | all => exact .inl rfl
  | none => exact .inr (.inl rfl)
  | and ps ih =>
    rw [simplify, simplifyAll_eq_map]
    exact normal_conj (List.forall_mem_map.mpr ih)
  | or ps ih =>
    rw [simplify, simplifyAll_eq_map]
    exact normal_disj (List.forall_mem_map.mpr ih)
  | not p ih => exact normal_negate ih
  | ids is =>
    cases is with
    | nil => exact .inr (.inl rfl)
    | cons i is => exact .inr (.inr (reduced_of_nodes_eq rfl (List.cons_ne_nil i is)))
  | _ => exact .inr (.inr (reduced_of_nodes_eq rfl trivial))

theorem simplify_of_reduced (reduced : p.Reduced) : p.simplify = p := by
  induction p with
  | and ps ih =>
    have children := (reduced_and.mp reduced).2
    have same : ps.map simplify = ps.map id :=
      List.map_congr_left fun p child => ih p child (children p child)
    rw [simplify, simplifyAll_eq_map, same, List.map_id, conj_of_reduced reduced]
  | or ps ih =>
    have children := (reduced_or.mp reduced).2
    have same : ps.map simplify = ps.map id :=
      List.map_congr_left fun p child => ih p child (children p child)
    rw [simplify, simplifyAll_eq_map, same, List.map_id, disj_of_reduced reduced]
  | not p ih => rw [simplify, ih (reduced_not.mp reduced).2, negate_of_reduced reduced]
  | ids is =>
    cases is with
    | nil => exact absurd rfl reduced.plain
    | cons => rfl
  | _ => rfl

theorem simplify_of_normal (normal : p.Normal) : p.simplify = p := by
  rcases normal with rfl | rfl | reduced
  · rfl
  · rfl
  · exact simplify_of_reduced reduced

/-- A simplified predicate is a constant or has nothing left to simplify at any node.  The
predicates of this form are the ones that simplification leaves as they are, so a second
simplification changes nothing. -/
theorem simplify_normal (p : Predicate) :
    p.simplify.Normal ∧ (p.simplify = p ↔ p.Normal) ∧ p.simplify.simplify = p.simplify := by
  have normal := p.normal_simplify
  refine ⟨normal, ⟨fun same => ?_, simplify_of_normal⟩, simplify_of_normal normal⟩
  rw [← same]
  exact normal

/-- A conjunction comes up through a double negation and a disjunction that has it alone. -/
example : (and [not (not (or [none, and [ids ["a"], ids ["b"]]])), not (ids [])]).simplify =
    and [ids ["a"], ids ["b"]] := by
  decide

end Cookbook.Predicate
