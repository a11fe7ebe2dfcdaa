import Cookbook.Proofs.Predicate.Normal
import Mathlib.Data.Nat.Basic
import Mathlib.Order.Basic

/-!
# The size of simplified predicates

Simplification makes no predicate larger or deeper.  Every rewriting takes nodes away, except that a
constant comes in place of an empty set of ids or an empty junction.  `settled` is what these
replacements alone make of a predicate, and a simplified predicate is the settled one or has fewer
nodes, node by node from the leaves up.
-/

namespace Cookbook.Predicate

variable {p q r : Predicate} {ps qs rs ss : List Predicate} {make : List Predicate → Predicate}

section Measures

theorem nodeCount_pos (p : Predicate) : 0 < p.nodeCount := by
  cases p <;> exact Nat.succ_pos _

theorem nodeCountAll_append (ps qs : List Predicate) :
    nodeCountAll (ps ++ qs) = nodeCountAll ps + nodeCountAll qs := by
  induction ps with
  | nil => exact (Nat.zero_add _).symm
  | cons p ps ih => exact (congrArg (p.nodeCount + ·) ih).trans (Nat.add_assoc _ _ _).symm

theorem nodeCountAll_map {f : Predicate → Predicate}
    (same : ∀ p ∈ ps, (f p).nodeCount = p.nodeCount) :
    nodeCountAll (ps.map f) = nodeCountAll ps := by
  induction ps with
  | nil => rfl
  | cons p ps ih =>
    obtain ⟨first, rest⟩ := List.forall_mem_cons.mp same
    exact congrArg₂ (· + ·) first (ih rest)

theorem nodeCount_le_of_mem (child : p ∈ ps) : p.nodeCount ≤ nodeCountAll ps := by
  induction ps with
  | nil => cases child
  | cons q ps ih =>
    rcases List.mem_cons.mp child with rfl | later
    · exact Nat.le_add_right _ _
    · exact (ih later).trans (Nat.le_add_left _ _)

theorem nodeCountAll_pos (nonempty : ps ≠ []) : 0 < nodeCountAll ps := by
  obtain ⟨p, child⟩ := List.exists_mem_of_ne_nil ps nonempty
  exact p.nodeCount_pos.trans_le (nodeCount_le_of_mem child)

theorem depthAll_le_iff {n : Nat} : depthAll ps ≤ n ↔ ∀ p ∈ ps, p.depth ≤ n := by
  induction ps with
  | nil => exact ⟨fun _ => nofun, fun _ => Nat.zero_le n⟩
  | cons p ps ih =>
    rw [List.forall_mem_cons, ← ih]
    exact Nat.max_le

theorem depth_le_of_mem (child : p ∈ ps) : p.depth ≤ depthAll ps :=
  depthAll_le_iff.mp le_rfl p child

theorem attributesAll_eq_flatMap (ps : List Predicate) :
    attributesAll ps = ps.flatMap attributes := by
  induction ps with
  | nil => rfl
  | cons p ps ih => exact congrArg (p.attributes ++ ·) ih

/-- A predicate asks about what its tests ask about. -/
theorem attributes_eq_flatMap_leaves (p : Predicate) :
    p.attributes = p.leaves.flatMap attributes :=
  eq_flatMap_leaves rfl rfl attributesAll_eq_flatMap attributesAll_eq_flatMap (fun _ => rfl) p

end Measures

section Rest

/-- What can be left of a junction whose children are flattened into parts. -/
inductive Rest (make : List Predicate → Predicate) (parts : List Predicate) : Predicate → Prop where
  | everything : Rest make parts all
  | nothing : Rest make parts none
  | part {p : Predicate} (only : p ∈ parts) : Rest make parts p
  | junction : Rest make parts (make parts)

theorem rest_conj (ps : List Predicate) : Rest and (ps.flatMap conjuncts) (conj ps) := by
  unfold conj
  split
  next => exact .nothing
  next =>
    generalize ps.flatMap conjuncts = qs
    obtain _ | ⟨q, _ | ⟨q', qs⟩⟩ := qs
    · exact .everything
    · exact .part List.mem_cons_self
    · exact .junction

theorem rest_disj (ps : List Predicate) : Rest or (ps.flatMap disjuncts) (disj ps) := by
  unfold disj
  split
  next => exact .everything
  next =>
    generalize ps.flatMap disjuncts = qs
    obtain _ | ⟨q, _ | ⟨q', qs⟩⟩ := qs
    · exact .nothing
    · exact .part List.mem_cons_self
    · exact .junction

end Rest

section Depth

theorem Rest.depth_le (rest : Rest make qs p) (deep : ∀ rs, (make rs).depth = depthAll rs + 1)
    (shallow : depthAll qs ≤ depthAll ps) : p.depth ≤ (make ps).depth := by
  rw [deep]
  cases rest with
  | everything => exact Nat.succ_le_succ (Nat.zero_le _)
  | nothing => exact Nat.succ_le_succ (Nat.zero_le _)
  | part only => exact ((depth_le_of_mem only).trans shallow).trans (Nat.le_succ _)
  | junction =>
    rw [deep]
    exact Nat.succ_le_succ shallow

theorem depthAll_flatMap_le {parts : Predicate → List Predicate}
    (shallow : ∀ p ∈ ps, depthAll (parts p) ≤ p.depth) :
    depthAll (ps.flatMap parts) ≤ depthAll ps := by
  refine depthAll_le_iff.mpr fun q member => ?_
  obtain ⟨p, child, part⟩ := List.mem_flatMap.mp member
  exact (depth_le_of_mem part).trans ((shallow p child).trans (depth_le_of_mem child))

theorem depthAll_conjuncts_le (p : Predicate) : depthAll (conjuncts p) ≤ p.depth := by
  cases p with
  | all => exact Nat.zero_le _
  | and ps => exact Nat.le_succ _
  | _ => exact Nat.max_le.mpr ⟨le_rfl, Nat.zero_le _⟩

theorem depthAll_disjuncts_le (p : Predicate) : depthAll (disjuncts p) ≤ p.depth := by
  cases p with
  | none => exact Nat.zero_le _
  | or ps => exact Nat.le_succ _
  | _ => exact Nat.max_le.mpr ⟨le_rfl, Nat.zero_le _⟩

theorem depth_conj_le (ps : List Predicate) : (conj ps).depth ≤ (and ps).depth :=
  (rest_conj ps).depth_le (fun _ => rfl) (depthAll_flatMap_le fun p _ => depthAll_conjuncts_le p)

theorem depth_disj_le (ps : List Predicate) : (disj ps).depth ≤ (or ps).depth :=
  (rest_disj ps).depth_le (fun _ => rfl) (depthAll_flatMap_le fun p _ => depthAll_disjuncts_le p)

theorem depth_negate_le (p : Predicate) : (negate p).depth ≤ (not p).depth := by
  cases p with
  | all => exact Nat.le_succ _
  | none => exact Nat.le_succ _
  | not p => exact (Nat.le_succ _).trans (Nat.le_succ _)
  | _ => exact le_rfl

theorem depth_simplify_le (p : Predicate) : p.simplify.depth ≤ p.depth := by
  have children {ps : List Predicate} (ih : ∀ p ∈ ps, p.simplify.depth ≤ p.depth) :
      depthAll (ps.map simplify) ≤ depthAll ps :=
    depthAll_le_iff.mpr <| List.forall_mem_map.mpr fun p child =>
      (ih p child).trans (depth_le_of_mem child)
  induction p with
  | and ps ih =>
    rw [simplify, simplifyAll_eq_map]
    calc (conj (ps.map simplify)).depth
      _ ≤ (and (ps.map simplify)).depth := depth_conj_le _
      _ ≤ (and ps).depth := Nat.succ_le_succ (children ih)
  | or ps ih =>
    rw [simplify, simplifyAll_eq_map]
    calc (disj (ps.map simplify)).depth
      _ ≤ (or (ps.map simplify)).depth := depth_disj_le _
      _ ≤ (or ps).depth := Nat.succ_le_succ (children ih)
  | not p ih =>
    calc (negate p.simplify).depth
      _ ≤ (not p.simplify).depth := depth_negate_le _
      _ ≤ (not p).depth := Nat.succ_le_succ ih
  | ids is => cases is <;> exact le_rfl
  | _ => exact le_rfl

end Depth

section AtMost

/-- The other predicate, or one of fewer nodes. -/
def AtMost (p q : Predicate) : Prop := p = q ∨ p.nodeCount < q.nodeCount

def AtMostAll (ps qs : List Predicate) : Prop := ps = qs ∨ nodeCountAll ps < nodeCountAll qs

theorem AtMost.nodeCount_le (below : p.AtMost q) : p.nodeCount ≤ q.nodeCount := by
  rcases below with rfl | fewer
  · exact le_rfl
  · exact fewer.le

theorem AtMostAll.nodeCountAll_le (below : AtMostAll ps qs) :
    nodeCountAll ps ≤ nodeCountAll qs := by
  rcases below with rfl | fewer
  · exact le_rfl
  · exact fewer.le

theorem AtMost.trans (first : p.AtMost q) (second : q.AtMost r) : p.AtMost r := by
  rcases first with rfl | fewer
  · exact second
  · exact .inr (fewer.trans_le second.nodeCount_le)

theorem AtMost.single (below : p.AtMost q) : AtMostAll [p] [q] := by
  rcases below with rfl | fewer
  · exact .inl rfl
  · exact .inr fewer

theorem AtMostAll.append (first : AtMostAll ps qs) (second : AtMostAll rs ss) :
    AtMostAll (ps ++ rs) (qs ++ ss) := by
  rcases first with rfl | fewer
  · rcases second with rfl | fewer
    · exact .inl rfl
    · exact .inr (by simpa only [nodeCountAll_append, Nat.add_lt_add_iff_left] using fewer)
  · refine .inr ?_
    rw [nodeCountAll_append, nodeCountAll_append]
    exact Nat.add_lt_add_of_lt_of_le fewer second.nodeCountAll_le

/-- Taking children apart does not add to them. -/
theorem atMostAll_flatMap {parts : Predicate → List Predicate}
    (below : ∀ p ∈ ps, AtMostAll (parts p) [p]) : AtMostAll (ps.flatMap parts) ps := by
  induction ps with
  | nil => exact .inl rfl
  | cons p ps ih =>
    obtain ⟨first, rest⟩ := List.forall_mem_cons.mp below
    exact first.append (ih rest)

theorem atMostAll_map {f g : Predicate → Predicate} (below : ∀ p ∈ ps, (f p).AtMost (g p)) :
    AtMostAll (ps.map f) (ps.map g) := by
  induction ps with
  | nil => exact .inl rfl
  | cons p ps ih =>
    obtain ⟨first, rest⟩ := List.forall_mem_cons.mp below
    exact first.single.append (ih rest)

theorem AtMostAll.junction (below : AtMostAll ps qs)
    (counted : ∀ rs, (make rs).nodeCount = nodeCountAll rs + 1) : (make ps).AtMost (make qs) := by
  rcases below with rfl | fewer
  · exact .inl rfl
  · exact .inr (by simpa [counted] using fewer)

theorem AtMost.negation (below : p.AtMost q) : (not p).AtMost (not q) := by
  rcases below with rfl | fewer
  · exact .inl rfl
  · exact .inr (Nat.succ_lt_succ fewer)

/-- The junction itself is all that can be left without a node being lost. -/
theorem Rest.atMost (rest : Rest make qs p) (below : AtMostAll qs ps) (nonempty : ps ≠ [])
    (counted : ∀ rs, (make rs).nodeCount = nodeCountAll rs + 1) : p.AtMost (make ps) := by
  have larger {n : Nat} (few : n ≤ nodeCountAll ps) : n < (make ps).nodeCount := by
    rw [counted]
    exact Nat.lt_succ_of_le few
  cases rest with
  | everything => exact .inr (larger (nodeCountAll_pos nonempty))
  | nothing => exact .inr (larger (nodeCountAll_pos nonempty))
  | part only => exact .inr (larger ((nodeCount_le_of_mem only).trans below.nodeCountAll_le))
  | junction => exact below.junction counted

theorem atMostAll_conjuncts (p : Predicate) : AtMostAll (conjuncts p) [p] := by
  cases p with
  | all => exact .inr Nat.one_pos
  | and ps => exact .inr (Nat.lt_succ_self _)
  | _ => exact .inl rfl

theorem atMostAll_disjuncts (p : Predicate) : AtMostAll (disjuncts p) [p] := by
  cases p with
  | none => exact .inr Nat.one_pos
  | or ps => exact .inr (Nat.lt_succ_self _)
  | _ => exact .inl rfl

theorem conj_atMost (nonempty : ps ≠ []) : (conj ps).AtMost (and ps) :=
  (rest_conj ps).atMost (atMostAll_flatMap fun p _ => atMostAll_conjuncts p) nonempty fun _ => rfl

theorem disj_atMost (nonempty : ps ≠ []) : (disj ps).AtMost (or ps) :=
  (rest_disj ps).atMost (atMostAll_flatMap fun p _ => atMostAll_disjuncts p) nonempty fun _ => rfl

theorem negate_atMost (p : Predicate) : (negate p).AtMost (not p) := by
  cases p with
  | all => exact .inr (Nat.lt_succ_self _)
  | none => exact .inr (Nat.lt_succ_self _)
  | not p => exact .inr ((Nat.lt_succ_self _).trans (Nat.lt_succ_self _))
  | _ => exact .inl rfl

end AtMost

section Settled

mutual

/-- An empty set of ids or an empty junction becomes the constant that it stands for, everywhere in
the predicate, and all else stays. -/
def settled : Predicate → Predicate
  | and [] => all
  | or [] => none
  | ids [] => none
  | and ps => and (settledAll ps)
  | or ps => or (settledAll ps)
  | not p => not p.settled
  | p => p

def settledAll : List Predicate → List Predicate
  | [] => []
  | p :: ps => p.settled :: settledAll ps

end

theorem settledAll_eq_map (ps : List Predicate) : settledAll ps = ps.map settled := by
  induction ps with
  | nil => rfl
  | cons p ps ih => exact congrArg (p.settled :: ·) ih

theorem settled_and (nonempty : ps ≠ []) : (and ps).settled = and (ps.map settled) := by
  obtain ⟨p, ps, rfl⟩ := List.exists_cons_of_ne_nil nonempty
  exact congrArg and (settledAll_eq_map (p :: ps))

theorem settled_or (nonempty : ps ≠ []) : (or ps).settled = or (ps.map settled) := by
  obtain ⟨p, ps, rfl⟩ := List.exists_cons_of_ne_nil nonempty
  exact congrArg or (settledAll_eq_map (p :: ps))

theorem nodeCount_settled (p : Predicate) : p.settled.nodeCount = p.nodeCount := by
  induction p with
  | and ps ih =>
    rcases eq_or_ne ps [] with rfl | nonempty
    · rfl
    · rw [settled_and nonempty]
      exact congrArg Nat.succ (nodeCountAll_map ih)
  | or ps ih =>
    rcases eq_or_ne ps [] with rfl | nonempty
    · rfl
    · rw [settled_or nonempty]
      exact congrArg Nat.succ (nodeCountAll_map ih)
  | not p ih => exact congrArg Nat.succ ih
  | ids is => cases is <;> rfl
  | _ => rfl

/-- Simplification either does no more than to settle a predicate, or takes nodes away. -/
theorem simplify_atMost_settled (p : Predicate) : p.simplify.AtMost p.settled := by
  -- A junction without children costs no node, so it stands apart from the steps that do.
  induction p with
  | and ps ih =>
    rcases eq_or_ne ps [] with rfl | nonempty
    · exact .inl rfl
    · rw [simplify, simplifyAll_eq_map, settled_and nonempty]
      apply (conj_atMost (by simpa using nonempty)).trans
      exact (atMostAll_map ih).junction fun _ => rfl
  | or ps ih =>
    rcases eq_or_ne ps [] with rfl | nonempty
    · exact .inl rfl
    · rw [simplify, simplifyAll_eq_map, settled_or nonempty]
      apply (disj_atMost (by simpa using nonempty)).trans
      exact (atMostAll_map ih).junction fun _ => rfl
  | not p ih => exact (negate_atMost p.simplify).trans ih.negation
  | ids is => cases is <;> exact .inl rfl
  | _ => exact .inl rfl

theorem nodeCount_simplify_le (p : Predicate) : p.simplify.nodeCount ≤ p.nodeCount :=
  p.simplify_atMost_settled.nodeCount_le.trans_eq p.nodeCount_settled

theorem nodeCount_simplify_lt_iff (p : Predicate) :
    p.simplify.nodeCount < p.nodeCount ↔ p.simplify ≠ p.settled := by
  have counted := p.nodeCount_settled
  constructor
  · intro fewer same
    rw [same, counted] at fewer
    exact fewer.false
  · intro other
    exact counted ▸ p.simplify_atMost_settled.resolve_left other

/-- A constant is not reduced, so a settled predicate that is reduced had nothing to settle. -/
theorem settled_of_reduced (reduced : p.settled.Reduced) : p.settled = p := by
  have children {ps : List Predicate} (ih : ∀ p ∈ ps, p.settled.Reduced → p.settled = p)
      (reduced : ∀ q ∈ ps.map settled, q.Reduced) : ps.map settled = ps := by
    have each := List.forall_mem_map.mp reduced
    have same : ps.map settled = ps.map id :=
      List.map_congr_left fun p child => ih p child (each p child)
    rw [same, List.map_id]
  induction p with
  | and ps ih =>
    rcases eq_or_ne ps [] with rfl | nonempty
    · exact absurd rfl reduced.ne_all
    · rw [settled_and nonempty] at reduced ⊢
      rw [children ih (reduced_and.mp reduced).2]
  | or ps ih =>
    rcases eq_or_ne ps [] with rfl | nonempty
    · exact absurd rfl reduced.ne_none
    · rw [settled_or nonempty] at reduced ⊢
      rw [children ih (reduced_or.mp reduced).2]
  | not p ih => exact congrArg not (ih (reduced_not.mp reduced).2)
  | ids is =>
    cases is with
    | nil => exact absurd rfl reduced.ne_none
    | cons => rfl
  | _ => rfl

theorem eq_of_settled_eq_all (constant : p.settled = all) : p = all ∨ p = and [] := by
  cases p with
  | all => exact .inl rfl
  | and ps =>
    cases ps with
    | nil => exact .inr rfl
    | cons => cases constant
  | or ps => cases ps <;> cases constant
  | ids is => cases is <;> cases constant
  | _ => cases constant

theorem eq_of_settled_eq_none (constant : p.settled = none) :
    p = none ∨ p = or [] ∨ p = ids [] := by
  cases p with
  | none => exact .inl rfl
  | and ps => cases ps <;> cases constant
  | or ps =>
    cases ps with
    | nil => exact .inr (.inl rfl)
    | cons => cases constant
  | ids is =>
    cases is with
    | nil => exact .inr (.inr rfl)
    | cons => cases constant
  | _ => cases constant

/-- Nodes are lost wherever anything below the root is simplified. -/
theorem eq_of_nodeCount_simplify_eq (same : p.simplify.nodeCount = p.nodeCount) :
    p.simplify = p ∨ p ∈ [and [], or [], ids []] := by
  have settles : p.simplify = p.settled := by
    by_contra other
    exact (p.nodeCount_simplify_lt_iff.mpr other).ne same
  -- A constant comes from one node, and what is reduced had nothing to settle.
  rcases p.normal_simplify with constant | constant | reduced
  · rcases eq_of_settled_eq_all (settles ▸ constant) with rfl | rfl
    · exact .inl rfl
    · exact .inr (by simp)
  · rcases eq_of_settled_eq_none (settles ▸ constant) with rfl | rfl | rfl
    · exact .inl rfl
    · exact .inr (by simp)
    · exact .inr (by simp)
  · exact .inl (settles.trans (settled_of_reduced (settles ▸ reduced)))

end Settled

theorem sortedSet_subset {ss ts : List String} (within : ss ⊆ ts) : sortedSet ss ⊆ sortedSet ts :=
  fun _ member => mem_sortedSet.mpr (within (mem_sortedSet.mp member))

/-- Simplification makes a predicate no larger and no deeper, and asks about no other attributes and
refers to no other entities.  The nodes become fewer exactly if more is done than to put constants
in place of empty sets of ids and empty junctions, and they stay as many only if the predicate is
left as it is or is one such node alone. -/
theorem simplify_shrinks (p : Predicate) :
    p.simplify.analyze.nodeCount ≤ p.analyze.nodeCount ∧
    p.simplify.analyze.depth ≤ p.analyze.depth ∧
    p.simplify.analyze.fieldsUsed ⊆ p.analyze.fieldsUsed ∧
    (∀ k, p.simplify.references k ⊆ p.references k) ∧
    (p.simplify.analyze.nodeCount < p.analyze.nodeCount ↔ p.simplify ≠ p.settled) ∧
    (p.simplify.analyze.nodeCount = p.analyze.nodeCount →
      p.simplify = p ∨ p ∈ [and [], or [], ids []]) := by
  refine ⟨p.nodeCount_simplify_le, p.depth_simplify_le, ?_, fun k => ?_,
    p.nodeCount_simplify_lt_iff, eq_of_nodeCount_simplify_eq⟩
  · apply sortedSet_subset
    exact gather_simplify_subset attributes_eq_flatMap_leaves p
  · exact gather_simplify_subset (references_eq_flatMap_leaves k) p

/-- A constant that is settled inside a junction costs the junction nodes as well. -/
example : (and [or [ids [], ids ["a"]], not (or [])]).settled =
      and [or [none, ids ["a"]], not none] ∧
    (and [or [ids [], ids ["a"]], not (or [])]).simplify = ids ["a"] := by
  decide

end Cookbook.Predicate
