import Cookbook.Predicate.Holds
import Cookbook.Predicate.Simplify

/-!
# The meaning of predicates and their simplification

A junction holds as all or any of its children do, and simplification changes neither what a
predicate means nor introduces a test that was not there.  Numbers, and whatever else is gathered
over a predicate, come from its tests.  All inductions over predicates go through
`Predicate.induction`, which gives the induction hypothesis for every child of a junction.
-/

namespace Cookbook

theorem mem_sortedSet {s : String} {ss : List String} : s ∈ sortedSet ss ↔ s ∈ ss := by
  simp [sortedSet]

namespace Predicate

/-- Induction over predicates, with the hypothesis for every child of a junction. -/
@[induction_eliminator]
theorem induction {motive : Predicate → Prop} (all : motive .all) (none : motive .none)
    (relation : ∀ field op values, motive (.relation field op values))
    (tag : ∀ quantifier tagIds tagType, motive (.tag quantifier tagIds tagType))
    (numeric : ∀ field op value, motive (.numeric field op value))
    (ids : ∀ ids, motive (.ids ids))
    (and : ∀ children, (∀ p ∈ children, motive p) → motive (.and children))
    (or : ∀ children, (∀ p ∈ children, motive p) → motive (.or children))
    (not : ∀ child, motive child → motive (.not child)) (p : Predicate) : motive p :=
  @Predicate.rec motive (fun children => ∀ p ∈ children, motive p) all none relation tag numeric
    ids and or not (fun _ member => nomatch member)
    (fun _ _ first rest _ member => by
      rcases List.mem_cons.mp member with equality | member
      · exact equality ▸ first
      · exact rest _ member) p

section Holds

variable (c : Catalog) (r : Recipe)

theorem allHold_eq_all (ps : List Predicate) : allHold c r ps = ps.all (holds c r) := by
  induction ps with
  | nil => rfl
  | cons p ps ih => simp [allHold, ih]

theorem anyHolds_eq_any (ps : List Predicate) : anyHolds c r ps = ps.any (holds c r) := by
  induction ps with
  | nil => rfl
  | cons p ps ih => simp [anyHolds, ih]

@[simp] theorem holds_all : holds c r all = true := rfl

@[simp] theorem holds_none : holds c r none = false := rfl

@[simp] theorem holds_ids (is : List String) : holds c r (ids is) = is.contains r.id := rfl

@[simp] theorem holds_and (ps : List Predicate) : holds c r (and ps) = ps.all (holds c r) :=
  allHold_eq_all c r ps

@[simp] theorem holds_or (ps : List Predicate) : holds c r (or ps) = ps.any (holds c r) :=
  anyHolds_eq_any c r ps

@[simp] theorem holds_not (p : Predicate) : holds c r (not p) = !p.holds c r := rfl

theorem all_conjuncts (p : Predicate) : (conjuncts p).all (holds c r) = p.holds c r := by
  cases p <;> simp [conjuncts]

theorem any_disjuncts (p : Predicate) : (disjuncts p).any (holds c r) = p.holds c r := by
  cases p <;> simp [disjuncts]

@[simp] theorem holds_conj (ps : List Predicate) :
    (conj ps).holds c r = ps.all (holds c r) := by
  have flattened : (ps.flatMap conjuncts).all (holds c r) = ps.all (holds c r) := by
    simp only [List.all_flatMap, all_conjuncts]
  unfold conj
  split
  next absorbed => exact (List.all_eq_false.mpr ⟨none, absorbed, by simp⟩).symm
  next => rw [← flattened]; split <;> simp_all

@[simp] theorem holds_disj (ps : List Predicate) :
    (disj ps).holds c r = ps.any (holds c r) := by
  have flattened : (ps.flatMap disjuncts).any (holds c r) = ps.any (holds c r) := by
    simp only [List.any_flatMap, any_disjuncts]
  unfold disj
  split
  next absorbed => exact (List.any_eq_true.mpr ⟨all, absorbed, by simp⟩).symm
  next => rw [← flattened]; split <;> simp_all

@[simp] theorem holds_negate (p : Predicate) : (negate p).holds c r = !p.holds c r := by
  cases p <;> simp [negate]

theorem holds_simplify (p : Predicate) : p.simplify.holds c r = p.holds c r := by
  induction p with
  | and ps ih =>
    have children : (ps.map simplify).all (holds c r) = ps.all (holds c r) := by
      rw [Bool.eq_iff_iff]
      simp only [List.all_map, List.all_eq_true, Function.comp_apply]
      exact forall₂_congr fun p member => by rw [ih p member]
    simp [simplify, simplifyAll_eq_map, children]
  | or ps ih =>
    have children : (ps.map simplify).any (holds c r) = ps.any (holds c r) := by
      rw [Bool.eq_iff_iff]
      simp only [List.any_map, List.any_eq_true, Function.comp_apply]
      exact exists_congr fun p => and_congr_right fun member => by rw [ih p member]
    simp [simplify, simplifyAll_eq_map, children]
  | not p ih => simp [simplify, ih]
  | ids is => cases is <;> simp [simplify]
  | _ => rfl

theorem holds_without (p : Predicate) (excluded : List String) :
    (p.without excluded).holds c r = (p.holds c r && !excluded.contains r.id) := by
  simp only [without]
  split
  next nothing =>
    have absent : r.id ∉ excluded := by
      rw [← mem_sortedSet, List.isEmpty_iff.mp nothing]
      exact List.not_mem_nil
    simp [absent]
  next => simp [holds_simplify, mem_sortedSet]

end Holds

mutual

def numbers : Predicate → List Number
  | numeric _ _ n => [n]
  | and ps => numbersAll ps
  | or ps => numbersAll ps
  | not p => p.numbers
  | _ => []

def numbersAll : List Predicate → List Number
  | [] => []
  | p :: ps => p.numbers ++ numbersAll ps

end

theorem numbersAll_eq_flatMap (ps : List Predicate) : numbersAll ps = ps.flatMap numbers := by
  induction ps with
  | nil => rfl
  | cons p ps ih => exact congrArg (p.numbers ++ ·) ih

theorem mem_numbers_and {n : Number} {ps : List Predicate} :
    n ∈ (and ps).numbers ↔ ∃ p ∈ ps, n ∈ p.numbers := by
  simp [numbers, numbersAll_eq_flatMap]

theorem mem_numbers_or {n : Number} {ps : List Predicate} :
    n ∈ (or ps).numbers ↔ ∃ p ∈ ps, n ∈ p.numbers := by
  simp [numbers, numbersAll_eq_flatMap]

mutual

/-- The predicate and everything that it is built from. -/
def nodes : Predicate → List Predicate
  | and ps => and ps :: nodesAll ps
  | or ps => or ps :: nodesAll ps
  | not p => not p :: p.nodes
  | p => [p]

def nodesAll : List Predicate → List Predicate
  | [] => []
  | p :: ps => p.nodes ++ nodesAll ps

end

theorem nodesAll_eq_flatMap (ps : List Predicate) : nodesAll ps = ps.flatMap nodes := by
  induction ps with
  | nil => rfl
  | cons p ps ih => exact congrArg (p.nodes ++ ·) ih

@[simp] theorem nodes_and (ps : List Predicate) : (and ps).nodes = and ps :: ps.flatMap nodes :=
  congrArg (and ps :: ·) (nodesAll_eq_flatMap ps)

@[simp] theorem nodes_or (ps : List Predicate) : (or ps).nodes = or ps :: ps.flatMap nodes :=
  congrArg (or ps :: ·) (nodesAll_eq_flatMap ps)

@[simp] theorem nodes_not (p : Predicate) : (not p).nodes = not p :: p.nodes := rfl

theorem numbers_subset_of_mem_nodes {p q : Predicate} (node : q ∈ p.nodes) :
    q.numbers ⊆ p.numbers := by
  induction p with
  | and ps ih =>
    rcases List.mem_cons.mp node with rfl | below
    · exact List.Subset.refl _
    · rw [nodesAll_eq_flatMap] at below
      obtain ⟨p, child, within⟩ := List.mem_flatMap.mp below
      exact fun n number => mem_numbers_and.mpr ⟨p, child, ih p child within number⟩
  | or ps ih =>
    rcases List.mem_cons.mp node with rfl | below
    · exact List.Subset.refl _
    · rw [nodesAll_eq_flatMap] at below
      obtain ⟨p, child, within⟩ := List.mem_flatMap.mp below
      exact fun n number => mem_numbers_or.mpr ⟨p, child, ih p child within number⟩
  | not p ih =>
    rcases List.mem_cons.mp node with rfl | below
    · exact List.Subset.refl _
    · exact ih below
  | _ => exact List.mem_singleton.mp node ▸ List.Subset.refl _

mutual

/-- The tests that a predicate is put together from, in order. -/
def leaves : Predicate → List Predicate
  | all => []
  | none => []
  | and ps => leavesAll ps
  | or ps => leavesAll ps
  | not p => p.leaves
  | p => [p]

def leavesAll : List Predicate → List Predicate
  | [] => []
  | p :: ps => p.leaves ++ leavesAll ps

end

theorem leavesAll_eq_flatMap (ps : List Predicate) : leavesAll ps = ps.flatMap leaves := by
  induction ps with
  | nil => rfl
  | cons p ps ih => exact congrArg (p.leaves ++ ·) ih

@[simp] theorem leaves_all : leaves all = [] := rfl

@[simp] theorem leaves_none : leaves none = [] := rfl

@[simp] theorem leaves_and (ps : List Predicate) : (and ps).leaves = ps.flatMap leaves :=
  leavesAll_eq_flatMap ps

@[simp] theorem leaves_or (ps : List Predicate) : (or ps).leaves = ps.flatMap leaves :=
  leavesAll_eq_flatMap ps

@[simp] theorem leaves_not (p : Predicate) : (not p).leaves = p.leaves := rfl

theorem leaves_conjuncts (p : Predicate) : (conjuncts p).flatMap leaves = p.leaves := by
  cases p with
  | all => rfl
  | and ps => exact (leaves_and ps).symm
  | _ => exact List.flatMap_singleton leaves _

theorem leaves_disjuncts (p : Predicate) : (disjuncts p).flatMap leaves = p.leaves := by
  cases p with
  | none => rfl
  | or ps => exact (leaves_or ps).symm
  | _ => exact List.flatMap_singleton leaves _

theorem leaves_conj {ps : List Predicate} (present : none ∉ ps) :
    (conj ps).leaves = ps.flatMap leaves := by
  have flattened : (ps.flatMap conjuncts).flatMap leaves = ps.flatMap leaves := by
    simp only [List.flatMap_assoc, leaves_conjuncts]
  rw [conj, if_neg present, ← flattened]
  split <;> simp_all

theorem leaves_disj {ps : List Predicate} (present : all ∉ ps) :
    (disj ps).leaves = ps.flatMap leaves := by
  have flattened : (ps.flatMap disjuncts).flatMap leaves = ps.flatMap leaves := by
    simp only [List.flatMap_assoc, leaves_disjuncts]
  rw [disj, if_neg present, ← flattened]
  split <;> simp_all

theorem leaves_negate (p : Predicate) : (negate p).leaves = p.leaves := by
  cases p <;> rfl

theorem leaves_conj_subset (ps : List Predicate) : (conj ps).leaves ⊆ ps.flatMap leaves := by
  by_cases absorbed : none ∈ ps
  · rw [conj, if_pos absorbed]
    exact List.nil_subset _
  · rw [leaves_conj absorbed]
    exact List.Subset.refl _

theorem leaves_disj_subset (ps : List Predicate) : (disj ps).leaves ⊆ ps.flatMap leaves := by
  by_cases absorbed : all ∈ ps
  · rw [disj, if_pos absorbed]
    exact List.nil_subset _
  · rw [leaves_disj absorbed]
    exact List.Subset.refl _

/-- Simplification adds no test, but drops those beside a constant that decides. -/
theorem leaves_simplify_subset (p : Predicate) : p.simplify.leaves ⊆ p.leaves := by
  have children {ps : List Predicate} (ih : ∀ p ∈ ps, p.simplify.leaves ⊆ p.leaves) :
      (ps.map simplify).flatMap leaves ⊆ ps.flatMap leaves := by
    intro q member
    obtain ⟨_, simplified, leaf⟩ := List.mem_flatMap.mp member
    obtain ⟨p, child, rfl⟩ := List.mem_map.mp simplified
    exact List.mem_flatMap.mpr ⟨p, child, ih p child leaf⟩
  induction p with
  | and ps ih =>
    rw [simplify, simplifyAll_eq_map, leaves_and]
    exact List.Subset.trans (leaves_conj_subset _) (children ih)
  | or ps ih =>
    rw [simplify, simplifyAll_eq_map, leaves_or]
    exact List.Subset.trans (leaves_disj_subset _) (children ih)
  | not p ih =>
    rw [simplify, leaves_negate]
    exact ih
  | ids is =>
    cases is with
    | nil => exact List.nil_subset _
    | cons => exact List.Subset.refl _
  | _ => exact List.Subset.refl _

section Gathered

variable {α : Type} {gather : Predicate → List α}

/-- What every node gathers from its children comes from the tests. -/
theorem eq_flatMap_leaves (of_all : gather all = []) (of_none : gather none = [])
    (of_and : ∀ ps, gather (and ps) = ps.flatMap gather)
    (of_or : ∀ ps, gather (or ps) = ps.flatMap gather)
    (of_not : ∀ p, gather (not p) = gather p) (p : Predicate) :
    gather p = p.leaves.flatMap gather := by
  have children {ps : List Predicate} (ih : ∀ p ∈ ps, gather p = p.leaves.flatMap gather) :
      ps.flatMap gather = (ps.flatMap leaves).flatMap gather := by
    rw [List.flatMap_assoc, List.flatMap_def, List.flatMap_def, List.map_congr_left ih]
  induction p with
  | all => exact of_all
  | none => exact of_none
  | and ps ih => rw [of_and, leaves_and, children ih]
  | or ps ih => rw [of_or, leaves_or, children ih]
  | not p ih => rw [of_not, leaves_not, ih]
  | _ => exact (List.flatMap_singleton gather _).symm

/-- Simplification leaves nothing to gather that was not there before. -/
theorem gather_simplify_subset (tests : ∀ p, gather p = p.leaves.flatMap gather) (p : Predicate) :
    gather p.simplify ⊆ gather p := by
  intro x member
  rw [tests p.simplify] at member
  obtain ⟨q, leaf, gathered⟩ := List.mem_flatMap.mp member
  rw [tests p]
  exact List.mem_flatMap.mpr ⟨q, p.leaves_simplify_subset leaf, gathered⟩

end Gathered

theorem numbers_eq_flatMap_leaves (p : Predicate) : p.numbers = p.leaves.flatMap numbers :=
  eq_flatMap_leaves rfl rfl numbersAll_eq_flatMap numbersAll_eq_flatMap (fun _ => rfl) p

theorem referencesAll_eq_flatMap (k : EntityKind) (ps : List Predicate) :
    referencesAll k ps = ps.flatMap (references k) := by
  induction ps with
  | nil => rfl
  | cons p ps ih => exact congrArg (p.references k ++ ·) ih

/-- A predicate refers to what its tests refer to. -/
theorem references_eq_flatMap_leaves (k : EntityKind) (p : Predicate) :
    p.references k = p.leaves.flatMap (references k) :=
  eq_flatMap_leaves rfl rfl (referencesAll_eq_flatMap k) (referencesAll_eq_flatMap k)
    (fun _ => rfl) p

theorem numbers_simplify_subset (p : Predicate) : p.simplify.numbers ⊆ p.numbers :=
  gather_simplify_subset numbers_eq_flatMap_leaves p

theorem numbers_without_subset (p : Predicate) (excluded : List String) :
    (p.without excluded).numbers ⊆ p.numbers := by
  simp only [without]
  split
  · exact List.Subset.refl _
  · refine List.Subset.trans (numbers_simplify_subset _) ?_
    simp [numbers, numbersAll]

/-- The texts in one test. -/
def testTexts : Predicate → List String
  | relation _ _ vs => vs
  | tag _ is t => is ++ (presentText? t).toList
  | ids is => is
  | _ => []

/-- The texts in all tests of a predicate. -/
def texts (p : Predicate) : List String := p.leaves.flatMap testTexts

theorem texts_subset_and {p : Predicate} {ps : List Predicate} (child : p ∈ ps) :
    p.texts ⊆ (and ps).texts := by
  intro t text
  obtain ⟨q, leaf, own⟩ := List.mem_flatMap.mp text
  refine List.mem_flatMap.mpr ⟨q, ?_, own⟩
  rw [leaves_and]
  exact List.mem_flatMap.mpr ⟨p, child, leaf⟩

theorem texts_subset_or {p : Predicate} {ps : List Predicate} (child : p ∈ ps) :
    p.texts ⊆ (or ps).texts := by
  intro t text
  obtain ⟨q, leaf, own⟩ := List.mem_flatMap.mp text
  refine List.mem_flatMap.mpr ⟨q, ?_, own⟩
  rw [leaves_or]
  exact List.mem_flatMap.mpr ⟨p, child, leaf⟩

theorem texts_simplify_subset (p : Predicate) : p.simplify.texts ⊆ p.texts := by
  intro t text
  obtain ⟨q, leaf, own⟩ := List.mem_flatMap.mp text
  exact List.mem_flatMap.mpr ⟨q, p.leaves_simplify_subset leaf, own⟩

theorem texts_without_subset (p : Predicate) (excluded : List String) :
    (p.without excluded).texts ⊆ p.texts ++ excluded := by
  simp only [without]
  split
  · exact List.subset_append_left _ _
  · apply List.Subset.trans (texts_simplify_subset _)
    intro t text
    simpa [texts, leaves, leavesAll, testTexts, sortedSet] using text

end Predicate

end Cookbook
