import Cookbook.Compiled.Json
import Cookbook.Proofs.Predicate.Size
import Cookbook.Proofs.Rule.Meaning

/-!
# How deep compiled rules are nested

A predicate is nested in JSON at most twice as deep as it is as a tree, and that of a rule is no
deeper than four: the conjunction of groups and exclusions, a group or the negated exclusions, their
junction, and a test.
-/

namespace Cookbook

namespace Json

theorem nestingOfItems_le_iff {xs : List Json} {n : Nat} :
    nestingOfItems xs ≤ n ↔ ∀ x ∈ xs, x.nesting + 1 ≤ n := by
  induction xs with
  | nil => exact ⟨fun _ => nofun, fun _ => Nat.zero_le n⟩
  | cons x xs ih =>
    rw [List.forall_mem_cons, ← ih]
    exact Nat.max_le

theorem nestingOfMembers_le_iff {ms : Members} {n : Nat} :
    nestingOfMembers ms ≤ n ↔ ∀ m ∈ ms, m.2.nesting + 1 ≤ n := by
  induction ms with
  | nil => exact ⟨fun _ => nofun, fun _ => Nat.zero_le n⟩
  | cons m ms ih =>
    rw [List.forall_mem_cons, ← ih]
    exact Nat.max_le

theorem nesting_texts_le (ss : List String) : (texts ss).nesting ≤ 1 :=
  nestingOfItems_le_iff.mpr (List.forall_mem_map.mpr fun _ _ => le_rfl)

theorem nesting_ofOption_str (s : Option String) : (ofOption .str s).nesting = 0 := by
  cases s <;> rfl

end Json

namespace Predicate

theorem toJsons_eq_map (ps : List Predicate) : toJsons ps = ps.map toJson := by
  induction ps with
  | nil => rfl
  | cons p ps ih => rw [toJsons, ih, List.map_cons]

/-- A junction is an object around the list of its children. -/
theorem nesting_junction_le {ps : List Predicate} {kind : String}
    (ih : ∀ p ∈ ps, p.toJson.nesting ≤ 2 * p.depth) :
    (Json.obj [("kind", .str kind), ("children", .arr (toJsons ps))]).nesting ≤
      2 * (depthAll ps + 1) := by
  have children : (Json.arr (toJsons ps)).nesting ≤ 2 * depthAll ps + 1 := by
    rw [toJsons_eq_map]
    refine Json.nestingOfItems_le_iff.mpr (List.forall_mem_map.mpr fun p child => ?_)
    exact Nat.succ_le_succ ((ih p child).trans (Nat.mul_le_mul_left 2 (depth_le_of_mem child)))
  refine Json.nestingOfMembers_le_iff.mpr (List.forall_mem_cons.mpr ⟨?_,
    List.forall_mem_singleton.mpr (Nat.succ_le_succ children)⟩)
  exact Nat.succ_le_succ (Nat.zero_le _)

theorem nesting_toJson_le (p : Predicate) : p.toJson.nesting ≤ 2 * p.depth := by
  induction p with
  | relation field op values =>
    have := Json.nesting_texts_le values
    simp only [toJson, Json.nesting, Json.nestingOfMembers, depth]
    omega
  | tag quantifier tagIds tagType =>
    have := Json.nesting_texts_le tagIds
    have := Json.nesting_ofOption_str tagType
    simp only [toJson, Json.nesting, Json.nestingOfMembers, depth]
    omega
  | ids ids =>
    have := Json.nesting_texts_le ids
    simp only [toJson, Json.nesting, Json.nestingOfMembers, depth]
    omega
  | and ps ih => exact nesting_junction_le ih
  | or ps ih => exact nesting_junction_le ih
  | not p ih =>
    simp only [toJson, Json.nesting, Json.nestingOfMembers, depth]
    omega
  | _ => exact Nat.le_succ _

end Predicate

namespace Rule

open Predicate

theorem Condition.depth_of_predicate? {c : Condition} {p : Predicate}
    (compiled : c.predicate? = some p) : p.depth = 1 := by
  rcases test_of_predicate? compiled with
    ⟨_, _, _, rfl⟩ | ⟨_, _, _, _, _, rfl⟩ | ⟨_, _, _, _, rfl⟩ <;> rfl

theorem Condition.depthAll_le (cs : List Condition) : depthAll (cs.filterMap predicate?) ≤ 1 := by
  refine depthAll_le_iff.mpr fun p member => ?_
  obtain ⟨c, _, compiled⟩ := List.mem_filterMap.mp member
  exact (depth_of_predicate? compiled).le

theorem Group.depth_of_predicate? {g : Group} {p : Predicate} (compiled : g.predicate? = some p) :
    p.depth ≤ 2 := by
  have shallow := Condition.depthAll_le g.conditions
  unfold predicate? at compiled
  split at compiled
  next => cases compiled
  next =>
    obtain rfl := Option.some.inj compiled
    split <;> exact Nat.succ_le_succ shallow

theorem depth_customPredicate_le (groups : List Group) (exclude : List Condition) :
    (customPredicate groups exclude).depth ≤ 4 := by
  have wanted : depthAll (groups.filterMap Group.predicate?) ≤ 2 := by
    refine depthAll_le_iff.mpr fun p member => ?_
    obtain ⟨g, _, compiled⟩ := List.mem_filterMap.mp member
    exact Group.depth_of_predicate? compiled
  have unwanted := Condition.depthAll_le exclude
  unfold customPredicate
  dsimp only
  split <;> split <;> simp only [depth, depthAll] <;> omega

theorem depth_predicate_le (r : Rule) (links : Links) : (r.predicate links).depth ≤ 4 := by
  refine (depth_simplify_le _).trans ?_
  cases r with
  | auto field value tagType =>
    rw [composed]
    split
    next f id _ => cases f <;> exact Nat.succ_le_succ (Nat.zero_le _)
    next => exact Nat.succ_le_succ (Nat.zero_le _)
  | custom groups exclude => exact depth_customPredicate_le groups exclude

/-- Eight levels for the predicate, in the object of the compiled rule. -/
theorem nesting_compile_le (r : Rule) (links : Links) (now : Instant) :
    (r.compile links now).toJson.nesting ≤ 9 := by
  have predicate : (r.predicate links).toJson.nesting ≤ 8 :=
    (nesting_toJson_le _).trans (Nat.mul_le_mul_left 2 (r.depth_predicate_le links))
  have warnings : (Json.arr ((r.warnings links).map Warning.toJson)).nesting ≤ 3 := by
    refine Json.nestingOfItems_le_iff.mpr (List.forall_mem_map.mpr fun w _ => ?_)
    have place : (Json.ofOption Marks.toJson w.location).nesting ≤ 1 := by
      cases w.location with
      | none => exact Nat.zero_le _
      | some ms =>
        refine Json.nestingOfMembers_le_iff.mpr (List.forall_mem_map.mpr fun ⟨k, i⟩ _ => ?_)
        cases i <;> exact le_rfl
    simp only [Warning.toJson, Json.nesting, Json.nestingOfMembers]
    omega
  have hash := Json.nesting_ofOption_str (some (r.sourceHash links))
  simp only [compile, Compiled.toJson, Json.nesting, Json.nestingOfMembers] at *
  omega

end Rule

end Cookbook
