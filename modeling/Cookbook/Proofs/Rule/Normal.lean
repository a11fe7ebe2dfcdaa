import Cookbook.Proofs.Rule.Dropped
import Cookbook.Proofs.Rule.Wire

/-!
# Normal forms

What is stored of a rule is the normal form of what was asked for.  A sound rule is accepted from
its normal form again, and written as the same, unless a condition has a number for its value that
JSON cannot write: the normal form then lacks the value.
-/

namespace Cookbook

namespace Json

mutual

theorem writable_writable : ∀ j : Json, j.writable.writable = j.writable
  | .null | .bool _ | .str _ => rfl
  | .num n => by by_cases finite : n.isFinite <;> simp [writable, finite]
  | .arr xs => by rw [writable, writable, writableItems_writableItems xs]
  | .obj ms => by rw [writable, writable, writableMembers_writableMembers ms]

theorem writableItems_writableItems : ∀ xs : List Json,
    writableItems (writableItems xs) = writableItems xs
  | [] => rfl
  | x :: xs => by
    rw [writableItems, writableItems, writable_writable x, writableItems_writableItems xs]

theorem writableMembers_writableMembers : ∀ ms : Members,
    writableMembers (writableMembers ms) = writableMembers ms
  | [] => rfl
  | (k, x) :: ms => by
    rw [writableMembers, writableMembers, writable_writable x, writableMembers_writableMembers ms]

end

end Json

namespace Rule

namespace Condition

/-- The value is no number that JSON cannot write. -/
def Writable (c : Condition) : Prop := ∀ n, c.value = .num n → n.isFinite = true

variable {c : Condition}

theorem Writable.writable_eq_null_iff (writable : c.Writable) :
    c.value.writable = .null ↔ c.value = .null := by
  cases value : c.value with
  | num n => simp [Json.writable, writable n value]
  | _ => simp [Json.writable]

theorem writable_of_writable_ne_null (kept : c.value.writable ≠ .null) : c.Writable := by
  intro n value
  rw [value] at kept
  by_cases finite : n.isFinite = true
  · exact finite
  · exact absurd (by simp [Json.writable, finite]) kept

theorem toJson_written (writable : c.Writable) : c.written.toJson = c.toJson := by
  have absent : c.written.value = .null ↔ c.value = .null := writable.writable_eq_null_iff
  have again : c.written.value.writable = c.value.writable := Json.writable_writable c.value
  simp only [toJson_eq, storedValue, absent, again]
  rfl

theorem problems_written (writable : c.Writable) (l : Location) :
    c.written.problems l = c.problems l := by
  have absent : c.written.value = .null ↔ c.value = .null := writable.writable_eq_null_iff
  have number : c.written.value.number? = c.value.number? := Json.number?_writable c.value
  have values : c.written.valueProblems = c.valueProblems := by
    simp only [valueProblems, absent]
  have numbers : ∀ f, c.written.numberProblems f = c.numberProblems f := by
    intro f
    simp only [numberProblems, ne_eq, absent, number]
  have fieldwise : c.written.fieldwiseProblems = c.fieldwiseProblems := by
    simp only [fieldwiseProblems, numbers]
    rfl
  simp only [problems, values, fieldwise]
  rfl

/-- A sound condition keeps its value in its stored form if and only if that is writable. -/
theorem writable_of_problems_written (l : Location) (sound : c.written.problems l = []) :
    c.Writable := by
  apply writable_of_writable_ne_null
  intro lost
  have missing : c.written.valueProblems = [.value] := if_pos lost
  simp [problems, missing] at sound

end Condition

theorem mapIdx_map_of_eq {α β : Type} {f : α → α} {g : Nat → α → β} {xs : List α}
    (each : ∀ x ∈ xs, ∀ i, g i (f x) = g i x) : (xs.map f).mapIdx g = xs.mapIdx g := by
  apply List.ext_getElem
  · simp
  · intro i first second
    simp only [List.getElem_mapIdx, List.getElem_map]
    exact each _ (List.getElem_mem _) i

namespace Group

variable {g : Group} (writable : ∀ c ∈ g.conditions, c.Writable)

include writable

theorem problems_written (i : Nat) : g.written.problems i = g.problems i := by
  have each : ((g.conditions.map Condition.written).mapIdx fun j c =>
      c.problems (.ofCondition i j)) = g.conditions.mapIdx fun j c =>
        c.problems (.ofCondition i j) := by
    apply mapIdx_map_of_eq
    intro c part j
    exact Condition.problems_written (writable c part) _
  unfold problems
  rw [written_eq, each]
  rfl

theorem toJson_written : g.written.toJson = g.toJson := by
  have each : (g.conditions.map Condition.written).map Condition.toJson =
      g.conditions.map Condition.toJson := by
    rw [List.map_map]
    exact List.map_congr_left fun c part => Condition.toJson_written (writable c part)
  rw [toJson_eq, toJson_eq, written_eq, each]

end Group

/-- No condition has a number for its value that JSON cannot write. -/
def Writable (r : Rule) : Prop := ∀ c ∈ r.conditions, c.Writable

/-- The value is accepted as a rule and is what the rule is stored as. -/
def Normal (j : Json) : Prop := ∃ r, accept j = .ok r ∧ r.toJson = j

variable {r : Rule}

theorem Writable.of_mem_groups {groups : List Group} {exclude : List Condition}
    (writable : (custom groups exclude).Writable) {g : Group} (part : g ∈ groups) :
    ∀ c ∈ g.conditions, c.Writable :=
  fun c member => writable c (List.mem_append_left _ (List.mem_flatMap.mpr ⟨g, part, member⟩))

theorem Writable.problems_written (writable : r.Writable) : r.written.problems = r.problems := by
  cases r with
  | auto => rfl
  | custom groups exclude =>
    have grouped : ((groups.map Group.written).mapIdx fun i g => g.problems i) =
        groups.mapIdx fun i g => g.problems i := by
      apply mapIdx_map_of_eq
      intro g part i
      exact Group.problems_written (writable.of_mem_groups part) i
    have excluded : ((exclude.map Condition.written).mapIdx fun i c => c.problems (.ofExclude i)) =
        exclude.mapIdx fun i c => c.problems (.ofExclude i) := by
      apply mapIdx_map_of_eq
      intro c part i
      exact Condition.problems_written (writable c (List.mem_append_right _ part)) _
    simp only [written_custom, problems, customProblems, grouped, excluded]

theorem Writable.toJson_written (writable : r.Writable) : r.written.toJson = r.toJson := by
  cases r with
  | auto => rfl
  | custom groups exclude =>
    have grouped : (groups.map Group.written).map Group.toJson = groups.map Group.toJson := by
      rw [List.map_map]
      exact List.map_congr_left fun g part => Group.toJson_written (writable.of_mem_groups part)
    have excluded : (exclude.map Condition.written).map Condition.toJson =
        exclude.map Condition.toJson := by
      rw [List.map_map]
      refine List.map_congr_left fun c part => Condition.toJson_written (writable c ?_)
      exact List.mem_append_right _ part
    rw [written_custom, toJson_custom, grouped, excluded]
    rfl

/-- What is read back is sound only if no value was lost. -/
theorem writable_of_sound_written (sound : r.written.Sound) : r.Writable := by
  intro c part
  have kept : c.written ∈ r.written.conditions := by
    rw [conditions_written]
    exact List.mem_map_of_mem part
  cases r with
  | auto => cases part
  | custom groups exclude =>
    rw [written_custom, ← map_condition_placed] at kept
    obtain ⟨p, placed, same⟩ := List.mem_map.mp kept
    apply Condition.writable_of_problems_written p.place
    rw [← same]
    apply List.eq_nil_of_subset_nil
    rw [← show (custom (groups.map Group.written) (exclude.map Condition.written)).problems = []
      from sound]
    exact problems_subset_of_mem_placed placed

/-- The stored form of a sound rule is its own normal form if and only if the rule is writable. -/
theorem Sound.normal_toJson_iff (sound : r.Sound) : Normal r.toJson ↔ r.Writable := by
  constructor
  · rintro ⟨r', accepted, _⟩
    obtain ⟨readAs, sound'⟩ := accept_eq_ok_iff.mp accepted
    rw [ofJson_toJson] at readAs
    obtain rfl := Except.ok.inj readAs
    exact writable_of_sound_written sound'
  · intro writable
    refine ⟨r.written, accept_eq_ok_iff.mpr ⟨ofJson_toJson r, ?_⟩, writable.toJson_written⟩
    exact writable.problems_written.trans sound

end Rule

end Cookbook
