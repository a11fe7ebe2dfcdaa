import Cookbook.Compiled.Basic
import Cookbook.Proofs.Rule.Normal

/-!
# Rules in writing

A rule reads back from its written form as itself if and only if all numbers in its values are
finite, at any depth.  Whatever a rule was read from, its written form then stands for it: it has
the same problems, compiles to the same and is written as the same again.
-/

namespace Cookbook

namespace Json

mutual

/-- Every number in the value is finite. -/
def isFinite : Json → Bool
  | num n => n.isFinite
  | arr xs => areFinite xs
  | obj ms => membersAreFinite ms
  | _ => true

def areFinite : List Json → Bool
  | [] => true
  | x :: xs => x.isFinite && areFinite xs

def membersAreFinite : Members → Bool
  | [] => true
  | (_, x) :: ms => x.isFinite && membersAreFinite ms

end

mutual

/-- What is written of a value is the value itself if its numbers are finite. -/
theorem writable_eq_self_iff : ∀ j : Json, j.writable = j ↔ j.isFinite = true
  | null | bool _ | str _ => by simp [writable, isFinite]
  | num n => by by_cases finite : n.isFinite = true <;> simp [writable, isFinite, finite]
  | arr xs => by simp [writable, isFinite, writableItems_eq_self_iff xs]
  | obj ms => by simp [writable, isFinite, writableMembers_eq_self_iff ms]

theorem writableItems_eq_self_iff : ∀ xs : List Json, writableItems xs = xs ↔ areFinite xs = true
  | [] => by simp [writableItems, areFinite]
  | x :: xs => by
    simp [writableItems, areFinite, writable_eq_self_iff x, writableItems_eq_self_iff xs]

theorem writableMembers_eq_self_iff : ∀ ms : Members,
    writableMembers ms = ms ↔ membersAreFinite ms = true
  | [] => by simp [writableMembers, membersAreFinite]
  | (k, x) :: ms => by
    simp [writableMembers, membersAreFinite, writable_eq_self_iff x,
      writableMembers_eq_self_iff ms]

end

end Json

namespace Rule

theorem map_eq_self_iff {α : Type} {f : α → α} {xs : List α} :
    xs.map f = xs ↔ ∀ x ∈ xs, f x = x := by
  induction xs with
  | nil => simp
  | cons x xs ih => simp [ih]

/-- Every number in the value is finite. -/
def Condition.Finite (c : Condition) : Prop := c.value.isFinite = true

instance : DecidablePred Condition.Finite := fun _ => inferInstanceAs (Decidable (_ = true))

theorem Condition.written_eq_self_iff {c : Condition} : c.written = c ↔ c.Finite := by
  obtain ⟨field, operator, value, tagType⟩ := c
  simp [written, mapValue, Finite, Json.writable_eq_self_iff]

theorem Group.written_eq_self_iff {g : Group} :
    g.written = g ↔ ∀ c ∈ g.conditions, c.Finite := by
  obtain ⟨logic, conditions⟩ := g
  simp [written_eq, map_eq_self_iff, Condition.written_eq_self_iff]

/-- Every number in the values of its conditions is finite. -/
def Finite (r : Rule) : Prop := ∀ c ∈ r.conditions, c.Finite

instance : DecidablePred Finite := fun r => inferInstanceAs (Decidable (∀ c ∈ r.conditions, _))

variable {r : Rule}

theorem written_eq_self_iff : r.written = r ↔ r.Finite := by
  cases r with
  | auto field value tagType => simp [written, mapValues, Finite, conditions]
  | custom groups exclude =>
    simp only [written_custom, custom.injEq, map_eq_self_iff, Group.written_eq_self_iff,
      Condition.written_eq_self_iff, Finite, conditions, List.forall_mem_append,
      List.forall_mem_flatMap]

/-- What is read of a written form holds finite numbers only. -/
theorem finite_written (r : Rule) : r.written.Finite := by
  intro c part
  rw [conditions_written] at part
  obtain ⟨c, _, rfl⟩ := List.mem_map.mp part
  exact (Json.writable_eq_self_iff _).mp (Json.writable_writable c.value)

theorem Finite.writable (finite : r.Finite) : r.Writable := by
  intro c part n value
  have whole := finite c part
  rw [Condition.Finite, value] at whole
  exact whole

/-- A rule is read back from its written form as it was, but for the numbers in its values that
JSON cannot write; so as itself if and only if it has none.  The written form of such a rule stands
for all that the rule was read from: it is written as the same again, and has the same problems and
the same compiled form.  That it is written as the same and has the same problems only needs that no
such number is a value by itself. -/
theorem lossless_iff_finite {d : Json} (readAs : ofJson d = .ok r) :
    (ofJson r.toJson = .ok r ↔ r.Finite) ∧
    (ofJson r.toJson = .ok r.written ∧ r.written.Finite) ∧
    (r.Writable → r.written.toJson = r.toJson ∧ problemsOf r.toJson = problemsOf d) ∧
    (r.Finite → (∀ r', ofJson r.toJson = .ok r' → r'.toJson = r.toJson) ∧
      problemsOf r.toJson = problemsOf d ∧
      ∀ links now, (ofJson r.toJson).map (·.compile links now) =
        (ofJson d).map (·.compile links now)) := by
  have readBack := ofJson_toJson r
  have problems : problemsOf d = r.problems := by rw [problemsOf, readAs]
  have stable (writable : r.Writable) :
      r.written.toJson = r.toJson ∧ problemsOf r.toJson = problemsOf d := by
    refine ⟨writable.toJson_written, ?_⟩
    rw [problems, problemsOf, readBack]
    exact writable.problems_written
  refine ⟨?_, ⟨readBack, finite_written r⟩, stable, fun finite => ⟨fun r' again => ?_,
    (stable finite.writable).2, fun links now => ?_⟩⟩
  · rw [readBack, Except.ok.injEq, written_eq_self_iff]
  · obtain rfl := Except.ok.inj (readBack.symm.trans again)
    exact finite.writable.toJson_written
  · rw [readBack, readAs, written_eq_self_iff.mpr finite]

/-- A member in its other spelling, an unknown one, and a value with a `null`, a large whole number
and one as a binary64 number in it. -/
def spelled : Json :=
  .obj [("mode", .str "custom"), ("note", .int 1), ("exclude", .arr [.obj
    [("field", .str "tag"), ("operator", .str "in"), ("tag_type", .str "taste"),
      ("value", .arr [.null, .int (2 ^ 70), .float (.finite false (2 ^ 52) 1022),
        .obj [("a", .null)]])]])]

def spiced : Rule :=
  .custom [] [⟨some "tag", some "in", .arr [.null, .int (2 ^ 70),
    .float (.finite false (2 ^ 52) 1022), .obj [("a", .null)]], some "taste"⟩]

theorem lossless_iff_finite_spiced :
    ofJson spelled = .ok spiced ∧ spiced.Finite ∧ ofJson spiced.toJson = .ok spiced ∧
    spiced.toJson ≠ spelled ∧ problemsOf spiced.toJson = problemsOf spelled ∧
    (ofJson spiced.toJson).map (·.compile .unlinked ⟨0⟩) =
      (ofJson spelled).map (·.compile .unlinked ⟨0⟩) := by
  have readAs : ofJson spelled = .ok spiced := by decide +kernel
  have finite : spiced.Finite := by decide +kernel
  obtain ⟨same, _, _, stands⟩ := lossless_iff_finite readAs
  obtain ⟨_, problems, compiled⟩ := stands finite
  exact ⟨readAs, finite, same.mpr finite, by decide +kernel, problems, compiled _ _⟩

def boundlessJson : Json :=
  .obj [("mode", .str "custom"), ("groups", .arr [.obj [("logic", .str "AND"),
    ("conditions", .arr [.obj [("field", .str "cuisineId"), ("operator", .str "eq"),
      ("value", .float (.infinite false))]])]])]

def boundless : Rule :=
  .custom [⟨some "AND", [⟨some "cuisineId", some "eq", .float (.infinite false), none⟩]⟩] []

/-- An infinite value is lost in writing, and what is written is no rule that is accepted. -/
theorem infinite_value_lost :
    ofJson boundlessJson = .ok boundless ∧ ofJson boundless.toJson ≠ .ok boundless ∧
    (∀ r', ofJson boundless.toJson = .ok r' → r'.toJson ≠ boundless.toJson) ∧
    problemsOf boundlessJson = [] ∧ problemsOf boundless.toJson ≠ [] := by
  have readBack := ofJson_toJson boundless
  refine ⟨by decide +kernel, by decide +kernel, fun r' again => ?_, by decide +kernel,
    by decide +kernel⟩
  obtain rfl := Except.ok.inj (readBack.symm.trans again)
  decide +kernel

end Rule

end Cookbook
