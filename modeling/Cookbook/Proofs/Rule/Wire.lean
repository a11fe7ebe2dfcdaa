import Cookbook.Proofs.Rule.Meaning
import Cookbook.Proofs.Schema.Reading
import Cookbook.Rule.Check
import Cookbook.Rule.Wire

/-!
# Reading back what is stored

The stored form of a rule reads as the rule itself, up to numbers in values that JSON cannot write.
What a measure is compared with is no such number, so its conditions are read back as they were.
-/

namespace Cookbook

theorem Json.number?_writable (j : Json) : j.writable.number? = j.number? := by
  cases j with
  | num n => cases finite : n.isFinite <;> simp [writable, number?, finite]
  | _ => rfl

namespace Rule

open Schema

section

variable {valueMember : Json → Members} {kept : Json → Json}

/-- A value is written as what is kept of it, or left out if that is nothing. -/
def Keeps (valueMember : Json → Members) (kept : Json → Json) : Prop :=
  ∀ v, valueMember v = [] ∧ kept v = .null ∨ valueMember v = [("value", kept v)]

theorem keeps_storedValue : Keeps storedValue Json.writable := by
  intro v
  by_cases absent : v = .null
  · subst absent
    exact .inl ⟨rfl, rfl⟩
  · exact .inr (if_neg absent)

theorem keeps_givenValue : Keeps givenValue id := fun _ => .inr rfl

def Condition.mapValue (kept : Json → Json) (c : Condition) : Condition :=
  { c with value := kept c.value }

def Group.mapValues (kept : Json → Json) (g : Group) : Group :=
  { g with conditions := g.conditions.map (Condition.mapValue kept) }

def mapValues (kept : Json → Json) : Rule → Rule
  | auto field value tagType => auto field value tagType
  | custom groups exclude =>
    custom (groups.map (Group.mapValues kept)) (exclude.map (Condition.mapValue kept))

variable (keeps : Keeps valueMember kept)
include keeps

theorem Condition.ofJson_json (c : Condition) :
    ofJson (c.json valueMember) = .ok (c.mapValue kept) := by
  obtain ⟨field, operator, value, tagType⟩ := c
  rcases keeps value with ⟨left, nothing⟩ | named
  · rw [mapValue, nothing, json, left]
    cases field <;> cases operator <;> cases tagType <;> rfl
  · rw [json, named]
    cases field <;> cases operator <;> cases tagType <;> rfl

theorem Group.ofJson_json (g : Group) : ofJson (g.json valueMember) = .ok (g.mapValues kept) := by
  obtain ⟨logic, conditions⟩ := g
  have readBack : list Condition.ofJson (.arr (conditions.map (Condition.json valueMember))) =
      .ok (conditions.map (Condition.mapValue kept)) :=
    items_map (Condition.ofJson_json keeps) conditions 0
  cases logic <;> exact congrArg (Checked.apply _) (memberD_of_find? rfl readBack)

theorem shape_json (r : Rule) : shape (r.json valueMember) = .ok (r.mapValues kept) := by
  cases r with
  | auto field value tagType => cases field <;> cases value <;> cases tagType <;> rfl
  | custom groups exclude =>
    have grouped : list Group.ofJson (.arr (groups.map (Group.json valueMember))) =
        .ok (groups.map (Group.mapValues kept)) := items_map (Group.ofJson_json keeps) groups 0
    have excluded : list Condition.ofJson (.arr (exclude.map (Condition.json valueMember))) =
        .ok (exclude.map (Condition.mapValue kept)) :=
      items_map (Condition.ofJson_json keeps) exclude 0
    change Checked.apply (Checked.map custom (memberD _ ["groups"] (list Group.ofJson) []))
      (memberD _ ["exclude"] (list Condition.ofJson) []) = _
    rw [memberD_of_find? rfl grouped, memberD_of_find? rfl excluded]
    rfl

end

/-- The condition as its stored form tells it. -/
def Condition.written : Condition → Condition := mapValue Json.writable

def Group.written : Group → Group := mapValues Json.writable

def written : Rule → Rule := mapValues Json.writable

theorem Group.written_eq (g : Group) :
    g.written = { g with conditions := g.conditions.map Condition.written } := rfl

theorem written_custom (groups : List Group) (exclude : List Condition) :
    (custom groups exclude).written =
      custom (groups.map Group.written) (exclude.map Condition.written) := rfl

theorem shape_toJson (r : Rule) : shape r.toJson = .ok r.written := shape_json keeps_storedValue r

theorem mapValues_id (r : Rule) : r.mapValues id = r := by
  have conditions : ∀ cs : List Condition, cs.map (Condition.mapValue id) = cs := List.map_id
  have group : ∀ g : Group, g.mapValues id = g := fun g => by rw [Group.mapValues, conditions]
  have groups : ∀ gs : List Group, gs.map (Group.mapValues id) = gs := by
    intro gs
    rw [funext group]
    exact List.map_id gs
  cases r with
  | auto => rfl
  | custom gs cs => rw [mapValues, conditions, groups]

/-- What a caller gives of a rule reads back as the rule. -/
theorem shape_asGiven (r : Rule) : shape r.asGiven = .ok r :=
  (shape_json keeps_givenValue r).trans (congrArg Checked.ok r.mapValues_id)

/-- What is stored of a rule reads back. -/
theorem ofJson_toJson (r : Rule) : ofJson r.toJson = .ok r.written := by
  rw [ofJson, shape_toJson]

theorem accept_eq_ok_iff {j : Json} {r : Rule} : accept j = .ok r ↔ ofJson j = .ok r ∧ r.Sound := by
  unfold accept Sound
  cases readAs : ofJson j with
  | error ps => simp
  | ok r' =>
    dsimp only
    by_cases sound : r'.problems = []
    · rw [if_pos sound]
      constructor
      · intro accepted
        obtain rfl := Except.ok.inj accepted
        exact ⟨rfl, sound⟩
      · exact And.left
    · rw [if_neg sound]
      constructor
      · intro accepted
        cases accepted
      · rintro ⟨same, sound'⟩
        exact absurd (Except.ok.inj same ▸ sound') sound

theorem explained_word (ms : Members) (names : List String) :
    (memberD ms names (optional text) none).Explained :=
  explained_memberD (explained_optional explained_text) ms names none

theorem Condition.explained_ofJson (j : Json) : (Condition.ofJson j).Explained := by
  cases j with
  | obj ms =>
    have value := explained_memberD Checked.Explained.ok ms ["value"] Json.null
    exact ((((explained_word ms _).map Condition.mk).apply (explained_word ms _)).apply
      value).apply (explained_word ms _)
  | _ => exact .fault _

theorem Group.explained_ofJson (j : Json) : (Group.ofJson j).Explained := by
  cases j with
  | obj ms =>
    exact ((explained_word ms ["logic"]).map Group.mk).apply
      (explained_memberD (explained_list Condition.explained_ofJson) ms ["conditions"] [])
  | _ => exact .fault _

theorem explained_shape (j : Json) : (shape j).Explained := by
  unfold shape
  split
  case h_2 => exact .fault _
  next ms =>
    unfold ofMembers
    split
    · exact .fault _
    split
    · exact (((explained_word ms _).map Rule.auto).apply (explained_word ms _)).apply
        (explained_word ms _)
    · exact ((explained_memberD (explained_list Group.explained_ofJson) ms ["groups"] []).map
        Rule.custom).apply
          (explained_memberD (explained_list Condition.explained_ofJson) ms ["exclude"] [])
    · exact .fault _

/-- Nothing is wrong with what is accepted and with nothing else. -/
theorem problemsOf_eq_nil_iff {j : Json} : problemsOf j = [] ↔ ∃ r, accept j = .ok r := by
  simp only [accept_eq_ok_iff]
  unfold problemsOf Sound ofJson
  have explained := explained_shape j
  cases readAs : shape j with
  | ok r => simp
  | bad is =>
    have wrong : is ≠ [] := fun none => explained (readAs.trans (congrArg Checked.bad none))
    simpa using wrong

theorem conditions_written (r : Rule) :
    r.written.conditions = r.conditions.map Condition.written := by
  cases r with
  | auto => rfl
  | custom groups exclude =>
    simp [written_custom, conditions, Group.written_eq, List.flatMap_map, List.map_flatMap]

end Rule

end Cookbook
