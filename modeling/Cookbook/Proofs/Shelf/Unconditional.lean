import Cookbook.Proofs.Rule.References
import Cookbook.Proofs.Shelf.Trials

/-!
# Rules that ask for nothing

A preview says whether a rule leaves anything out, and goes by the compiled predicate; the words for
a rule go by its groups and exclusions.  Both find nothing exactly in a custom rule without a single
condition.
-/

namespace Cookbook

namespace Rule

/-- A custom rule without conditions, in whatever number of groups. -/
def Unconditional : Rule → Prop
  | auto .. => False
  | custom groups exclude => (∀ g ∈ groups, g.conditions = []) ∧ exclude = []

instance : DecidablePred Unconditional := fun r =>
  match r with
  | auto .. => inferInstanceAs (Decidable False)
  | custom .. => inferInstanceAs (Decidable (_ ∧ _))

variable {r : Rule} {groups : List Group} {exclude : List Condition}

section Words

variable {first : Char} {s t : String}

theorem head?_append (begins : s.toList.head? = some first) :
    (s ++ t).toList.head? = some first := by
  rw [String.toList_append, List.head?_append, begins]
  rfl

theorem head?_intercalate (begins : s.toList.head? = some first) (sep : String)
    (others : List String) : (sep.intercalate (s :: others)).toList.head? = some first := by
  cases others with
  | nil => rwa [String.intercalate_singleton]
  | cons t others =>
    rw [String.intercalate_cons_cons]
    exact head?_append (head?_append begins)

theorem Group.head?_describe (g : Group) : g.describe.toList.head? = some '(' := by
  unfold describe
  exact head?_append (head?_append rfl)

/-- Words for groups begin with a parenthesis and words for exclusions alone with an A. -/
theorem describeCustom_eq_matchesAllText_iff : describeCustom groups exclude = matchesAllText ↔
    (∀ g ∈ groups, g.conditions = []) ∧ exclude = [] := by
  have heard : groups.filter (!·.conditions.isEmpty) = [] ↔ ∀ g ∈ groups, g.conditions = [] := by
    simp [List.filter_eq_nil_iff]
  have other {s : String} {c : Char} (begins : s.toList.head? = some c) (apart : c ≠ 'N') :
      s ≠ matchesAllText := by
    rintro rfl
    exact apart (Option.some.inj begins).symm
  rw [← heard, describeCustom]
  dsimp only
  cases parts : groups.filter (!·.conditions.isEmpty) with
  | nil =>
    cases exclude with
    | nil => simp
    | cons c cs =>
      have begins : "All recipes EXCLUDE: ".toList.head? = some 'A' := rfl
      simpa using other (head?_append begins) (by decide)
  | cons g gs =>
    have begins := head?_intercalate g.head?_describe " AND " (gs.map Group.describe)
    cases exclude with
    | nil => simpa using other begins (by decide)
    | cons c cs => simpa using other (head?_append (head?_append begins)) (by decide)

/-- The words for a rule say that everything matches only of a rule without conditions. -/
theorem describe_eq_matchesAllText_iff (r : Rule) :
    r.describe = matchesAllText ↔ r.Unconditional := by
  cases r with
  | auto field value tagType =>
    have begins : (describe (auto field value tagType)).toList.head? = some 'A' := by
      rw [describe]
      exact head?_append rfl
    refine iff_of_false (fun same => ?_) id
    rw [same] at begins
    cases begins
  | custom groups exclude => exact describeCustom_eq_matchesAllText_iff

end Words

theorem conditions_eq_nil_iff : (custom groups exclude).conditions = [] ↔
    (custom groups exclude).Unconditional := by
  simp [conditions, Unconditional, List.flatMap_eq_nil_iff]

/-- A bound automatic rule tests one id, and an unbound one matches nothing. -/
theorem predicate_auto_ne_all (field value tagType : Option String) (links : Links) :
    (auto field value tagType).predicate links ≠ .all := by
  unfold predicate composed
  dsimp only
  split
  next f id _ => cases f <;> nofun
  next => nofun

/-- Without conditions nothing is asked; of a sound rule every condition stays in the predicate. -/
theorem Sound.predicate_eq_all_iff (sound : r.Sound) (links : Links) :
    r.predicate links = .all ↔ r.Unconditional := by
  cases r with
  | auto field value tagType =>
    exact iff_of_false (predicate_auto_ne_all field value tagType links) id
  | custom groups exclude =>
    constructor
    · intro constant
      have tests := leaves_predicate_custom groups exclude links
      rw [constant, leaves_composed_custom] at tests
      rw [← conditions_eq_nil_iff, List.eq_nil_iff_forall_not_mem]
      intro c part
      obtain ⟨q, compiled⟩ := sound.exists_predicate? part
      exact Option.some_ne_none q
        (compiled.symm.trans (List.filterMap_eq_nil_iff.mp tests.symm c part))
    · rintro ⟨bare, rfl⟩
      have silent : groups.filterMap Group.predicate? = [] := by
        refine List.filterMap_eq_nil_iff.mpr fun g member => ?_
        rw [Group.predicate?, bare g member]
        rfl
      rw [predicate, composed, customPredicate, silent]
      rfl

end Rule

namespace Action

variable {env : Surroundings} {s : Shelf} {j : Json} {r : Rule}

theorem hasRules_of_preview_eq_ok (accepted : Rule.accept j = .ok r) {links : Rule.Links}
    {a : PreviewAnswer} (previewed : ((preview ⟨j, links⟩).run env s).1 = .ok a) :
    a.hasRules = false ↔ r.predicate links = .all := by
  rw [run_preview j links accepted] at previewed
  obtain ⟨n, -, rfl⟩ := Attempt.map_eq_ok_iff.mp previewed
  exact bne_eq_false_iff_eq

end Action

namespace Rule

variable {r : Rule}

/-- Of a sound rule the predicate, the words and the previews agree on whether the rule asks for
anything, whatever its collection is linked to.  The preview of a rule that asks for nothing does
not fail either. -/
theorem predicate_describe_preview_agree (sound : r.Sound) (links : Links) :
    (r.predicate links = .all ↔ r.Unconditional) ∧
    (r.describe = matchesAllText ↔ r.Unconditional) ∧
    ∀ (j : Json) (env : Surroundings) (s : Shelf), ofJson j = .ok r →
      (∀ a, ((Action.preview ⟨j, links⟩).run env s).1 = .ok a →
        (a.hasRules = false ↔ r.Unconditional)) ∧
      (env.outage = none →
        ((∃ a, ((Action.preview ⟨j, links⟩).run env s).1 = .ok a ∧ a.hasRules = false) ↔
          r.Unconditional) ∧
        ((¬ ∃ a, ((Action.preview ⟨j, links⟩).run env s).1 = .ok a) →
          ((Action.preview ⟨j, links⟩).run env s).1 = .error .overflow)) := by
  have compiled := sound.predicate_eq_all_iff links
  refine ⟨compiled, r.describe_eq_matchesAllText_iff, fun j env s read => ?_⟩
  have accepted := accept_eq_ok_iff.mpr ⟨read, sound⟩
  have told {a} (previewed : ((Action.preview ⟨j, links⟩).run env s).1 = .ok a) :
      a.hasRules = false ↔ r.Unconditional :=
    (Action.hasRules_of_preview_eq_ok accepted previewed).trans compiled
  refine ⟨fun a => told, fun service => ?_⟩
  have answered := @Action.preview_cases env s service j r accepted links
  refine ⟨⟨?_, fun bare => ?_⟩, fun none => ?_⟩
  · rintro ⟨a, previewed, silent⟩
    exact (told previewed).mp silent
  · have fits : (r.predicate links).FitsQuery := by
      rw [compiled.mpr bare]
      decide
    rw [if_pos fits] at answered
    obtain ⟨a, previewed⟩ := answered
    exact ⟨a, previewed, (told previewed).mpr bare⟩
  · split at answered
    next => exact absurd answered none
    next => exact answered

/-- Two groups without conditions. -/
def hollow : Rule := .custom [⟨some "AND", []⟩, ⟨some "OR", []⟩] []

theorem predicate_describe_preview_agree_hollow :
    (hollow.predicate .unlinked = .all ∧ hollow.describe = matchesAllText ∧
      ∀ s, ∃ a, ((Action.preview ⟨hollow.toJson, .unlinked⟩).run (.standard 1) s).1 = .ok a ∧
        a.hasRules = false) ∧
    (Shelf.ofCuisine (.str "it")).predicate .unlinked ≠ .all ∧
    (Shelf.ofCuisine (.str "it")).describe ≠ matchesAllText := by
  have sound : hollow.Sound := by decide
  have bare : hollow.Unconditional := by decide
  have read : ofJson hollow.toJson = .ok hollow := by decide
  obtain ⟨compiled, described, previewed⟩ := predicate_describe_preview_agree sound .unlinked
  have other : (Shelf.ofCuisine (.str "it")).Sound := by decide
  have asking : ¬ (Shelf.ofCuisine (.str "it")).Unconditional := by decide
  obtain ⟨compiled', described', -⟩ := predicate_describe_preview_agree other .unlinked
  exact ⟨⟨compiled.mpr bare, described.mpr bare,
    fun s => (((previewed _ (.standard 1) s read).2 rfl).1).mpr bare⟩,
    mt compiled'.mp asking, mt described'.mp asking⟩

end Rule

end Cookbook
