import Cookbook.Proofs.Json.Read
import Cookbook.Proofs.Rule.Meaning
import Cookbook.Proofs.Schema.Reading
import Cookbook.Rule.Reader

/-!
# Rules that are read

The values in a rule that was read from a text are well-formed, and so the numbers in its predicate
are in their one spelling.
-/

namespace Cookbook

namespace Schema

variable {α : Type} {P : α → Prop} {read : Shape α} {ms : Members} {names : List String}

theorem wellFormed_of_given? (members : Json.MembersWellFormed ms) {j : Json}
    (given : given? ms names = some j) : j.WellFormed := by
  obtain ⟨⟨n, v⟩, found, rfl⟩ := Option.map_eq_some_iff.mp given
  obtain ⟨k, _, found⟩ := List.exists_of_findSome?_eq_some found
  obtain ⟨v, looked, same⟩ := Option.map_eq_some_iff.mp found
  cases same
  obtain ⟨before, after, rfl, _⟩ := List.lookup_eq_some_iff.mp looked
  exact Json.membersWellFormed_iff.mp members (n, v) (by simp)

/-- What is read of a member has what the reading gives to well-formed values. -/
theorem of_wellFormed_memberD {default a : α} (members : Json.MembersWellFormed ms)
    (holds : ∀ j a, j.WellFormed → read j = .ok a → P a) (otherwise : P default)
    (found : memberD ms names read default = .ok a) : P a := by
  obtain ⟨o, member, rfl⟩ := Checked.map_eq_ok_iff.mp found
  rcases of_member?_eq_ok member with ⟨_, rfl⟩ | ⟨j, a, given, readAs, rfl⟩
  · exact otherwise
  · exact holds j a (wellFormed_of_given? members given) readAs

theorem of_wellFormed_items (holds : ∀ j a, j.WellFormed → read j = .ok a → P a) {js : List Json}
    {n : Nat} {xs : List α} (wellFormed : Json.ItemsWellFormed js)
    (found : items read n js = .ok xs) : ∀ x ∈ xs, P x := by
  induction js generalizing n xs with
  | nil => cases found; nofun
  | cons j js ih =>
    obtain ⟨_, front, rest, others, rfl⟩ := Checked.seq_eq_ok_iff.mp found
    obtain ⟨x, first, rfl⟩ := Checked.map_eq_ok_iff.mp front
    exact List.forall_mem_cons.mpr
      ⟨holds j x wellFormed.1 (Checked.of_under_eq_ok first), ih wellFormed.2 others⟩

theorem of_wellFormed_list (holds : ∀ j a, j.WellFormed → read j = .ok a → P a) {j : Json}
    {xs : List α} (wellFormed : j.WellFormed) (found : list read j = .ok xs) : ∀ x ∈ xs, P x := by
  cases j with
  | arr js => exact of_wellFormed_items holds wellFormed found
  | _ => cases found

end Schema

open Schema

theorem Json.canonical_of_number? {j : Json} {n : Number} (wellFormed : j.WellFormed)
    (number : j.number? = some n) : n.Canonical := by
  cases j with
  | num m =>
    simp only [number?, Option.ite_none_right_eq_some, Option.some.injEq] at number
    exact number.2 ▸ wellFormed
  | str s =>
    simp only [number?, numeral?] at number
    split at number
    · exact Option.some.inj number ▸ trivial
    split at number
    next x read =>
      simp only [Option.ite_none_right_eq_some, Option.some.injEq] at number
      exact number.2 ▸ Numeral.canonical_of_float? read
    next => cases number
  | _ => cases number

namespace Rule

/-- The numbers in the values of its conditions are in their one spelling, and no object in them
names a member twice. -/
def WellFormed (r : Rule) : Prop := ∀ c ∈ r.conditions, c.value.WellFormed

theorem Condition.wellFormed_of_ofJson {j : Json} {c : Condition} (wellFormed : j.WellFormed)
    (readAs : ofJson j = .ok c) : c.value.WellFormed := by
  cases j with
  | obj ms =>
    simp only [ofJson, Condition.read, ofMembers, Checked.seq_eq_ok_iff,
      Checked.map_eq_ok_iff] at readAs
    obtain ⟨_, ⟨_, ⟨_, ⟨_, _, rfl⟩, _, _, rfl⟩, v, value, rfl⟩, _, _, rfl⟩ := readAs
    refine of_wellFormed_memberD wellFormed.2 (fun j a given same => ?_) (by trivial) value
    cases same
    exact given
  | _ => cases readAs

theorem Group.wellFormed_of_ofJson {j : Json} {g : Group} (wellFormed : j.WellFormed)
    (readAs : ofJson j = .ok g) : ∀ c ∈ g.conditions, c.value.WellFormed := by
  cases j with
  | obj ms =>
    simp only [ofJson, Group.read, ofMembers, Checked.seq_eq_ok_iff,
      Checked.map_eq_ok_iff] at readAs
    obtain ⟨_, ⟨_, _, rfl⟩, cs, conditions, rfl⟩ := readAs
    exact of_wellFormed_memberD wellFormed.2
      (fun _ _ => of_wellFormed_list fun _ _ => Condition.wellFormed_of_ofJson) (by simp) conditions
  | _ => cases readAs

theorem wellFormed_of_customOfMembers {ms : Members} {r : Rule}
    (members : Json.MembersWellFormed ms) (readAs : customOfMembers .json ms = .ok r) :
    r.WellFormed := by
  simp only [customOfMembers, Checked.seq_eq_ok_iff, Checked.map_eq_ok_iff] at readAs
  obtain ⟨_, ⟨gs, groups, rfl⟩, cs, exclude, rfl⟩ := readAs
  refine List.forall_mem_append.mpr ⟨List.forall_mem_flatMap.mpr ?_, ?_⟩
  · exact of_wellFormed_memberD members
      (fun _ _ => of_wellFormed_list fun _ _ => Group.wellFormed_of_ofJson) (by simp) groups
  · exact of_wellFormed_memberD members
      (fun _ _ => of_wellFormed_list fun _ _ => Condition.wellFormed_of_ofJson) (by simp) exclude

theorem wellFormed_of_ofJson {j : Json} {r : Rule} (wellFormed : j.WellFormed)
    (readAs : ofJson j = .ok r) : r.WellFormed := by
  unfold ofJson at readAs
  split at readAs
  next r shaped =>
    obtain rfl := Except.ok.inj readAs
    unfold shape at shaped
    split at shaped
    next ms =>
      unfold ofMembers at shaped
      split at shaped
      next => cases shaped
      split at shaped
      next =>
        simp only [autoOfMembers, Checked.seq_eq_ok_iff, Checked.map_eq_ok_iff] at shaped
        obtain ⟨_, ⟨_, ⟨_, _, rfl⟩, _, _, rfl⟩, _, _, rfl⟩ := shaped
        nofun
      next => exact wellFormed_of_customOfMembers wellFormed.2 shaped
      next => cases shaped
    next => cases shaped
  next => cases readAs

theorem WellFormed.canonical_predicate {r : Rule} (wellFormed : r.WellFormed) (links : Links) :
    ∀ n ∈ (r.predicate links).numbers, n.Canonical := by
  intro n number
  obtain ⟨c, part, _, _, read⟩ := exists_condition_of_mem_numbers number
  exact Json.canonical_of_number? (wellFormed c part) read

end Rule

end Cookbook
