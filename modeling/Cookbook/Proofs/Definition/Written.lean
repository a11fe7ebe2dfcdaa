import Cookbook.Proofs.Definition.Loaded
import Cookbook.Proofs.Rule.Complete
import Cookbook.Proofs.Rule.Wire
import Cookbook.Proofs.Schema.Covers

/-!
# Rules of files in JSON

The rule of a file is checked as it was read and written in JSON later.  A check takes every value
that is no scalar for something that is there and no number.  What is written of such a value is
there too, so a rule without problems is accepted in JSON, if it can be written at all.
-/

namespace Cookbook

open Schema

/-- A value and what a check takes for it: the value itself, or one that is there and no number. -/
def Json.StandsFor (seen value : Json) : Prop :=
  seen = value ∨ seen = .bool true ∧ value ≠ .null

theorem Yaml.Node.standsFor_written (n : Node) :
    Checked.Covers Json.StandsFor (.ok n.weighed) n.written := by
  intro j written
  refine ⟨_, rfl, ?_⟩
  cases n with
  | scalar v => exact .inl (Checked.ok.inj written)
  | moment text =>
    obtain rfl := Checked.ok.inj written
    exact .inr ⟨rfl, nofun⟩
  | bytes literal text =>
    cases text with
    | none => cases written
    | some s =>
      obtain rfl := Checked.ok.inj written
      exact .inr ⟨rfl, nofun⟩
  | row kind ns =>
    obtain ⟨_, _, rfl⟩ := Checked.map_eq_ok_iff.mp written
    exact .inr ⟨rfl, nofun⟩
  | mapping ms =>
    obtain ⟨_, _, rfl⟩ := Checked.map_eq_ok_iff.mp written
    exact .inr ⟨rfl, nofun⟩

namespace Rule

/-- The same condition but for its value. -/
def Condition.StandsFor (seen c : Condition) : Prop :=
  seen.value.StandsFor c.value ∧ seen = { c with value := seen.value }

/-- The same group but for the values of its conditions. -/
def Group.StandsFor (seen g : Group) : Prop :=
  seen.logic = g.logic ∧ List.Forall₂ Condition.StandsFor seen.conditions g.conditions

/-- The same rule but for the values of its conditions. -/
inductive StandsFor : Rule → Rule → Prop where
  | auto (field value tagType : Option String) :
      StandsFor (auto field value tagType) (auto field value tagType)
  | custom {groups groups' : List Group} {exclude exclude' : List Condition}
      (grouped : List.Forall₂ Group.StandsFor groups groups')
      (excluded : List.Forall₂ Condition.StandsFor exclude exclude') :
      StandsFor (custom groups exclude) (custom groups' exclude')

section Read

open Yaml.Node

theorem covers_list {α β : Type} {Rel : α → β → Prop} {first : Yaml.Node → Checked α}
    {second : Yaml.Node → Checked β} (each : ∀ n, Checked.Covers Rel (first n) (second n))
    (n : Yaml.Node) :
    Checked.Covers (List.Forall₂ Rel) (checking.list first n) (writing.list second n) := by
  cases n with
  | row kind ns => exact .items each 0 ns
  | _ => exact .bad _ _

theorem Condition.covers_read (n : Yaml.Node) :
    Checked.Covers StandsFor (read checking n) (read writing n) := by
  unfold read
  cases checking.members? n with
  | none => exact .bad _ _
  | some ms =>
    refine .seq (.seq (.seq (.map (.self _) ?_) (.self _)) (.memberD standsFor_written ms _
      (.inl rfl))) (.self _)
    rintro field _ rfl operator _ rfl seen value stands tagType _ rfl
    exact ⟨stands, rfl⟩

theorem Group.covers_read (n : Yaml.Node) :
    Checked.Covers StandsFor (read checking n) (read writing n) := by
  unfold read
  cases checking.members? n with
  | none => exact .bad _ _
  | some ms =>
    refine .seq (.map (.self _) ?_) (.memberD (covers_list Condition.covers_read) ms _ .nil)
    rintro logic _ rfl seen conditions stands
    exact ⟨rfl, stands⟩

/-- Where the rule can be written, it can be checked. -/
theorem covers_ofMembers (ms : List (String × Yaml.Node)) :
    Checked.Covers StandsFor (ofMembers checking ms) (ofMembers writing ms) := by
  unfold ofMembers
  cases ms.lookup modeName with
  | none => exact .bad _ _
  | some tag =>
    dsimp only
    split
    · refine .seq (.seq (.map (.self _) ?_) (.self _)) (.self _)
      rintro field _ rfl value _ rfl tagType _ rfl
      exact .auto field value tagType
    · refine .seq (.map (.memberD (covers_list Group.covers_read) ms _ .nil) ?_)
        (.memberD (covers_list Condition.covers_read) ms _ .nil)
      intro groups groups' grouped exclude exclude' excluded
      exact .custom grouped excluded
    · exact .bad _ _

end Read

theorem Condition.StandsFor.valid {seen c : Condition} (stands : seen.StandsFor c)
    (valid : seen.Valid) : c.Valid := by
  obtain ⟨value, same⟩ := stands
  rw [same] at valid
  obtain ⟨f, o, field, operator, legal, present, typed, numeric⟩ := valid
  refine ⟨f, o, field, operator, legal, ?_, typed, fun measured => ?_⟩
  · rcases value with equal | ⟨_, present⟩
    · exact equal ▸ present
    · exact present
  · rcases value with equal | ⟨seen, _⟩
    · exact equal ▸ numeric measured
    · have impossible := numeric measured
      dsimp only at impossible
      rw [seen] at impossible
      exact impossible.elim

theorem exists_of_mem_right {α β : Type} {Rel : α → β → Prop} {as : List α} {bs : List β}
    (related : List.Forall₂ Rel as bs) {b : β} (member : b ∈ bs) : ∃ a ∈ as, Rel a b := by
  induction related with
  | nil => cases member
  | cons head rest ih =>
    rcases List.mem_cons.mp member with rfl | later
    · exact ⟨_, List.mem_cons_self, head⟩
    · obtain ⟨a, among, found⟩ := ih later
      exact ⟨a, List.mem_cons_of_mem _ among, found⟩

theorem valid_iff {groups : List Group} {exclude : List Condition} :
    (custom groups exclude).Sound ↔ (∀ g ∈ groups, g.logic = some "AND" ∨ g.logic = some "OR") ∧
      ∀ c ∈ (custom groups exclude).conditions, c.Valid :=
  problems_eq_nil_iff_elements.trans forall_elementAt?_iff

theorem StandsFor.sound {seen r : Rule} (stands : seen.StandsFor r) (sound : seen.Sound) :
    r.Sound := by
  cases stands with
  | auto => exact sound
  | custom grouped excluded =>
    obtain ⟨logics, conditions⟩ := valid_iff.mp sound
    have condition {seen written : List Condition}
        (related : List.Forall₂ Condition.StandsFor seen written) (valid : ∀ c ∈ seen, c.Valid) :
        ∀ c ∈ written, c.Valid := by
      intro c part
      obtain ⟨c', part, stands⟩ := exists_of_mem_right related part
      exact stands.valid (valid c' part)
    refine valid_iff.mpr ⟨fun g group => ?_, List.forall_mem_append.mpr ⟨?_, ?_⟩⟩
    · obtain ⟨g', group, logic, _⟩ := exists_of_mem_right grouped group
      exact logic ▸ logics g' group
    · refine List.forall_mem_flatMap.mpr fun g group => ?_
      obtain ⟨g', group, _, related⟩ := exists_of_mem_right grouped group
      refine condition related fun c part => conditions c (List.mem_append_left _ ?_)
      exact List.mem_flatMap.mpr ⟨g', group, part⟩
    · exact condition excluded fun c part => conditions c (List.mem_append_right _ part)

end Rule

/-- The rule of a sheet that has no problems is accepted in JSON. -/
theorem Sheet.accepted_of_written {s : Sheet} {d : Definition} (sound : s.problems = [])
    (written : s.written = .ok d) : ∃ r, Rule.accept d.rules = .ok r := by
  obtain ⟨r, readAs, rfl⟩ := of_written_eq_ok written
  obtain ⟨seen, checked, stands⟩ := Rule.covers_ofMembers s.rules r readAs
  rw [problems, checked] at sound
  refine ⟨r, Rule.accept_eq_ok_iff.mpr ⟨?_, stands.sound sound⟩⟩
  dsimp only
  rw [Rule.ofJson, Rule.shape_asGiven]

end Cookbook
