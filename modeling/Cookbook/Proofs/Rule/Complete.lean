import Cookbook.Proofs.Number.Numeral
import Cookbook.Proofs.Rule.Located

/-!
# What a check accepts

A check finds nothing wrong with a custom rule exactly if each of its elements is valid.  Otherwise
it goes through the elements in the order of the rule, and reports for each what is wrong with it,
whatever the others are.
-/

namespace Cookbook.Rule

theorem Field.name_ne_empty (f : Field) : f.name ≠ "" := by
  cases f with
  | relation r => cases r <;> decide
  | measure m => cases m <;> decide
  | _ => decide

theorem Operator.name_ne_empty (o : Operator) : o.name ≠ "" := by
  cases o <;> decide

namespace Condition

variable {c : Condition}

/-- Field and operator are words of the vocabularies that go together, and there is a value.  A tag
needs a type, and a measure a number or the text of one. -/
def Valid (c : Condition) : Prop :=
  ∃ (f : Field) (o : Operator), c.field = some f.name ∧ c.operator = some o.name ∧
    o.Legal f.kind ∧ c.value ≠ .null ∧ (f = .tag → ∃ t, c.tagType = some t ∧ t ≠ "") ∧
    (f.kind = .numeric → c.value.IsNumeric)

theorem Valid.not_violates (valid : c.Valid) (name : String) (cause : Cause) :
    ¬ c.Violates name cause := by
  obtain ⟨f, o, field, operator, legal, present, typed, numeric⟩ := valid
  have named := presentText?_eq_some_iff.mpr ⟨field, f.name_ne_empty⟩
  have chosen := presentText?_eq_some_iff.mpr ⟨operator, o.name_ne_empty⟩
  have known {g : Field} (found : c.field? = some g) : f = g :=
    Option.some.inj ((field?_eq_some_iff.mpr field).symm.trans found)
  intro violates
  cases violates with
  | noField absent => rw [named] at absent; cases absent
  | strangeField given unknown =>
    obtain rfl := Option.some.inj (named.symm.trans given)
    rw [Field.ofName?_name] at unknown
    cases unknown
  | noOperator absent => rw [chosen] at absent; cases absent
  | strangeOperator given unknown =>
    obtain rfl := Option.some.inj (chosen.symm.trans given)
    rw [Operator.ofName?_name] at unknown
    cases unknown
  | noValue absent => exact present absent
  | illegal found taken illegal =>
    obtain rfl := known found
    obtain rfl := Option.some.inj ((operator?_eq_some_iff.mpr operator).symm.trans taken)
    exact illegal legal
  | noTagType found absent =>
    obtain ⟨t, given, some⟩ := typed (known found)
    rw [presentText?_eq_some_iff.mpr ⟨given, some⟩] at absent
    cases absent
  | noNumber found measured _ unread =>
    obtain rfl := known found
    have number := c.value.isSome_number?_iff.mpr (numeric measured)
    rw [unread] at number
    cases number

theorem valid_of_not_violates (fits : ∀ name cause, ¬ c.Violates name cause) : c.Valid := by
  obtain ⟨s, named⟩ : ∃ s, presentText? c.field = some s :=
    Option.ne_none_iff_exists'.mp fun absent => fits _ _ (.noField absent)
  obtain ⟨f, known⟩ : ∃ f, Field.ofName? s = some f :=
    Option.ne_none_iff_exists'.mp fun unknown => fits _ _ (.strangeField named unknown)
  obtain rfl := Field.ofName?_eq_some_iff.mp known
  obtain ⟨u, chosen⟩ : ∃ u, presentText? c.operator = some u :=
    Option.ne_none_iff_exists'.mp fun absent => fits _ _ (.noOperator absent)
  obtain ⟨o, taken⟩ : ∃ o, Operator.ofName? u = some o :=
    Option.ne_none_iff_exists'.mp fun unknown => fits _ _ (.strangeOperator chosen unknown)
  obtain rfl := Operator.ofName?_eq_some_iff.mp taken
  have field := (presentText?_eq_some_iff.mp named).1
  have operator := (presentText?_eq_some_iff.mp chosen).1
  have found := field?_eq_some_iff.mpr field
  have present : c.value ≠ .null := fun absent => fits _ _ (.noValue absent)
  refine ⟨f, o, field, operator, ?_, present, ?_, ?_⟩
  · by_contra illegal
    exact fits _ _ (.illegal found (operator?_eq_some_iff.mpr operator) illegal)
  · rintro rfl
    obtain ⟨t, typed⟩ : ∃ t, presentText? c.tagType = some t :=
      Option.ne_none_iff_exists'.mp fun absent => fits _ _ (.noTagType found absent)
    exact ⟨t, presentText?_eq_some_iff.mp typed⟩
  · intro measured
    apply c.value.isSome_number?_iff.mp
    apply Option.isSome_iff_ne_none.mpr
    intro unread
    exact fits _ _ (.noNumber found measured present unread)

/-- What is wrong with a condition, filed under the names of its members. -/
def causes (c : Condition) : List (String × Cause) :=
  c.fieldProblems.map (("field", ·)) ++ c.operatorProblems.map (("operator", ·)) ++
    c.valueProblems.map (("value", ·)) ++ c.fieldwiseProblems

theorem problems_eq (c : Condition) (l : Location) :
    c.problems l = c.causes.map fun (name, cause) => ⟨l, name, cause⟩ := rfl

theorem mem_causes {name : String} {cause : Cause} :
    (name, cause) ∈ c.causes ↔ c.Violates name cause := by
  have reported := @mem_problems c .whole ⟨.whole, name, cause⟩
  simpa [problems_eq] using reported

theorem causes_eq_nil_iff : c.causes = [] ↔ c.Valid := by
  rw [List.eq_nil_iff_forall_not_mem, Prod.forall]
  simp only [mem_causes]
  exact ⟨valid_of_not_violates, Valid.not_violates⟩

end Condition

/-- What a check looks at by itself: the word of a group, or a condition. -/
inductive Element where
  | logic (word : Option String)
  | condition (c : Condition)

namespace Element

def Valid : Element → Prop
  | logic word => word = some "AND" ∨ word = some "OR"
  | condition c => c.Valid

/-- What is wrong with an element, filed under the names of its members. -/
def causes : Element → List (String × Cause)
  | logic word => if word = some "AND" ∨ word = some "OR" then [] else [("logic", .logic)]
  | condition c => c.causes

theorem causes_eq_nil_iff (e : Element) : e.causes = [] ↔ e.Valid := by
  cases e with
  | logic word => simp [causes, Valid, or_iff_not_imp_left]
  | condition c => exact c.causes_eq_nil_iff

def problemsAt (e : Element) (p : Site) : List Problem :=
  e.causes.map fun (name, cause) => ⟨p.location, name, cause⟩

end Element

/-- The order of places in a rule: a group comes before its conditions, these before the next group,
and exclusions last. -/
def Site.Before : Site → Site → Prop
  | .rule, .rule => False
  | .rule, _ => True
  | _, .rule => False
  | .group i, .group k => i < k
  | .group i, .condition k _ => i ≤ k
  | .condition i _, .group k => i < k
  | .condition i j, .condition k l => i < k ∨ i = k ∧ j < l
  | .exclude i, .exclude k => i < k
  | .exclude _, _ => False
  | _, .exclude _ => True

section Custom

variable (groups : List Group) (exclude : List Condition)

/-- What stands at a place of a custom rule. -/
def elementAt? : Site → Option Element
  | .rule => none
  | .group i => groups[i]?.map fun g => .logic g.logic
  | .condition i j => groups[i]?.bind fun g => g.conditions[j]?.map .condition
  | .exclude i => exclude[i]?.map .condition

def Group.elements (g : Group) (i : Nat) : List (Site × Element) :=
  (.group i, .logic g.logic) :: g.conditions.mapIdx fun j c => (.condition i j, .condition c)

/-- The elements of a custom rule with their places, in its order. -/
def elements : List (Site × Element) :=
  (groups.mapIdx fun i g => g.elements i).flatten ++
    exclude.mapIdx fun i c => (.exclude i, .condition c)

variable {groups exclude}

theorem mem_mapIdx_iff {α β : Type} {f : Nat → α → β} {xs : List α} {b : β} :
    b ∈ xs.mapIdx f ↔ ∃ i a, xs[i]? = some a ∧ f i a = b := by
  simp only [List.mem_mapIdx, List.getElem?_eq_some_iff]
  constructor
  · rintro ⟨i, within, same⟩
    exact ⟨i, _, ⟨within, rfl⟩, same⟩
  · rintro ⟨i, a, ⟨within, rfl⟩, same⟩
    exact ⟨i, within, same⟩

theorem pairwise_mapIdx {α β : Type} {R : β → β → Prop} {f : Nat → α → β} {xs : List α}
    (later : ∀ i a j b, i < j → R (f i a) (f j b)) : (xs.mapIdx f).Pairwise R := by
  rw [List.pairwise_iff_getElem]
  intro i j within within' less
  rw [List.getElem_mapIdx, List.getElem_mapIdx]
  exact later i _ j _ less

theorem Group.mem_elements {g : Group} {i : Nat} {p : Site} {e : Element} :
    (p, e) ∈ g.elements i ↔ (p = .group i ∧ e = .logic g.logic) ∨
      ∃ j c, g.conditions[j]? = some c ∧ p = .condition i j ∧ e = .condition c := by
  simp only [elements, List.mem_cons, Prod.mk.injEq, mem_mapIdx_iff, eq_comm]

/-- Every place is gone through that has an element, with its element. -/
theorem mem_elements {p : Site} {e : Element} :
    (p, e) ∈ elements groups exclude ↔ elementAt? groups exclude p = some e := by
  simp only [elements, List.mem_append, List.mem_flatten, mem_mapIdx_iff]
  constructor
  · rintro (⟨_, ⟨i, g, group, rfl⟩, part⟩ | ⟨i, c, excluded, same⟩)
    · rcases Group.mem_elements.mp part with ⟨rfl, rfl⟩ | ⟨j, c, condition, rfl, rfl⟩
      · simp [elementAt?, group]
      · simp [elementAt?, group, condition]
    · obtain ⟨rfl, rfl⟩ := Prod.mk.inj same
      simp [elementAt?, excluded]
  · intro element
    cases p with
    | rule => cases element
    | group i =>
      obtain ⟨g, group, rfl⟩ := Option.map_eq_some_iff.mp element
      exact .inl ⟨_, ⟨i, g, group, rfl⟩, Group.mem_elements.mpr (.inl ⟨rfl, rfl⟩)⟩
    | condition i j =>
      obtain ⟨g, group, element⟩ := Option.bind_eq_some_iff.mp element
      obtain ⟨c, condition, rfl⟩ := Option.map_eq_some_iff.mp element
      exact .inl ⟨_, ⟨i, g, group, rfl⟩,
        Group.mem_elements.mpr (.inr ⟨j, c, condition, rfl, rfl⟩)⟩
    | exclude i =>
      obtain ⟨c, excluded, rfl⟩ := Option.map_eq_some_iff.mp element
      exact .inr ⟨i, c, excluded, rfl⟩

theorem Group.pairwise_elements (g : Group) (i : Nat) :
    (g.elements i).Pairwise fun a b => a.1.Before b.1 := by
  refine List.pairwise_cons.mpr ⟨?_, ?_⟩
  · rintro ⟨p, e⟩ member
    obtain ⟨j, c, _, same⟩ := mem_mapIdx_iff.mp member
    obtain ⟨rfl, rfl⟩ := Prod.mk.inj same
    exact le_rfl
  · apply pairwise_mapIdx
    intro j c k d less
    exact .inr ⟨rfl, less⟩

/-- The places are gone through in their order, so each of them once. -/
theorem pairwise_elements : (elements groups exclude).Pairwise fun a b => a.1.Before b.1 := by
  refine List.pairwise_append.mpr ⟨List.pairwise_flatten.mpr ⟨?_, ?_⟩, ?_, ?_⟩
  · intro part member
    obtain ⟨i, g, _, rfl⟩ := mem_mapIdx_iff.mp member
    exact g.pairwise_elements i
  · apply pairwise_mapIdx
    rintro i g k h less ⟨p, e⟩ first ⟨q, d⟩ second
    rcases Group.mem_elements.mp first with ⟨rfl, _⟩ | ⟨j, c, _, rfl, _⟩ <;>
      rcases Group.mem_elements.mp second with ⟨rfl, _⟩ | ⟨l, c', _, rfl, _⟩
    · exact less
    · exact less.le
    · exact less
    · exact .inl less
  · apply pairwise_mapIdx
    intro i c k d less
    exact less
  · rintro ⟨p, e⟩ first ⟨q, d⟩ second
    obtain ⟨_, grouped, part⟩ := List.mem_flatten.mp first
    obtain ⟨i, g, _, rfl⟩ := mem_mapIdx_iff.mp grouped
    obtain ⟨k, c, _, same⟩ := mem_mapIdx_iff.mp second
    obtain ⟨rfl, rfl⟩ := Prod.mk.inj same
    rcases Group.mem_elements.mp part with ⟨rfl, _⟩ | ⟨j, c, _, rfl, _⟩
    · exact trivial
    · exact trivial

theorem Group.problems_eq_flatMap (g : Group) (i : Nat) :
    g.problems i = (g.elements i).flatMap fun (p, e) => e.problemsAt p := by
  have logic : (if g.LogicKnown then [] else [⟨.ofGroup i, "logic", .logic⟩]) =
      (Element.logic g.logic).problemsAt (.group i) := by
    simp only [Element.problemsAt, Element.causes, LogicKnown, logics, List.mem_cons,
      List.not_mem_nil, or_false, exists_eq_or_imp, exists_eq_left]
    split <;> rfl
  rw [problems, elements, List.flatMap_cons, logic, List.flatMap_def, map_mapIdx]
  rfl

/-- The problems of a rule are those of its elements, one element after the other. -/
theorem problems_eq_flatMap : (custom groups exclude).problems =
    (elements groups exclude).flatMap fun (p, e) => e.problemsAt p := by
  have grouped : (groups.mapIdx fun i g => g.problems i).flatten =
      (groups.mapIdx fun i g => g.elements i).flatten.flatMap fun (p, e) => e.problemsAt p := by
    simp only [Group.problems_eq_flatMap, List.flatMap_def, List.map_flatten, List.flatten_flatten,
      map_mapIdx]
  have excluded : (exclude.mapIdx fun i c => c.problems (.ofExclude i)).flatten =
      (exclude.mapIdx fun i c => (Site.exclude i, Element.condition c)).flatMap
        fun (p, e) => e.problemsAt p := by
    rw [List.flatMap_def, map_mapIdx]
    rfl
  rw [elements, List.flatMap_append, ← grouped, ← excluded]
  rfl

theorem problems_eq_nil_iff_elements : (custom groups exclude).problems = [] ↔
    ∀ p e, elementAt? groups exclude p = some e → e.Valid := by
  rw [problems_eq_flatMap, List.flatMap_eq_nil_iff, Prod.forall]
  simp only [mem_elements, Element.problemsAt, List.map_eq_nil_iff, Element.causes_eq_nil_iff]

theorem forall_elementAt?_iff :
    (∀ p e, elementAt? groups exclude p = some e → e.Valid) ↔
      (∀ g ∈ groups, g.logic = some "AND" ∨ g.logic = some "OR") ∧
        ∀ c ∈ (custom groups exclude).conditions, c.Valid := by
  constructor
  · intro valid
    refine ⟨fun g group => ?_, fun c part => ?_⟩
    · obtain ⟨i, group⟩ := List.mem_iff_getElem?.mp group
      exact valid (.group i) (.logic g.logic) (by simp [elementAt?, group])
    · rcases List.mem_append.mp part with part | excluded
      · obtain ⟨g, group, part⟩ := List.mem_flatMap.mp part
        obtain ⟨i, group⟩ := List.mem_iff_getElem?.mp group
        obtain ⟨j, part⟩ := List.mem_iff_getElem?.mp part
        exact valid (.condition i j) (.condition c) (by simp [elementAt?, group, part])
      · obtain ⟨i, excluded⟩ := List.mem_iff_getElem?.mp excluded
        exact valid (.exclude i) (.condition c) (by simp [elementAt?, excluded])
  · rintro ⟨logics, conditions⟩ p e element
    cases p with
    | rule => cases element
    | group i =>
      obtain ⟨g, group, rfl⟩ := Option.map_eq_some_iff.mp element
      exact logics g (List.mem_of_getElem? group)
    | condition i j =>
      obtain ⟨g, group, element⟩ := Option.bind_eq_some_iff.mp element
      obtain ⟨c, part, rfl⟩ := Option.map_eq_some_iff.mp element
      exact conditions c (List.mem_append_left exclude (List.mem_flatMap.mpr
        ⟨g, List.mem_of_getElem? group, List.mem_of_getElem? part⟩))
    | exclude i =>
      obtain ⟨c, excluded, rfl⟩ := Option.map_eq_some_iff.mp element
      exact conditions c (List.mem_append_right _ (List.mem_of_getElem? excluded))

end Custom

/-- A check of a custom rule reports nothing exactly if the word of every group is one of the two
and every condition is valid.  What it reports are the problems of the elements of the rule, put
together in document order; each element has its own, at its own place, and has none exactly if it
is valid itself. -/
theorem problems_exact (groups : List Group) (exclude : List Condition) :
    ((custom groups exclude).problems = [] ↔
      (∀ g ∈ groups, g.logic = some "AND" ∨ g.logic = some "OR") ∧
        ∀ c ∈ (custom groups exclude).conditions, c.Valid) ∧
    ∃ parts : List (Site × Element),
      (∀ p e, (p, e) ∈ parts ↔ elementAt? groups exclude p = some e) ∧
      (parts.Pairwise fun a b => a.1.Before b.1) ∧
      (custom groups exclude).problems = parts.flatMap (fun (p, e) => e.problemsAt p) ∧
      ∀ e : Element, (∀ p, e.problemsAt p = []) ↔ e.Valid := by
  refine ⟨problems_eq_nil_iff_elements.trans forall_elementAt?_iff, elements groups exclude,
    fun p e => mem_elements, pairwise_elements, problems_eq_flatMap, fun e => ?_⟩
  rw [← e.causes_eq_nil_iff]
  constructor
  · intro clear
    exact List.map_eq_nil_iff.mp (clear .rule)
  · intro nothing p
    rw [Element.problemsAt, nothing]
    rfl

example : (custom [⟨some "and", [⟨some "cookTime", some "lt", .str "1_0e1", none⟩]⟩,
      ⟨some "OR", [⟨some "servings", some "in", .bool true, none⟩]⟩]
      [⟨some "tag", none, .null, some ""⟩]).problems =
    [⟨.ofGroup 0, "logic", .logic⟩,
      ⟨.ofCondition 1 0, "operator", .operatorIllegal (.measure .servings) .isIn⟩,
      ⟨.ofCondition 1 0, "value", .number (.measure .servings)⟩,
      ⟨.ofExclude 0, "operator", .operator⟩, ⟨.ofExclude 0, "value", .value⟩,
      ⟨.ofExclude 0, "tagType", .tagType⟩] := by decide +kernel

end Cookbook.Rule
