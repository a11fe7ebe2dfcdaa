import Cookbook.Compiled.Basic
import Cookbook.Proofs.Query.Matches
import Cookbook.Proofs.Rule.Asked

/-!
# The meaning of rules

The compiled predicate of a rule holds of exactly the recipes that the rule asks for: a condition
has a predicate if it is supported, groups and exclusions put these together, and simplification
keeps what they say.
-/

namespace Cookbook

theorem Predicate.measureHolds_iff (stored : Option Int) {o : Rule.Operator} {op : Comparison}
    (comparison : o.comparison? = some op) {n : Number} (finite : n.isFinite = true) :
    measureHolds stored op n = true ↔ o.Accepts stored n.value := by
  cases stored with
  | none =>
    have different : o = .neq ↔ op = .neq := by cases o <;> cases comparison <;> simp
    simp [measureHolds, Rule.Operator.Accepts, different]
  | some v =>
    simp only [measureHolds, Number.compare?_int finite, Rule.Operator.Accepts,
      Rule.Operator.compares_iff comparison]
    exact op.admits_compare v n.value

namespace Predicate

@[simp] theorem holds_relation_eq (c : Catalog) (r : Recipe) (k : Relation) (id : String) :
    (relation k .eq [id]).holds c r = true ↔ r.related k = some id := by
  simp only [holds, relationHolds]
  cases r.related k <;> simp [Membership.isPositive]

@[simp] theorem holds_tag_some (c : Catalog) (r : Recipe) (id : String) :
    (tag .some [id] Option.none).holds c r = true ↔ id ∈ r.tags := by
  simp [holds, presentText?, Catalog.HasTag, Catalog.TagCounts]

end Predicate

section Parts

variable {α : Type} {compile : α → Option Predicate} {Asked : α → Prop} (c : Catalog) (r : Recipe)

theorem Predicate.any_filterMap_holds (xs : List α)
    (meaning : ∀ a p, compile a = some p → (p.holds c r = true ↔ Asked a)) :
    (xs.filterMap compile).any (holds c r) = true ↔
      ∃ a ∈ xs, (∃ p, compile a = some p) ∧ Asked a := by
  simp only [List.any_eq_true, List.mem_filterMap]
  constructor
  · rintro ⟨p, ⟨a, part, compiled⟩, holds⟩
    exact ⟨a, part, ⟨p, compiled⟩, (meaning a p compiled).mp holds⟩
  · rintro ⟨a, part, ⟨p, compiled⟩, asked⟩
    exact ⟨p, ⟨a, part, compiled⟩, (meaning a p compiled).mpr asked⟩

theorem Predicate.all_filterMap_holds (xs : List α)
    (meaning : ∀ a p, compile a = some p → (p.holds c r = true ↔ Asked a)) :
    (xs.filterMap compile).all (holds c r) = true ↔
      ∀ a ∈ xs, (∃ p, compile a = some p) → Asked a := by
  simp only [List.all_eq_true, List.mem_filterMap]
  constructor
  · rintro holds a part ⟨p, compiled⟩
    exact (meaning a p compiled).mp (holds p ⟨a, part, compiled⟩)
  · rintro asked p ⟨a, part, compiled⟩
    exact (meaning a p compiled).mpr (asked a part ⟨p, compiled⟩)

end Parts

@[simp] theorem presentText?_presentText? (s : Option String) :
    presentText? (presentText? s) = presentText? s := by
  simp [presentText?]

theorem Json.isFinite_of_number? {j : Json} {n : Number} (number : j.number? = some n) :
    n.isFinite = true := by
  cases j with
  | num m =>
    simp only [number?, Option.ite_none_right_eq_some, Option.some.injEq] at number
    exact number.2 ▸ number.1
  | str s =>
    simp only [number?, numeral?] at number
    split at number
    · exact Option.some.inj number ▸ rfl
    split at number
    · simp only [Option.ite_none_right_eq_some, Option.some.injEq] at number
      exact number.2 ▸ number.1
    · cases number
  | _ => cases number

namespace Rule

namespace Condition

variable {c : Condition}

theorem meaning?_isSome_iff (f : Field) (o : Operator) (value : Json) (tagType : Option String) :
    (meaning? f o value tagType).isSome = true ↔
      o.Legal f.kind ∧ (f.kind = .numeric → value.number?.isSome = true) := by
  cases f with
  | measure m =>
    unfold meaning? Operator.Legal Field.kind
    cases o.comparison? <;> cases value.number? <;> simp
  | _ => simp [meaning?, Operator.Legal, Field.kind]

theorem predicate?_eq_some_iff {p : Predicate} :
    c.predicate? = some p ↔ ∃ f o, c.field? = some f ∧ c.operator? = some o ∧ c.value ≠ .null ∧
      meaning? f o c.value c.tagType = some p := by
  unfold predicate?
  cases c.field? <;> cases c.operator? <;> simp

theorem reads_iff {f : Field} {o : Operator} : c.Reads f o ↔ c.field? = some f ∧
    c.operator? = some o ∧ c.value ≠ .null ∧ o.Legal f.kind ∧
      (f.kind = .numeric → c.value.number?.isSome = true) := by
  have numeric : (∀ m, f = .measure m → ∃ n, c.value.Denotes n) ↔
      (f.kind = .numeric → c.value.number?.isSome = true) := by
    simp only [Option.isSome_iff_exists, Json.number?_eq_some_iff]
    cases f <;> simp [Field.kind]
  rw [field?_eq_some_iff, operator?_eq_some_iff, ← numeric, ← Operator.suits_iff_legal]
  constructor
  · intro reads
    exact ⟨reads.field, reads.operator, reads.present, reads.suits, reads.numeric⟩
  · rintro ⟨field, operator, present, suits, numeric⟩
    exact ⟨field, operator, suits, present, numeric⟩

/-- A condition with a predicate has one field and one operator. -/
theorem reads_of_predicate? {p : Predicate} (compiled : c.predicate? = some p) :
    ∃ f o, c.Reads f o ∧ meaning? f o c.value c.tagType = some p ∧
      ∀ f' o', c.Reads f' o' → f' = f ∧ o' = o := by
  obtain ⟨f, o, field, operator, present, means⟩ := predicate?_eq_some_iff.mp compiled
  have fits :=
    (meaning?_isSome_iff f o c.value c.tagType).mp (Option.isSome_iff_exists.mpr ⟨p, means⟩)
  refine ⟨f, o, reads_iff.mpr ⟨field, operator, present, fits⟩, means, fun f' o' reads => ?_⟩
  obtain ⟨field', operator', _⟩ := reads_iff.mp reads
  exact ⟨Option.some.inj (field'.symm.trans field), Option.some.inj (operator'.symm.trans operator)⟩

/-- The conditions with a predicate are the supported ones. -/
theorem supported_iff (c : Condition) : c.Supported ↔ ∃ p, c.predicate? = some p := by
  constructor
  · rintro ⟨f, o, reads⟩
    obtain ⟨field, operator, present, fits⟩ := reads_iff.mp reads
    obtain ⟨p, means⟩ := Option.isSome_iff_exists.mp
      ((meaning?_isSome_iff f o c.value c.tagType).mpr fits)
    exact ⟨p, predicate?_eq_some_iff.mpr ⟨f, o, field, operator, present, means⟩⟩
  · rintro ⟨p, compiled⟩
    obtain ⟨f, o, reads, _⟩ := reads_of_predicate? compiled
    exact ⟨f, o, reads⟩

/-- A tag test asks for a tag that the value lists, of the type if one is given. -/
theorem hasTag_iff (cat : Catalog) (x : Recipe) (value : Json) (tagType : Option String) :
    cat.HasTag x value.ids (presentText? tagType) ↔ ∃ id ∈ x.tags, value.Lists id ∧
      ∀ t, tagType = some t → t ≠ "" → ∃ row ∈ cat.tags, row.id = id ∧ row.type = t := by
  have counts (id : String) : cat.TagCounts (presentText? tagType) id ↔
      ∀ t, tagType = some t → t ≠ "" → ∃ row ∈ cat.tags, row.id = id ∧ row.type = t := by
    unfold Catalog.TagCounts presentText?
    cases tagType with
    | none => simp
    | some t => by_cases empty : t = "" <;> simp [Option.filter, empty]
  simp only [Catalog.HasTag, counts, Json.mem_ids_iff]

theorem holds_of_meaning? (cat : Catalog) (x : Recipe) {f : Field} {o : Operator} {p : Predicate}
    (means : meaning? f o c.value c.tagType = some p) :
    p.holds cat x = true ↔ Asks cat x c f o := by
  cases f with
  | relation k =>
    obtain ⟨m, member, rfl⟩ := Option.map_eq_some_iff.mp means
    have has : (x.related k).any c.value.ids.contains =
        decide (∃ id ∈ c.value.ids, x.related k = some id) := by
      cases x.related k <;> simp
    simp only [Predicate.holds, Predicate.relationHolds, has, Asks, ← Json.mem_ids_iff]
    exact (Operator.selects_iff member _).symm
  | measure m =>
    simp only [meaning?] at means
    split at means
    next op n comparison number =>
      cases means
      have finite := Json.isFinite_of_number? number
      have denoted (k : Number) : c.value.Denotes k ↔ n = k := by
        rw [← Json.number?_eq_some_iff, number, Option.some.injEq]
      simp [Predicate.holds, Predicate.measureHolds_iff _ comparison finite, Asks, denoted]
    next => cases means
  | _ =>
    obtain ⟨m, member, rfl⟩ := Option.map_eq_some_iff.mp means
    have quantifier : ((if m.isPositive then Quantifier.some else .none) == .some) =
        m.isPositive := by
      cases m <;> rfl
    simp only [Predicate.holds, presentText?_presentText?, quantifier, Asks, ← hasTag_iff]
    exact (Operator.selects_iff member _).symm

/-- The predicate of a condition holds of the recipes that the condition asks for. -/
theorem holds_of_predicate? (cat : Catalog) (x : Recipe) {p : Predicate}
    (compiled : c.predicate? = some p) : p.holds cat x = true ↔ c.Holds cat x := by
  obtain ⟨f, o, reads, means, only⟩ := reads_of_predicate? compiled
  rw [holds_of_meaning? cat x means]
  constructor
  · exact fun asks => ⟨f, o, reads, asks⟩
  · rintro ⟨f', o', reads', asks⟩
    obtain ⟨rfl, rfl⟩ := only f' o' reads'
    exact asks

end Condition

namespace Group

theorem heard_iff (g : Group) :
    (∃ p, g.predicate? = some p) ↔ ∃ c ∈ g.conditions, c.Supported := by
  have heard : (∃ p, g.predicate? = some p) ↔
      g.conditions.filterMap Condition.predicate? ≠ [] := by
    unfold predicate?
    split <;> simp_all
  simp only [heard, ne_eq, List.filterMap_eq_nil_iff, Condition.supported_iff, not_forall,
    Option.ne_none_iff_exists', exists_prop]

theorem holds_of_predicate? (cat : Catalog) (x : Recipe) {g : Group} {p : Predicate}
    (compiled : g.predicate? = some p) : p.holds cat x = true ↔ g.Holds cat x := by
  have meaning := fun c p => Condition.holds_of_predicate? cat x (c := c) (p := p)
  have any := Predicate.any_filterMap_holds cat x g.conditions meaning
  have all := Predicate.all_filterMap_holds cat x g.conditions meaning
  simp only [← Condition.supported_iff] at any all
  unfold predicate? at compiled
  split at compiled
  · cases compiled
  · obtain rfl := Option.some.inj compiled
    unfold Holds
    by_cases word : g.logic = some "OR"
    · have any' : g.IsAny := word
      rwa [if_pos any', if_pos word, Predicate.holds_or]
    · have all' : ¬ g.IsAny := word
      rwa [if_neg all', if_neg word, Predicate.holds_and]

end Group

@[simp] theorem Links.follow?_relation (links : Links) (k : Relation) :
    links.follow? (.relation k) = some (links.related k) := by
  cases k <;> rfl

@[simp] theorem Links.follow?_tagId (links : Links) : links.follow? .tagId = some links.tag := rfl

theorem holds_customPredicate (cat : Catalog) (x : Recipe) (groups : List Group)
    (exclude : List Condition) : (customPredicate groups exclude).holds cat x =
      ((groups.filterMap Group.predicate?).all (Predicate.holds cat x) &&
        !(exclude.filterMap Condition.predicate?).any (Predicate.holds cat x)) := by
  unfold customPredicate
  generalize groups.filterMap Group.predicate? = ps
  generalize exclude.filterMap Condition.predicate? = qs
  cases ps <;> cases qs <;> simp

theorem presentText?_eq_some_iff {t : Option String} {s : String} :
    presentText? t = some s ↔ t = some s ∧ s ≠ "" := by
  simp [presentText?, Option.filter_eq_some_iff]

theorem holds_composed (cat : Catalog) (links : Links) (x : Recipe) (r : Rule) :
    (r.composed links).holds cat x = true ↔ r.Holds cat links x := by
  cases r with
  | auto field value tagType =>
    have named (f : Field) : field = some f.name ↔ field.bind Field.ofName? = some f := by
      simp [Option.bind_eq_some_iff, Field.ofName?_eq_some_iff]
    have given (t : Option String) (id : String) :
        t = some id ∧ id ≠ "" ↔ presentText? t = some id := presentText?_eq_some_iff.symm
    simp only [composed, bind, Holds, named, ← and_assoc, given]
    cases field.bind Field.ofName? with
    | none => simp
    | some f =>
      cases f with
      | relation k =>
        cases link : presentText? (links.related k) <;> simp [link, boundPredicate]
      | tagId =>
        cases link : presentText? links.tag <;> simp [link, boundPredicate]
      | tag => simp [Links.follow?]
      | measure m => simp [Links.follow?]
  | custom groups exclude =>
    have asked := Predicate.all_filterMap_holds cat x groups
      fun g p => @Group.holds_of_predicate? cat x g p
    have unwanted := Predicate.any_filterMap_holds cat x exclude
      fun c p => Condition.holds_of_predicate? cat x (c := c) (p := p)
    simp only [Group.heard_iff] at asked
    simp only [← Condition.supported_iff] at unwanted
    rw [composed, holds_customPredicate, Bool.and_eq_true, asked, Bool.not_eq_true',
      Bool.eq_false_iff, ne_eq, unwanted]
    simp [Holds]

/-- A condition becomes one test, of the kind that its field has. -/
theorem Condition.test_of_predicate? {c : Condition} {p : Predicate}
    (compiled : c.predicate? = some p) :
    (∃ r op, c.field? = some (.relation r) ∧ p = .relation r op c.value.ids) ∨
    (∃ f q t, c.field? = some f ∧ (f = .tagId ∨ f = .tag) ∧ p = .tag q c.value.ids t) ∨
    ∃ m op n, c.field? = some (.measure m) ∧ p = .numeric m op n := by
  obtain ⟨f, o, field, _, _, means⟩ := predicate?_eq_some_iff.mp compiled
  cases f with
  | relation r =>
    obtain ⟨op, _, rfl⟩ := Option.map_eq_some_iff.mp means
    exact .inl ⟨r, op, field, rfl⟩
  | tagId =>
    obtain ⟨op, _, rfl⟩ := Option.map_eq_some_iff.mp means
    exact .inr (.inl ⟨_, _, _, field, .inl rfl, rfl⟩)
  | tag =>
    obtain ⟨op, _, rfl⟩ := Option.map_eq_some_iff.mp means
    exact .inr (.inl ⟨_, _, _, field, .inr rfl, rfl⟩)
  | measure m =>
    simp only [meaning?] at means
    split at means
    next op n _ _ => exact .inr (.inr ⟨m, op, n, field, (Option.some.inj means).symm⟩)
    next => cases means

theorem Condition.leaves_of_predicate? {c : Condition} {p : Predicate}
    (compiled : c.predicate? = some p) : p.leaves = [p] := by
  rcases test_of_predicate? compiled with
    ⟨_, _, _, rfl⟩ | ⟨_, _, _, _, _, rfl⟩ | ⟨_, _, _, _, rfl⟩ <;> rfl

theorem Condition.flatMap_leaves (cs : List Condition) :
    (cs.filterMap predicate?).flatMap Predicate.leaves = cs.filterMap predicate? := by
  induction cs with
  | nil => rfl
  | cons c cs ih =>
    cases compiled : c.predicate? with
    | none => simp [compiled, ih]
    | some p => simp [compiled, ih, leaves_of_predicate? compiled]

theorem Group.leaves_of_predicate? (g : Group) :
    g.predicate?.toList.flatMap Predicate.leaves = g.conditions.filterMap Condition.predicate? := by
  have leaves := Condition.flatMap_leaves g.conditions
  unfold predicate?
  generalize g.conditions.filterMap Condition.predicate? = ps at leaves ⊢
  cases ps with
  | nil => rfl
  | cons p ps => dsimp only; split <;> simpa using leaves

/-- The predicate of a custom rule puts together the supported conditions of the rule, in their
order. -/
theorem leaves_customPredicate (groups : List Group) (exclude : List Condition) :
    (customPredicate groups exclude).leaves =
      (groups.flatMap fun g => g.conditions.filterMap Condition.predicate?) ++
        exclude.filterMap Condition.predicate? := by
  have grouped : (groups.filterMap Group.predicate?).flatMap Predicate.leaves =
      groups.flatMap fun g => g.conditions.filterMap Condition.predicate? := by
    induction groups with
    | nil => rfl
    | cons g groups ih =>
      rw [List.flatMap_cons, ← g.leaves_of_predicate?, ← ih]
      cases compiled : g.predicate? <;> simp [compiled]
  rw [← grouped, ← Condition.flatMap_leaves exclude]
  unfold customPredicate
  generalize groups.filterMap Group.predicate? = ps
  generalize exclude.filterMap Condition.predicate? = qs
  cases ps <;> cases qs <;> simp

/-- A number of a rule's predicate is the value of a condition on a measure. -/
theorem Condition.number?_of_mem_numbers {c : Condition} {p : Predicate} {n : Number}
    (compiled : c.predicate? = some p) (number : n ∈ p.numbers) :
    ∃ m, c.field? = some (.measure m) ∧ c.value.number? = some n := by
  obtain ⟨f, o, field, _, _, means⟩ := predicate?_eq_some_iff.mp compiled
  cases f with
  | measure m =>
    simp only [meaning?] at means
    split at means
    next op value _ read =>
      cases means
      obtain rfl := List.mem_singleton.mp number
      exact ⟨m, field, read⟩
    next => cases means
  | _ =>
    obtain ⟨m, _, rfl⟩ := Option.map_eq_some_iff.mp means
    cases number

/-- The conditions of a rule, those of the groups before the exclusions. -/
def conditions : Rule → List Condition
  | auto .. => []
  | custom groups exclude => groups.flatMap Group.conditions ++ exclude

theorem exists_condition_of_mem_numbers {r : Rule} {links : Links} {n : Number}
    (number : n ∈ (r.predicate links).numbers) :
    ∃ c ∈ r.conditions, ∃ m, c.field? = some (.measure m) ∧ c.value.number? = some n := by
  have number := Predicate.numbers_simplify_subset _ number
  cases r with
  | auto field value tagType =>
    simp only [composed, boundPredicate] at number
    split at number
    · split at number <;> cases number
    · cases number
  | custom groups exclude =>
    rw [composed, Predicate.numbers_eq_flatMap_leaves, leaves_customPredicate] at number
    simp only [List.mem_flatMap, List.mem_append, List.mem_filterMap] at number
    obtain ⟨p, ⟨g, group, c, part, compiled⟩ | ⟨c, part, compiled⟩, number⟩ := number
    · exact ⟨c, List.mem_append_left _ (List.mem_flatMap.mpr ⟨g, group, part⟩),
        Condition.number?_of_mem_numbers compiled number⟩
    · exact ⟨c, List.mem_append_right _ part, Condition.number?_of_mem_numbers compiled number⟩

theorem isFinite_predicate (r : Rule) (links : Links) :
    ∀ n ∈ (r.predicate links).numbers, n.isFinite = true := by
  intro n number
  obtain ⟨c, _, _, _, read⟩ := exists_condition_of_mem_numbers number
  exact Json.isFinite_of_number? read

/-- The conditions that compile are the supported ones, and the compiled predicate holds of exactly
the recipes that the rule asks for. -/
theorem holds_compile_iff (r : Rule) (links : Links) (now : Instant) (cat : Catalog) (x : Recipe) :
    (∀ c : Condition, c.predicate?.isSome = true ↔ c.Supported) ∧
      ((r.compile links now).predicate.holds cat x = true ↔ r.Holds cat links x) := by
  refine ⟨fun c => ?_, ?_⟩
  · rw [c.supported_iff, Option.isSome_iff_exists]
  · rw [compile, predicate, Predicate.holds_simplify]
    exact holds_composed cat links x r

def market : Catalog where
  zone := .utc
  cuisines := []
  locations := []
  tags := [⟨"v", "Vegan", "vegan", "diet"⟩, ⟨"q", "Quick", "quick", "effort"⟩]
  recipes := [
    { Recipe.bare "one" Status.published with cuisineId := some "7", cookTime := some 30 },
    { Recipe.bare "two" Status.draft with tags := ["q", "v"], cookTime := some 12 },
    { Recipe.bare "seaside" Status.published with
      cuisineId := some "it", locationId := some "sea", cookTime := some 12 },
    { Recipe.bare "slow" Status.published with cuisineId := some "it", cookTime := some 31 },
    { Recipe.bare "untimed" Status.published with cuisineId := some "it" },
    { Recipe.bare "other" Status.published with
      cuisineId := some "fr", tags := ["q"], cookTime := some 12 }]

/-- Ids in a list, a number and a text among them, and by themselves; a numeral with blanks and a
number; and a condition that nothing can be made of. -/
def brunch : Rule :=
  .custom [⟨some "OR", [⟨some "cuisineId", some "in", .arr [.str "it", .num (.int 7)], none⟩,
      ⟨some "tag", some "eq", .str "v", some "diet"⟩]⟩,
    ⟨some "AND", [⟨some "cookTime", some "lte", .str " 30 ", none⟩,
      ⟨some "servings", some "neq", .num (.int 4), none⟩,
      ⟨some "difficulty", some "in", .num (.int 1), none⟩]⟩]
    [⟨some "locationId", some "eq", .str "sea", none⟩]

theorem holds_compile_iff_brunch :
    (∀ x ∈ market.recipes, (brunch.compile .unlinked ⟨0⟩).predicate.holds market x = true ↔
      x.id = "one" ∨ x.id = "two") ∧
    ∀ x ∈ market.recipes, brunch.Holds market .unlinked x ↔ x.id = "one" ∨ x.id = "two" := by
  have compiled : ∀ x ∈ market.recipes,
      (brunch.compile .unlinked ⟨0⟩).predicate.holds market x = true ↔
        x.id = "one" ∨ x.id = "two" := by decide +kernel
  refine ⟨compiled, fun x row => ?_⟩
  exact (holds_compile_iff brunch .unlinked ⟨0⟩ market x).2.symm.trans (compiled x row)

end Rule

end Cookbook
