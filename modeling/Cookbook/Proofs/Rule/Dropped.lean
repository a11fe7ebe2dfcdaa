import Cookbook.Proofs.Rule.Meaning
import Cookbook.Rule.Check

/-!
# Dropped conditions

A condition is checked and compiled on separate accounts of what is wrong with it.  They agree: what
a compiled rule leaves out has a problem, and a missing tag type is the only problem that leaves a
condition in.  Every condition left out is warned of once, at its place.
-/

namespace Cookbook.Rule

section Names

variable {text : Option String} {known : Bool} {missing : Cause} {unknown : String → Cause}

/-- A name that is known is there. -/
theorem forall_nameProblems_iff (present : known = true → presentText? text ≠ none)
    (missed : missing ≠ .tagType) (strange : ∀ s, unknown s ≠ .tagType) :
    (∀ x ∈ nameProblems text known missing unknown, x = .tagType) ↔ known = true := by
  unfold nameProblems
  split
  next absent =>
    have blank : ¬ known = true := fun named => present named absent
    simp [blank, missed]
  next s _ => cases known <;> simp [strange s]

theorem presentText?_ne_none_of_bind {α : Type} {read : String → Option α} (blank : read "" = none)
    (named : (text.bind read).isSome = true) : presentText? text ≠ none := by
  cases text with
  | none => cases named
  | some s =>
    have nonempty : s ≠ "" := by
      rintro rfl
      simp [blank] at named
    simp [presentText?, Option.filter, nonempty]

end Names

namespace Condition

variable (c : Condition)

theorem forall_fieldProblems_iff :
    (∀ x ∈ c.fieldProblems, x = .tagType) ↔ c.field?.isSome = true :=
  forall_nameProblems_iff (presentText?_ne_none_of_bind (by decide)) nofun nofun

theorem forall_operatorProblems_iff :
    (∀ x ∈ c.operatorProblems, x = .tagType) ↔ c.operator?.isSome = true :=
  forall_nameProblems_iff (presentText?_ne_none_of_bind (by decide)) nofun nofun

theorem forall_valueProblems_iff : (∀ x ∈ c.valueProblems, x = .tagType) ↔ c.value ≠ .null := by
  unfold valueProblems
  split
  next absent => simp [absent]
  next present => simp [present]

theorem forall_fieldwiseProblems_iff :
    (∀ x ∈ c.fieldwiseProblems, x.2 = .tagType) ↔ ∀ f, c.field? = some f →
      (∀ o, c.operator? = some o → o.Legal f.kind) ∧
        (f.kind = .numeric → c.value ≠ .null → c.value.number?.isSome = true) := by
  unfold fieldwiseProblems
  split
  next unknown => simp [unknown]
  next f known =>
    have legal : (∀ x ∈ c.legalityProblems f, x = .tagType) ↔
        ∀ o, c.operator? = some o → o.Legal f.kind := by
      unfold legalityProblems
      cases c.operator? with
      | none => simp
      | some o => by_cases legal : o.Legal f.kind <;> simp [legal]
    have typed : ∀ x ∈ c.tagTypeProblems f, x = .tagType := by
      unfold tagTypeProblems
      split <;> simp
    have number : (∀ x ∈ c.numberProblems f, x = .tagType) ↔
        (f.kind = .numeric → c.value ≠ .null → c.value.number?.isSome = true) := by
      unfold numberProblems
      cases c.value.number? <;> by_cases numeric : f.kind = .numeric <;>
        by_cases absent : c.value = .null <;> simp [numeric, absent]
    simp only [known, Option.some.injEq, forall_eq', ← legal, ← number, List.forall_mem_append,
      List.forall_mem_map]
    exact ⟨fun ⟨⟨first, _⟩, last⟩ => ⟨first, last⟩, fun ⟨first, last⟩ => ⟨⟨first, typed⟩, last⟩⟩

/-- A condition has no problem, but perhaps for a tag type, exactly when it is supported. -/
theorem supported_iff_forall_problems (l : Location) :
    c.Supported ↔ ∀ p ∈ c.problems l, p.cause = .tagType := by
  simp only [problems, List.forall_mem_map, List.forall_mem_append, forall_fieldProblems_iff,
    forall_operatorProblems_iff, forall_valueProblems_iff, forall_fieldwiseProblems_iff,
    Supported, reads_iff]
  constructor
  · rintro ⟨f, o, field, operator, present, legal, number⟩
    simp only [field, operator, Option.isSome_some, Option.some.injEq, forall_eq', true_and]
    exact ⟨present, legal, fun numeric _ => number numeric⟩
  · rintro ⟨⟨⟨named, chosen⟩, present⟩, fits⟩
    obtain ⟨f, field⟩ := Option.isSome_iff_exists.mp named
    obtain ⟨o, operator⟩ := Option.isSome_iff_exists.mp chosen
    obtain ⟨legal, number⟩ := fits f field
    exact ⟨f, o, field, operator, present, legal o operator, fun numeric => number numeric present⟩

theorem predicate?_eq_none_iff (l : Location) :
    c.predicate? = none ↔ ∃ p ∈ c.problems l, p.cause ≠ .tagType := by
  have supported := (c.supported_iff_forall_problems l).symm.trans c.supported_iff
  rw [Option.eq_none_iff_forall_ne_some, ← not_exists, ← supported]
  simp

end Condition

/-- A condition with its place in a rule. -/
structure Placed where
  place : Location
  condition : Condition
deriving DecidableEq, Repr

def Placed.IsDropped (p : Placed) : Prop := p.condition.predicate? = none

instance : DecidablePred Placed.IsDropped := fun p =>
  inferInstanceAs (Decidable (p.condition.predicate? = none))

def Placed.warning (p : Placed) : Warning := p.condition.warning p.place

def Placed.warnings (p : Placed) : List Warning := p.condition.warnings p.place

theorem Placed.warnings_eq (p : Placed) :
    p.warnings = if p.IsDropped then [p.warning] else [] := by
  unfold Placed.warnings Condition.warnings
  split
  next q compiled => simp [IsDropped, compiled]
  next unsupported => simp [IsDropped, unsupported, Placed.warning]

def Group.placed (g : Group) (i : Nat) : List Placed :=
  g.conditions.mapIdx fun j c => ⟨.ofCondition i j, c⟩

/-- The conditions of a rule in its order, those of the groups before the exclusions. -/
def placed : Rule → List Placed
  | auto .. => []
  | custom groups exclude =>
    (groups.mapIdx fun i g => g.placed i).flatten ++ exclude.mapIdx fun i c => ⟨.ofExclude i, c⟩

/-- The conditions that the compiled rule leaves out. -/
def dropped (r : Rule) : List Placed := r.placed.filter fun p => p.IsDropped

theorem map_mapIdx {α β γ : Type} (f : Nat → α → β) (g : β → γ) (xs : List α) :
    (xs.mapIdx f).map g = xs.mapIdx fun i x => g (f i x) := by
  simp [List.mapIdx_eq_zipIdx_map, Function.comp_def]

theorem flatMap_warnings (ps : List Placed) :
    ps.flatMap Placed.warnings = (ps.filter fun p => p.IsDropped).map Placed.warning := by
  induction ps with
  | nil => rfl
  | cons p ps ih =>
    rw [List.flatMap_cons, ih, Placed.warnings_eq]
    by_cases unsupported : p.IsDropped <;> simp [unsupported]

theorem Group.warnings_eq_flatMap (g : Group) (i : Nat) :
    g.warnings i = (g.placed i).flatMap Placed.warnings := by
  rw [List.flatMap_def, placed, map_mapIdx]
  rfl

/-- Every condition that is left out is warned of once, in the order of the rule. -/
theorem customWarnings_eq (groups : List Group) (exclude : List Condition) :
    customWarnings groups exclude = (custom groups exclude).dropped.map Placed.warning := by
  have excluded : (exclude.mapIdx fun i c => c.warnings (.ofExclude i)).flatten =
      (exclude.mapIdx fun i c => (⟨.ofExclude i, c⟩ : Placed)).flatMap Placed.warnings := by
    rw [List.flatMap_def, map_mapIdx]
    rfl
  have grouped : (groups.mapIdx fun i g => g.warnings i).flatten =
      (groups.mapIdx fun i g => g.placed i).flatten.flatMap Placed.warnings := by
    simp only [Group.warnings_eq_flatMap, List.flatMap_def, List.map_flatten, List.flatten_flatten,
      map_mapIdx]
  rw [customWarnings, dropped, ← flatMap_warnings, placed, List.flatMap_append, grouped, excluded]

theorem mapIdx_ignoring {α β : Type} (g : α → β) (xs : List α) :
    (xs.mapIdx fun _ x => g x) = xs.map g :=
  List.mapIdx_eq_iff.mpr fun i => by simp

theorem map_condition_placed (groups : List Group) (exclude : List Condition) :
    (custom groups exclude).placed.map Placed.condition = (custom groups exclude).conditions := by
  have grouped : ∀ g : Group, ∀ i, (g.placed i).map Placed.condition = g.conditions := by
    intro g i
    rw [Group.placed, map_mapIdx, mapIdx_ignoring fun c => c, List.map_id']
  simp only [placed, conditions, List.map_append, List.map_flatten, map_mapIdx, grouped,
    mapIdx_ignoring, List.map_id', List.flatMap_def]

theorem mem_placed_custom {groups : List Group} {exclude : List Condition} {p : Placed} :
    p ∈ (custom groups exclude).placed ↔
      (∃ i, ∃ (within : i < groups.length), p ∈ groups[i].placed i) ∨
      ∃ i, ∃ (within : i < exclude.length), (⟨.ofExclude i, exclude[i]⟩ : Placed) = p := by
  simp [placed]

/-- What is wrong with a condition is wrong with its rule. -/
theorem problems_subset_of_mem_placed {r : Rule} {p : Placed} (part : p ∈ r.placed) :
    p.condition.problems p.place ⊆ r.problems := by
  intro x problem
  cases r with
  | auto => cases part
  | custom groups exclude =>
    refine List.mem_append.mpr ?_
    rcases mem_placed_custom.mp part with ⟨i, group, part⟩ | ⟨i, excluded, rfl⟩
    · obtain ⟨j, condition, rfl⟩ := List.mem_mapIdx.mp part
      refine .inl (List.mem_flatten.mpr ⟨_, List.mem_mapIdx.mpr ⟨i, group, rfl⟩, ?_⟩)
      exact List.mem_append_right _
        (List.mem_flatten.mpr ⟨_, List.mem_mapIdx.mpr ⟨j, condition, rfl⟩, problem⟩)
    · exact .inr (List.mem_flatten.mpr ⟨_, List.mem_mapIdx.mpr ⟨i, excluded, rfl⟩, problem⟩)

/-- No condition of an accepted rule is left out. -/
theorem Sound.not_isDropped {r : Rule} (sound : r.Sound) {p : Placed} (part : p ∈ r.placed) :
    ¬ p.IsDropped := by
  intro dropped
  obtain ⟨x, problem, _⟩ := (p.condition.predicate?_eq_none_iff p.place).mp dropped
  have listed := problems_subset_of_mem_placed part problem
  rw [sound] at listed
  cases listed

theorem Sound.dropped_eq_nil {r : Rule} (sound : r.Sound) : r.dropped = [] := by
  simpa [dropped] using fun p part => sound.not_isDropped part

theorem Sound.exists_predicate? {groups : List Group} {exclude : List Condition}
    (sound : (custom groups exclude).Sound) {c : Condition}
    (part : c ∈ (custom groups exclude).conditions) : ∃ q, c.predicate? = some q := by
  rw [← map_condition_placed] at part
  obtain ⟨p, placed, rfl⟩ := List.mem_map.mp part
  exact Option.ne_none_iff_exists'.mp (sound.not_isDropped placed)

theorem leaves_composed_custom (groups : List Group) (exclude : List Condition) (links : Links) :
    ((custom groups exclude).composed links).leaves =
      (custom groups exclude).conditions.filterMap Condition.predicate? := by
  rw [composed, leaves_customPredicate, conditions, List.filterMap_append, List.filterMap_flatMap]

theorem Links.exists_follow? (links : Links) {f : Field} (linkable : f ∈ Field.linkable) :
    ∃ link, links.follow? f = some link := by
  rcases f with k | _ | _ | m
  · exact ⟨_, links.follow?_relation k⟩
  · exact ⟨_, links.follow?_tagId⟩
  · simp [Field.linkable] at linkable
  · simp [Field.linkable] at linkable

/-- An accepted automatic rule names a field that a collection can be linked to. -/
theorem Sound.exists_linkable {field value tagType : Option String}
    (sound : (auto field value tagType).Sound) :
    ∃ f ∈ Field.linkable, field.bind Field.ofName? = some f := by
  have named := List.map_eq_nil_iff.mp (List.append_eq_nil_iff.mp sound).1
  split at named
  next => cases named
  next s present =>
    obtain ⟨rfl, _⟩ := Option.filter_eq_some_iff.mp present
    split at named
    next linkable =>
      obtain ⟨f, known, listed⟩ := (Option.any_eq_true ..).mp linkable
      exact ⟨f, List.contains_iff_mem.mp listed, known⟩
    next => cases named

/-- Checking and compiling agree.  A condition has no predicate exactly if it has a problem other
than its tag type, and is then warned of once, at its place.  A custom rule warns of the conditions
that it drops, in its order, and an accepted one drops none; an accepted automatic rule only warns
of a link that is missing. -/
theorem warnings_iff_problems :
    (∀ (c : Condition) (l : Location),
      (c.predicate? = none ↔ ∃ p ∈ c.problems l, p.cause ≠ .tagType) ∧
      (c.predicate? = none → ∃ w, c.warnings l = [w] ∧ w.code = .unsupportedCondition ∧
        w.location = some l.marks) ∧
      (c.predicate? ≠ none → c.warnings l = [])) ∧
    (∀ (groups : List Group) (exclude : List Condition) (links : Links) (now : Instant),
      let r := custom groups exclude
      (r.compile links now).warnings = r.dropped.map Placed.warning ∧
      (r.composed links).leaves = r.conditions.filterMap Condition.predicate? ∧
      (r.Sound → (r.compile links now).warnings = [] ∧
        ∀ c ∈ r.conditions, ∃ q ∈ (r.composed links).leaves, c.predicate? = some q)) ∧
    ∀ (field value tagType : Option String) (links : Links) (now : Instant),
      (auto field value tagType).Sound →
      ∀ w ∈ ((auto field value tagType).compile links now).warnings,
        ∃ f link, field.bind Field.ofName? = some f ∧ links.follow? f = some link ∧
          presentText? link = none ∧ w = unlinkedField f := by
  refine ⟨fun c l => ⟨c.predicate?_eq_none_iff l, fun unsupported => ?_, fun supported => ?_⟩,
    fun groups exclude links now => ?_, fun field value tagType links now sound w warned => ?_⟩
  · exact ⟨c.warning l, by simp [Condition.warnings, unsupported], rfl, rfl⟩
  · obtain ⟨q, compiled⟩ := Option.ne_none_iff_exists'.mp supported
    simp [Condition.warnings, compiled]
  · have warned := customWarnings_eq groups exclude
    have leaves := leaves_composed_custom groups exclude links
    refine ⟨warned, leaves, fun sound => ⟨?_, fun c part => ?_⟩⟩
    · rw [sound.dropped_eq_nil] at warned
      exact warned
    · obtain ⟨q, compiled⟩ := sound.exists_predicate? part
      exact ⟨q, leaves ▸ List.mem_filterMap.mpr ⟨c, part, compiled⟩, compiled⟩
  · obtain ⟨f, linkable, named⟩ := sound.exists_linkable
    obtain ⟨link, followed⟩ := links.exists_follow? linkable
    simp only [compile, warnings, bind, named, followed] at warned
    cases absent : presentText? link with
    | some id => simp [absent] at warned
    | none =>
      simp only [absent, List.mem_singleton] at warned
      exact ⟨f, link, named, followed, absent, warned⟩

def unvalued : Condition := ⟨some "cookTime", some "lt", .null, none⟩

def quick : Rule :=
  .custom [⟨some "AND", [⟨some "cookTime", some "lt", .str " 30 ", none⟩]⟩]
    [⟨some "tag", some "in", .arr [.str "fried"], some "method"⟩]

def followed : Rule := .auto (some "cuisineId") (some "it") none

theorem warnings_iff_problems_quick :
    (unvalued.predicate? = none ∧ ∃ w, unvalued.warnings (.ofExclude 1) = [w] ∧
      w.code = .unsupportedCondition ∧ w.location = some (Location.ofExclude 1).marks) ∧
    (∀ c ∈ quick.conditions, c.predicate? ≠ none ∧ c.warnings .whole = []) ∧
    (quick.Sound ∧ (quick.compile .unlinked ⟨0⟩).warnings = []) ∧
    followed.Sound ∧ (followed.compile .unlinked ⟨0⟩).warnings ≠ [] ∧
      ∀ w ∈ (followed.compile .unlinked ⟨0⟩).warnings, ∃ f, w = unlinkedField f := by
  have unsupported : unvalued.predicate? = none := by decide
  have supported : ∀ c ∈ quick.conditions, c.predicate? ≠ none := by decide
  have accepted : quick.Sound := by decide
  have linkable : followed.Sound := by decide
  obtain ⟨checked, compiled, linked⟩ := warnings_iff_problems
  refine ⟨⟨unsupported, (checked unvalued _).2.1 unsupported⟩,
    fun c part => ⟨supported c part, (checked c _).2.2 (supported c part)⟩,
    ⟨accepted, ((compiled _ _ .unlinked ⟨0⟩).2.2 accepted).1⟩, linkable, by decide, ?_⟩
  intro w warned
  obtain ⟨f, _, _, _, _, rfl⟩ := linked _ _ _ .unlinked ⟨0⟩ linkable w warned
  exact ⟨f, rfl⟩

end Cookbook.Rule
