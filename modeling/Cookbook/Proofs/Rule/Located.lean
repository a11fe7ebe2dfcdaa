import Cookbook.Proofs.Rule.Shaped

/-!
# Where problems are reported

A rule is read in two passes: the shape of all its elements first, and their content only if nothing
is wrong with any shape.  Within each pass every element reports what is wrong with it at its own
place, whatever the others are.
-/

namespace Cookbook

open Schema

namespace Rule

/-- What is wrong with the content of the element at a place, but for the elements inside it. -/
def Site.content (m : Mode) (j : Json) : Site → List Problem
  | rule =>
    match m with
    | .auto => autoProblems (wordAt j.members ["field"]) (wordAt j.members ["value"])
    | .custom => []
  | group i => if (Group.given j).LogicKnown then [] else [⟨.ofGroup i, "logic", .logic⟩]
  | condition i k => (Condition.given j).problems (.ofCondition i k)
  | exclude i => (Condition.given j).problems (.ofExclude i)

/-- The shape of every element is right. -/
def Shaped (m : Mode) (ms : Members) : Prop :=
  ∀ (p : Site) j, p.element? m ms = some j → p.faults m j = []

theorem mapIdx_map {α β γ : Type} (f : α → β) (g : Nat → β → γ) (xs : List α) :
    (xs.map f).mapIdx g = xs.mapIdx fun i x => g i (f x) := by
  simp [List.mapIdx_eq_zipIdx_map, List.zipIdx_map, Function.comp_def]

theorem Group.problems_given (i : Nat) (j : Json) :
    (Group.given j).problems i = Group.spread (fun p j => p.content .custom j) i j := by
  rw [Group.problems, Group.spread, Group.given, mapIdx_map]
  rfl

/-- The problems of the content of a custom rule are reported element by element. -/
theorem customProblems_given (ms : Members) :
    customProblems ((itemsAt ms "groups").map Group.given)
        ((itemsAt ms "exclude").map Condition.given) =
      spread [] [] (fun p j => p.content .custom j) ms := by
  rw [customProblems, spread, mapIdx_map, mapIdx_map]
  simp only [Group.problems_given]
  rfl

section Passes

variable {ms : Members} {m : Mode} {p : Site} {j : Json} {x : Problem}

/-- What the first pass reports. -/
def faultsOf (ms : Members) : Mode → List Problem
  | .auto => Site.rule.faults .auto (.obj ms)
  | .custom => spread ((listFaults ms "groups").at .whole) ((listFaults ms "exclude").at .whole)
      (fun p j => p.faults .custom j) ms

/-- What the second pass reports. -/
def contentOf (ms : Members) : Mode → List Problem
  | .auto => Site.rule.content .auto (.obj ms)
  | .custom => spread [] [] (fun p j => p.content .custom j) ms

theorem Site.owns_at (p : Site) (fs : Faults) : p.Owns (fs.at p.location) := by
  intro x member
  obtain ⟨_, _, rfl⟩ := List.mem_map.mp member
  rfl

theorem Site.owns_faults (p : Site) (j : Json) : p.Owns (p.faults m j) := p.owns_at _

theorem Site.owns_content (p : Site) (j : Json) : p.Owns (p.content m j) := by
  intro x member
  have stays {c : Condition} {l : Location} (member : x ∈ c.problems l) : x.location = l := by
    obtain ⟨_, _, rfl⟩ := List.mem_map.mp member
    rfl
  cases p with
  | rule =>
    cases m with
    | auto =>
      rcases List.mem_append.mp member with named | valued
      · obtain ⟨_, _, rfl⟩ := List.mem_map.mp named
        rfl
      · split at valued
        · obtain rfl := List.mem_singleton.mp valued
          rfl
        · cases valued
    | custom => cases member
  | group i =>
    simp only [content] at member
    split at member
    · cases member
    · obtain rfl := List.mem_singleton.mp member
      rfl
  | condition i k => exact stays member
  | exclude i => exact stays member

theorem Site.element?_auto (element : p.element? .auto ms = some j) : p = .rule ∧ j = .obj ms := by
  cases p with
  | rule => exact ⟨rfl, (Option.some.inj element).symm⟩
  | _ => cases element

theorem Site.faults_rule (ms : Members) : Site.rule.faults .custom (.obj ms) =
    (listFaults ms "groups").at .whole ++ (listFaults ms "exclude").at .whole :=
  Faults.at_append _ _

theorem filter_faultsOf (element : p.element? m ms = some j) :
    (faultsOf ms m).filter (·.location = p.location) = p.faults m j := by
  cases m with
  | auto =>
    obtain ⟨rfl, rfl⟩ := Site.element?_auto element
    exact (Site.owns_faults _ _).filter_self
  | custom =>
    exact filter_spread Site.owns_faults (Site.owns_at .rule _) (Site.owns_at .rule _)
      (Site.faults_rule ms) element

theorem filter_contentOf (element : p.element? m ms = some j) :
    (contentOf ms m).filter (·.location = p.location) = p.content m j := by
  cases m with
  | auto =>
    obtain ⟨rfl, rfl⟩ := Site.element?_auto element
    exact (Site.owns_content (m := .auto) .rule (.obj ms)).filter_self
  | custom =>
    have placed (p : Site) (j : Json) : p.Owns (p.content .custom j) := p.owns_content j
    have whole : Site.rule.content .custom (.obj ms) = [] ++ [] := rfl
    have none : Site.rule.Owns [] := List.forall_mem_nil _
    exact filter_spread placed none none whole element

theorem exists_of_mem_faultsOf (member : x ∈ faultsOf ms m) :
    ∃ (p : Site) (j : Json), p.element? m ms = some j ∧ x ∈ p.faults m j := by
  cases m with
  | auto => exact ⟨.rule, _, rfl, member⟩
  | custom =>
    rcases exists_of_mem_spread member with (first | last) | inner
    · exact ⟨.rule, _, rfl, Site.faults_rule ms ▸ List.mem_append_left _ first⟩
    · exact ⟨.rule, _, rfl, Site.faults_rule ms ▸ List.mem_append_right _ last⟩
    · exact inner

theorem exists_of_mem_contentOf (member : x ∈ contentOf ms m) :
    ∃ (p : Site) (j : Json), p.element? m ms = some j ∧ x ∈ p.content m j := by
  cases m with
  | auto => exact ⟨.rule, _, rfl, member⟩
  | custom => exact (exists_of_mem_spread member).resolve_left (by simp)

theorem faultsOf_eq_nil_iff : faultsOf ms m = [] ↔ Shaped m ms := by
  constructor
  · intro clear p j element
    rw [← filter_faultsOf element, clear, List.filter_nil]
  · intro shaped
    refine List.eq_nil_iff_forall_not_mem.mpr fun x member => ?_
    obtain ⟨p, j, element, faulty⟩ := exists_of_mem_faultsOf member
    rw [shaped p j element] at faulty
    cases faulty

/-- The issues of the reading are all that is reported, unless there are none. -/
theorem problemsOf_eq_of_shape {read : Checked Rule} (shaped : shape j = read)
    {faults content : List Problem} (faulty : read.issues.map Problem.ofIssue = faults)
    (clear : ∀ r, read = .ok r → r.problems = content) :
    problemsOf j = if faults = [] then content else faults := by
  have explained := explained_shape j
  rw [shaped] at explained
  rw [problemsOf, ofJson, shaped]
  cases read with
  | ok r =>
    obtain rfl : [] = faults := faulty
    rw [if_pos rfl]
    exact clear r rfl
  | bad is =>
    obtain rfl : is.map Problem.ofIssue = faults := faulty
    have wrong : is.map Problem.ofIssue ≠ [] := by
      intro nothing
      exact explained (congrArg Checked.bad (List.map_eq_nil_iff.mp nothing))
    rw [if_neg wrong]

/-- The second pass is made only if the first one finds nothing. -/
theorem problemsOf_eq (known : ms.lookup modeName = some (.str m.name)) :
    problemsOf (.obj ms) = if faultsOf ms m = [] then contentOf ms m else faultsOf ms m := by
  cases m with
  | auto =>
    have read : shape (.obj ms) = autoOfMembers .json ms := by
      simp [shape, ofMembers, known, Mode.name]
    apply problemsOf_eq_of_shape read (at_autoOfMembers ms)
    intro r readAs
    rw [eq_auto_given readAs]
    rfl
  | custom =>
    have read : shape (.obj ms) = customOfMembers .json ms := by
      simp [shape, ofMembers, known, Mode.name]
    apply problemsOf_eq_of_shape read (at_customOfMembers ms)
    intro r readAs
    rw [eq_custom_given readAs]
    exact customProblems_given ms

end Passes

namespace Condition

variable {c : Condition} {l : Location} {x : Problem}

/-- What can be wrong with the content of a condition, with the name it is filed under. -/
inductive Violates (c : Condition) : String → Cause → Prop where
  | noField (absent : presentText? c.field = none) : Violates c "field" .field
  | strangeField {s : String} (present : presentText? c.field = some s)
      (unknown : Field.ofName? s = none) : Violates c "field" (.fieldUnknown s)
  | noOperator (absent : presentText? c.operator = none) : Violates c "operator" .operator
  | strangeOperator {s : String} (present : presentText? c.operator = some s)
      (unknown : Operator.ofName? s = none) : Violates c "operator" (.operatorUnknown s)
  | noValue (absent : c.value = .null) : Violates c "value" .value
  | illegal {f : Field} {o : Operator} (field : c.field? = some f)
      (operator : c.operator? = some o) (illegal : ¬ o.Legal f.kind) :
      Violates c "operator" (.operatorIllegal f o)
  | noTagType (field : c.field? = some .tag) (absent : presentText? c.tagType = none) :
      Violates c "tagType" .tagType
  | noNumber {f : Field} (field : c.field? = some f) (numeric : f.kind = .numeric)
      (present : c.value ≠ .null) (unread : c.value.number? = none) :
      Violates c "value" (.number f)

theorem mem_nameProblems {α : Type} {t : Option String} {read : String → Option α}
    {missing : Cause} {unknown : String → Cause} {cause : Cause} :
    cause ∈ nameProblems t (t.bind read).isSome missing unknown ↔
      (presentText? t = none ∧ cause = missing) ∨
        ∃ s, presentText? t = some s ∧ read s = none ∧ cause = unknown s := by
  unfold nameProblems
  cases present : presentText? t with
  | none => simp
  | some s =>
    obtain ⟨rfl, _⟩ := Option.filter_eq_some_iff.mp present
    cases known : read s <;> simp [known]

theorem mem_legalityProblems {f : Field} {cause : Cause} : cause ∈ c.legalityProblems f ↔
    ∃ o, c.operator? = some o ∧ ¬ o.Legal f.kind ∧ cause = .operatorIllegal f o := by
  unfold legalityProblems
  cases c.operator? with
  | none => simp
  | some o => by_cases legal : o.Legal f.kind <;> simp [legal]

theorem mem_tagTypeProblems {f : Field} {cause : Cause} : cause ∈ c.tagTypeProblems f ↔
    f = .tag ∧ presentText? c.tagType = none ∧ cause = .tagType := by
  unfold tagTypeProblems
  split <;> simp_all

theorem mem_numberProblems {f : Field} {cause : Cause} : cause ∈ c.numberProblems f ↔
    f.kind = .numeric ∧ c.value ≠ .null ∧ c.value.number? = none ∧ cause = .number f := by
  unfold numberProblems
  split <;> simp_all

theorem violates_of_mem_fieldwiseProblems {name : String} {cause : Cause}
    (fieldwise : (name, cause) ∈ c.fieldwiseProblems) : c.Violates name cause := by
  unfold fieldwiseProblems at fieldwise
  split at fieldwise
  next => cases fieldwise
  next f field =>
    simp only [List.mem_append, List.mem_map, Prod.mk.injEq] at fieldwise
    rcases fieldwise with (⟨_, wrong, rfl, rfl⟩ | ⟨_, wrong, rfl, rfl⟩) | ⟨_, wrong, rfl, rfl⟩
    · obtain ⟨o, operator, illegal, rfl⟩ := mem_legalityProblems.mp wrong
      exact .illegal field operator illegal
    · obtain ⟨rfl, absent, rfl⟩ := mem_tagTypeProblems.mp wrong
      exact .noTagType field absent
    · obtain ⟨numeric, present, unread, rfl⟩ := mem_numberProblems.mp wrong
      exact .noNumber field numeric present unread

theorem mem_fieldwiseProblems_of_field? {f : Field} (field : c.field? = some f) {name : String}
    {cause : Cause} (wrong : name = "operator" ∧ cause ∈ c.legalityProblems f ∨
      name = "tagType" ∧ cause ∈ c.tagTypeProblems f ∨
      name = "value" ∧ cause ∈ c.numberProblems f) : (name, cause) ∈ c.fieldwiseProblems := by
  unfold fieldwiseProblems
  simp only [field, List.mem_append, List.mem_map, Prod.mk.injEq]
  rcases wrong with ⟨rfl, wrong⟩ | ⟨rfl, wrong⟩ | ⟨rfl, wrong⟩
  · exact .inl (.inl ⟨_, wrong, rfl, rfl⟩)
  · exact .inl (.inr ⟨_, wrong, rfl, rfl⟩)
  · exact .inr ⟨_, wrong, rfl, rfl⟩

/-- Everything that is wrong with the content of a condition is reported, and nothing else. -/
theorem mem_problems : x ∈ c.problems l ↔
    ∃ name cause, c.Violates name cause ∧ x = ⟨l, name, cause⟩ := by
  simp only [problems, List.mem_map, List.mem_append]
  constructor
  · rintro ⟨⟨name, cause⟩, ((⟨_, wrong, same⟩ | ⟨_, wrong, same⟩) | ⟨_, wrong, same⟩) | wrong, rfl⟩
    · obtain ⟨rfl, rfl⟩ := Prod.mk.inj same
      rcases mem_nameProblems.mp wrong with ⟨absent, rfl⟩ | ⟨s, present, unknown, rfl⟩
      · exact ⟨_, _, .noField absent, rfl⟩
      · exact ⟨_, _, .strangeField present unknown, rfl⟩
    · obtain ⟨rfl, rfl⟩ := Prod.mk.inj same
      rcases mem_nameProblems.mp wrong with ⟨absent, rfl⟩ | ⟨s, present, unknown, rfl⟩
      · exact ⟨_, _, .noOperator absent, rfl⟩
      · exact ⟨_, _, .strangeOperator present unknown, rfl⟩
    · obtain ⟨rfl, rfl⟩ := Prod.mk.inj same
      unfold valueProblems at wrong
      split at wrong
      next absent =>
        obtain rfl := List.mem_singleton.mp wrong
        exact ⟨_, _, .noValue absent, rfl⟩
      next => cases wrong
    · exact ⟨name, cause, violates_of_mem_fieldwiseProblems wrong, rfl⟩
  · rintro ⟨name, cause, violates, rfl⟩
    refine ⟨(name, cause), ?_, rfl⟩
    cases violates with
    | noField absent => exact .inl (.inl (.inl ⟨_, mem_nameProblems.mpr (.inl ⟨absent, rfl⟩), rfl⟩))
    | strangeField present unknown =>
      exact .inl (.inl (.inl ⟨_, mem_nameProblems.mpr (.inr ⟨_, present, unknown, rfl⟩), rfl⟩))
    | noOperator absent =>
      exact .inl (.inl (.inr ⟨_, mem_nameProblems.mpr (.inl ⟨absent, rfl⟩), rfl⟩))
    | strangeOperator present unknown =>
      exact .inl (.inl (.inr ⟨_, mem_nameProblems.mpr (.inr ⟨_, present, unknown, rfl⟩), rfl⟩))
    | noValue absent => exact .inl (.inr ⟨.value, by simp [valueProblems, absent], rfl⟩)
    | illegal field operator illegal =>
      exact .inr (mem_fieldwiseProblems_of_field? field
        (.inl ⟨rfl, mem_legalityProblems.mpr ⟨_, operator, illegal, rfl⟩⟩))
    | noTagType field absent =>
      exact .inr (mem_fieldwiseProblems_of_field? field
        (.inr (.inl ⟨rfl, mem_tagTypeProblems.mpr ⟨rfl, absent, rfl⟩⟩)))
    | noNumber field numeric present unread =>
      exact .inr (mem_fieldwiseProblems_of_field? field
        (.inr (.inr ⟨rfl, mem_numberProblems.mpr ⟨numeric, present, unread, rfl⟩⟩)))

end Condition

/-- Every problem of a rule of a known mode is reported for one of its elements.  What is wrong with
the shape of an element is reported at its place, whatever else is in the rule.  What is wrong with
its content is reported at its place, all of it, exactly if the shape of every element is right.  So
another element can hide problems of this one only by having a wrong shape itself. -/
theorem problems_located {ms : Members} {m : Mode}
    (known : ms.lookup modeName = some (.str m.name)) :
    (∀ x ∈ problemsOf (.obj ms), ∃ (p : Site) (j : Json), p.element? m ms = some j ∧
      x.location = p.location ∧ (x ∈ p.faults m j ∨ x ∈ p.content m j)) ∧
    (∀ (p : Site) (j : Json), p.element? m ms = some j →
      (¬ Shaped m ms →
        (problemsOf (.obj ms)).filter (·.location = p.location) = p.faults m j) ∧
      (Shaped m ms →
        (problemsOf (.obj ms)).filter (·.location = p.location) = p.content m j)) ∧
    (∀ (p : Site) (j : Json) (ms' : Members), ms'.lookup modeName = some (.str m.name) →
      p.element? m ms = some j → p.element? m ms' = some j →
      p.faults m j ≠ [] ∨ (Shaped m ms ↔ Shaped m ms') →
        (problemsOf (.obj ms')).filter (·.location = p.location) =
          (problemsOf (.obj ms)).filter (·.location = p.location)) ∧
    ∀ (c : Condition) (l : Location) (x : Problem),
      x ∈ c.problems l ↔ ∃ name cause, c.Violates name cause ∧ x = ⟨l, name, cause⟩ := by
  have faulty {ms : Members} (known : ms.lookup modeName = some (.str m.name)) {p : Site} {j : Json}
      (element : p.element? m ms = some j) (unshaped : ¬ Shaped m ms) :
      (problemsOf (.obj ms)).filter (·.location = p.location) = p.faults m j := by
    rw [problemsOf_eq known, if_neg (faultsOf_eq_nil_iff.not.mpr unshaped), filter_faultsOf element]
  have sound {ms : Members} (known : ms.lookup modeName = some (.str m.name)) {p : Site} {j : Json}
      (element : p.element? m ms = some j) (shaped : Shaped m ms) :
      (problemsOf (.obj ms)).filter (·.location = p.location) = p.content m j := by
    rw [problemsOf_eq known, if_pos (faultsOf_eq_nil_iff.mpr shaped), filter_contentOf element]
  refine ⟨fun x member => ?_, fun p j element => ⟨faulty known element, sound known element⟩,
    fun p j ms' known' element element' reason => ?_, fun c l x => Condition.mem_problems⟩
  · rw [problemsOf_eq known] at member
    split at member
    · obtain ⟨p, j, element, wrong⟩ := exists_of_mem_contentOf member
      exact ⟨p, j, element, p.owns_content j x wrong, .inr wrong⟩
    · obtain ⟨p, j, element, wrong⟩ := exists_of_mem_faultsOf member
      exact ⟨p, j, element, p.owns_faults j x wrong, .inl wrong⟩
  · rcases reason with wrong | alike
    · rw [faulty known element fun shaped => wrong (shaped p j element),
        faulty known' element' fun shaped => wrong (shaped p j element')]
    · by_cases shaped : Shaped m ms
      · rw [sound known element shaped, sound known' element' (alike.mp shaped)]
      · rw [faulty known element shaped, faulty known' element' (alike.not.mp shaped)]

/-- A group whose word is none of the two. -/
def oddGroup : Json := .obj [("logic", .str "XOR"), ("conditions", .arr [])]

def oddOnly : Members := [("mode", .str "custom"), ("groups", .arr [oddGroup])]

/-- The same group, and another that is no group at all. -/
def oddAndFive : Members := [("mode", .str "custom"), ("groups", .arr [oddGroup, .int 5])]

theorem problems_located_odd :
    oddAndFive.lookup modeName = some (.str Mode.custom.name) ∧
    (Site.group 0).element? .custom oddOnly = some oddGroup ∧
    Shaped .custom oddOnly ∧ ¬ Shaped .custom oddAndFive ∧
    (problemsOf (.obj oddOnly)).filter (·.location = Location.ofGroup 0) =
      [⟨.ofGroup 0, "logic", .logic⟩] ∧
    (problemsOf (.obj oddAndFive)).filter (·.location = Location.ofGroup 1) =
      [⟨.ofGroup 1, "mode", .shape (.notPart groupKind)⟩] := by
  have known : oddOnly.lookup modeName = some (.str Mode.custom.name) := by decide
  have known' : oddAndFive.lookup modeName = some (.str Mode.custom.name) := by decide
  have shaped : Shaped .custom oddOnly := faultsOf_eq_nil_iff.mp (by decide)
  have unshaped : ¬ Shaped .custom oddAndFive := faultsOf_eq_nil_iff.not.mp (by decide)
  refine ⟨known', rfl, shaped, unshaped, ?_, ?_⟩
  · exact (((problems_located known).2.1 (.group 0) oddGroup rfl).2 shaped).trans (by decide)
  · exact (((problems_located known').2.1 (.group 1) (.int 5) rfl).1 unshaped).trans (by decide)

/-- A second group that is no group hides what is wrong with the first one. -/
theorem fault_hides_content :
    ¬ ∀ (ms ms' : Members) (m : Mode) (p : Site) (j : Json),
      ms.lookup modeName = some (.str m.name) → ms'.lookup modeName = some (.str m.name) →
      p.element? m ms = some j → p.element? m ms' = some j →
      ∀ x ∈ problemsOf (.obj ms), x.location = p.location → x ∈ problemsOf (.obj ms') := by
  intro stays
  have hidden := stays oddOnly oddAndFive .custom (.group 0) oddGroup (by decide) (by decide)
    rfl rfl ⟨.ofGroup 0, "logic", .logic⟩ (by decide) rfl
  exact absurd hidden (by decide)

end Rule

end Cookbook
