import Cookbook.Proofs.Schema.Reading
import Cookbook.Proofs.Shelf.Operations

/-!
# Updates

What an update leaves of a row, part by part of its request.  A part that is absent stays, and
`null` stands for no change, nothing or an empty list, as the part may have it.  The only part that
may not be stored as it was asked for is a rule that differs from the old one in the kinds of its
numbers alone.
-/

namespace Cookbook

open Schema

namespace Schema

variable {α : Type}

/-- The part is required: `null` changes it as little as its absence does. -/
def Kept (read : Shape α) (old : α) : Option Json → α → Prop
  | none, new => new = old
  | some j, new => if j = .null then new = old else read j = .ok new

/-- The part may be missing, and is after `null`. -/
def Cleared (old : Option String) : Option Json → Option String → Prop
  | none, new => new = old
  | some j, new => if j = .null then new = none else ∃ s, j = .str s ∧ new = some s

/-- The part is a list without repetitions, empty after `null`. -/
def Listed (old : Option (List String)) : Option Json → Option (List String) → Prop
  | none, new => new = old
  | some j, new =>
    if j = .null then new = some [] else ∃ ids, j = .texts ids ∧ new = some (distinct ids)

variable {ms : Members} {names : List String}

theorem kept_of_eq_ok {read : Shape α} {o : Option α}
    (requested : Changes.kept ms names read = .ok o) (old : α) :
    Kept read old (given? ms names) (o.getD old) := by
  obtain ⟨given, found, rfl⟩ := Checked.map_eq_ok_iff.mp requested
  rcases of_member?_eq_ok found with ⟨absent, rfl⟩ | ⟨j, a, present, readAs, rfl⟩
  · simp [absent, Kept]
  rcases of_optional_eq_ok readAs with ⟨rfl, rfl⟩ | ⟨some, v, value, rfl⟩
  · simp [present, Kept]
  · simpa [present, Kept, some] using value

theorem cleared_of_eq_ok {o : Option (Option String)}
    (requested : member? ms names (optional text) = .ok o) (old : Option String) :
    Cleared old (given? ms names) (o.getD old) := by
  rcases of_member?_eq_ok requested with ⟨absent, rfl⟩ | ⟨j, a, present, readAs, rfl⟩
  · simp [absent, Cleared]
  rcases of_optional_eq_ok readAs with ⟨rfl, rfl⟩ | ⟨some, v, value, rfl⟩
  · simp [present, Cleared]
  · simp [present, Cleared, of_text_eq_ok value]

theorem listed_of_eq_ok {o : Option (List String)} (requested : Changes.listed ms names = .ok o)
    (old : Option (List String)) :
    Listed old (given? ms names) ((o.map distinct).orElse fun _ => old) := by
  obtain ⟨given, found, rfl⟩ := Checked.map_eq_ok_iff.mp requested
  rcases of_member?_eq_ok found with ⟨absent, rfl⟩ | ⟨j, a, present, readAs, rfl⟩
  · simp [absent, Listed]
  rcases of_optional_eq_ok readAs with ⟨rfl, rfl⟩ | ⟨some, v, value, rfl⟩
  · simp [present, Listed]
  · have ids := of_list_text_eq_ok value
    simp only [present, Listed, if_neg some]
    exact ⟨v, ids, rfl⟩

end Schema

namespace Collection

/-- The rule is stored as it is written after it was checked, unless it is alike to the old one:
then the old one stays. -/
def Ruled (old : Json) : Option Json → Json → Prop
  | none, new => new = old
  | some j, new =>
    if j = .null then new = old
    else ∃ r, Rule.accept j = .ok r ∧ new = if r.toJson.alike old then old else r.toJson

/-- What an update with these members makes of a row. -/
structure UpdatedBy (ms : Members) (now : Instant) (c d : Collection) : Prop where
  name : Kept nonEmptyText c.name (given? ms ["name"]) d.name
  slug : Kept nonEmptyText c.slug (given? ms ["slug"]) d.slug
  type : Kept text c.type (given? ms ["type"]) d.type
  status : Kept (choice states) c.status (given? ms ["status"]) d.status
  minRequired :
    Kept (atLeast 0) c.minRequired (given? ms (spellings "min_required")) d.minRequired
  targetCount :
    Kept (atLeast 0) c.targetCount (given? ms (spellings "target_count")) d.targetCount
  sortOrder : Kept whole c.sortOrder (given? ms (spellings "sort_order")) d.sortOrder
  path : Cleared c.path (given? ms ["path"]) d.path
  description : Cleared c.description (given? ms ["description"]) d.description
  cuisine : Cleared c.links.cuisine (given? ms (spellings "cuisine_id")) d.links.cuisine
  location : Cleared c.links.location (given? ms (spellings "location_id")) d.links.location
  tag : Cleared c.links.tag (given? ms (spellings "tag_id")) d.links.tag
  pinned : Listed c.pinned (given? ms (spellings "pinned_recipe_ids")) d.pinned
  excluded : Listed c.excluded (given? ms (spellings "excluded_recipe_ids")) d.excluded
  rules : Ruled c.rules (given? ms ["rules"]) d.rules
  id : d.id = c.id
  publishedAt : d.publishedAt = c.publishedAt
  createdAt : d.createdAt = c.createdAt
  updatedAt : d.updatedAt = now
  cached : d.cached = c.cached
  cachedAt : d.cachedAt = if InputsDiffer c d then none else c.cachedAt

theorem change_eq (c : Collection) (ch : Changes) (now : Instant) :
    c.change ch now = { c.edited ch with
      cachedAt := if InputsDiffer c (c.edited ch) then none else c.cachedAt
      updatedAt := now } := by
  unfold change
  dsimp only
  split <;> rfl

theorem newRules_newRules (old : Json) (given : Option Json) :
    newRules (newRules old given) given = newRules old given := by
  cases given with
  | none => rfl
  | some j =>
    unfold newRules
    by_cases alike : j.alike old
    · simp [alike]
    · simp [alike]

theorem edited_edited (c : Collection) (ch : Changes) :
    (c.edited ch).edited ch = c.edited ch := by
  have again {α : Type} (o : Option α) (x : α) : o.getD (o.getD x) = o.getD x := by
    cases o <;> rfl
  have listed (o x : Option (List String)) :
      (o.orElse fun _ => o.orElse fun _ => x) = o.orElse fun _ => x := by
    cases o <;> rfl
  simp only [edited, again, listed, newRules_newRules]

theorem edited_change (c : Collection) (ch : Changes) (now : Instant) :
    (c.change ch now).edited ch = c.change ch now := by
  rw [change_eq]
  exact congrArg (fun d : Collection => { d with
    cachedAt := if InputsDiffer c (c.edited ch) then none else c.cachedAt
    updatedAt := now }) (edited_edited c ch)

theorem not_inputsDiffer_self (c : Collection) : ¬ InputsDiffer c c := by simp [InputsDiffer]

/-- To make a change again changes nothing. -/
theorem change_change (c : Collection) (ch : Changes) (now : Instant) :
    (c.change ch now).change ch now = c.change ch now := by
  rw [change_eq (c.change ch now), edited_change, if_neg (not_inputsDiffer_self _)]
  unfold change
  rfl

theorem eq_of_rawRule_eq_ok {j rule : Json} (readAs : rawRule j = .ok rule) : rule = j := by
  cases j with
  | obj ms =>
    cases readAs
    rfl
  | _ => cases readAs

theorem ruled_of_eq_ok {ms : Members} {o : Option Json} {rules : Option Rule}
    (requested : Changes.kept ms ["rules"] rawRule = .ok o)
    (accepted : o.map Rule.accept = rules.map Except.ok) (old : Json) :
    Ruled old (given? ms ["rules"]) (newRules old (rules.map Rule.toJson)) := by
  obtain ⟨given, found, rfl⟩ := Checked.map_eq_ok_iff.mp requested
  rcases of_member?_eq_ok found with ⟨absent, rfl⟩ | ⟨j, a, present, readAs, rfl⟩
  · obtain rfl : rules = none := by simpa using accepted
    simp [absent, Ruled, newRules]
  rcases of_optional_eq_ok readAs with ⟨rfl, rfl⟩ | ⟨some, v, value, rfl⟩
  · obtain rfl : rules = none := by simpa using accepted
    simp [present, Ruled, newRules]
  · obtain rfl := eq_of_rawRule_eq_ok value
    cases rules with
    | none => simp at accepted
    | some r =>
      have checked : Rule.accept v = .ok r := by simpa using accepted
      simp only [present, Ruled, if_neg some]
      exact ⟨r, checked, rfl⟩

theorem updatedBy_change {ms : Members} {ch : Changes} {rules : Option Rule}
    (requested : Changes.ofMembers ms = .ok ch)
    (accepted : ch.rules.map Rule.accept = rules.map Except.ok) (c : Collection) (now : Instant) :
    UpdatedBy ms now c (c.change { ch with rules := rules.map Rule.toJson } now) := by
  simp only [Changes.ofMembers, Checked.seq_eq_ok_iff, Checked.map_eq_ok_iff] at requested
  -- One level for each part, the first one innermost.
  obtain ⟨_, ⟨_, ⟨_, ⟨_, ⟨_, ⟨_, ⟨_, ⟨_, ⟨_, ⟨_, ⟨_, ⟨_, ⟨_, ⟨_, ⟨_, name, rfl⟩, _, slug, rfl⟩,
    _, type, rfl⟩, _, status, rfl⟩, _, path, rfl⟩, _, description, rfl⟩, _, rule, rfl⟩,
    _, cuisine, rfl⟩, _, location, rfl⟩, _, tag, rfl⟩, _, pinned, rfl⟩, _, excluded, rfl⟩,
    _, minRequired, rfl⟩, _, targetCount, rfl⟩, _, sortOrder, rfl⟩ := requested
  rw [change_eq]
  exact {
    name := kept_of_eq_ok name c.name
    slug := kept_of_eq_ok slug c.slug
    type := kept_of_eq_ok type c.type
    status := kept_of_eq_ok status c.status
    minRequired := kept_of_eq_ok minRequired c.minRequired
    targetCount := kept_of_eq_ok targetCount c.targetCount
    sortOrder := kept_of_eq_ok sortOrder c.sortOrder
    path := cleared_of_eq_ok path c.path
    description := cleared_of_eq_ok description c.description
    cuisine := cleared_of_eq_ok cuisine c.links.cuisine
    location := cleared_of_eq_ok location c.links.location
    tag := cleared_of_eq_ok tag c.links.tag
    pinned := listed_of_eq_ok pinned c.pinned
    excluded := listed_of_eq_ok excluded c.excluded
    rules := ruled_of_eq_ok rule accepted c.rules
    id := rfl
    publishedAt := rfl
    createdAt := rfl
    updatedAt := rfl
    cached := rfl
    cachedAt := rfl }

end Collection

namespace Action

variable {α β : Type} {env : Surroundings} {s t : Shelf}

/-- A successful update puts the changed row in the place of the old one. -/
theorem of_update_eq_ok {id : String} {ch : Changes} {d : Collection}
    (updated : (update id ch).run env s = (.ok d, t)) :
    ∃ (c : Collection) (rules : Option Rule), s.find? id = some c ∧
      ch.rules.map Rule.accept = rules.map Except.ok ∧
      d = c.change { ch with rules := rules.map Rule.toJson } env.now ∧ t = s.put d := by
  rw [update, run_bind_eq_ok_iff] at updated
  obtain ⟨c, _, required, updated⟩ := updated
  obtain ⟨rfl, _, found⟩ := (Steps.require id).unchanged (P := fun _ => True) trivial required
  rw [run_bind_eq_ok_iff] at updated
  obtain ⟨changes, _, checked, updated⟩ := updated
  obtain ⟨rfl, _, rules, accepted, same⟩ :=
    (steps_checkedChanges ch).unchanged (P := fun _ => True) trivial checked
  have saved : ∀ {u}, (do
      let time ← now
      save .database (c.change changes time)
      return c.change changes time : Action Collection).run env u = (.ok d, t) →
      d = c.change changes env.now ∧ t = u.put d := by
    intro u answered
    rw [run_bind, run_now] at answered
    obtain ⟨_, _, kept, returned⟩ := run_bind_eq_ok_iff.mp answered
    cases returned
    exact ⟨rfl, of_save_eq_ok kept⟩
  refine ⟨c, rules, found, accepted, same ▸ ?_⟩
  dsimp only at updated
  split at updated
  next slug _ =>
    split at updated
    next =>
      rw [run_bind_eq_ok_iff] at updated
      obtain ⟨_, _, free, updated⟩ := updated
      obtain ⟨rfl, _⟩ := (steps_requireFree slug).unchanged (P := fun _ => True) trivial free
      exact saved updated
    next => exact saved updated
  next => exact saved updated

end Action

namespace Shelf

/-- A row that was updated reads as the request says and is as it was in everything else, except
that a rule which is alike to the old one is not stored.  The time of the counts is cleared if and
only if something changed that they depend on.  No other row changes. -/
theorem update_stores {env : Surroundings} {s t : Shelf} {id : String} {ms : Members}
    {ch : Changes} {d : Collection} (requested : Changes.ofMembers ms = .ok ch)
    (updated : (Action.update id ch).run env s = (.ok d, t)) :
    ∃ c, s.find? id = some c ∧ t.find? id = some d ∧ Collection.UpdatedBy ms env.now c d ∧
      (∀ other, other ≠ id → t.find? other = s.find? other) ∧ t.catalog = s.catalog := by
  obtain ⟨c, rules, found, accepted, rfl, rfl⟩ := Action.of_update_eq_ok updated
  have changed := Collection.updatedBy_change requested accepted c env.now
  obtain ⟨same, _⟩ := mem_of_find?_eq_some found
  refine ⟨c, found, ?_, changed, fun other different => find?_put_of_ne ?_, rfl⟩
  · rw [find?_put, found, Option.map_some, if_pos changed.id.symm]
  · rw [changed.id, same]
    exact different

/-- The recipes of the cuisine with this id. -/
def ofCuisine (id : Json) : Rule :=
  .custom [⟨some "AND", [⟨some "cuisineId", some "eq", id, none⟩]⟩] []

def numbered : Shelf where
  catalog := ⟨.utc, [⟨"1", "One", "one"⟩, ⟨"True", "True", "true"⟩], [], [],
    [{ Recipe.bare "a" Status.published with cuisineId := some "1" },
      { Recipe.bare "b" Status.published with cuisineId := some "True" }]⟩
  collections := [.ofNew ⟨"Any", "any", Collection.themeType, Status.draft, none, none,
    (ofCuisine (.int 1)).toJson, .unlinked, ["a"], [], 1, 2, 0⟩ (ofCuisine (.int 1)).toJson
    "id0001" ⟨0⟩]
  drawn := 1

def revision : Members :=
  [("name", .str "Two"), ("path", .null), ("pinnedRecipeIds", .null), ("min_required", .null),
    ("rules", (ofCuisine (.int 2)).toJson)]

def revised : Changes :=
  ⟨some "Two", none, none, none, some none, none, some (ofCuisine (.int 2)).toJson, none, none,
    none, some [], none, none, none, none⟩

theorem update_stores_revision :
    Changes.ofMembers revision = .ok revised ∧
    ∃ c d t, (Action.update "id0001" revised).run ⟨.standard, ⟨1⟩, none⟩ numbered = (.ok d, t) ∧
      t.find? "id0001" = some d ∧ Collection.UpdatedBy revision ⟨1⟩ c d ∧
      d.rules = (ofCuisine (.int 2)).toJson ∧ d.path = none ∧ d.pinned = some [] ∧
      d.minRequired = c.minRequired := by
  have requested : Changes.ofMembers revision = .ok revised := by decide
  have stored : ((Action.update "id0001" revised).run ⟨.standard, ⟨1⟩, none⟩ numbered).1.map
      Collection.rules = .ok (ofCuisine (.int 2)).toJson := by decide
  obtain ⟨d, answered, rules⟩ := Attempt.map_eq_ok_iff.mp stored
  obtain ⟨c, _, reread, by_, _, _⟩ := update_stores requested (Prod.ext answered rfl)
  exact ⟨requested, c, d, _, Prod.ext answered rfl, reread, by_, rules, by_.path, by_.pinned,
    by_.minRequired⟩

def renamed : Changes :=
  ⟨none, none, none, none, none, none, some (ofCuisine (.bool true)).toJson, none, none, none, none,
    none, none, none, none⟩

/-- The truth value and the number are alike, but they are the ids of different cuisines. -/
theorem update_keeps_alike :
    Changes.ofMembers [("rules", (ofCuisine (.bool true)).toJson)] = .ok renamed ∧
      Rule.accept (ofCuisine (.bool true)).toJson = .ok (ofCuisine (.bool true)) ∧
      ((Action.update "id0001" renamed).run ⟨.standard, ⟨1⟩, none⟩ numbered).1.map
        Collection.rules = .ok (ofCuisine (.int 1)).toJson ∧
      (ofCuisine (.bool true)).toJson ≠ (ofCuisine (.int 1)).toJson ∧
      (numbered.records.listing (ofCuisine (.int 1)) ⟨.unlinked, [], []⟩).map Listing.ids =
        .ok ["a"] ∧
      (numbered.records.listing (ofCuisine (.bool true)) ⟨.unlinked, [], []⟩).map Listing.ids =
        .ok ["b"] := by
  exact ⟨by decide, by decide, by decide, by decide, by decide +kernel, by decide +kernel⟩

end Shelf

end Cookbook
