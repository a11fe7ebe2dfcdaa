import Cookbook.Proofs.Shelf.Evaluated

/-!
# Details show the beginning of the listing

A detail view cuts the ids of the listing first and then fetches the rows again, by a query that
leaves out what it does not find.  The listing has only ids of the catalog, so nothing is left out,
and the rows come back in the order and with the states of the listing.
-/

namespace Cookbook

theorem Catalog.Keyed.recipe?_eq_some {c : Catalog} (keyed : c.Keyed) {r : Recipe}
    (row : r ∈ c.recipes) : c.recipe? r.id = some r := by
  unfold Catalog.recipe?
  cases found : c.recipes.find? (·.id == r.id) with
  | none => simpa using List.find?_eq_none.mp found r row
  | some t =>
    have same : t.id = r.id := by simpa using List.find?_some found
    rw [keyed.eq_of_id (List.mem_of_find?_eq_some found) row same]

/-- Rows that are fetched by the ids of entries are the rows of these entries. -/
theorem Catalog.Keyed.filterMap_recipe? {c : Catalog} (keyed : c.Keyed)
    {entries : List (String × String)}
    (known : ∀ e ∈ entries, ∃ r ∈ c.recipes, (r.id, r.status) = e) :
    ((entries.map Prod.fst).filterMap c.recipe?).map (fun r => (r.id, r.status)) = entries := by
  induction entries with
  | nil => rfl
  | cons e es ih =>
    obtain ⟨r, row, rfl⟩ := known e List.mem_cons_self
    have rest := ih fun f member => known f (List.mem_cons_of_mem _ member)
    rw [List.map_cons, List.filterMap_cons_some (keyed.recipe?_eq_some row), List.map_cons, rest]

namespace Detail

variable {α β : Type}

/-- How many of some entries a limit leaves.  A negative one is the number of entries that it leaves
out at the end. -/
def reach (limit : Int) (count : Nat) : Nat :=
  if 0 ≤ limit then limit.toNat else count - limit.natAbs

theorem beginning_eq_take (limit : Int) (xs : List α) :
    beginning limit xs = xs.take (reach limit xs.length) := by
  unfold beginning reach
  by_cases nonneg : 0 ≤ limit
  · rw [if_neg (not_lt.mpr nonneg), if_pos nonneg]
  · have cut : (xs.length + limit).toNat = xs.length - limit.natAbs := by omega
    rw [if_pos (not_le.mp nonneg), if_neg nonneg, cut]

theorem beginning_map (f : α → β) (limit : Int) (xs : List α) :
    beginning limit (xs.map f) = (beginning limit xs).map f := by
  rw [beginning_eq_take, beginning_eq_take, List.length_map, List.map_take]

/-- The view shows this beginning of the listing. -/
structure Shows (s : Shelf) (limit : Int) (c : Collection) (l : Listing) (d : Detail) : Prop where
  listing : d.read.listing = l
  entries : d.recipes.map (fun r => (r.id, r.status)) =
    l.entries.take (reach limit l.entries.length)
  length : 0 ≤ limit → (d.recipes.length : Int) = min l.counts.matched limit
  rows : ∀ r ∈ d.recipes, r ∈ s.catalog.recipes
  once : (d.recipes.map Recipe.id).Nodup
  pinsFirst : ∃ pins rest, d.recipes.map Recipe.id = pins ++ rest ∧
    (∀ id ∈ pins, id ∈ c.pinnedIds) ∧ (∀ id ∈ rest, id ∉ c.pinnedIds) ∧
    (rest ≠ [] → ∀ id ∈ l.ids, id ∈ c.pinnedIds → id ∈ pins)
  unexcluded : ∀ r ∈ d.recipes, r.id ∉ c.excludedIds
  answer : d.toJson.getD "recipes" = .arr (d.recipes.map fun r => .obj [("id", .str r.id),
    ("title", .str r.title), ("status", .str r.status),
    ("addMethod", .str (if r.id ∈ c.pinnedIds then "manual" else "rule"))])

theorem recipes_toJson (d : Detail) :
    d.toJson.getD "recipes" = .arr (d.recipes.map (recipeJson d.collection)) := rfl

theorem recipeJson_eq (c : Collection) (r : Recipe) : recipeJson c r = .obj [("id", .str r.id),
    ("title", .str r.title), ("status", .str r.status),
    ("addMethod", .str (if r.id ∈ c.pinnedIds then "manual" else "rule"))] := by
  simp [recipeJson, addMethod]

end Detail

/-- A part of a list in which some come before all others starts with these as well. -/
theorem exists_take_eq_append {α : Type} {P : α → Prop} {xs pins rest : List α}
    (parts : xs = pins ++ rest) (first : ∀ x ∈ pins, P x) (last : ∀ x ∈ rest, ¬ P x) (n : Nat) :
    ∃ pins' rest', xs.take n = pins' ++ rest' ∧ (∀ x ∈ pins', P x) ∧ (∀ x ∈ rest', ¬ P x) ∧
      (rest' ≠ [] → ∀ x ∈ xs, P x → x ∈ pins') := by
  refine ⟨pins.take n, rest.take (n - pins.length), ?_, ?_, ?_, ?_⟩
  · rw [parts, List.take_append]
  · exact fun x member => first x (List.mem_of_mem_take member)
  · exact fun x member => last x (List.mem_of_mem_take member)
  · intro some x member holds
    have beyond : pins.length ≤ n := by
      by_contra within
      exact some (by rw [Nat.sub_eq_zero_of_le (by omega), List.take_zero])
    rw [List.take_of_length_le beyond]
    rcases List.mem_append.mp (parts ▸ member) with early | late
    · exact early
    · exact absurd holds (last x late)

namespace Action

variable {env : Surroundings} {s : Shelf} {c : Collection}

theorem recipes_of_detail_eq_ok (keyed : s.Keyed) (row : c ∈ s.collections) {d : Detail}
    (answered : ((detail c.id).run env s).1 = .ok d) :
    d.recipes = (Detail.beginning env.settings.detailLimit d.read.listing.ids).filterMap
      s.catalog.recipe? := by
  rw [run_detail, required_of_mem keyed row] at answered
  change detailOf (env.records s) env.settings c = .ok d at answered
  obtain ⟨read, _, answered⟩ := Attempt.bind_eq_ok_iff.mp answered
  obtain ⟨recipes, fetched, answered⟩ := Attempt.bind_eq_ok_iff.mp answered
  obtain ⟨shown, _, answered⟩ := Attempt.bind_eq_ok_iff.mp answered
  obtain ⟨description, _, answered⟩ := Attempt.bind_eq_ok_iff.mp answered
  obtain rfl := Except.ok.inj answered
  unfold Store.getMany at fetched
  split at fetched
  next nothing =>
    cases fetched
    rw [List.isEmpty_iff.mp nothing]
    rfl
  next => exact Store.eq_of_serve_eq_ok fetched

theorem shows_of_detail_eq_ok (keyed : s.Keyed) (apart : s.catalog.Keyed)
    (row : c ∈ s.collections) {l : Listing} (listed : s.records.currentListing c = .ok l)
    {d : Detail} (answered : ((detail c.id).run env s).1 = .ok d) :
    d.Shows s env.settings.detailLimit c l := by
  obtain ⟨viewed, live⟩ := of_detail_eq_ok keyed row answered
  have listing : d.read.listing = l :=
    Except.ok.inj ((liveReadOf_eq_ok_iff.mp live).1.symm.trans listed)
  obtain ⟨r, _, counted⟩ := Store.currentListing_eq_ok_iff.mp listed
  have known : ∀ e ∈ l.entries, ∃ x ∈ s.catalog.recipes, x.id ∉ c.excludedIds ∧
      (x.id, x.status) = e := by
    intro e entry
    obtain ⟨x, row, admits, same⟩ :=
      (Store.mem_entries_of_listing_eq_ok apart counted).mp entry
    exact ⟨x, row, admits.2.2, same⟩
  have fetched := recipes_of_detail_eq_ok keyed row answered
  rw [listing, Listing.ids, Detail.beginning_map, Detail.beginning_eq_take] at fetched
  have entries : d.recipes.map (fun r => (r.id, r.status)) =
      l.entries.take (Detail.reach env.settings.detailLimit l.entries.length) := by
    rw [fetched]
    refine apart.filterMap_recipe? fun e member => ?_
    obtain ⟨x, row, _, same⟩ := known e (List.mem_of_mem_take member)
    exact ⟨x, row, same⟩
  have ids : d.recipes.map Recipe.id =
      l.ids.take (Detail.reach env.settings.detailLimit l.entries.length) := by
    rw [Listing.ids, ← List.map_take, ← entries, List.map_map]
    rfl
  constructor
  case listing => exact listing
  case entries => exact entries
  case length =>
    intro nonneg
    have count := congrArg List.length entries
    rw [Detail.reach, if_pos nonneg, List.length_map, List.length_take] at count
    rw [Store.matched_of_listing_eq_ok counted]
    omega
  case rows =>
    intro x member
    rw [fetched] at member
    obtain ⟨id, _, found⟩ := List.mem_filterMap.mp member
    exact List.mem_of_find?_eq_some found
  case once =>
    rw [ids]
    exact (List.take_sublist _ _).nodup (Store.nodup_ids_of_listing_eq_ok counted)
  case pinsFirst =>
    obtain ⟨pins, rest, parts, pinned, unpinned⟩ := Store.ids_eq_append_of_listing_eq_ok counted
    rw [ids]
    exact exists_take_eq_append parts pinned unpinned _
  case unexcluded =>
    intro x member
    have shown := List.mem_of_mem_take (entries ▸ List.mem_map_of_mem member)
    obtain ⟨y, _, wanted, same⟩ := known _ shown
    have one : y.id = x.id := congrArg Prod.fst same
    exact one ▸ wanted
  case answer =>
    rw [Detail.recipes_toJson, viewed, funext (Detail.recipeJson_eq c)]

end Action

/-- A detail view is answered if the rule of the row runs, and it shows the beginning of the
listing: entry by entry, with the recipe and its status as they are counted, and with the pins
first. -/
theorem Shelf.detail_shows_beginning {s : Shelf} (keyed : s.Keyed) (apart : s.catalog.Keyed)
    (recipes : (Number.int s.catalog.recipes.length).FitsWord) {c : Collection}
    (row : c ∈ s.collections) (viewable : c.viewIssues = []) {l : Listing}
    (listed : s.records.currentListing c = .ok l) (env : Surroundings) :
    (env.outage = none → ∃ d, (Action.detail c.id).run env s = (.ok d, s)) ∧
    ∀ d, ((Action.detail c.id).run env s).1 = .ok d →
      d.Shows s env.settings.detailLimit c l := by
  refine ⟨fun service => ?_, fun d => Action.shows_of_detail_eq_ok keyed apart row listed⟩
  obtain ⟨read, live⟩ := Action.exists_liveReadOf_of_listed recipes env.settings listed
  obtain ⟨d, answered⟩ := Action.exists_detail keyed row service viewable live
  rw [Action.run_detail] at answered ⊢
  exact ⟨d, Prod.ext answered rfl⟩

/-- One of the pins has no recipe in the shelf below, and a recipe of it that the rule takes is
excluded. -/
def Collection.slow : Collection :=
  .ofNew ⟨"Slow", "slow", themeType, Status.draft, none, none, (Rule.longer 30).toJson, .unlinked,
    ["f", "e", "a"], ["b"], 1, 2, 0⟩ (Rule.longer 30).toJson "t" ⟨0⟩

namespace Shelf

def handful : Shelf where
  catalog := ⟨.utc, [], [], [], [Recipe.bare "a" Status.draft,
    { Recipe.bare "b" Status.published with cookTime := some 40 },
    { Recipe.bare "d" Status.pending with cookTime := some 50 },
    Recipe.bare "e" Status.published]⟩
  collections := [.slow]
  drawn := 0

theorem detail_shows_beginning_handful :
    ∃ l, handful.Keyed ∧ handful.catalog.Keyed ∧ handful.records.currentListing .slow = .ok l ∧
      l.entries = [("e", Status.published), ("a", Status.draft), ("d", Status.pending)] ∧
      ∃ d, (Action.detail "t").run ⟨{ Settings.standard with detailLimit := 2 }, ⟨0⟩, none⟩
          handful = (.ok d, handful) ∧ d.Shows handful 2 .slow l ∧
        d.recipes.map (fun r => (r.id, r.status)) =
          [("e", Status.published), ("a", Status.draft)] := by
  have keyed : handful.Keyed := by decide
  have apart : handful.catalog.Keyed := by decide
  have ran : (handful.records.currentListing .slow).map Listing.entries =
      .ok [("e", Status.published), ("a", Status.draft), ("d", Status.pending)] := by
    decide +kernel
  obtain ⟨l, listed, entries⟩ := Attempt.map_eq_ok_iff.mp ran
  obtain ⟨answered, shows⟩ := detail_shows_beginning keyed apart (by decide) List.mem_cons_self
    (by decide) listed ⟨{ Settings.standard with detailLimit := 2 }, ⟨0⟩, none⟩
  obtain ⟨d, viewed⟩ := answered rfl
  have shown := shows d (congrArg Prod.fst viewed)
  refine ⟨l, keyed, apart, listed, entries, d, viewed, shown, ?_⟩
  rw [shown.entries, entries]
  rfl

end Shelf

end Cookbook
