import Cookbook.Proofs.Shelf.WellKept

/-!
# Sources of linked collections

A source is unlinked if no collection has the links that its own collection would have.  The rule
that a source comes with follows these links, so it asks for the recipes that are filed under the
source, and everything that it refers to exists.
-/

namespace Cookbook

/-- Linked to all that the others link to. -/
def Rule.Links.Cover (links others : Links) : Prop :=
  (∀ id ∈ others.cuisine, links.cuisine = some id) ∧
    (∀ id ∈ others.location, links.location = some id) ∧ ∀ id ∈ others.tag, links.tag = some id

instance (links others : Rule.Links) : Decidable (links.Cover others) :=
  inferInstanceAs (Decidable (_ ∧ _))

theorem Rule.Links.cover_refl (links : Rule.Links) : links.Cover links :=
  ⟨fun _ given => given, fun _ given => given, fun _ given => given⟩

/-- The recipe has the cuisine, the location and the tag of the links, as far as they have some. -/
def Recipe.FiledUnder (x : Recipe) (links : Rule.Links) : Prop :=
  (∀ id ∈ links.cuisine, x.cuisineId = some id) ∧
    (∀ id ∈ links.location, x.locationId = some id) ∧ ∀ id ∈ links.tag, id ∈ x.tags

instance (x : Recipe) (links : Rule.Links) : Decidable (x.FiledUnder links) :=
  inferInstanceAs (Decidable (_ ∧ _))

/-- Everything that has a collection of its own: cuisines, locations and tags of some types. -/
def Catalog.linkSources (cat : Catalog) : List LinkSource :=
  cat.cuisines.map .ofCuisine ++ cat.locations.map .ofLocation ++
    (cat.tags.filter fun t => LinkSource.tagTypes.contains t.type).map .ofTag

namespace Shelf

variable {s : Shelf}

def Covers (s : Shelf) (links : Rule.Links) : Prop := ∃ c ∈ s.collections, c.links.Cover links

instance (s : Shelf) (links : Rule.Links) : Decidable (s.Covers links) :=
  inferInstanceAs (Decidable (∃ _ ∈ _, _))

theorem mem_linkedIds {link : Rule.Links → Option String} {id : String} (filled : id ≠ "") :
    id ∈ s.linkedIds link ↔ ∃ c ∈ s.collections, link c.links = some id := by
  simp only [linkedIds, List.mem_filterMap, presentText?, Option.filter_eq_some_iff]
  constructor
  · rintro ⟨c, row, linked, _⟩
    exact ⟨c, row, linked⟩
  · rintro ⟨c, row, linked⟩
    exact ⟨c, row, linked, by simpa using filled⟩

theorem perm_unlinked {linked : List String} {sources : List LinkSource}
    (covered : ∀ l ∈ sources, l.id ∈ linked ↔ s.Covers l.links) :
    ((sources.filter fun l => !linked.contains l.id).mergeSort fun l m => decide (l.id ≤ m.id)).Perm
      (sources.filter fun l => !decide (s.Covers l.links)) := by
  refine (List.mergeSort_perm _ _).trans (List.Perm.of_eq (List.filter_congr fun l source => ?_))
  rw [Bool.not_inj_iff, Bool.eq_iff_iff, List.contains_iff_mem, decide_eq_true_iff]
  exact covered l source

/-- The unlinked sources are those whose links no collection covers. -/
theorem perm_unlinkedSources (named : s.catalog.Named) :
    s.unlinkedSources.Perm (s.catalog.linkSources.filter fun l => !decide (s.Covers l.links)) := by
  unfold unlinkedSources Catalog.linkSources
  rw [List.filter_append, List.filter_append]
  refine ((perm_unlinked ?_).append (perm_unlinked ?_)).append (perm_unlinked ?_)
  · intro l source
    obtain ⟨p, row, rfl⟩ := List.mem_map.mp source
    rw [LinkSource.ofCuisine, mem_linkedIds (named.cuisines p row)]
    simp [Covers, Rule.Links.Cover]
  · intro l source
    obtain ⟨p, row, rfl⟩ := List.mem_map.mp source
    rw [LinkSource.ofLocation, mem_linkedIds (named.locations p row)]
    simp [Covers, Rule.Links.Cover]
  · intro l source
    obtain ⟨t, row, rfl⟩ := List.mem_map.mp source
    rw [LinkSource.ofTag, mem_linkedIds (named.tags t (List.mem_filter.mp row).1)]
    simp [Covers, Rule.Links.Cover]

theorem mem_unlinkedSources (named : s.catalog.Named) {l : LinkSource} :
    l ∈ s.unlinkedSources ↔ l ∈ s.catalog.linkSources ∧ ¬ s.Covers l.links := by
  simp [(perm_unlinkedSources named).mem_iff]

end Shelf

namespace Catalog

variable {cat : Catalog}

/-- Sources that are told apart have links that are told apart. -/
theorem nodup_map_links_linkSources (keyed : cat.Keyed) :
    (cat.linkSources.map LinkSource.links).Nodup := by
  have cuisines : (cat.cuisines.map fun p => (⟨some p.id, none, none⟩ : Rule.Links)).Nodup :=
    List.Nodup.of_map (fun links => links.cuisine.getD "")
      (by rw [List.map_map]; exact keyed .cuisine)
  have locations : (cat.locations.map fun p => (⟨none, some p.id, none⟩ : Rule.Links)).Nodup :=
    List.Nodup.of_map (fun links => links.location.getD "")
      (by rw [List.map_map]; exact keyed .location)
  have tags : ((cat.tags.filter fun t => LinkSource.tagTypes.contains t.type).map
      fun t => (⟨none, none, some t.id⟩ : Rule.Links)).Nodup :=
    List.Nodup.of_map (fun links => links.tag.getD "")
      (by rw [List.map_map]; exact (List.filter_sublist.map Tag.id).nodup (keyed .tag))
  unfold linkSources
  rw [List.map_append, List.map_append, List.map_map, List.map_map, List.map_map]
  refine List.nodup_append.mpr ⟨List.nodup_append.mpr ⟨cuisines, locations, ?_⟩, tags, ?_⟩
  · intro a first b second same
    obtain ⟨p, _, rfl⟩ := List.mem_map.mp first
    obtain ⟨q, _, rfl⟩ := List.mem_map.mp second
    cases same
  · intro a first b second same
    obtain ⟨t, _, rfl⟩ := List.mem_map.mp second
    rcases List.mem_append.mp first with first | first <;>
      obtain ⟨p, _, rfl⟩ := List.mem_map.mp first <;> cases same

end Catalog

namespace Rule

variable {field : Option String} {links : Links} {f : Field} {id : String}

theorem predicate_auto (bound : bind field links = .ok (f, id)) (value tagType : Option String) :
    (auto field value tagType).predicate links = boundPredicate f id := by
  simp only [predicate, composed, bound]
  unfold boundPredicate
  split <;> rfl

theorem warnings_auto (bound : bind field links = .ok (f, id)) (value tagType : Option String) :
    (auto field value tagType).warnings links = [] := by
  simp only [warnings, bound]

theorem bind_eq_ok (known : field.bind Field.ofName? = some f)
    (linked : links.follow? f = some (some id)) (filled : id ≠ "") :
    bind field links = .ok (f, id) := by
  simp only [bind, known, linked, presentText?_eq_some filled]

def Field.entity : Field → EntityKind
  | .relation r => r.entity
  | _ => .tag

/-- An automatic rule refers to the entity that it is bound to and to nothing else. -/
theorem eq_of_mem_references {k : EntityKind} {i : String}
    (reference : i ∈ (boundPredicate f id).references k) : i = id ∧ k = f.entity := by
  cases f <;> simp only [boundPredicate, Predicate.references] at reference <;>
    split at reference <;> simp_all [Field.entity]

end Rule

namespace LinkSource

variable {cat : Catalog} {l : LinkSource}

/-- What holds of every cuisine, of every location and of every tag holds of every source. -/
theorem forall_mem_linkSources {P : LinkSource → Prop}
    (cuisine : ∀ p ∈ cat.cuisines, P (ofCuisine p))
    (location : ∀ p ∈ cat.locations, P (ofLocation p)) (tag : ∀ t ∈ cat.tags, P (ofTag t)) :
    ∀ l ∈ cat.linkSources, P l := by
  intro l source
  rcases List.mem_append.mp source with source | source
  · rcases List.mem_append.mp source with source | source
    · obtain ⟨p, row, rfl⟩ := List.mem_map.mp source
      exact cuisine p row
    · obtain ⟨p, row, rfl⟩ := List.mem_map.mp source
      exact location p row
  · obtain ⟨t, row, rfl⟩ := List.mem_map.mp source
    exact tag t (List.mem_filter.mp row).1

/-- The rule of the source follows its links to what is filed under them, and this exists. -/
structure Follows (cat : Catalog) (l : LinkSource) : Prop where
  rule : l.rule.written = l.rule
  words : l.rule.FitsWord
  warnings : l.rule.warnings l.links = []
  holds : ∀ x, (l.rule.predicate l.links).holds cat x = true ↔ x.FiledUnder l.links
  known : ∀ k, ∀ id ∈ (l.rule.predicate l.links).references k, id ∈ cat.idsOf k

theorem Follows.of_bind {field value tagType : Option String} {f : Rule.Field} {id : String}
    (rule : l.rule = .auto field value tagType) (bound : Rule.bind field l.links = .ok (f, id))
    (holds : ∀ x, (Rule.boundPredicate f id).holds cat x = true ↔ x.FiledUnder l.links)
    (known : ∀ k, ∀ i ∈ (Rule.boundPredicate f id).references k, i ∈ cat.idsOf k) :
    l.Follows cat := by
  have predicate := Rule.predicate_auto bound value tagType
  rw [← rule] at predicate
  constructor
  case rule => rw [rule]; rfl
  case words => rw [rule]; exact fun c part => nomatch part
  case warnings => rw [rule]; exact Rule.warnings_auto bound value tagType
  case holds => rwa [predicate]
  case known => rwa [predicate]

theorem follows_ofCuisine {p : Place} (row : p ∈ cat.cuisines) (filled : p.id ≠ "") :
    (ofCuisine p).Follows cat := by
  refine .of_bind rfl (Rule.bind_eq_ok (f := .relation .cuisine) rfl rfl filled) ?_ ?_
  · intro x
    simp [Rule.boundPredicate, ofCuisine, Recipe.related, Recipe.FiledUnder]
  · intro k id reference
    obtain ⟨rfl, rfl⟩ := Rule.eq_of_mem_references reference
    exact List.mem_map_of_mem row

theorem follows_ofLocation {p : Place} (row : p ∈ cat.locations) (filled : p.id ≠ "") :
    (ofLocation p).Follows cat := by
  refine .of_bind rfl (Rule.bind_eq_ok (f := .relation .location) rfl rfl filled) ?_ ?_
  · intro x
    simp [Rule.boundPredicate, ofLocation, Recipe.related, Recipe.FiledUnder]
  · intro k id reference
    obtain ⟨rfl, rfl⟩ := Rule.eq_of_mem_references reference
    exact List.mem_map_of_mem row

theorem follows_ofTag {t : Tag} (row : t ∈ cat.tags) (filled : t.id ≠ "") :
    (ofTag t).Follows cat := by
  refine .of_bind rfl (Rule.bind_eq_ok (f := .tagId) rfl rfl filled) ?_ ?_
  · intro x
    simp [Rule.boundPredicate, ofTag, Recipe.FiledUnder]
  · intro k id reference
    obtain ⟨rfl, rfl⟩ := Rule.eq_of_mem_references reference
    exact List.mem_map_of_mem row

theorem follows (named : cat.Named) : ∀ l ∈ cat.linkSources, l.Follows cat :=
  forall_mem_linkSources (fun p row => follows_ofCuisine row (named.cuisines p row))
    (fun p row => follows_ofLocation row (named.locations p row))
    fun t row => follows_ofTag row (named.tags t row)

end LinkSource

/-- The rule of a collection by itself matches the active recipes with a property, a listing shows
them as well, and nothing is reported.  Only a time that is no number keeps them from being
listed. -/
structure Collection.ListsExactly (st : Store) (c : Collection) (Asked : Recipe → Prop) : Prop where
  matching : ∃ r, Rule.ofJson c.rules = .ok r ∧ r.warnings c.links = [] ∧
    ∃ base, st.evaluate (r.predicate c.links) [] = .ok base ∧
      ∀ m, m ∈ base.toList ↔ ∃ x ∈ st.catalog.recipes, x.IsActive ∧ Asked x ∧ x.toMatch = m
  listing : ∀ l, st.currentListing c = .ok l → l.warnings = [] ∧ l.ids.Nodup ∧
    ∀ id, id ∈ l.ids ↔ ∃ x ∈ st.catalog.recipes, x.id = id ∧ x.IsActive ∧ Asked x
  listed : st.catalog.Timed → ∃ l, st.currentListing c = .ok l

namespace Store

variable {st : Store}

theorem unresolvedOf_eq_nil (service : st.down = none) {k : EntityKind} {ids : List String}
    (known : ∀ id ∈ ids, id ∈ st.catalog.idsOf k) : st.unresolvedOf k ids = .ok [] := by
  have existing : ∃ found, st.existingIds k ids = .ok found ∧ ∀ id ∈ ids, id ∈ found := by
    unfold existingIds
    split
    next nothing => exact ⟨[], rfl, by simp [List.isEmpty_iff.mp nothing]⟩
    next =>
      refine ⟨_, serve_texts_eq_ok (serves_of_down_eq_none service _ _) _, fun id member => ?_⟩
      simp [member, known id member]
  obtain ⟨found, existing, all⟩ := existing
  have missing : (ids.filter fun id => !found.contains id) = [] := by simpa using all
  refine Attempt.bind_eq_ok_iff.mpr ⟨found, existing, ?_⟩
  rw [missing]
  rfl

theorem checkReferences_eq_nil (service : st.down = none) {references : EntityKind → List String}
    (known : ∀ k, ∀ id ∈ references k, id ∈ st.catalog.idsOf k) :
    st.checkReferences references = .ok [] := by
  have each (k : EntityKind) : st.unresolvedOf k (sortedSet (references k)) = .ok [] :=
    unresolvedOf_eq_nil service fun id member => known k id (by simpa [sortedSet] using member)
  simp only [checkReferences, EntityKind.referable, List.mapM_cons, List.mapM_nil, each]
  rfl

end Store

theorem LinkSource.listsExactly {st : Store} (service : st.down = none) (keyed : st.catalog.Keyed)
    {l : LinkSource} (follows : l.Follows st.catalog) (slug id : String) (now : Instant) :
    (l.toCollection slug id now).ListsExactly st (·.FiledUnder l.links) := by
  have rule : Rule.ofJson l.rule.toJson = .ok l.rule := by rw [Rule.ofJson_toJson, follows.rule]
  constructor
  case matching =>
    refine ⟨l.rule, rule, follows.warnings, ?_⟩
    obtain ⟨base, evaluated⟩ := Store.exists_evaluate service
      (Predicate.fitsQuery_of_numbers (follows.words.without l.links []))
    refine ⟨base, evaluated, fun m => ?_⟩
    rw [Store.mem_of_evaluate_eq_ok (l.rule.isFinite_predicate l.links) evaluated]
    simp [follows.holds]
  case listed =>
    intro timed
    obtain ⟨found, listed⟩ := Store.exists_listing service follows.words timed ⟨l.links, [], []⟩
    exact ⟨found, Store.currentListing_eq_ok_iff.mpr ⟨l.rule, rule, listed⟩⟩
  case listing =>
    intro found current
    have listed : st.listing l.rule ⟨l.links, [], []⟩ = .ok found := by
      rw [Store.currentListing, toCollection, rule] at current
      exact current
    have once := Store.nodup_ids_of_listing_eq_ok listed
    obtain ⟨unresolved, checked, warnings⟩ := Store.warnings_of_listing_eq_ok listed
    rw [Store.checkReferences_eq_nil service follows.known] at checked
    obtain rfl := Except.ok.inj checked
    refine ⟨by rw [warnings, follows.warnings]; rfl, once, fun i => ?_⟩
    rw [Listing.ids, List.mem_map]
    simp [Store.mem_entries_of_listing_eq_ok keyed listed, Context.Admits, follows.holds,
      and_comm, and_left_comm]

end Cookbook
