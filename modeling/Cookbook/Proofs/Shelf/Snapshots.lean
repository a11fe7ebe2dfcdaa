import Cookbook.Proofs.Shelf.Reading
import Cookbook.Proofs.Shelf.Runs

/-!
# Snapshots in every reached state

Stored counts that have a time stay the counts of the listing through every run.  A list that calls
a row fresh therefore shows what the detail of the row takes from the catalog.
-/

namespace Cookbook

theorem Snapshot.ne_none_of_fresh {at? : Option Instant} {ttl : Int} {now : Instant}
    (fresh : freshness at? ttl now = .ok .fresh) : at? ≠ none := by
  rintro rfl
  cases fresh

namespace ListItem

/-- What a list and a detail both show of counts and of what they say. -/
def measures : List String :=
  ["matchedCount", "publishedCount", "pendingCount", "draftCount", "progress", "qualifiedStatus",
    "near"]

structure AgreesWith (i : ListItem) (d : Detail) : Prop where
  collection : d.collection = i.collection
  counts : d.read.listing.counts = i.collection.cached
  progress : d.read.progress = i.standing.progress
  shown : ∀ name ∈ measures, i.toJson.getD name = d.toJson.getD name

theorem agreesWith_of_eq {i : ListItem} {d : Detail} (collection : d.collection = i.collection)
    (counts : d.read.listing.counts = i.collection.cached)
    (progress : d.read.progress = i.standing.progress) : i.AgreesWith d where
  collection := collection
  counts := counts
  progress := progress
  shown := by
    simp only [measures, List.forall_mem_cons, toJson, Detail.toJson, counts, progress]
    refine ⟨rfl, rfl, rfl, rfl, rfl, rfl, rfl, ?_⟩
    intro name absent
    cases absent

end ListItem

namespace Shelf

/-- A fresh row reads live as it is stored, as far as it is answered. -/
theorem Accurate.liveRead_eq {s : Shelf} (accurate : s.Accurate) {i : ListItem}
    (row : i.collection ∈ s.collections) {env env' : Surroundings}
    (stands : i.collection.standing env.settings env.settings.cacheTtl env.now = .ok i.standing)
    (fresh : i.standing.state = .fresh) (settings : env'.settings = env.settings) :
    ∃ l, l.counts = i.collection.cached ∧
      Action.liveReadOf s.records env'.settings i.collection = .ok ⟨l, i.standing.progress⟩ := by
  obtain ⟨dated, measured⟩ := Collection.standing_eq_ok_iff.mp stands
  rw [fresh] at dated
  obtain ⟨l, listed, counts⟩ := accurate i.collection row (Snapshot.ne_none_of_fresh dated)
  refine ⟨l, counts, Action.liveReadOf_eq_ok_iff.mpr ⟨listed, ?_⟩⟩
  rwa [counts, settings]

end Shelf

/-- After any run of events, in whatever surroundings and however they end, stored counts with a
time are those of the listing as it is now, and a list that calls a row fresh agrees with its
detail.  The detail is answered when everything is in service and the row can be shown. -/
theorem Shelf.snapshots_accurate {s : Shelf} (keyed : s.Keyed) (accurate : s.Accurate)
    (events : List (Surroundings × Event)) :
    (s.after events).catalog = s.catalog ∧ (s.after events).Accurate ∧
    ∀ env q p, ((Action.list q).run env (s.after events)).1 = .ok p →
      ∀ i ∈ p.items, i.standing.state = .fresh →
        ∀ env', env'.settings = env.settings →
          (∀ d, ((Action.detail i.collection.id).run env' (s.after events)).1 = .ok d →
            i.AgreesWith d) ∧
          (env'.outage = none → i.collection.viewIssues = [] →
            ∃ d, ((Action.detail i.collection.id).run env' (s.after events)).1 = .ok d) := by
  have reached := keyed_after keyed events
  have accurate := accurate_after keyed accurate events
  refine ⟨catalog_after keyed events, accurate, ?_⟩
  intro env q p listed i member fresh env' settings
  obtain ⟨row, stands⟩ := Action.item_of_list listed member
  obtain ⟨l, counts, live⟩ := accurate.liveRead_eq row stands fresh settings
  refine ⟨fun d answered => ?_, fun service shown => ?_⟩
  · obtain ⟨collection, read⟩ := Action.of_detail_eq_ok reached row answered
    have same : d.read = ⟨l, i.standing.progress⟩ := Except.ok.inj (read.symm.trans live)
    exact ListItem.agreesWith_of_eq collection (by rw [same, counts]) (by rw [same])
  · exact Action.exists_detail reached row service shown live

def Collection.trattoria : Collection where
  id := "t"
  name := "Trattoria"
  slug := "trattoria"
  path := none
  description := none
  type := "cuisine"
  status := Status.draft
  publishedAt := none
  rules := (Rule.custom [⟨none, [⟨some "cuisineId", some "eq", .str "it", none⟩]⟩] []).toJson
  links := .unlinked
  pinned := some []
  excluded := some []
  minRequired := 1
  targetCount := 2
  sortOrder := 0
  cached := ⟨1, 1, 0, 0⟩
  cachedAt := some ⟨0⟩
  createdAt := ⟨0⟩
  updatedAt := ⟨0⟩

def Surroundings.standard (now : Int) : Surroundings := ⟨.standard, ⟨now⟩, none⟩

namespace Shelf

def trattorie : Shelf where
  catalog := ⟨.utc, [], [], [], [{ Recipe.bare "a" Status.published with cuisineId := some "it" },
    Recipe.bare "b" Status.pending]⟩
  collections := [.trattoria]
  drawn := 0

/-- A pin that clears the counts, and a refresh that takes them anew. -/
def trattorieRun : List (Surroundings × Event) :=
  [(.standard 1, .call (.pin "t" ⟨["b"], .start⟩)), (.standard 2, .refresh "t")]

def everything : Search := ⟨none, none, none, none, 1, 20⟩

theorem snapshots_accurate_trattorie :
    trattorie.Keyed ∧ trattorie.Accurate ∧ (trattorie.after trattorieRun).Accurate ∧
    ∃ p i d, ((Action.list everything).run (.standard 3) (trattorie.after trattorieRun)).1 = .ok p ∧
      i ∈ p.items ∧ i.standing.state = .fresh ∧ i.collection.cached = ⟨2, 1, 1, 0⟩ ∧
      ((Action.detail i.collection.id).run (.standard 4) (trattorie.after trattorieRun)).1 = .ok d ∧
      i.AgreesWith d := by
  have keyed : trattorie.Keyed := by decide
  have accurate : trattorie.Accurate := by
    intro c row kept
    obtain rfl := List.mem_singleton.mp row
    have counted : ((Store.mk trattorie.catalog none).currentListing .trattoria).map
        Listing.counts = .ok Collection.trattoria.cached := by decide +kernel
    exact Attempt.map_eq_ok_iff.mp counted
  have shown : ((Action.list everything).run (.standard 3) (trattorie.after trattorieRun)).1.map
      (fun p => p.items.map fun i =>
        (i.standing.state, i.collection.cached, i.collection.viewIssues)) =
      .ok [(.fresh, ⟨2, 1, 1, 0⟩, [])] := by decide +kernel
  obtain ⟨p, listed, items⟩ := Attempt.map_eq_ok_iff.mp shown
  obtain ⟨i, only, facts⟩ := List.map_eq_singleton_iff.mp items
  obtain ⟨fresh, counts, viewable⟩ : i.standing.state = .fresh ∧
      i.collection.cached = ⟨2, 1, 1, 0⟩ ∧ i.collection.viewIssues = [] := by simpa using facts
  have member : i ∈ p.items := by rw [only]; exact List.mem_singleton_self i
  obtain ⟨_, after, agrees⟩ := snapshots_accurate keyed accurate trattorieRun
  obtain ⟨agreement, answers⟩ := agrees _ _ p listed i member fresh (.standard 4) rfl
  obtain ⟨d, answered⟩ := answers rfl viewable
  exact ⟨keyed, accurate, after, p, i, d, listed, member, fresh, counts, answered,
    agreement d answered⟩

end Shelf

end Cookbook
