import Cookbook.Collection.Edit
import Cookbook.Shelf.Basic

/-!
# Collections for what the catalog is filed under

Every cuisine, every location and every tag of a type that has a page gets a collection that follows
it, unless a collection is linked to it already.
-/

namespace Cookbook

structure LinkSource where
  type : String
  id : String
  name : String
  slug : String
  rule : Rule
  links : Rule.Links

namespace LinkSource

def tagTypes : List String := ["scene", "method", "taste", "crowd", "occasion", "ingredient"]

def ofCuisine (p : Place) : LinkSource where
  type := "cuisine"
  id := p.id
  name := p.name
  slug := p.slug
  rule := .auto (some "cuisineId") (some p.id) none
  links := ⟨some p.id, none, none⟩

def ofLocation (p : Place) : LinkSource where
  type := "region"
  id := p.id
  name := p.name
  slug := p.slug
  rule := .auto (some "locationId") (some p.id) none
  links := ⟨none, some p.id, none⟩

def ofTag (t : Tag) : LinkSource where
  type := t.type
  id := t.id
  name := t.name
  slug := t.slug
  rule := .auto (some "tagId") (some t.id) (some t.type)
  links := ⟨none, none, some t.id⟩

/-- The new collection, with a slug that need not be that of its source. -/
def toCollection (l : LinkSource) (slug id : String) (now : Instant) : Collection where
  id := id
  name := l.name
  slug := slug
  path := some (Collection.defaultPath l.type l.slug)
  description := none
  type := l.type
  status := Status.draft
  publishedAt := none
  rules := l.rule.toJson
  links := l.links
  pinned := some []
  excluded := some []
  minRequired := 10
  targetCount := 20
  sortOrder := 0
  cached := .zero
  cachedAt := none
  createdAt := now
  updatedAt := now

end LinkSource

namespace Shelf

def linkedIds (s : Shelf) (link : Rule.Links → Option String) : List String :=
  s.collections.filterMap fun c => presentText? (link c.links)

/-- The sources without a collection: cuisines, then locations, then tags, each by id. -/
def unlinkedSources (s : Shelf) : List LinkSource :=
  let pick := fun (linked : List String) (sources : List LinkSource) =>
    (sources.filter fun l => !linked.contains l.id).mergeSort fun l m => decide (l.id ≤ m.id)
  pick (s.linkedIds (·.cuisine)) (s.catalog.cuisines.map .ofCuisine) ++
    pick (s.linkedIds (·.location)) (s.catalog.locations.map .ofLocation) ++
    pick (s.linkedIds (·.tag))
      ((s.catalog.tags.filter fun t => LinkSource.tagTypes.contains t.type).map .ofTag)

end Shelf

namespace Action

/-- A slug that is not taken: the given one, the one with the type before it, or that one with a
part of a new id behind it. -/
def freeSlug (taken : List String) (type slug : String) : Action String := do
  if !taken.contains slug then return slug
  let typed := type ++ "-" ++ slug
  if !taken.contains typed then return typed
  return typed ++ "-" ++ String.ofList ((← drawId).toList.take 6)

/-- The collections for some sources; each slug that is given out is taken for the next ones. -/
def link (now : Instant) (taken : List String) : List LinkSource → Action (List Collection)
  | [] => return []
  | l :: ls => do
    let slug ← freeSlug taken l.type l.slug
    let c := l.toCollection slug (← drawId) now
    let cs ← link now (slug :: taken) ls
    return c :: cs

def syncLinked : Action (List Collection) := do
  let s ← get
  let cs ← link (← now) (s.collections.map Collection.slug) s.unlinkedSources
  if !cs.isEmpty then insert cs
  return cs

end Action

end Cookbook
