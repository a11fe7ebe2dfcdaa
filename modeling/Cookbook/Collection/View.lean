import Cookbook.Collection.Basic
import Cookbook.Schema.Issue

/-!
# Views of collections

The row of a collection as answers show it, and its view from the stored counts, which does not ask
the catalog.
-/

namespace Cookbook

namespace Collection

open Schema

/-- What keeps a row from being shown. -/
def viewIssues (c : Collection) : List Issue :=
  let rules := match c.rules with
    | .obj _ => []
    | _ => [⟨[.name "rules"], .notObject⟩]
  let list := fun (name : String) (ids : Option (List String)) =>
    match ids with
    | some _ => []
    | none => [⟨[.name name], .notList⟩]
  rules ++ list "pinned_recipe_ids" c.pinned ++ list "excluded_recipe_ids" c.excluded

def viewed (c : Collection) : Attempt Collection :=
  match c.viewIssues with
  | [] => .ok c
  | is => .error (.request is)

def members (c : Collection) : Members :=
  [("id", .str c.id), ("name", .str c.name), ("slug", .str c.slug),
    ("path", Json.ofOption .str c.path), ("description", Json.ofOption .str c.description),
    ("type", .str c.type), ("status", .str c.status), ("rules", c.rules.writable),
    ("cuisineId", Json.ofOption .str c.links.cuisine),
    ("locationId", Json.ofOption .str c.links.location),
    ("tagId", Json.ofOption .str c.links.tag),
    ("pinnedRecipeIds", Json.texts c.pinnedIds), ("excludedRecipeIds", Json.texts c.excludedIds),
    ("minRequired", .int c.minRequired), ("targetCount", .int c.targetCount),
    ("sortOrder", .int c.sortOrder),
    ("publishedAt", Json.ofOption (fun t => .str t.iso) c.publishedAt),
    ("createdAt", .str c.createdAt.iso), ("updatedAt", .str c.updatedAt.iso)]

def toJson (c : Collection) : Json := .obj c.members

structure Standing where
  state : Freshness
  progress : Progress
deriving DecidableEq, Repr

def standing (c : Collection) (s : Settings) (ttl : Int) (now : Instant) : Attempt Standing := do
  let state ← Snapshot.freshness c.cachedAt ttl now
  let progress ← Progress.of c.cached c.minRequired c.targetCount s.nearThreshold
  .ok ⟨state, progress⟩

end Collection

/-- A collection in a list, from its stored counts. -/
structure ListItem where
  collection : Collection
  standing : Collection.Standing
deriving DecidableEq, Repr

namespace ListItem

def of (c : Collection) (s : Settings) (now : Instant) : Attempt ListItem :=
  (c.standing s s.cacheTtl now).map (⟨c, ·⟩)

def isQualified (i : ListItem) : Bool := i.standing.progress.qualified

def toJson (i : ListItem) : Json :=
  let c := i.collection
  let p := i.standing.progress
  .obj [("id", .str c.id), ("type", .str c.type), ("name", .str c.name), ("slug", .str c.slug),
    ("path", Json.ofOption .str c.path), ("status", .str c.status), ("sortOrder", .int c.sortOrder),
    ("minRequired", .int c.minRequired), ("targetCount", .int c.targetCount),
    ("matchedCount", .int c.cached.matched), ("publishedCount", .int c.cached.published),
    ("pendingCount", .int c.cached.pending), ("draftCount", .int c.cached.draft),
    ("cachedAt", Json.ofOption (fun t => .str t.isoZulu) c.cachedAt),
    ("isStale", .bool (i.standing.state == .stale)), ("progress", .float p.progress),
    ("qualifiedStatus", .str p.statusWord), ("near", .bool p.near),
    ("createdAt", .str c.createdAt.iso), ("updatedAt", .str c.updatedAt.iso)]

end ListItem

end Cookbook
