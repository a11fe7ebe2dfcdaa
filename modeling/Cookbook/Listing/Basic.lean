import Cookbook.Compiled.Compile
import Cookbook.Listing.Matches
import Cookbook.Listing.Order

/-!
# Listings

The recipes of a collection: what its rule matches and what is pinned, without what is excluded, in
order and with the status of each.
-/

namespace Cookbook

/-- Everything about a collection that its listing depends on. -/
structure Context where
  links : Rule.Links
  pinned : List String
  excluded : List String
deriving DecidableEq, Repr

def Match.dated (m : Match) : Dated := ⟨m.id, some m.createdAt⟩

structure Listing where
  entries : List (String × String)
  counts : Counts
  warnings : List Warning
  predicate : Predicate
deriving DecidableEq, Repr

namespace Listing

def ids (l : Listing) : List String := l.entries.map Prod.fst

def unresolved (k : EntityKind) (id : String) : Warning where
  code := .unresolvedReference
  message := k.name ++ " '" ++ id ++ "' does not exist"
  location := none

/-- Ids with their statuses. -/
def labelled (statuses : List (String × String)) (ids : List String) : List (String × String) :=
  ids.filterMap fun id => (statuses.lookup id).map (id, ·)

def entriesOf (key : Instant → Attempt Int) (base : Matches) (ctx : Context)
    (statuses : List (String × String)) : Attempt (List (String × String)) := do
  let pinned := ctx.pinned.filter fun id => (statuses.lookup id).isSome
  let ids ← arrange key (base.toList.map Match.dated) pinned ctx.excluded
  .ok (labelled statuses ids)

end Listing

/-- The pinned ids that are neither matched nor excluded. -/
def Matches.unmatchedPins (base : Matches) (ctx : Context) : List String :=
  ctx.pinned.filter fun id => (base.statuses.lookup id).isNone && !ctx.excluded.contains id

namespace Store

def unresolvedOf (s : Store) (k : EntityKind) (ids : List String) : Attempt (List Warning) := do
  let existing ← s.existingIds k ids
  .ok ((ids.filter fun id => !existing.contains id).map (Listing.unresolved k))

def checkReferences (s : Store) (references : EntityKind → List String) :
    Attempt (List Warning) := do
  let warnings ← EntityKind.referable.mapM fun k => s.unresolvedOf k (sortedSet (references k))
  .ok warnings.flatten

def pinnedStatuses (s : Store) (ids : List String) : Attempt (List (String × String)) := do
  let statuses ← s.statusOf ids
  .ok (statuses.filter fun (_, status) => Status.active.contains status)

def listing (s : Store) (r : Rule) (ctx : Context) : Attempt Listing := do
  let p := r.predicate ctx.links
  let unresolved ← s.checkReferences fun k => p.references k
  let base ← s.evaluate p ctx.excluded
  let more ← s.pinnedStatuses (base.unmatchedPins ctx)
  let entries ← Listing.entriesOf s.catalog.zone.key? base ctx (base.statuses ++ more)
  .ok ⟨entries, .ofStatuses (entries.map Prod.snd), r.warnings ctx.links ++ unresolved, p⟩

end Store

end Cookbook
