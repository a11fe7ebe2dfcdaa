import Cookbook.Collection.View
import Cookbook.Shelf.Basic

/-!
# Taking counts

A refresh computes the listing of a collection as it stands and stores its counts with the time.  In
a batch a collection that cannot be refreshed keeps what it had and is reported; only a failure that
is not of the known kinds ends the batch.
-/

namespace Cookbook

/-- What a batch did with one collection: its new counts or why there are none. -/
structure RefreshDetail where
  id : String
  name : String
  outcome : Attempt Counts

namespace RefreshDetail

def succeeded (d : RefreshDetail) : Bool := d.outcome.toOption.isSome

def toJson (d : RefreshDetail) : Json :=
  let (counts, error) := match d.outcome with
    | .ok counts => (counts.toJson, Json.null)
    | .error f => (.null, .str f.message)
  .obj [("id", .str d.id), ("name", .str d.name), ("success", .bool d.succeeded),
    ("counts", counts), ("error", error)]

end RefreshDetail

structure RefreshReport where
  details : List RefreshDetail

def RefreshReport.toJson (r : RefreshReport) : Json :=
  let refreshed := (r.details.filter RefreshDetail.succeeded).length
  .obj [("refreshed", .int refreshed), ("failed", .int (r.details.length - refreshed : Nat)),
    ("details", .arr (r.details.map RefreshDetail.toJson))]

structure LiveRead where
  listing : Listing
  progress : Progress
deriving DecidableEq, Repr

structure StoredRead where
  collection : Collection
  standing : Collection.Standing
deriving DecidableEq, Repr

namespace Action

def reloadFailure : Failure :=
  .store ("Reloading collection failed: " ++ lockedText) (some "refresh")

def snapshotFailure : Failure :=
  .store ("Writing counts snapshot failed: " ++ lockedText) (some "write_snapshot")

def liveRead (c : Collection) : Action LiveRead := do
  let listing ← attempt ((← store).currentListing c)
  let progress ← attempt
    (Progress.of listing.counts c.minRequired c.targetCount (← settings).nearThreshold)
  return ⟨listing, progress⟩

def refreshRow (c : Collection) : Action Snapshot := do
  reload reloadFailure c.id
  let listing ← attempt ((← store).currentListing c)
  let snapshot : Snapshot := ⟨listing.counts, ← now⟩
  save snapshotFailure (c.store snapshot)
  return snapshot

def refresh (id : String) : Action Snapshot := do refreshRow (← require id)

def refreshDetail (c : Collection) : Action RefreshDetail :=
  tryCatch (return ⟨c.id, c.name, .ok (← refreshRow c).counts⟩) fun f =>
    if f.IsOwn then return ⟨c.id, c.name, .error f⟩ else fail f

/-- The rows of a batch by id: the ones named, or all of them when none is. -/
def batch (rows : List Collection) (ids : Option (List String)) : List Collection :=
  let ids := ids.getD []
  let chosen := if ids.isEmpty then rows else rows.filter fun c => ids.contains c.id
  chosen.mergeSort fun c d => decide (c.id ≤ d.id)

def refreshCounts (ids : Option (List String)) : Action RefreshReport := do
  let details ← (batch (← get).collections ids).mapM refreshDetail
  return ⟨details⟩

def freshRead (id : String) : Action LiveRead := do liveRead (← require id)

/-- Reads what is stored, with a time to live and a time of its own where given. -/
def cachedRead (id : String) (ttl : Option Int) (at? : Option Instant) : Action StoredRead := do
  let c ← require id
  let s ← settings
  let standing ← attempt (c.standing s (ttl.getD s.cacheTtl) (at?.getD (← now)))
  return ⟨c, standing⟩

end Action

end Cookbook
