import Cookbook.Failure
import Cookbook.Instant
import Cookbook.Listing.Counts

/-!
# Snapshots of counts

Counts with the time at which they were taken.  A snapshot is fresh up to and including the end of
its time to live; a time to live that is not positive never ends.
-/

namespace Cookbook

structure Snapshot where
  counts : Counts
  takenAt : Instant
deriving DecidableEq, Repr

inductive Freshness where
  | fresh
  | stale
deriving DecidableEq, Repr

def Freshness.name : Freshness → String
  | fresh => "fresh"
  | stale => "stale"

namespace Snapshot

/-- The longest span of time that can be named, in whole seconds. -/
def longestSpan : Int := 999999999 * 86400 + 86399

def freshness (takenAt : Option Instant) (ttl : Int) (now : Instant) : Attempt Freshness :=
  match takenAt with
  | none => .ok .stale
  | some t =>
    if ttl ≤ 0 then .ok .fresh
    else if longestSpan < ttl then .error .overflow
    else if ttl * Instant.microsPerSecond < t.elapsed now then .ok .stale
    else .ok .fresh

end Snapshot

/-- The ids that have a lock, in the order in which they were first asked for. -/
structure LockRegistry where
  ids : List String
deriving DecidableEq, Repr

namespace LockRegistry

def empty : LockRegistry := ⟨[]⟩

def get (l : LockRegistry) (id : String) : LockRegistry :=
  if id ∈ l.ids then l else ⟨l.ids ++ [id]⟩

def size (l : LockRegistry) : Nat := l.ids.length

end LockRegistry

end Cookbook
