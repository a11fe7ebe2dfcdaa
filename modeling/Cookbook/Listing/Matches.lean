import Cookbook.Listing.Counts
import Cookbook.Predicate.Simplify
import Cookbook.Query.Store

/-!
# Matches by status

The active recipes that match a predicate, without the excluded ones.
-/

namespace Cookbook

structure Matches where
  published : List Match
  pending : List Match
  draft : List Match
deriving DecidableEq, Repr

namespace Matches

def ofList (ms : List Match) : Matches where
  published := ms.filter (·.status == Status.published)
  pending := ms.filter (·.status == Status.pending)
  draft := ms.filter (·.status == Status.draft)

def toList (m : Matches) : List Match := m.published ++ m.pending ++ m.draft

def statuses (m : Matches) : List (String × String) := m.toList.map fun x => (x.id, x.status)

end Matches

namespace Store

def evaluate (s : Store) (p : Predicate) (excluded : List String) : Attempt Matches :=
  (s.listMatches (p.without excluded) []).map Matches.ofList

/-- The counts of the matches, without listing them. -/
def matchCounts (s : Store) (p : Predicate) (excluded : List String) : Attempt Counts :=
  (s.countByStatus (p.without excluded)).map Counts.ofTable

end Store

end Cookbook
