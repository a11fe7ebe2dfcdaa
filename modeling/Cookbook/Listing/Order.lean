import Cookbook.Distinct
import Cookbook.Failure
import Cookbook.Instant

/-!
# The order of a list

Pinned ids come first in their own order, then the other matches, newest first.  Excluded ids never
appear, and no id appears twice.  Times are compared by a number of each, and where a time has none
there is no list.
-/

namespace Cookbook

/-- An id with the time by which it is ordered; without a time it comes last. -/
structure Dated where
  id : String
  createdAt : Option Instant
deriving DecidableEq, Repr

/-- An id with the number of its time. -/
structure Ranked where
  id : String
  key : Option Int
deriving DecidableEq, Repr

namespace Ranked

def before (a b : Ranked) : Bool :=
  match a.key, b.key with
  | none, none => decide (a.id ≤ b.id)
  | none, some _ => false
  | some _, none => true
  | some k, some l => decide (l < k) || (k == l && decide (a.id ≤ b.id))

end Ranked

def Dated.ranked (key : Instant → Attempt Int) (d : Dated) : Attempt Ranked :=
  match d.createdAt with
  | some t => (key t).map fun k => ⟨d.id, some k⟩
  | none => .ok ⟨d.id, none⟩

def merge (matched : List Ranked) (pinned excluded : List String) : List String :=
  let sorted := (matched.mergeSort Ranked.before).map Ranked.id
  distinct ((pinned ++ sorted).filter fun id => !excluded.contains id)

def arrange (key : Instant → Attempt Int) (base : List Dated) (pinned excluded : List String) :
    Attempt (List String) := do
  let matched ← base.mapM (Dated.ranked key)
  .ok (merge matched pinned excluded)

end Cookbook
