import Cookbook.Catalog
import Cookbook.Json.Basic

/-!
# Counts

How many recipes a list has, and how many of them are in each of the active states.
-/

namespace Cookbook

structure Counts where
  matched : Int
  published : Int
  pending : Int
  draft : Int
deriving DecidableEq, Repr

namespace Counts

def zero : Counts := ⟨0, 0, 0, 0⟩

def ofStatuses (statuses : List String) : Counts where
  matched := statuses.length
  published := statuses.count Status.published
  pending := statuses.count Status.pending
  draft := statuses.count Status.draft

/-- The counts of a table of numbers by status; other statuses do not count. -/
def ofTable (table : List (String × Nat)) : Counts :=
  let number := fun status => ((table.lookup status).getD 0 : Nat)
  let published := number Status.published
  let pending := number Status.pending
  let draft := number Status.draft
  ⟨(published + pending + draft : Nat), published, pending, draft⟩

def toJson (c : Counts) : Json :=
  .obj [("matched", .int c.matched), ("published", .int c.published), ("pending", .int c.pending),
    ("draft", .int c.draft)]

end Counts

end Cookbook
