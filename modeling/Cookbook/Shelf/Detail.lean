import Cookbook.Collection.View
import Cookbook.Rule.Describe
import Cookbook.Shelf.Refresh

/-!
# The detail of a collection

The row with its listing as it would be now: the counts of all of it, and the first recipes.
-/

namespace Cookbook

structure Detail where
  collection : Collection
  read : LiveRead
  description : String
  recipes : List Recipe
deriving DecidableEq, Repr

namespace Detail

/-- The beginning of a list; a negative length leaves out that many at the end. -/
def beginning {α : Type} (length : Int) (xs : List α) : List α :=
  if length < 0 then xs.take (xs.length + length).toNat else xs.take length.toNat

def addMethod (c : Collection) (id : String) : String :=
  if c.pinnedIds.contains id then "manual" else "rule"

def recipeJson (c : Collection) (r : Recipe) : Json :=
  .obj [("id", .str r.id), ("title", .str r.title), ("status", .str r.status),
    ("addMethod", .str (addMethod c r.id))]

def toJson (d : Detail) : Json :=
  let counts := d.read.listing.counts
  let p := d.read.progress
  .obj (d.collection.members ++
    [("matchedCount", .int counts.matched), ("publishedCount", .int counts.published),
      ("pendingCount", .int counts.pending), ("draftCount", .int counts.draft),
      ("progress", .float p.progress), ("qualifiedStatus", .str p.statusWord),
      ("near", .bool p.near), ("ruleDescription", .str d.description),
      ("warnings", .arr (d.read.listing.warnings.map Warning.toJson)),
      ("recipes", .arr (d.recipes.map (recipeJson d.collection)))])

end Detail

namespace Action

def described (rules : Json) : Action String :=
  match Rule.ofJson rules with
  | .ok r => return r.describe
  | .error ps => fail (.rule ps)

def detail (id : String) : Action Detail := do
  let c ← require id
  let read ← liveRead c
  let ids := Detail.beginning (← settings).detailLimit read.listing.ids
  let recipes ← attempt ((← store).getMany ids)
  let shown ← attempt c.viewed
  return ⟨shown, read, ← described c.rules, recipes⟩

end Action

end Cookbook
