import Cookbook.Compiled.Basic
import Cookbook.Collection.Request
import Cookbook.Rule.Check
import Cookbook.Rule.Describe
import Cookbook.Shelf.Basic

/-!
# Trying out rules

What a rule would match if a collection had it.  Nothing is stored; a rule with problems is answered
with them and is not run.
-/

namespace Cookbook

structure Sample where
  recipe : Recipe
  cuisine : Option String
  location : Option String
  tags : List String
deriving DecidableEq, Repr

namespace Sample

def of (c : Catalog) (r : Recipe) : Sample where
  recipe := r
  cuisine := (c.cuisineOf r).map Place.name
  location := (c.locationOf r).map Place.name
  tags := (c.tagsOf r).map Tag.name

def toJson (s : Sample) : Json :=
  .obj [("id", .str s.recipe.id), ("title", .str s.recipe.title), ("status", .str s.recipe.status),
    ("cuisineName", Json.ofOption .str s.cuisine), ("locationName", Json.ofOption .str s.location),
    ("tags", Json.texts (s.tags.mergeSort fun a b => decide (a ≤ b)))]

end Sample

structure Trial where
  counts : Counts
  samples : List Sample
  problems : List Rule.Problem
  description : String
  warnings : List Warning
deriving DecidableEq, Repr

namespace Trial

def refused (ps : List Rule.Problem) : Trial :=
  ⟨.zero, [], ps, "Invalid rule configuration", []⟩

def toJson (t : Trial) : Json :=
  .obj [("counts", t.counts.toJson), ("samples", .arr (t.samples.map Sample.toJson)),
    ("validation", .obj [("valid", .bool t.problems.isEmpty),
      ("errors", Json.texts (t.problems.map Rule.Problem.message)),
      ("details", .arr (t.problems.map Rule.Problem.toJson))]),
    ("description", .str t.description), ("warnings", .arr (t.warnings.map Warning.toJson))]

end Trial

/-- The number of published recipes that a rule matches, and whether it leaves any out. -/
structure PreviewAnswer where
  count : Nat
  hasRules : Bool
deriving DecidableEq, Repr

def PreviewAnswer.toJson (a : PreviewAnswer) : Json :=
  .obj [("count", .int a.count), ("hasRules", .bool a.hasRules)]

namespace Action

/-- The most recently changed matches, if any are wanted. -/
def samples (p : Predicate) (excluded : List String) (limit : Int) : Action (List Sample) := do
  let s ← store
  if limit ≤ 0 then return []
  let rows ← attempt (s.list (p.without excluded) (some Status.active) 0 (some limit) .recent)
  return rows.map (Sample.of s.catalog)

def runTrial (c : Collection) (r : Rule) (t : RuleTest) : Action Trial := do
  let s ← store
  let p := r.predicate c.links
  let unresolved ← attempt (s.checkReferences fun k => p.references k)
  let counts ← attempt (s.matchCounts p t.excluded)
  let found ← samples p t.excluded (min t.limit (← settings).sampleLimit)
  return ⟨counts, found, [], r.describe, r.warnings c.links ++ unresolved⟩

def testRules (id : String) (t : RuleTest) : Action Trial := do
  let c ← require id
  match Rule.accept t.rules with
  | .ok r => runTrial c r t
  | .error ps => return Trial.refused ps

def preview (r : Preview) : Action PreviewAnswer := do
  match Rule.accept r.rules with
  | .ok rule =>
    let p := rule.predicate r.links
    let count ← attempt ((← store).count p (some Status.published))
    return ⟨count, p != .all⟩
  | .error ps => fail (.rule ps)

end Action

end Cookbook
