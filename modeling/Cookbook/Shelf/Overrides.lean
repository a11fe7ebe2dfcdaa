import Cookbook.Collection.Edit
import Cookbook.Shelf.Basic

/-!
# Manual overrides

Pinned recipes come first whatever the rule says, and excluded ones never appear.  Excluding a
recipe unpins it; including it again does not bring the pin back.
-/

namespace Cookbook

/-- The overrides after a change, with a sentence about it; `excluded` is absent where only pins
were asked about. -/
structure OverrideAnswer where
  pinned : List String
  excluded : Option (List String)
  message : String
deriving DecidableEq, Repr

def OverrideAnswer.toJson (a : OverrideAnswer) : Json :=
  .obj ((match a.excluded with
    | some ids => [("excludedRecipeIds", Json.texts ids)]
    | none => []) ++ [("pinnedRecipeIds", Json.texts a.pinned), ("message", .str a.message)])

namespace Action

def requireRecipes (ids : List String) : Action Unit := do
  let existing ← attempt ((← store).existingIds .recipe ids)
  let missing := (distinct ids).filter fun id => !existing.contains id
  if !missing.isEmpty then fail (.unknownRecipes missing)

def override (c : Collection) : Action Unit := do
  save .database (c.overridden (← now))

def countedText (verb : String) (n : Nat) : String := verb ++ " " ++ toString n ++ " recipe(s)"

def pin (id : String) (r : PinRequest) : Action OverrideAnswer := do
  let c ← require id
  requireRecipes r.ids
  let pinned := c.pinnedWith r.ids r.position
  override (c.withPinned pinned)
  return ⟨pinned, none, countedText "Pinned" (Collection.newcomers c.pinnedIds r.ids).length⟩

def unpin (id : String) (ids : List String) : Action OverrideAnswer := do
  let c ← require id
  let pinned := Collection.removing c.pinnedIds ids
  override (c.withPinned pinned)
  return ⟨pinned, none, countedText "Unpinned" ids.length⟩

/-- The new order of the pins, which have to stay the same ids. -/
def reorder (id : String) (ids : List String) : Action OverrideAnswer := do
  let c ← require id
  if ¬ c.Reorders ids then
    fail (.badOverride "Reordering cannot add or remove pinned recipes; use pin/unpin instead")
  override (c.withPinned ids)
  return ⟨ids, none, "Pinned order updated"⟩

def exclude (id : String) (ids : List String) : Action OverrideAnswer := do
  let c ← require id
  requireRecipes ids
  let added := Collection.newcomers c.excludedIds ids
  let excluded := c.excludedIds ++ added
  let pinned := Collection.removing c.pinnedIds ids
  override ((c.withPinned pinned).withExcluded excluded)
  return ⟨pinned, some excluded, countedText "Excluded" added.length⟩

def unexclude (id : String) (ids : List String) : Action OverrideAnswer := do
  let c ← require id
  let excluded := Collection.removing c.excludedIds ids
  override (c.withExcluded excluded)
  return ⟨c.pinnedIds, some excluded, countedText "Restored" ids.length⟩

end Action

end Cookbook
