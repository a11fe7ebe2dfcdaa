import Cookbook.Listing.Basic
import Cookbook.Listing.Progress
import Cookbook.Rule.Reader
import Cookbook.Rule.Wire
import Cookbook.Settings
import Cookbook.Snapshot

/-!
# Collections

A named set of recipes with its rule, its manual overrides and the counts that were last taken of
it.  The counts belong to the time in `cachedAt`; without one they are only the last known ones.
-/

namespace Cookbook

structure Collection where
  id : String
  name : String
  slug : String
  path : Option String
  description : Option String
  type : String
  status : String
  publishedAt : Option Instant
  rules : Json
  links : Rule.Links
  /-- Ids in their order; a row from elsewhere may have no list. -/
  pinned : Option (List String)
  excluded : Option (List String)
  minRequired : Int
  targetCount : Int
  sortOrder : Int
  cached : Counts
  cachedAt : Option Instant
  createdAt : Instant
  updatedAt : Instant
deriving DecidableEq, Repr

namespace Collection

def states : List String := [Status.draft, Status.published, Status.archived]

def typePaths : List (String × String) :=
  [("cuisine", "/recipe/cuisine"), ("region", "/recipe/region"), ("scene", "/recipe/scene"),
    ("method", "/recipe/method"), ("taste", "/recipe/taste"), ("crowd", "/recipe/dietary"),
    ("occasion", "/recipe/occasion"), ("ingredient", "/recipe/ingredient"),
    ("theme", "/recipe/theme")]

def themeType : String := "theme"

def defaultPath (type slug : String) : String :=
  (typePaths.lookup type).getD "/recipe" ++ "/" ++ slug

def IsPublished (c : Collection) : Prop := c.status = Status.published

instance (c : Collection) : Decidable c.IsPublished := inferInstanceAs (Decidable (_ = _))

def pinnedIds (c : Collection) : List String := c.pinned.getD []

def excludedIds (c : Collection) : List String := c.excluded.getD []

def context (c : Collection) : Context := ⟨c.links, c.pinnedIds, c.excludedIds⟩

/-- Clears the time of the counts and keeps the counts for display. -/
def invalidate (c : Collection) : Collection := { c with cachedAt := none }

def store (c : Collection) (s : Snapshot) : Collection :=
  { c with cached := s.counts, cachedAt := some s.takenAt }

def columnNumbers (c : Collection) : List Int := [c.minRequired, c.targetCount, c.sortOrder]

def FitsColumns (c : Collection) : Prop := ∀ n ∈ c.columnNumbers, (Number.int n).FitsWord

instance (c : Collection) : Decidable c.FitsColumns :=
  inferInstanceAs (Decidable (∀ _ ∈ _, _))

end Collection

/-- The listing of a collection as its rule stands now. -/
def Store.currentListing (s : Store) (c : Collection) : Attempt Listing :=
  match Rule.ofJson c.rules with
  | .ok r => s.listing r c.context
  | .error ps => .error (.rule ps)

end Cookbook
