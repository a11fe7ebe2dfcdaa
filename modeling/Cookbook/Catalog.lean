import Cookbook.Predicate.Inspect
import Cookbook.Zone

/-!
# The catalog

Recipes and what they are filed under, and the zone in which their times are read.  Nothing here
changes while collections are worked on.  A recipe may name a tag, cuisine or location that has no
row of its own.
-/

namespace Cookbook

namespace Status

/-! The states of a recipe; any other text may stand in a row too. -/

def draft : String := "draft"

def pending : String := "pending"

def published : String := "published"

def archived : String := "archived"

/-- Recipes in these states take part in collections. -/
def active : List String := [published, pending, draft]

end Status

structure Place where
  id : String
  name : String
  slug : String
deriving DecidableEq, Repr

structure Tag where
  id : String
  name : String
  slug : String
  type : String
deriving DecidableEq, Repr

structure Recipe where
  id : String
  title : String
  status : String
  cuisineId : Option String
  locationId : Option String
  cookTime : Option Int
  prepTime : Option Int
  difficulty : Option Int
  servings : Option Int
  /-- Ids of the tags it is linked to. -/
  tags : List String
  createdAt : Instant
  updatedAt : Instant
deriving DecidableEq, Repr

namespace Recipe

def related (r : Recipe) : Relation → Option String
  | .cuisine => r.cuisineId
  | .location => r.locationId

def measured (r : Recipe) : Measure → Option Int
  | .cookTime => r.cookTime
  | .prepTime => r.prepTime
  | .difficulty => r.difficulty
  | .servings => r.servings

def IsActive (r : Recipe) : Prop := r.status ∈ Status.active

instance (r : Recipe) : Decidable r.IsActive := inferInstanceAs (Decidable (_ ∈ _))

def newerFirst (a b : Recipe) : Bool :=
  decide (b.createdAt < a.createdAt) || (a.createdAt == b.createdAt && decide (a.id ≤ b.id))

def recentFirst (a b : Recipe) : Bool :=
  decide (b.updatedAt < a.updatedAt) || (a.updatedAt == b.updatedAt && newerFirst a b)

end Recipe

structure Catalog where
  zone : Zone
  cuisines : List Place
  locations : List Place
  tags : List Tag
  recipes : List Recipe
deriving DecidableEq, Repr

namespace Catalog

def empty (zone : Zone) : Catalog := ⟨zone, [], [], [], []⟩

def idsOf (c : Catalog) : EntityKind → List String
  | .recipe => c.recipes.map Recipe.id
  | .cuisine => c.cuisines.map Place.id
  | .location => c.locations.map Place.id
  | .tag => c.tags.map Tag.id

def recipe? (c : Catalog) (id : String) : Option Recipe := c.recipes.find? (·.id == id)

/-- Whether a tag id counts: with a type asked for, it needs a row of that type. -/
def TagCounts (c : Catalog) (tagType : Option String) (id : String) : Prop :=
  match tagType with
  | none => True
  | some t => ∃ row ∈ c.tags, row.id = id ∧ row.type = t

instance (c : Catalog) (tagType : Option String) (id : String) :
    Decidable (c.TagCounts tagType id) := by
  cases tagType <;> unfold TagCounts <;> infer_instance

def HasTag (c : Catalog) (r : Recipe) (ids : List String) (tagType : Option String) : Prop :=
  ∃ t ∈ r.tags, t ∈ ids ∧ c.TagCounts tagType t

instance (c : Catalog) (r : Recipe) (ids : List String) (tagType : Option String) :
    Decidable (c.HasTag r ids tagType) := inferInstanceAs (Decidable (∃ _ ∈ _, _))

def tagsOf (c : Catalog) (r : Recipe) : List Tag := c.tags.filter fun t => r.tags.contains t.id

def cuisineOf (c : Catalog) (r : Recipe) : Option Place :=
  r.cuisineId.bind fun id => c.cuisines.find? (·.id == id)

def locationOf (c : Catalog) (r : Recipe) : Option Place :=
  r.locationId.bind fun id => c.locations.find? (·.id == id)

end Catalog

end Cookbook
