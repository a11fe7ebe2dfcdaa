import Cookbook.Definition.Basic

/-!
# The definitions that come with the library
-/

namespace Cookbook.Definition

def measureCondition (field operator : String) (value : Int) : Rule.Condition :=
  ⟨some field, some operator, .int value, none⟩

def tagCondition (operator : String) (value : Json) (tagType : String) : Rule.Condition :=
  ⟨some "tag", some operator, value, some tagType⟩

/-- A theme with a custom rule; a rule without exclusions has no member for them. -/
def theme (slug name : String) (description : Option String) (groups : List Rule.Group)
    (exclude : List Rule.Condition) (minRequired targetCount sortOrder : Int) : Definition where
  slug := slug
  name := name
  type := Collection.themeType
  status := Status.draft
  path := none
  description := description
  rules := .obj ([("mode", .str Rule.Mode.custom.name),
    ("groups", .arr (groups.map Rule.Group.toJson))] ++
      if exclude.isEmpty then [] else [("exclude", .arr (exclude.map Rule.Condition.toJson))])
  links := .unlinked
  pinned := []
  excluded := []
  minRequired := minRequired
  targetCount := targetCount
  sortOrder := sortOrder

def partyPlatters : Definition :=
  theme "party-platters" "Party Platters" (some "Shareable dishes for a crowd.")
    [⟨some "AND", [measureCondition "servings" "gte" 6]⟩,
      ⟨some "OR", [tagCondition "in" (Json.texts ["tag-party", "tag-holiday"]) "occasion"]⟩]
    [] 6 15 30

def quickDinners : Definition :=
  theme "quick-weeknight-dinners" "Quick Weeknight Dinners"
    (some "Main dishes on the table in half an hour.")
    [⟨some "AND", [measureCondition "cookTime" "lte" 30, measureCondition "difficulty" "lte" 2]⟩]
    [tagCondition "eq" (.str "tag-dessert") "occasion"] 10 30 10

def spicyComfort : Definition :=
  theme "spicy-comfort-food" "Spicy Comfort Food" none
    [⟨some "OR", [tagCondition "eq" (.str "tag-spicy") "taste",
        tagCondition "eq" (.str "tag-numbing") "taste"]⟩,
      ⟨some "AND", [measureCondition "servings" "gte" 2]⟩]
    [] 8 20 20

def packaged : List Definition := [partyPlatters, quickDinners, spicyComfort]

end Cookbook.Definition
