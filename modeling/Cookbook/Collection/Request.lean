import Cookbook.Collection.Basic
import Cookbook.Schema.Readers

/-!
# Requests

What callers ask for, read from JSON with every issue of its shape.  Names come in camel case or
with underscores.
-/

namespace Cookbook

open Schema

def Schema.record {α : Type} (read : Members → Checked α) : Shape α
  | .obj ms => read ms
  | _ => .fault .notRecord

/-- A rule as a request carries it: an object that is looked at later. -/
def Schema.rawRule : Shape Json := fun j => (object j).map .obj

structure NewCollection where
  name : String
  slug : String
  type : String
  status : String
  path : Option String
  description : Option String
  rules : Json
  links : Rule.Links
  pinned : List String
  excluded : List String
  minRequired : Int
  targetCount : Int
  sortOrder : Int
deriving DecidableEq, Repr

def Rule.Links.ofMembers {V : Type} (w : Readers V) (names : String → List String)
    (ms : List (String × V)) : Checked Rule.Links :=
  Rule.Links.mk <$> memberD ms (names "cuisine_id") (w.optional w.text) none
    <*> memberD ms (names "location_id") (w.optional w.text) none
    <*> memberD ms (names "tag_id") (w.optional w.text) none

namespace NewCollection

def ofMembers (ms : Members) : Checked NewCollection :=
  NewCollection.mk <$> member ms ["name"] nonEmptyText
    <*> member ms ["slug"] nonEmptyText
    <*> memberD ms ["type"] text Collection.themeType
    <*> memberD ms ["status"] (choice Collection.states) Status.draft
    <*> memberD ms ["path"] (optional text) none
    <*> memberD ms ["description"] (optional text) none
    <*> memberD ms ["rules"] rawRule Rule.emptyJson
    <*> Rule.Links.ofMembers .json spellings ms
    <*> memberD ms (spellings "pinned_recipe_ids") (list text) []
    <*> memberD ms (spellings "excluded_recipe_ids") (list text) []
    <*> memberD ms (spellings "min_required") (atLeast 0) 10
    <*> memberD ms (spellings "target_count") (atLeast 0) 20
    <*> memberD ms (spellings "sort_order") whole 0

def ofJson : Shape NewCollection := record ofMembers

end NewCollection

/-- Changes to a collection.  An absent part stays; `null` clears what may be clear, empties a list
and leaves everything else as it is. -/
structure Changes where
  name : Option String
  slug : Option String
  type : Option String
  status : Option String
  path : Option (Option String)
  description : Option (Option String)
  rules : Option Json
  cuisine : Option (Option String)
  location : Option (Option String)
  tag : Option (Option String)
  pinned : Option (List String)
  excluded : Option (List String)
  minRequired : Option Int
  targetCount : Option Int
  sortOrder : Option Int
deriving DecidableEq, Repr

namespace Changes

def kept {α : Type} (ms : Members) (names : List String) (read : Shape α) : Checked (Option α) :=
  (member? ms names (optional read)).map Option.join

/-- A member that is a list, for which `null` is the empty one. -/
def listed (ms : Members) (names : List String) : Checked (Option (List String)) :=
  (member? ms names (optional (list text))).map fun given => given.map (·.getD [])

def ofMembers (ms : Members) : Checked Changes :=
  Changes.mk <$> kept ms ["name"] nonEmptyText
    <*> kept ms ["slug"] nonEmptyText
    <*> kept ms ["type"] text
    <*> kept ms ["status"] (choice Collection.states)
    <*> member? ms ["path"] (optional text)
    <*> member? ms ["description"] (optional text)
    <*> kept ms ["rules"] rawRule
    <*> member? ms (spellings "cuisine_id") (optional text)
    <*> member? ms (spellings "location_id") (optional text)
    <*> member? ms (spellings "tag_id") (optional text)
    <*> listed ms (spellings "pinned_recipe_ids")
    <*> listed ms (spellings "excluded_recipe_ids")
    <*> kept ms (spellings "min_required") (atLeast 0)
    <*> kept ms (spellings "target_count") (atLeast 0)
    <*> kept ms (spellings "sort_order") whole

def ofJson : Shape Changes := record ofMembers

end Changes

structure RuleTest where
  rules : Json
  excluded : List String
  limit : Int
deriving DecidableEq, Repr

def RuleTest.ofJson : Shape RuleTest := record fun ms =>
  RuleTest.mk <$> member ms ["rules"] rawRule
    <*> memberD ms (spellings "excluded_recipe_ids") (list text) []
    <*> memberD ms ["limit"] (atLeast 0) 10

structure Preview where
  rules : Json
  links : Rule.Links
deriving DecidableEq, Repr

def Preview.ofJson : Shape Preview := record fun ms =>
  Preview.mk <$> member ms ["rules"] rawRule <*> Rule.Links.ofMembers .json spellings ms

def recipeIds (ms : Members) : Checked (List String) :=
  member ms (spellings "recipe_ids") (nonEmptyList text)

def RecipeIds.ofJson : Shape (List String) := record recipeIds

inductive Position where
  | start
  | finish
deriving DecidableEq, Repr

def Position.name : Position → String
  | start => "start"
  | finish => "end"

structure PinRequest where
  ids : List String
  position : Position
deriving DecidableEq, Repr

def PinRequest.ofJson : Shape PinRequest := record fun ms =>
  PinRequest.mk <$> recipeIds ms
    <*> memberD ms ["position"] (named [Position.start, .finish] Position.name) .finish

/-- The collections to refresh; all of them when there is no list. -/
def RefreshRequest.ofJson : Shape (Option (List String)) := record fun ms =>
  memberD ms (spellings "collection_ids") (optional (list text)) none

def PublishRequest.ofJson : Shape Bool := record fun ms => memberD ms ["force"] truth false

end Cookbook
