import Cookbook.Collection.Request
import Cookbook.Rule.Check
import Cookbook.Yaml.Node

/-!
# Definitions

A collection as it is written in a file.  Its slug tells whether the collection exists already.
What is read of a file is checked as it is, and is written in JSON only when it is put in place.
-/

namespace Cookbook

open Schema

/-- A definition, with its rule as JSON unless said otherwise. -/
structure Definition (R : Type := Json) where
  slug : String
  name : String
  type : String
  status : String
  path : Option String
  description : Option String
  rules : R
  links : Rule.Links
  pinned : List String
  excluded : List String
  minRequired : Int
  targetCount : Int
  sortOrder : Int
deriving DecidableEq, Repr

namespace Definition

variable {R V : Type}

/-- A definition is read by the readers of its members and one for its rule, which may be absent. -/
def read (w : Readers V) (rule : V → Checked R) (absent : R) (ms : List (String × V)) :
    Checked (Definition R) :=
  Definition.mk <$> member ms ["slug"] w.text
    <*> member ms ["name"] w.text
    <*> memberD ms ["type"] w.text Collection.themeType
    <*> memberD ms ["status"] (w.choice Collection.states) Status.draft
    <*> memberD ms ["path"] (w.optional w.text) none
    <*> memberD ms ["description"] (w.optional w.text) none
    <*> memberD ms ["rules"] rule absent
    <*> Rule.Links.ofMembers w (fun name => [name]) ms
    <*> memberD ms ["pinned_recipe_ids"] (w.list w.text) []
    <*> memberD ms ["excluded_recipe_ids"] (w.list w.text) []
    <*> memberD ms ["min_required"] (w.atLeast 0) 10
    <*> memberD ms ["target_count"] (w.atLeast 0) 20
    <*> memberD ms ["sort_order"] w.whole 0

def ofMembers (ms : Members) : Checked Definition := read .json rawRule Rule.emptyJson ms

def toJson (d : Definition) : Json :=
  .obj [("slug", .str d.slug), ("name", .str d.name), ("type", .str d.type),
    ("status", .str d.status), ("path", Json.ofOption .str d.path),
    ("description", Json.ofOption .str d.description), ("rules", d.rules),
    ("cuisine_id", Json.ofOption .str d.links.cuisine),
    ("location_id", Json.ofOption .str d.links.location),
    ("tag_id", Json.ofOption .str d.links.tag), ("pinned_recipe_ids", Json.texts d.pinned),
    ("excluded_recipe_ids", Json.texts d.excluded), ("min_required", .int d.minRequired),
    ("target_count", .int d.targetCount), ("sort_order", .int d.sortOrder)]

def required : Checked (Definition R) → Attempt (Definition R)
  | .ok d => .ok d
  | .bad is => .error (.request is)

def ofJson : Json → Attempt Definition
  | .obj ms => required (ofMembers ms)
  | _ => .error .noMapping

def pagePath (d : Definition R) : String :=
  (presentText? d.path).getD (Collection.defaultPath d.type d.slug)

/-- Name and slug may not be empty in a collection. -/
def emptyIssues (d : Definition R) : List Issue :=
  (if d.name.isEmpty then [⟨[.name "name"], .emptyText⟩] else []) ++
    (if d.slug.isEmpty then [⟨[.name "slug"], .emptyText⟩] else [])

def toNew (d : Definition) : NewCollection where
  name := d.name
  slug := d.slug
  type := d.type
  status := d.status
  path := some d.pagePath
  description := d.description
  rules := d.rules
  links := d.links
  pinned := d.pinned
  excluded := d.excluded
  minRequired := d.minRequired
  targetCount := d.targetCount
  sortOrder := d.sortOrder

def toChanges (d : Definition) : Changes where
  name := some d.name
  slug := some d.slug
  type := some d.type
  status := some d.status
  path := some (some d.pagePath)
  description := some d.description
  rules := some d.rules
  cuisine := some d.links.cuisine
  location := some d.links.location
  tag := some d.links.tag
  pinned := some d.pinned
  excluded := some d.excluded
  minRequired := some d.minRequired
  targetCount := some d.targetCount
  sortOrder := some d.sortOrder

end Definition

/-- A definition as a file has it, with the members of its rule as they were read. -/
abbrev Sheet := Definition (List (String × Yaml.Node))

namespace Sheet

def noRule : List (String × Yaml.Node) :=
  [("mode", .scalar (.str Rule.Mode.custom.name)), ("groups", .row .list []),
    ("exclude", .row .list [])]

def shaped : Option (List (String × Yaml.Node)) → Attempt Sheet
  | some ms => Definition.required (Definition.read Yaml.Node.checking Yaml.Node.members noRule ms)
  | none => .error .noMapping

def problems (s : Sheet) : List Rule.Problem :=
  match Rule.ofMembers Yaml.Node.checking s.rules with
  | .ok r => r.problems
  | .bad is => is.map Rule.Problem.ofIssue

def checked (s : Sheet) : Attempt Sheet :=
  match s.problems with
  | [] => .ok s
  | ps => .error (.rule ps)

def ofNode (n : Yaml.Node) : Attempt Sheet := shaped n.arguments? >>= checked

def unwritable : Failure :=
  .library "PydanticSerializationError" "a value of the rule cannot be written in JSON"

/-- The definition with its rule in JSON. -/
def written (s : Sheet) : Attempt Definition :=
  match Rule.ofMembers Yaml.Node.writing s.rules with
  | .ok r => .ok { s with rules := r.asGiven }
  | .bad _ => .error unwritable

end Sheet

end Cookbook
