import Cookbook.Http.Path
import Cookbook.Http.Response
import Cookbook.Shelf.Call

/-!
# Routes

A path leads to the calls of its methods.  A path that leads nowhere is tried without slashes at its
end, and a known path with an unknown method is told apart from an unknown path.
-/

namespace Cookbook.Http

open Schema

structure Request where
  method : String
  path : String
  query : List (String × String)
  body : Option Json
deriving DecidableEq, Repr

def required {α : Type} (read : Shape α) (r : Request) : Checked α :=
  (match r.body with
    | none => Checked.fault .missing
    | some .null => Checked.fault .missing
    | some j => read j).under (.name "body")

def optionalBody {α : Type} (read : Shape α) (default : α) (r : Request) : Checked α :=
  match r.body with
  | none => .ok default
  | some .null => .ok default
  | some j => (read j).under (.name "body")

def queried {α : Type} (read : Members → Checked α) (r : Request) : Checked α :=
  (read (r.query.map fun (k, v) => (k, .str v))).under (.name "query")

def searchOf (ms : Members) : Checked Search :=
  Search.mk <$> memberD ms ["status"] (optional text) none
    <*> memberD ms ["type"] (optional text) none
    <*> memberD ms ["qualified"] (optional truth) none
    <*> memberD ms ["search"] (optional text) none
    <*> memberD ms ["page"] (atLeast 1) 1
    <*> memberD ms ["pageSize"] (between Search.smallestPage Search.largestPage) 20

def mostCards : Int := 100

def offerOf (ms : Members) : Checked Call :=
  Call.qualified <$> memberD ms ["type"] (optional text) none
    <*> memberD ms ["limit"] (between 1 mostCards) 20

abbrev Route := String × (Request → Checked Call)

def collectionsRoutes : List Route :=
  [("GET", fun r => (queried searchOf r).map .list),
    ("POST", fun r => (required NewCollection.ofJson r).map .create)]

/-- The routes of one collection; those of the fixed names come first. -/
def memberRoutes (part : String) : List Route :=
  let fixed : List Route := match part with
    | "preview" => [("POST", fun r => (required Preview.ofJson r).map .preview)]
    | "refresh-counts" =>
      [("POST", fun r => (optionalBody RefreshRequest.ofJson none r).map .refreshCounts)]
    | "sync-linked" => [("POST", fun _ => .ok .syncLinked)]
    | "qualified" => [("GET", queried offerOf)]
    | _ => []
  fixed ++ [("GET", fun _ => .ok (.detail part)),
    ("PUT", fun r => (required Changes.ofJson r).map (.update part)),
    ("DELETE", fun _ => .ok (.delete part))]

def partRoutes (id part : String) : List Route :=
  match part with
  | "test-rules" => [("POST", fun r => (required RuleTest.ofJson r).map (.testRules id))]
  | "publish" =>
    [("POST", fun r => (optionalBody PublishRequest.ofJson false r).map (.publish id)),
      ("DELETE", fun _ => .ok (.unpublish id))]
  | "pin" =>
    [("POST", fun r => (required PinRequest.ofJson r).map (.pin id)),
      ("DELETE", fun r => (required RecipeIds.ofJson r).map (.unpin id)),
      ("PUT", fun r => (required RecipeIds.ofJson r).map (.reorder id))]
  | "exclude" =>
    [("POST", fun r => (required RecipeIds.ofJson r).map (.exclude id)),
      ("DELETE", fun r => (required RecipeIds.ofJson r).map (.unexclude id))]
  | _ => []

def routesOf : List String → List Route
  | ["admin", "collections"] => collectionsRoutes
  | ["admin", "collections", part] => if part.isEmpty then [] else memberRoutes part
  | ["admin", "collections", id, part] => if id.isEmpty then [] else partRoutes id part
  | _ => []

def rootPage (appName : String) : Json :=
  .obj [("name", .str appName), ("version", .str "0.1.0"), ("endpoints", .obj [
    ("collections", .str "/admin/collections - Collection CRUD, detail and snapshot list"),
    ("test-rules", .str "/admin/collections/\x7bid\x7d/test-rules - Dry-run a rule configuration"),
    ("preview", .str "/admin/collections/preview - Published match count for a rule"),
    ("overrides", .str "/admin/collections/\x7bid\x7d/pin, /exclude - Manual overrides"),
    ("refresh", .str "/admin/collections/refresh-counts - Recompute counts snapshots"),
    ("publish",
      .str "/admin/collections/\x7bid\x7d/publish - Publish with a qualification check")])]

def page? (appName : String) : List String → Option Json
  | [""] => some (rootPage appName)
  | ["health"] => some (.obj [("status", .str "healthy")])
  | _ => none

def statusOf : Call → Nat
  | .create _ => 201
  | _ => 200

/-- Performs a call and answers with its outcome. -/
def answerCall (call : Call) : Action Response := fun env s =>
  match (call.perform env).run s with
  | (.ok body, s) => (.ok ⟨statusOf call, body⟩, s)
  | (.error f, s) => (.ok f.toResponse, s)

def follow (routes : List Route) (r : Request) : Action Response :=
  match routes.find? (·.1 == r.method) with
  | none => return methodNotAllowed
  | some (_, read) =>
    match read r with
    | .ok call => answerCall call
    | .bad is => return unprocessable is

def answerPage (body : Json) (r : Request) : Response :=
  if r.method = "GET" then ⟨200, body⟩ else methodNotAllowed

def answer (r : Request) : Action Response := do
  let appName := (← Action.settings).appName
  let parts := pathParts r.path
  let trimmed := withoutEmptyEnd parts
  match page? appName parts, routesOf parts with
  | some body, _ => return answerPage body r
  | none, [] =>
    match page? appName trimmed, routesOf trimmed with
    | some body, _ => return answerPage body r
    | none, [] => return notFound
    | none, routes => follow routes r
  | none, routes => follow routes r

end Cookbook.Http
