import Cookbook.Collection.Edit
import Cookbook.Shelf.Refresh

/-!
# Publishing

Publishing takes the counts anew and stores them with the change of state.  A collection below its
minimum is published too, with a warning unless that is not wanted.
-/

namespace Cookbook

structure PublishAnswer where
  published : Bool
  status : String
  progress : Progress
  publishedCount : Int
  minRequired : Int
  message : String
  warning : Option String
deriving DecidableEq, Repr

def PublishAnswer.toJson (a : PublishAnswer) : Json :=
  .obj [("published", .bool a.published), ("status", .str a.status),
    ("qualifiedStatus", .str a.progress.statusWord), ("publishedCount", .int a.publishedCount),
    ("minRequired", .int a.minRequired), ("message", .str a.message),
    ("warning", Json.ofOption .str a.warning)]

namespace Action

def storedAnswer (c : Collection) (published : Bool) (message : String) : Action PublishAnswer := do
  let s ← settings
  let standing ← attempt (c.standing s s.cacheTtl (← now))
  return ⟨published, c.status, standing.progress, c.cached.published, c.minRequired, message, none⟩

def shortageText (published minRequired : Int) : String :=
  "Only " ++ toString published ++ " published recipe(s), below the minimum of " ++
    toString minRequired ++ "; consider adding recipes"

/-- With `force` there is no warning. -/
def publish (id : String) (force : Bool) : Action PublishAnswer := do
  let c ← require id
  if c.IsPublished then storedAnswer c true "Collection is already published"
  else
    let read ← liveRead c
    let counts := read.listing.counts
    save snapshotFailure (c.published counts (← now))
    let warning := if read.progress.qualified || force then none
      else some (shortageText counts.published c.minRequired)
    return ⟨true, Status.published, read.progress, counts.published, c.minRequired,
      "Collection published", warning⟩

def unpublish (id : String) : Action PublishAnswer := do
  let c ← require id
  let answer ← storedAnswer c false "Collection is not published"
  if c.IsPublished then
    save .database (c.unpublished (← now))
    return { answer with status := Status.draft, message := "Collection unpublished" }
  else return answer

end Action

end Cookbook
