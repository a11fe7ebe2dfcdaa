import Cookbook.Definition.Folder
import Cookbook.Definition.Packaged
import Cookbook.Shelf.Edit

/-!
# Putting definitions in place

A definition whose slug is new becomes a collection; otherwise the collection of that slug takes on
every part of it.  Definitions are put in place one by one, and a failure leaves the earlier ones.
One that was read from a file is written in JSON first.
-/

namespace Cookbook

structure SyncAnswer where
  created : List String
  updated : List String
deriving DecidableEq, Repr

/-- Where definitions come from unless they are given. -/
inductive DefinitionSource where
  | packaged
  | folder (yaml : Yaml.Library) (f : Folder)
  | missing

namespace SyncAnswer

def nothing : SyncAnswer := ⟨[], []⟩

def toJson (a : SyncAnswer) : Json :=
  .obj [("created", Json.texts a.created), ("updated", Json.texts a.updated)]

end SyncAnswer

namespace Action

def define (a : SyncAnswer) (d : Definition) : Action SyncAnswer := do
  let existing := (← get).findSlug? d.slug
  match d.emptyIssues with
  | [] => pure ()
  | is => fail (.request is)
  match existing with
  | none =>
    let _ ← create d.toNew
    return { a with created := a.created ++ [d.slug] }
  | some c =>
    let _ ← update c.id d.toChanges
    return { a with updated := a.updated ++ [d.slug] }

def syncDefinitions (ds : List Definition) : Action SyncAnswer := ds.foldlM define .nothing

def place (a : SyncAnswer) (s : Sheet) : Action SyncAnswer := do
  match s.emptyIssues with
  | [] => define a (← attempt s.written)
  | is => fail (.request is)

def syncSheets (ss : List Sheet) : Action SyncAnswer := ss.foldlM place .nothing

def syncSource : DefinitionSource → Action SyncAnswer
  | .packaged => syncDefinitions Definition.packaged
  | .missing => return .nothing
  | .folder yaml f => do syncSheets (← attempt ((Loading.ofFolder yaml f).run .empty).1)

/-- What is done before the first request. -/
def startUp (source : DefinitionSource) : Action Unit := do
  if (← settings).syncOnStartup then
    let _ ← syncSource source

end Action

end Cookbook
