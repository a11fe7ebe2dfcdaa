import Cookbook.Proofs.Shelf.Publication

/-!
# Sessions

An operation changes the rows of its session first and commits then.  What is assigned and not
committed stays with the session: all later operations see it, and the next commit makes it lasting,
whichever of them asks for it.  Here the operations are written out with their assignments, commits
and rollbacks, over the same checks as the actions.
-/

namespace Cookbook

/-- The lasting rows, and the rows as the session sees them. -/
structure Session where
  stored : Shelf
  live : Shelf

/-- Nothing is pending. -/
def Session.of (s : Shelf) : Session := ⟨s, s⟩

/-- Ids are not given back, so the count of them is not part of what is pending. -/
def Session.withDrawn (σ : Session) (n : Nat) : Session :=
  ⟨{ σ.stored with drawn := n }, { σ.live with drawn := n }⟩

abbrev Work := ReaderT Surroundings (ExceptT Failure (StateM Session))

namespace Work

variable {α : Type}

def run (w : Work α) (env : Surroundings) (σ : Session) : Attempt α × Session :=
  (ReaderT.run w env |>.run) σ

def attempt : Attempt α → Work α
  | .ok a => pure a
  | .error f => throw f

/-- What an action finds on the rows of the session; of its changes only the drawn ids stay. -/
def look (a : Action α) : Work α := do
  let env ← read
  let σ ← get
  let (answer, t) := a.run env σ.live
  set (σ.withDrawn t.drawn)
  attempt answer

def assign (change : Shelf → Shelf) : Work Unit :=
  modify fun σ => { σ with live := change σ.live }

def rollback : Work Unit := modify fun σ => .of σ.stored

/-- Makes everything that is pending lasting.  A refused commit takes it back; one that is out of
service leaves it pending. -/
def commit (failure : Failure) (allowed : Shelf → Attempt Unit) : Work Unit := do
  if (← read).outage = some .commit then throw failure
  match allowed (← get).stored with
  | .ok () => modify fun σ => .of σ.live
  | .error f => do
    rollback
    throw f

def persist (failure : Failure) (allowed : Shelf → Attempt Unit) (change : Shelf → Shelf) :
    Work Unit := do
  assign change
  commit failure allowed

def save (failure : Failure) (c : Collection) : Work Unit := do
  persist failure (fun _ => Action.fitting [c]) (·.put c)
  look (Action.readBack failure c.id)

def insert (cs : List Collection) : Work Unit := do
  persist .database (Action.insertable cs) (·.add cs)
  look (cs.forM fun c => Action.readBack .database c.id)

/-- Takes back what is pending when the work fails in a way that callers are told about. -/
def guarded (w : Work α) : Work α :=
  tryCatch w fun f => do
    if f.IsOwn then rollback
    throw f

def writeSnapshot (c : Collection) : Work Unit := guarded (save Action.snapshotFailure c)

def create (n : NewCollection) : Work Collection := do
  let rules ← look (Action.checkedRules n.rules)
  look (Action.requireFree n.slug)
  let c := Collection.ofNew n rules (← look Action.drawId) (← look Action.now)
  insert [c]
  return c

def update (id : String) (ch : Changes) : Work Collection := do
  let c ← look (Action.require id)
  let ch ← look (Action.checkedChanges ch)
  match ch.slug with
  | some slug => if slug ≠ c.slug then look (Action.requireFree slug)
  | none => pure ()
  let d := c.change ch (← look Action.now)
  save .database d
  return d

def delete (id : String) : Work Collection := do
  let c ← look (Action.require id)
  let shown ← attempt c.viewed
  persist .database (fun _ => .ok ()) (·.remove id)
  return shown

def override (c : Collection) : Work Unit := do
  save .database (c.overridden (← look Action.now))

def pin (id : String) (r : PinRequest) : Work OverrideAnswer := do
  let c ← look (Action.require id)
  look (Action.requireRecipes r.ids)
  let pinned := c.pinnedWith r.ids r.position
  override (c.withPinned pinned)
  return ⟨pinned, none,
    Action.countedText "Pinned" (Collection.newcomers c.pinnedIds r.ids).length⟩

def unpin (id : String) (ids : List String) : Work OverrideAnswer := do
  let c ← look (Action.require id)
  let pinned := Collection.removing c.pinnedIds ids
  override (c.withPinned pinned)
  return ⟨pinned, none, Action.countedText "Unpinned" ids.length⟩

def reorder (id : String) (ids : List String) : Work OverrideAnswer := do
  let c ← look (Action.require id)
  if ¬ c.Reorders ids then
    throw (.badOverride "Reordering cannot add or remove pinned recipes; use pin/unpin instead")
  override (c.withPinned ids)
  return ⟨ids, none, "Pinned order updated"⟩

def exclude (id : String) (ids : List String) : Work OverrideAnswer := do
  let c ← look (Action.require id)
  look (Action.requireRecipes ids)
  let added := Collection.newcomers c.excludedIds ids
  let excluded := c.excludedIds ++ added
  let pinned := Collection.removing c.pinnedIds ids
  override ((c.withPinned pinned).withExcluded excluded)
  return ⟨pinned, some excluded, Action.countedText "Excluded" added.length⟩

def unexclude (id : String) (ids : List String) : Work OverrideAnswer := do
  let c ← look (Action.require id)
  let excluded := Collection.removing c.excludedIds ids
  override (c.withExcluded excluded)
  return ⟨c.pinnedIds, some excluded, Action.countedText "Restored" ids.length⟩

def refreshRow (c : Collection) : Work Snapshot := do
  guarded (look (Action.reload Action.reloadFailure c.id))
  let listing ← attempt ((← look Action.store).currentListing c)
  let snapshot : Snapshot := ⟨listing.counts, ← look Action.now⟩
  writeSnapshot (c.store snapshot)
  return snapshot

def refresh (id : String) : Work Snapshot := do refreshRow (← look (Action.require id))

def refreshDetail (c : Collection) : Work RefreshDetail :=
  tryCatch (return ⟨c.id, c.name, .ok (← refreshRow c).counts⟩) fun f =>
    if f.IsOwn then return ⟨c.id, c.name, .error f⟩ else throw f

def refreshCounts (ids : Option (List String)) : Work RefreshReport := do
  let rows := Action.batch (← look get).collections ids
  return ⟨← rows.mapM refreshDetail⟩

def publish (id : String) (force : Bool) : Work PublishAnswer := do
  let c ← look (Action.require id)
  if c.IsPublished then look (Action.storedAnswer c true "Collection is already published")
  else
    let read ← look (Action.liveRead c)
    writeSnapshot (c.published read.listing.counts (← look Action.now))
    return Action.publication c read force

def unpublish (id : String) : Work PublishAnswer := do
  let c ← look (Action.require id)
  let answer ← look (Action.storedAnswer c false "Collection is not published")
  if c.IsPublished then
    save .database (c.unpublished (← look Action.now))
    return { answer with status := Status.draft, message := "Collection unpublished" }
  else return answer

def syncLinked : Work (List Collection) := do
  let s ← look get
  let now ← look Action.now
  let cs ← look (Action.link now (s.collections.map Collection.slug) s.unlinkedSources)
  if !cs.isEmpty then insert cs
  return cs

def define (a : SyncAnswer) (d : Definition) : Work SyncAnswer := do
  let existing := (← look get).findSlug? d.slug
  match d.emptyIssues with
  | [] => pure ()
  | is => throw (.request is)
  match existing with
  | none =>
    let _ ← create d.toNew
    return { a with created := a.created ++ [d.slug] }
  | some c =>
    let _ ← update c.id d.toChanges
    return { a with updated := a.updated ++ [d.slug] }

def syncDefinitions (ds : List Definition) : Work SyncAnswer := ds.foldlM define .nothing

def place (a : SyncAnswer) (s : Sheet) : Work SyncAnswer := do
  match s.emptyIssues with
  | [] => define a (← attempt s.written)
  | is => throw (.request is)

def syncSheets (ss : List Sheet) : Work SyncAnswer := ss.foldlM place .nothing

def syncSource : DefinitionSource → Work SyncAnswer
  | .packaged => syncDefinitions Definition.packaged
  | .missing => return .nothing
  | .folder yaml f => do syncSheets (← attempt ((Loading.ofFolder yaml f).run .empty).1)

def startUp (source : DefinitionSource) : Work Unit := do
  if (← look Action.settings).syncOnStartup then
    let _ ← syncSource source

def shown (w : Work Collection) : Work Json := do
  return (← attempt (← w).viewed).toJson

end Work

/-- A call as its session works on it. -/
def Call.work : Call → Work Json
  | list q => return (← Work.look (Action.list q)).toJson ListItem.toJson
  | create n => Work.shown (Work.create n)
  | preview r => return (← Work.look (Action.preview r)).toJson
  | refreshCounts ids => return (← Work.refreshCounts ids).toJson
  | syncLinked => return (SyncAnswer.mk ((← Work.syncLinked).map Collection.slug) []).toJson
  | qualified type limit =>
    return .arr ((← Work.look (Action.qualified type limit)).map Card.toJson)
  | detail id => return (← Work.look (Action.detail id)).toJson
  | update id changes => Work.shown (Work.update id changes)
  | delete id => return (← Work.delete id).toJson
  | testRules id test => return (← Work.look (Action.testRules id test)).toJson
  | publish id force => return (← Work.publish id force).toJson
  | unpublish id => return (← Work.unpublish id).toJson
  | pin id request => return (← Work.pin id request).toJson
  | unpin id recipes => return (← Work.unpin id recipes).toJson
  | reorder id recipes => return (← Work.reorder id recipes).toJson
  | exclude id recipes => return (← Work.exclude id recipes).toJson
  | unexclude id recipes => return (← Work.unexclude id recipes).toJson

namespace Event

def refreshedJson (snapshot : Snapshot) : Json :=
  .obj [("at", .str snapshot.takenAt.isoOffset), ("counts", snapshot.counts.toJson)]

def perform : Event → Action Json
  | call c => c.perform
  | refresh id => return refreshedJson (← Action.refresh id)
  | define ds => return (← Action.syncDefinitions ds).toJson
  | load source => return (← Action.syncSource source).toJson
  | startUp source => do
    Action.startUp source
    return .null

def work : Event → Work Json
  | call c => c.work
  | refresh id => return refreshedJson (← Work.refresh id)
  | define ds => return (← Work.syncDefinitions ds).toJson
  | load source => return (← Work.syncSource source).toJson
  | startUp source => do
    Work.startUp source
    return .null

end Event

/-- The answers of one session to a sequence of events. -/
def Session.answers (σ : Session) : List (Surroundings × Event) → List (Attempt Json)
  | [] => []
  | e :: rest => (e.2.work.run e.1 σ).1 :: answers (e.2.work.run e.1 σ).2 rest

end Cookbook
