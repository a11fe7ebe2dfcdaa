import Cookbook.Collection.Basic
import Cookbook.Query.Store
import Cookbook.Settings

/-!
# The shelf

All collections over a catalog, and the operations' way of working on them.  An operation sees its
surroundings, may fail, and changes the shelf only by committing whole rows; what it has committed
before it fails stays.
-/

namespace Cookbook

structure Shelf where
  catalog : Catalog
  collections : List Collection
  drawn : Nat
deriving DecidableEq, Repr

inductive Outage where
  | query (fault : Store.Fault)
  | commit
  /-- Reading rows again: that of an id, or all of them. -/
  | reload (id : Option String)
  /-- Reading rows back once they have been committed, and nothing before that. -/
  | reread (id : Option String)
deriving DecidableEq, Repr

structure Surroundings where
  settings : Settings
  now : Instant
  outage : Option Outage
deriving DecidableEq, Repr

namespace Surroundings

/-- A row of this id is not read again. -/
def Withholds (env : Surroundings) (id : String) : Prop :=
  env.outage = some (.reload none) ∨ env.outage = some (.reload (some id))

/-- A row of this id is not read back after a commit. -/
def WithholdsCommitted (env : Surroundings) (id : String) : Prop :=
  env.Withholds id ∨ env.outage = some (.reread none) ∨ env.outage = some (.reread (some id))

/-- The record store over the catalog of a shelf, as far as it is in service. -/
def records (env : Surroundings) (s : Shelf) : Store :=
  ⟨s.catalog, match env.outage with
    | some (.query fault) => some fault
    | _ => none⟩

instance (env : Surroundings) (id : String) : Decidable (env.Withholds id) :=
  inferInstanceAs (Decidable (_ ∨ _))

instance (env : Surroundings) (id : String) : Decidable (env.WithholdsCommitted id) :=
  inferInstanceAs (Decidable (_ ∨ _))

end Surroundings

abbrev Action := ReaderT Surroundings (ExceptT Failure (StateM Shelf))

namespace Shelf

def empty (zone : Zone) : Shelf := ⟨.empty zone, [], 0⟩

def find? (s : Shelf) (id : String) : Option Collection := s.collections.find? (·.id == id)

def findSlug? (s : Shelf) (slug : String) : Option Collection :=
  s.collections.find? (·.slug == slug)

/-- The row of the same id gives way. -/
def put (s : Shelf) (c : Collection) : Shelf :=
  { s with collections := s.collections.map fun d => if d.id = c.id then c else d }

def remove (s : Shelf) (id : String) : Shelf :=
  { s with collections := s.collections.filter (·.id != id) }

def add (s : Shelf) (cs : List Collection) : Shelf :=
  { s with collections := s.collections ++ cs }

/-- Ids and slugs are taken once. -/
def Accepts (s : Shelf) (cs : List Collection) : Prop :=
  ((s.collections ++ cs).map Collection.id).Nodup ∧
    ((s.collections ++ cs).map Collection.slug).Nodup

instance (s : Shelf) (cs : List Collection) : Decidable (s.Accepts cs) :=
  inferInstanceAs (Decidable (_ ∧ _))

end Shelf

def idText (n : Nat) : String := "id" ++ Instant.padded 4 n

namespace Action

variable {α : Type}

def run (a : Action α) (env : Surroundings) (s : Shelf) : Attempt α × Shelf :=
  (ReaderT.run a env |>.run) s

def fail (f : Failure) : Action α := throw f

def attempt : Attempt α → Action α
  | .ok a => pure a
  | .error f => throw f

def now : Action Instant := return (← read).now

def settings : Action Settings := return (← read).settings

def store : Action Store := return (← read).records (← get)

def require (id : String) : Action Collection := do
  match (← get).find? id with
  | some c => return c
  | none => throw (.unknownCollection id)

/-- A new id; ids are not given back. -/
def drawId : Action String := do
  let s ← get
  set { s with drawn := s.drawn + 1 }
  return idText (s.drawn + 1)

/-- Makes a change lasting, unless commits are out of service or the change is not allowed. -/
def commit (failure : Failure) (allowed : Shelf → Attempt Unit) (change : Shelf → Shelf) :
    Action Unit := do
  if (← read).outage = some .commit then throw failure
  attempt (allowed (← get))
  modify change

def reload (failure : Failure) (id : String) : Action Unit := do
  if (← read).Withholds id then throw failure

/-- Reads a row again that has just been committed. -/
def readBack (failure : Failure) (id : String) : Action Unit := do
  if (← read).WithholdsCommitted id then throw failure

def fitting (cs : List Collection) : Attempt Unit :=
  if ∀ c ∈ cs, c.FitsColumns then .ok () else .error .overflow

def save (failure : Failure) (c : Collection) : Action Unit := do
  commit failure (fun _ => fitting [c]) (·.put c)
  readBack failure c.id

/-- New rows need ids and slugs of their own. -/
def insertable (cs : List Collection) (s : Shelf) : Attempt Unit := do
  fitting cs
  if s.Accepts cs then .ok () else .error .database

def insert (cs : List Collection) : Action Unit := do
  commit .database (insertable cs) (·.add cs)
  cs.forM fun c => readBack .database c.id

end Action

end Cookbook
