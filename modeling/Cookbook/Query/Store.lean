import Cookbook.Distinct
import Cookbook.Failure
import Cookbook.Query.Written

/-!
# The record store

Reading access to the catalog.  A query fails when its operation is out of service, or when it has a
value that the database does not take: a whole number that does not fit a signed word, or a text
that is not encoded.
-/

namespace Cookbook

namespace Store

inductive Operation where
  | count
  | countByStatus
  | list
  | listMatches
  | getMany
  | statusOf
  | existingIds
deriving DecidableEq, Repr

namespace Operation

def all : List Operation :=
  [count, countByStatus, list, listMatches, getMany, statusOf, existingIds]

def name : Operation → String
  | count => "count"
  | countByStatus => "count_by_status"
  | list => "list"
  | listMatches => "list_matches"
  | getMany => "get_many"
  | statusOf => "status_of"
  | existingIds => "existing_ids"

def ofName? (s : String) : Option Operation := all.find? (·.name == s)

end Operation

/-- Why the store does not answer everything. -/
inductive Fault where
  /-- The operation is out of service. -/
  | operation (op : Operation)
  /-- These characters stand for what is none, such as half a surrogate pair, and no text that has
  one of them is encoded for the database. -/
  | texts (foreign : List Char)
deriving DecidableEq, Repr

end Store

def lockedText : String := "database is locked"

structure Store where
  catalog : Catalog
  /-- What is wrong with the store, if something is. -/
  down : Option Store.Fault
deriving DecidableEq, Repr

structure Match where
  id : String
  status : String
  createdAt : Instant
deriving DecidableEq, Repr

def Recipe.toMatch (r : Recipe) : Match := ⟨r.id, r.status, r.createdAt⟩

namespace Store

def failure (op : Operation) : Failure :=
  .store ("Record store " ++ op.name ++ " failed: " ++ lockedText) (some op.name)

variable {α : Type}

/-- How the database refuses a value, if it does. -/
def refusal (s : Store) : Parameter → Option Failure
  | .number n => if n.FitsWord then none else some .overflow
  | .text t =>
    match s.down with
    | some (.texts foreign) => if t.toList.any foreign.contains then some .unencodable else none
    | _ => none

/-- An answer, unless the operation is out of service or one of the values is refused. -/
def serve (s : Store) (op : Operation) (values : List Parameter) (answer : α) : Attempt α :=
  if s.down = some (.operation op) then .error (failure op)
  else match values.findSome? s.refusal with
    | some f => .error f
    | none => .ok answer

/-- The answer to a query for a predicate in some of the statuses. -/
def query (s : Store) (op : Operation) (p : Predicate) (statuses : List String) (answer : α) :
    Attempt α :=
  s.serve op (p.parameters ++ statuses.map .text) answer

def count (s : Store) (p : Predicate) (status : Option String) : Attempt Nat :=
  s.query .count p status.toList
    ((s.catalog.select p).filter fun r => status.all (r.status == ·)).length

def countByStatus (s : Store) (p : Predicate) : Attempt (List (String × Nat)) :=
  let statuses := (s.catalog.select p).map Recipe.status
  s.query .countByStatus p [] ((distinct statuses).map fun t => (t, statuses.count t))

inductive Order where
  | created
  | recent
deriving DecidableEq, Repr

def Order.first : Order → Recipe → Recipe → Bool
  | created => Recipe.newerFirst
  | recent => Recipe.recentFirst

/-- A part of a list; a negative offset is none, and so is a negative limit. -/
def window (offset : Int) (limit : Option Int) (xs : List α) : List α :=
  let rest := xs.drop offset.toNat
  match limit with
  | some n => if n < 0 then rest else rest.take n.toNat
  | none => rest

def FitsWindow (offset : Int) (limit : Option Int) : Prop :=
  (Number.int offset).FitsWord ∧ ∀ n ∈ limit, (Number.int n).FitsWord

instance (offset : Int) (limit : Option Int) : Decidable (FitsWindow offset limit) :=
  inferInstanceAs (Decidable (_ ∧ _))

def list (s : Store) (p : Predicate) (statuses : Option (List String)) (offset : Int)
    (limit : Option Int) (order : Order) : Attempt (List Recipe) := do
  let rows := (s.catalog.select p).filter fun r => statuses.all (·.contains r.status)
  let found ← s.query .list p (statuses.getD []) (window offset limit (rows.mergeSort order.first))
  if FitsWindow offset limit then .ok found else .error .overflow

/-- The matches in some statuses; with none named, the active ones. -/
def listMatches (s : Store) (p : Predicate) (statuses : List String) : Attempt (List Match) :=
  let wanted := if statuses.isEmpty then Status.active else statuses
  s.query .listMatches p wanted
    (((s.catalog.select p).filter fun r => wanted.contains r.status).map Recipe.toMatch)

def getMany (s : Store) (ids : List String) : Attempt (List Recipe) :=
  if ids.isEmpty then .ok []
  else s.serve .getMany (ids.map .text) (ids.filterMap s.catalog.recipe?)

def statusOf (s : Store) (ids : List String) : Attempt (List (String × String)) :=
  if ids.isEmpty then .ok []
  else s.serve .statusOf (ids.map .text)
    ((s.catalog.recipes.filter fun r => ids.contains r.id).map fun r => (r.id, r.status))

def existingIds (s : Store) (k : EntityKind) (ids : List String) : Attempt (List String) :=
  if ids.isEmpty then .ok []
  else s.serve .existingIds (ids.map .text) ((distinct ids).filter (s.catalog.idsOf k).contains)

end Store

end Cookbook
