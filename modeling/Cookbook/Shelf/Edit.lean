import Cookbook.Collection.Edit
import Cookbook.Collection.View
import Cookbook.Rule.Check
import Cookbook.Shelf.Basic

/-!
# Creating, changing and deleting

A rule is stored only without problems and in its written form, and a slug is taken once.
-/

namespace Cookbook.Action

def checkedRules (j : Json) : Action Json :=
  match Rule.accept j with
  | .ok r => return r.toJson
  | .error ps => fail (.rule ps)

def requireFree (slug : String) : Action Unit := do
  if ((← get).findSlug? slug).isSome then fail (.takenSlug slug)

def create (n : NewCollection) : Action Collection := do
  let rules ← checkedRules n.rules
  requireFree n.slug
  let c := Collection.ofNew n rules (← drawId) (← now)
  insert [c]
  return c

def checkedChanges (ch : Changes) : Action Changes := do
  match ch.rules with
  | some j => return { ch with rules := some (← checkedRules j) }
  | none => return ch

def update (id : String) (ch : Changes) : Action Collection := do
  let c ← require id
  let ch ← checkedChanges ch
  match ch.slug with
  | some slug => if slug ≠ c.slug then requireFree slug
  | none => pure ()
  let d := c.change ch (← now)
  save .database d
  return d

/-- Answers with the row as it was. -/
def delete (id : String) : Action Collection := do
  let c ← require id
  let shown ← attempt c.viewed
  commit .database (fun _ => .ok ()) (·.remove id)
  return shown

end Cookbook.Action
