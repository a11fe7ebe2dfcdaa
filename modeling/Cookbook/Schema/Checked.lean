import Cookbook.Schema.Issue

/-!
# Checked values

A value or everything that is wrong with what it was read from.  The parts of a record are checked
independently, so the issues of all of them come together, in the order of the parts.
-/

namespace Cookbook.Schema

inductive Checked (α : Type) where
  | ok (value : α)
  | bad (issues : List Issue)
deriving DecidableEq, Repr

namespace Checked

variable {α β : Type}

def map (f : α → β) : Checked α → Checked β
  | ok a => ok (f a)
  | bad is => bad is

/-- Both, or the issues of both. -/
def apply (f : Checked (α → β)) (x : Checked α) : Checked β :=
  match f, x with
  | ok f, ok a => ok (f a)
  | ok _, bad js => bad js
  | bad is, ok _ => bad is
  | bad is, bad js => bad (is ++ js)

instance : Applicative Checked where
  pure := ok
  map := map
  seq f x := f.apply (x ())

def fault (f : Fault) : Checked α := bad [⟨[], f⟩]

def andThen (x : Checked α) (f : α → Checked β) : Checked β :=
  match x with
  | ok a => f a
  | bad is => bad is

def under (step : Step) : Checked α → Checked α
  | ok a => ok a
  | bad is => bad (is.map (·.under step))

def issues : Checked α → List Issue
  | ok _ => []
  | bad is => is

def toExcept : Checked α → Except (List Issue) α
  | ok a => .ok a
  | bad is => .error is

@[simp] theorem issues_ok (a : α) : (ok a).issues = [] := rfl

@[simp] theorem issues_bad (is : List Issue) : (bad is : Checked α).issues = is := rfl

@[simp] theorem issues_map (f : α → β) (x : Checked α) : (x.map f).issues = x.issues := by
  cases x <;> rfl

@[simp] theorem issues_apply (f : Checked (α → β)) (x : Checked α) :
    (f.apply x).issues = f.issues ++ x.issues := by
  cases f <;> cases x <;> simp [apply]

end Checked

end Cookbook.Schema
