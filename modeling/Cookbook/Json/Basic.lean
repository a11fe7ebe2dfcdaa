import Cookbook.Number.Basic

/-!
# JSON values

Objects keep their members in order; a reader keeps one member per name.  Numbers keep their kind.
`alike` is the coarser equality that compares numbers (and truth values, as 0 and 1) by value and
objects without regard to order.
-/

namespace Cookbook

inductive Json where
  | null
  | bool (value : Bool)
  | num (value : Number)
  | str (value : String)
  | arr (items : List Json)
  | obj (members : List (String × Json))
deriving Repr, Inhabited

abbrev Members := List (String × Json)

namespace Json

def int (n : Int) : Json := num (.int n)

def float (x : Binary64) : Json := num (.float x)

def ofOption {α : Type} (f : α → Json) : Option α → Json
  | none => null
  | some a => f a

def texts (ss : List String) : Json := arr (ss.map str)

mutual

/-- Equal values, with numbers of one kind only and members in one order only. -/
def same : Json → Json → Bool
  | null, null => true
  | bool a, bool b => a == b
  | num a, num b => a == b
  | str a, str b => a == b
  | arr xs, arr ys => sameItems xs ys
  | obj ms, obj ns => sameMembers ms ns
  | _, _ => false

def sameItems : List Json → List Json → Bool
  | [], [] => true
  | x :: xs, y :: ys => x.same y && sameItems xs ys
  | _, _ => false

def sameMembers : Members → Members → Bool
  | [], [] => true
  | (k, x) :: ms, (l, y) :: ns => k == l && x.same y && sameMembers ms ns
  | _, _ => false

end

mutual

theorem same_iff : ∀ x y : Json, x.same y = true ↔ x = y
  | null, y => by cases y <;> simp [same]
  | bool a, y => by cases y <;> simp [same]
  | num a, y => by cases y <;> simp [same]
  | str a, y => by cases y <;> simp [same]
  | arr xs, y => by
    cases y with
    | arr ys => simp [same, sameItems_iff xs ys]
    | _ => simp [same]
  | obj ms, y => by
    cases y with
    | obj ns => simp [same, sameMembers_iff ms ns]
    | _ => simp [same]

theorem sameItems_iff : ∀ xs ys : List Json, sameItems xs ys = true ↔ xs = ys
  | [], ys => by cases ys <;> simp [sameItems]
  | x :: xs, ys => by
    cases ys with
    | nil => simp [sameItems]
    | cons y ys => simp [sameItems, same_iff x y, sameItems_iff xs ys]

theorem sameMembers_iff : ∀ ms ns : Members, sameMembers ms ns = true ↔ ms = ns
  | [], ns => by cases ns <;> simp [sameMembers]
  | (k, x) :: ms, ns => by
    cases ns with
    | nil => simp [sameMembers]
    | cons n ns =>
      obtain ⟨l, y⟩ := n
      simp [sameMembers, same_iff x y, sameMembers_iff ms ns, and_assoc]

end

instance : DecidableEq Json := fun x y => decidable_of_iff _ (same_iff x y)

mutual

/-- Equal by value: `2` and `2.0`, and `1` and `true`, are alike. -/
def alike : Json → Json → Bool
  | null, null => true
  | bool a, bool b => a == b
  | bool a, num n => n.alike (.int a.toInt)
  | num n, bool b => n.alike (.int b.toInt)
  | num a, num b => a.alike b
  | str a, str b => a == b
  | arr xs, arr ys => alikeItems xs ys
  | obj ms, obj ns => ms.length == ns.length && alikeMembers ms ns
  | _, _ => false

def alikeItems : List Json → List Json → Bool
  | [], [] => true
  | x :: xs, y :: ys => x.alike y && alikeItems xs ys
  | _, _ => false

def alikeMembers : Members → Members → Bool
  | [], _ => true
  | (k, x) :: ms, ns =>
    (match ns.lookup k with
    | some y => x.alike y
    | none => false) && alikeMembers ms ns

end

mutual

/-- The value with `null` for every number that JSON cannot write. -/
def writable : Json → Json
  | num n => if n.isFinite then num n else null
  | arr xs => arr (writableItems xs)
  | obj ms => obj (writableMembers ms)
  | j => j

def writableItems : List Json → List Json
  | [] => []
  | x :: xs => x.writable :: writableItems xs

def writableMembers : Members → Members
  | [] => []
  | (k, x) :: ms => (k, x.writable) :: writableMembers ms

end

/-- The member of an object, `null` when it is absent or the value is no object. -/
def getD (j : Json) (name : String) : Json :=
  match j with
  | obj ms => (ms.lookup name).getD null
  | _ => null

end Json

namespace Members

variable {V : Type}

/-- Adds a member; a member of that name gives way and keeps its place. -/
def set (ms : List (String × V)) (name : String) (value : V) : List (String × V) :=
  match ms with
  | [] => [(name, value)]
  | (k, v) :: rest => if k = name then (k, value) :: rest else (k, v) :: set rest name value

/-- One member per name: the last value at the first place. -/
def ofList (ms : List (String × V)) : List (String × V) :=
  ms.foldl (fun acc (k, v) => set acc k v) []

end Members

end Cookbook
