import Cookbook.Schema.Readers

/-!
# YAML nodes

What a YAML library makes of a text.  Beyond the values of JSON there are dates and times, bytes,
tuples and sets, and a mapping may have keys of many kinds.  Where a text is asked for, bytes count
as the text that they encode; where a list is asked for, tuples and sets count as lists.
-/

namespace Cookbook.Yaml

open Schema

/-- The kinds of collections without keys. -/
inductive Row where
  | list
  | tuple
  | set
deriving DecidableEq, Repr

inductive Node where
  | scalar (value : Json)
  /-- A date or a time: as it is written in JSON, as it is shown, and as it is shown in a list. -/
  | moment (written shown literal : String)
  /-- Bytes: as they are shown, and the text that they encode, if any. -/
  | bytes (literal : String) (text : Option String)
  | row (kind : Row) (items : List Node)
  | mapping (members : List (Node × Node))
deriving Repr, Inhabited

namespace Node

mutual

/-- Equal as trees; equality of nodes is decided by it. -/
def same : Node → Node → Bool
  | scalar v, scalar w => v == w
  | moment written shown literal, moment written' shown' literal' =>
    written == written' && shown == shown' && literal == literal'
  | bytes literal text, bytes literal' text' => literal == literal' && text == text'
  | row kind ns, row kind' ns' => kind == kind' && sameItems ns ns'
  | mapping ms, mapping ms' => sameMembers ms ms'
  | _, _ => false

def sameItems : List Node → List Node → Bool
  | [], [] => true
  | n :: ns, n' :: ns' => n.same n' && sameItems ns ns'
  | _, _ => false

def sameMembers : List (Node × Node) → List (Node × Node) → Bool
  | [], [] => true
  | (k, n) :: ms, (k', n') :: ms' => k.same k' && n.same n' && sameMembers ms ms'
  | _, _ => false

end

mutual

theorem same_iff : ∀ n n' : Node, n.same n' = true ↔ n = n'
  | scalar v, n' => by cases n' <;> simp [same]
  | moment written shown literal, n' => by cases n' <;> simp [same, and_assoc]
  | bytes literal text, n' => by cases n' <;> simp [same]
  | row kind ns, n' => by
    cases n' with
    | row kind' ns' => simp [same, sameItems_iff ns ns']
    | _ => simp [same]
  | mapping ms, n' => by
    cases n' with
    | mapping ms' => simp [same, sameMembers_iff ms ms']
    | _ => simp [same]

theorem sameItems_iff : ∀ ns ns' : List Node, sameItems ns ns' = true ↔ ns = ns'
  | [], ns' => by cases ns' <;> simp [sameItems]
  | n :: ns, ns' => by
    cases ns' with
    | nil => simp [sameItems]
    | cons n' ns' => simp [sameItems, same_iff n n', sameItems_iff ns ns']

theorem sameMembers_iff : ∀ ms ms' : List (Node × Node), sameMembers ms ms' = true ↔ ms = ms'
  | [], ms' => by cases ms' <;> simp [sameMembers]
  | (k, n) :: ms, ms' => by
    cases ms' with
    | nil => simp [sameMembers]
    | cons m ms' =>
      obtain ⟨k', n'⟩ := m
      simp [sameMembers, same_iff k k', same_iff n n', sameMembers_iff ms ms', and_assoc]

end

instance : DecidableEq Node := fun n n' => decidable_of_iff _ (same_iff n n')

def name? : Node → Option String
  | scalar (.str s) => some s
  | _ => none

/-- What a document holds: the items of a list, nothing if it is empty, or else itself. -/
def contents : Node → List Node
  | scalar .null => []
  | row .list ns => ns
  | n => [n]

/-- The members of a mapping whose keys are all texts. -/
def arguments? : Node → Option (List (String × Node))
  | mapping ms => ms.mapM fun (k, n) => k.name?.map (·, n)
  | _ => none

section Display

def closed : Row → List String → String
  | .list, ss => "[" ++ ", ".intercalate ss ++ "]"
  | .tuple, [s] => "(" ++ s ++ ",)"
  | .tuple, ss => "(" ++ ", ".intercalate ss ++ ")"
  | .set, [] => "set()"
  | .set, ss => "\x7b" ++ ", ".intercalate ss ++ "\x7d"

mutual

def literal : Node → String
  | scalar v => v.literal
  | moment _ _ literal => literal
  | bytes literal _ => literal
  | row kind ns => closed kind (literals ns)
  | mapping ms => "\x7b" ++ ", ".intercalate (memberLiterals ms) ++ "\x7d"

def literals : List Node → List String
  | [] => []
  | n :: ns => n.literal :: literals ns

def memberLiterals : List (Node × Node) → List String
  | [] => []
  | (k, n) :: ms => (k.literal ++ ": " ++ n.literal) :: memberLiterals ms

end

def display : Node → String
  | scalar v => v.display
  | moment _ shown _ => shown
  | n => n.literal

end Display

section Written

/-- The text that a key becomes in JSON. -/
def keyText : Node → Checked String
  | scalar (.bool b) => .ok (toString b)
  | bytes _ (some s) => .ok s
  | bytes _ none => .fault .notUnicode
  | moment written _ _ => .ok written
  | n => .ok n.display

mutual

/-- The value as it is written in JSON; bytes that encode no text cannot be. -/
def written : Node → Checked Json
  | scalar v => .ok v
  | moment written _ _ => .ok (.str written)
  | bytes _ (some s) => .ok (.str s)
  | bytes _ none => .fault .notUnicode
  | row _ ns => (writtenItems ns).map .arr
  | mapping ms => (writtenMembers ms).map fun ms => .obj (Members.ofList ms)

def writtenItems : List Node → Checked (List Json)
  | [] => .ok []
  | n :: ns => (n.written.map List.cons).apply (writtenItems ns)

def writtenMembers : List (Node × Node) → Checked (List (String × Json))
  | [] => .ok []
  | (k, n) :: ms =>
    ((k.keyText.map fun s j => List.cons (s, j)).apply n.written).apply (writtenMembers ms)

end

end Written

section Read

def text : Node → Checked String
  | scalar v => Schema.text v
  | bytes _ (some s) => .ok s
  | bytes _ none => .fault .notUnicode
  | _ => .fault .notText

def whole : Node → Checked Int
  | scalar v => Schema.whole v
  | bytes _ (some s) => Schema.whole (.str s)
  | bytes _ none => .fault .wholeText
  | _ => .fault .notWhole

/-- What a check sees of a value that may be of any kind: a value other than a scalar is there, and
is no number. -/
def weighed : Node → Json
  | scalar v => v
  | _ => .bool true

/-- Nodes as the checks of a definition read them. -/
abbrev checking : Readers Node where
  text := text
  optional read
    | scalar .null => .ok none
    | n => (read n).map some
  list read
    | row _ ns => items read 0 ns
    | _ => .fault .notList
  choice choices
    | scalar v => Schema.choice choices v
    | _ => .fault (.notChoice choices)
  whole := whole
  anything n := .ok n.weighed
  members?
    | mapping ms => some (ms.filterMap fun (k, n) => k.name?.map (·, n))
    | _ => none
  word? := name?
  display := display

/-- Nodes as they are read to be written in JSON. -/
abbrev writing : Readers Node := { checking with anything := written }

/-- The step to the value of a key. -/
def step : Node → Step
  | scalar (.num (.int (.ofNat n))) => .index n
  | scalar (.bool b) => .index b.toNat
  | scalar (.str s) => .name s
  | n => .name n.literal

def textKeyed : List (Node × Node) → Checked (List (String × Node))
  | [] => .ok []
  | (k, n) :: ms =>
    (((k.text.under (.name "[key]")).under k.step).map fun s => List.cons (s, n)).apply
      (textKeyed ms)

/-- The members of a mapping, whose keys have to be texts or bytes that encode one. -/
def members : Node → Checked (List (String × Node))
  | mapping ms => (textKeyed ms).map Members.ofList
  | _ => .fault .notObject

end Read

end Node

end Cookbook.Yaml
