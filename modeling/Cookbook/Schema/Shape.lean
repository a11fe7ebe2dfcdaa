import Cookbook.Json.Basic
import Cookbook.Number.Numeral
import Cookbook.Schema.Checked

/-!
# Shapes

Readers of JSON values.  Texts, lists and objects are taken as they are; whole numbers are also read
from numbers without a fraction, truth values and numerals, and truth values from the usual words.
A member may have several names, of which the first present one counts.
-/

namespace Cookbook.Schema

variable {V α β : Type}

abbrev Shape (α : Type) := Json → Checked α

def text : Shape String
  | .str s => .ok s
  | _ => .fault .notText

def optional (read : Shape α) : Shape (Option α)
  | .null => .ok none
  | j => (read j).map some

def anything : Shape Json := .ok

def object : Shape Members
  | .obj ms => .ok ms
  | _ => .fault .notObject

def items (read : V → Checked α) (n : Nat) : List V → Checked (List α)
  | [] => .ok []
  | v :: vs => .apply (((read v).under (.index n)).map List.cons) (items read (n + 1) vs)

def list (read : Shape α) : Shape (List α)
  | .arr js => items read 0 js
  | _ => .fault .notList

def tuple (read : Shape α) : Shape (List α)
  | .arr js => items read 0 js
  | _ => .fault .notTuple

/-- A numeral of a whole number, which may end in a point and zeros. -/
def wholeNumeral? (s : String) : Option Int :=
  let cs := Text.trim Text.isWhite s.toList
  let whole := cs.takeWhile (· != '.')
  let rest := cs.dropWhile (· != '.')
  if rest.drop 1 |>.all (· == '0') then Numeral.int? Numeral.ascii whole else none

def whole : Shape Int
  | .num (.int n) => .ok n
  | .num (.float x) =>
    if !x.isFinite then .fault .notFinite
    else match x.toInt? with
      | none => .fault .wholeFraction
      | some n => if Number.FitsWord (.int n) then .ok n else .fault .wholeSize
  | .bool b => .ok b.toInt
  | .str s =>
    match wholeNumeral? s with
    | some n => .ok n
    | none => .fault .wholeText
  | _ => .fault .notWhole

/-- A whole number or a binary64 number, whichever the value is; numerals and truth values are read
as whole numbers first. -/
def number : Shape Number
  | .num n => .ok n
  | .bool b => .ok (.int b.toInt)
  | .str s =>
    match wholeNumeral? s with
    | some n => .ok (.int n)
    | none =>
      match Numeral.float? Numeral.ascii s.toList with
      | some x => .ok (.float x)
      | none => .bad [⟨[.name "int"], .wholeText⟩, ⟨[.name "float"], .numberText⟩]
  | _ => .bad [⟨[.name "int"], .notWhole⟩, ⟨[.name "float"], .notNumber⟩]

/-- A binary64 number, also from whole numbers, numerals and truth values. -/
def real : Shape Binary64
  | .num (.float x) => .ok x
  | .num (.int n) => .ok (Binary64.ofInt n)
  | .bool b => .ok (Binary64.ofInt b.toInt)
  | .str s =>
    match Numeral.float? Numeral.ascii s.toList with
    | some x => .ok x
    | none => .fault .numberText
  | _ => .fault .notNumber

def truthOfWhole (n : Int) : Checked Bool :=
  if n = 0 then .ok false else if n = 1 then .ok true else .fault .truthText

def trueWords : List String := ["1", "on", "t", "true", "y", "yes"]

def falseWords : List String := ["0", "off", "f", "false", "n", "no"]

def truth : Shape Bool
  | .bool b => .ok b
  | .str s =>
    let word := s.map Text.foldAscii
    if trueWords.contains word then .ok true
    else if falseWords.contains word then .ok false
    else .fault .truthText
  | .num (.int n) => truthOfWhole n
  | .num (.float x) =>
    match x.toInt? with
    | some n => truthOfWhole n
    | none => .fault .notTruth
  | _ => .fault .notTruth

def choice (choices : List String) : Shape String
  | .str s => if choices.contains s then .ok s else .fault (.notChoice choices)
  | _ => .fault (.notChoice choices)

def named (cases : List α) (name : α → String) : Shape α
  | .str s =>
    match cases.find? (name · == s) with
    | some a => .ok a
    | none => .fault (.notChoice (cases.map name))
  | _ => .fault (.notChoice (cases.map name))

def nonEmptyText (j : Json) : Checked String :=
  (text j).andThen fun s => if s.isEmpty then .fault .emptyText else .ok s

def nonEmptyList (read : Shape α) (j : Json) : Checked (List α) :=
  (list read j).andThen fun xs => if xs.isEmpty then .fault .emptyList else .ok xs

def atLeast (bound : Int) (j : Json) : Checked Int :=
  (whole j).andThen fun n => if n < bound then .fault (.below bound) else .ok n

def between (low high : Int) (j : Json) : Checked Int :=
  (atLeast low j).andThen fun n => if high < n then .fault (.above high) else .ok n

def find? (ms : List (String × V)) (names : List String) : Option (String × V) :=
  names.findSome? fun n => (ms.lookup n).map (n, ·)

def member? (ms : List (String × V)) (names : List String) (read : V → Checked α) :
    Checked (Option α) :=
  match find? ms names with
  | some (n, v) => ((read v).under (.name n)).map some
  | none => .ok none

/-- A member with a value of its own when absent. -/
def memberD (ms : List (String × V)) (names : List String) (read : V → Checked α) (default : α) :
    Checked α :=
  (member? ms names read).map (·.getD default)

def member (ms : List (String × V)) (names : List String) (read : V → Checked α) : Checked α :=
  match find? ms names with
  | some (n, v) => (read v).under (.name n)
  | none => (Checked.fault .missing).under (.name (names.headD ""))

def camelChars : List Char → List Char
  | '_' :: c :: rest => c.toUpper :: camelChars rest
  | c :: rest => c :: camelChars rest
  | [] => []

/-- The two spellings of a member name; the camel case one comes first. -/
def spellings (name : String) : List String := [String.ofList (camelChars name.toList), name]

end Cookbook.Schema
