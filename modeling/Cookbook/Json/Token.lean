import Cookbook.Number.Numeral

/-!
# Tokens of JSON text

The lexer reads one character at a time and keeps what it is in the middle of.  Texts are collected
as UTF-16 units and code points, so that the two halves of an escaped pair meet.
-/

namespace Cookbook.Json

inductive Token where
  | openObject
  | closeObject
  | openArray
  | closeArray
  | comma
  | colon
  | null
  | bool (value : Bool)
  | num (value : Number)
  | str (value : String)
deriving DecidableEq, Repr

namespace Token

/-- What the lexer is in the middle of; collected characters stand in reverse. -/
inductive Mode where
  | between
  | word (done : List Char)
  | text (done : List Nat)
  | escape (done : List Nat)
  | code (done : List Nat) (value left : Nat)
deriving DecidableEq, Repr

/-- Characters of code points in which a high and a low half make one.  A lone half is no character
and the replacement character stands for it; what becomes of such a text is up to those who use it.
-/
def joinHalves : List Nat → List Char
  | [] => []
  | h :: l :: rest =>
    if 0xd800 ≤ h ∧ h < 0xdc00 then
      if 0xdc00 ≤ l ∧ l < 0xe000 then
        Char.ofNat (0x10000 + (h - 0xd800) * 0x400 + (l - 0xdc00)) :: joinHalves rest
      else Char.ofNat 0xfffd :: joinHalves (l :: rest)
    else (if 0xdc00 ≤ h ∧ h < 0xe000 then Char.ofNat 0xfffd else Char.ofNat h)
      :: joinHalves (l :: rest)
  | [h] => [if 0xd800 ≤ h ∧ h < 0xe000 then Char.ofNat 0xfffd else Char.ofNat h]

def hexValue? (c : Char) : Option Nat :=
  if c.isDigit then some (c.toNat - 48)
  else if 'a' ≤ c ∧ c ≤ 'f' then some (c.toNat - 87)
  else if 'A' ≤ c ∧ c ≤ 'F' then some (c.toNat - 55)
  else none

def isWhole : List Char → Bool
  | [] => false
  | ['0'] => true
  | '0' :: _ => false
  | ds => ds.all Char.isDigit

/-- The number of digits, which is a whole number if nothing follows them. -/
def unsigned? (negative : Bool) (cs : List Char) : Option Number :=
  let whole := cs.takeWhile Char.isDigit
  if !isWhole whole then none
  else match cs.dropWhile Char.isDigit with
    | [] => some (.int (Numeral.withSign negative (Numeral.ofDigits whole)))
    | '.' :: r =>
      if (r.takeWhile Char.isDigit).isEmpty then none
      else (Numeral.decimal? negative cs).map .float
    | _ => (Numeral.decimal? negative cs).map .float

def number? : List Char → Option Number
  | '-' :: cs => unsigned? true cs
  | cs => unsigned? false cs

def ofWord? (cs : List Char) : Option Token :=
  match String.ofList cs with
  | "null" => some .null
  | "true" => some (.bool true)
  | "false" => some (.bool false)
  | "NaN" => some (.num (.float .nan))
  | "Infinity" => some (.num (.float (.infinite false)))
  | "-Infinity" => some (.num (.float (.infinite true)))
  | _ => (number? cs).map .num

def isWordChar (c : Char) : Bool := c.isAlphanum || c == '-' || c == '+' || c == '.'

/-- The mode after a character that starts or stands between tokens, and the token it makes. -/
def start? (c : Char) : Option (Mode × List Token) :=
  if c = ' ' ∨ c = '\n' ∨ c = '\r' ∨ c = '\t' then some (.between, [])
  else if c = '\x7b' then some (.between, [.openObject])
  else if c = '\x7d' then some (.between, [.closeObject])
  else if c = '[' then some (.between, [.openArray])
  else if c = ']' then some (.between, [.closeArray])
  else if c = ',' then some (.between, [.comma])
  else if c = ':' then some (.between, [.colon])
  else if c = '"' then some (.text [], [])
  else if isWordChar c then some (.word [c], [])
  else none

def escaped? (c : Char) : Option Nat :=
  if c = '"' ∨ c = '\\' ∨ c = '/' then some c.toNat
  else if c = 'n' then some 10
  else if c = 'r' then some 13
  else if c = 't' then some 9
  else if c = 'b' then some 8
  else if c = 'f' then some 12
  else none

def step? (m : Mode) (c : Char) : Option (Mode × List Token) :=
  match m with
  | .between => start? c
  | .word done =>
    if isWordChar c then some (.word (c :: done), [])
    else do
      let t ← ofWord? done.reverse
      let (m, ts) ← start? c
      some (m, t :: ts)
  | .text done =>
    if c = '"' then some (.between, [.str (String.ofList (joinHalves done.reverse))])
    else if c = '\\' then some (.escape done, [])
    else if c.toNat < 32 then none
    else some (.text (c.toNat :: done), [])
  | .escape done =>
    if c = 'u' then some (.code done 0 4, [])
    else (escaped? c).map fun n => (.text (n :: done), [])
  | .code done value left =>
    (hexValue? c).map fun d =>
      let value := value * 16 + d
      if left ≤ 1 then (.text (value :: done), []) else (.code done value (left - 1), [])

def lex? (m : Mode) : List Char → Option (List Token)
  | [] => match m with
    | .between => some []
    | .word done => (ofWord? done.reverse).map ([·])
    | _ => none
  | c :: rest => do
    let (m, ts) ← step? m c
    let more ← lex? m rest
    some (ts ++ more)

end Token

end Cookbook.Json
