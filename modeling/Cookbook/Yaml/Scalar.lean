import Cookbook.Json.Basic
import Cookbook.Number.Numeral

/-!
# Plain scalars

What an unquoted word of YAML 1.1 stands for: nothing, a truth value, a whole number in one of
several bases, a binary64 number, or itself.  A number needs a point to be a binary64 number, and an
exponent needs its sign.
-/

namespace Cookbook.Yaml

def nullWords : List String := ["", "~", "null", "Null", "NULL"]

def trueWords : List String :=
  ["yes", "Yes", "YES", "true", "True", "TRUE", "on", "On", "ON"]

def falseWords : List String :=
  ["no", "No", "NO", "false", "False", "FALSE", "off", "Off", "OFF"]

def infinityWords : List String := [".inf", ".Inf", ".INF"]

def nanWords : List String := [".nan", ".NaN", ".NAN"]

def isGrouped (digit : Char → Bool) (c : Char) : Bool := digit c || c == '_'

def isOctal (c : Char) : Bool := '0' ≤ c && c ≤ '7'

def isBinary (c : Char) : Bool := c == '0' || c == '1'

def isHex (c : Char) : Bool := c.isDigit || ('a' ≤ c && c ≤ 'f') || ('A' ≤ c && c ≤ 'F')

def hexDigitValue (c : Char) : Nat :=
  if c.isDigit then c.toNat - 48 else c.toLower.toNat - 87

/-- The number that digits write in a base, underscores left out. -/
def inBase (base : Nat) (cs : List Char) : Nat :=
  (cs.filter (· != '_')).foldl (fun n c => n * base + hexDigitValue c) 0

def isCounting : List Char → Bool
  | c :: rest => c.isDigit && c != '0' && rest.all (isGrouped Char.isDigit)
  | [] => false

def sixtieth? (cs : List Char) : Option Nat :=
  match cs with
  | [d] => if d.isDigit then some (inBase 10 cs) else none
  | [t, d] => if '0' ≤ t && t ≤ '5' && d.isDigit then some (inBase 10 cs) else none
  | _ => none

def colonParts : List Char → List (List Char)
  | [] => [[]]
  | c :: rest =>
    match colonParts rest with
    | [] => [[c]]
    | part :: parts => if c = ':' then [] :: part :: parts else (c :: part) :: parts

/-- A number of sixties, as times are written. -/
def sexagesimal? (cs : List Char) : Option Nat :=
  match colonParts cs with
  | first :: second :: rest =>
    if isCounting first then
      ((second :: rest).mapM sixtieth?).map fun parts =>
        parts.foldl (fun n p => n * 60 + p) (inBase 10 first)
    else none
  | _ => none

def natural? (cs : List Char) : Option Nat :=
  match cs with
  | ['0'] => some 0
  | '0' :: 'b' :: rest =>
    if !rest.isEmpty && rest.all (isGrouped isBinary) then some (inBase 2 rest) else none
  | '0' :: 'x' :: rest =>
    if !rest.isEmpty && rest.all (isGrouped isHex) then some (inBase 16 rest) else none
  | '0' :: rest => if rest.all (isGrouped isOctal) then some (inBase 8 rest) else none
  | _ => if isCounting cs then some (inBase 10 cs) else sexagesimal? cs

def int? (cs : List Char) : Option Int :=
  let (negative, body) := Numeral.signed cs
  (natural? body).map (Numeral.withSign negative)

def isExponent : List Char → Bool
  | [] => true
  | e :: sign :: d :: rest =>
    (e == 'e' || e == 'E') && (sign == '+' || sign == '-') && (d :: rest).all Char.isDigit
  | _ => false

/-- Digits with a point; without a digit before the point there is no sign either. -/
def isPointed (signedText : Bool) (body : List Char) : Bool :=
  let whole := body.takeWhile (isGrouped Char.isDigit)
  match body.dropWhile (isGrouped Char.isDigit) with
  | '.' :: rest =>
    let fraction := rest.takeWhile (isGrouped Char.isDigit)
    isExponent (rest.dropWhile (isGrouped Char.isDigit)) &&
      (match whole with
        | d :: _ => d.isDigit
        | [] => !signedText && (fraction.head?.any Char.isDigit))
  | _ => false

def float? (cs : List Char) : Option Binary64 :=
  let (negative, body) := Numeral.signed cs
  let word := String.ofList body
  if infinityWords.contains word then some (.infinite negative)
  else if nanWords.contains (String.ofList cs) then some .nan
  else if isPointed (body.length < cs.length) body then
    Numeral.decimal? negative (body.filter (· != '_'))
  else none

/-- The value of an unquoted word. -/
def resolve (cs : List Char) : Json :=
  let word := String.ofList cs
  if nullWords.contains word then .null
  else if trueWords.contains word then .bool true
  else if falseWords.contains word then .bool false
  else match float? cs with
    | some x => .float x
    | none =>
      match int? cs with
      | some n => .int n
      | none => .str word

end Cookbook.Yaml
