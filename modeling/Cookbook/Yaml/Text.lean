import Cookbook.Json.Token
import Cookbook.Yaml.Cursor

/-!
# Scalars in a text

A plain scalar ends where its line says something else, and goes on in lines that are indented
enough.  A quoted one ends at its quote.  In both a single line end is a blank, and of several line
ends one is dropped.
-/

namespace Cookbook.Yaml

def isBreakBlank (c : Char) : Bool := c == ' ' || c == '\t' || c == '\n'

def blankNext : List Char → Bool
  | [] => true
  | c :: _ => isBreakBlank c

def flowSigns : List Char := [',', '[', ']', '\x7b', '\x7d']

def startSigns : List Char := " \t-?:,[]\x7b\x7d#&*!|>'\"%@`".toList

def startsPlain (flow : Bool) : List Char → Bool
  | [] => false
  | c :: rest =>
    !startSigns.contains c ||
      (!blankNext rest && (c == '-' || (!flow && (c == '?' || c == ':'))))

/-- A colon before this separates a key from its value. -/
def endsKey (flow : Bool) : List Char → Bool
  | [] => true
  | c :: _ => isBreakBlank c || (flow && flowSigns.contains c)

/-- What of a line belongs to a plain scalar, with the blanks behind it. -/
def plainRun (flow : Bool) : List Char → List Char
  | [] => []
  | c :: rest =>
    if c = '\t' then []
    else if c = ':' ∧ endsKey flow rest then []
    else if flow ∧ (c = '?' ∨ flowSigns.contains c) then []
    else if c = ' ' ∧ rest.head? = some '#' then []
    else c :: plainRun flow rest

def withoutTrailing (cs : List Char) : List Char := (cs.reverse.dropWhile (· == ' ')).reverse

/-- The text for line ends with some empty lines between them. -/
def foldedBreak (emptyLines : Nat) : List Char :=
  if emptyLines = 0 then [' '] else List.replicate emptyLines '\n'

/-- The lines with which a plain scalar goes on, and the place after them. -/
def plainMore (flow : Bool) (least emptyLines : Nat) (place : Cursor) :
    List (List Char) → List Char × Cursor
  | [] => ([], place)
  | line :: below =>
    let body := line.dropWhile (· == ' ')
    let column := line.length - body.length
    let run := withoutTrailing (plainRun flow body)
    if body.isEmpty then plainMore flow least (emptyLines + 1) place below
    else if Cursor.isSpent body || (!flow && column < least) || run.isEmpty then ([], place)
    else
      let place : Cursor := ⟨column + run.length, body.drop run.length, below⟩
      let (more, place) := if place.here.all (· == ' ') then plainMore flow least 0 place below
        else ([], place)
      (foldedBreak emptyLines ++ run ++ more, place)

/-- A plain scalar and the place after it; lines that go on start at the least column or later. -/
def plainScalar (flow : Bool) (least : Nat) (c : Cursor) : List Char × Cursor :=
  let run := withoutTrailing (plainRun flow c.here)
  let place := c.forward run.length
  let (more, place) := if place.here.all (· == ' ') then plainMore flow least 0 place c.below
    else ([], place)
  (run ++ more, place)

inductive Piece where
  | unit (code : Nat)
  | blank (c : Char)
  | lineEnd
  /-- A line end that is escaped and stands for nothing. -/
  | seam
deriving DecidableEq, Repr

/-- What has been seen of white space that may come to nothing. -/
inductive Gap where
  | none
  | blanks (done : List Char)
  | ends (emptyLines : Nat)
  | seam (emptyLines : Nat)

def Gap.units : Gap → List Nat
  | none => []
  | blanks done => done.reverse.map Char.toNat
  | ends n => (foldedBreak n).map Char.toNat
  | seam n => List.replicate n '\n'.toNat

/-- The units of a quoted scalar with its line ends folded. -/
def foldPieces (gap : Gap) : List Piece → List Nat
  | [] => gap.units
  | .unit n :: ps => gap.units ++ n :: foldPieces .none ps
  | .blank c :: ps =>
    match gap with
    | .none => foldPieces (.blanks [c]) ps
    | .blanks done => foldPieces (.blanks (c :: done)) ps
    | gap => foldPieces gap ps
  | .lineEnd :: ps =>
    match gap with
    | .ends n => foldPieces (.ends (n + 1)) ps
    | .seam n => foldPieces (.seam (n + 1)) ps
    | _ => foldPieces (.ends 0) ps
  | .seam :: ps => gap.units ++ foldPieces (.seam 0) ps

def pieceOf (c : Char) : Piece :=
  if c = '\n' then .lineEnd
  else if c = ' ' ∨ c = '\t' then .blank c
  else .unit c.toNat

/-- The pieces up to the closing single quote, and what follows it; two quotes are one. -/
def singleQuoted? : List Char → Option (List Piece × List Char)
  | [] => none
  | '\'' :: '\'' :: rest =>
    (singleQuoted? rest).map fun (ps, after) => (.unit '\''.toNat :: ps, after)
  | c :: rest =>
    if c = '\'' then some ([], rest)
    else (singleQuoted? rest).map fun (ps, after) => (pieceOf c :: ps, after)

def escapes : List (Char × Nat) :=
  [('0', 0), ('a', 7), ('b', 8), ('t', 9), ('\t', 9), ('n', 10), ('v', 11), ('f', 12), ('r', 13),
    ('e', 27), (' ', 32), ('"', 34), ('\\', 92), ('/', 47), ('N', 0x85), ('_', 0xa0), ('L', 0x2028),
    ('P', 0x2029)]

def codeWidth? (c : Char) : Option Nat :=
  if c = 'x' then some 2 else if c = 'u' then some 4 else if c = 'U' then some 8 else none

/-- The pieces up to the closing double quote, and what follows it.  Inside an escape by code, the
number so far and how many digits are to come are kept. -/
def doubleQuoted? (escaped : Bool) (code : Option (Nat × Nat)) :
    List Char → Option (List Piece × List Char)
  | [] => none
  | c :: rest =>
    match code with
    | some (n, left) =>
      match Json.Token.hexValue? c with
      | none => none
      | some d =>
        if left ≤ 1 then
          (doubleQuoted? false none rest).map fun (ps, after) => (.unit (n * 16 + d) :: ps, after)
        else doubleQuoted? false (some (n * 16 + d, left - 1)) rest
    | none =>
      if escaped then
        if c = '\n' then
          (doubleQuoted? false none rest).map fun (ps, after) => (.seam :: ps, after)
        else match codeWidth? c with
          | some width => doubleQuoted? false (some (0, width)) rest
          | none =>
            match escapes.lookup c with
            | some n =>
              (doubleQuoted? false none rest).map fun (ps, after) => (.unit n :: ps, after)
            | none => none
      else if c = '"' then some ([], rest)
      else if c = '\\' then doubleQuoted? true none rest
      else (doubleQuoted? false none rest).map fun (ps, after) => (pieceOf c :: ps, after)

def quotedScalar? (c : Cursor) : Option (String × Cursor) :=
  match c.flat with
  | [] => none
  | quote :: rest =>
    let closed := if quote = '"' then doubleQuoted? false none rest else singleQuoted? rest
    closed.map fun (ps, after) =>
      (String.ofList (Json.Token.joinHalves (foldPieces .none ps)),
        Cursor.ofFlat (c.column + (rest.length - after.length) + 1) after)

end Cookbook.Yaml
