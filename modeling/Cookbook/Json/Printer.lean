import Cookbook.Json.Basic
import Cookbook.Number.Shortest
import Cookbook.Text.Quoted

/-!
# JSON text

One printer with the decisions that texts differ in gathered in a style: separators, whether names
are sorted, which characters are escaped, and how a number that JSON cannot write is spelled.
-/

namespace Cookbook.Json

structure Style where
  comma : String
  colon : String
  sorted : Bool
  asciiOnly : Bool
  nan : String
  infinity : String
  negativeInfinity : String

/-- Without blanks; numbers that are not finite become `null`. -/
def compact : Style where
  comma := ","
  colon := ":"
  sorted := false
  asciiOnly := false
  nan := "null"
  infinity := "null"
  negativeInfinity := "null"

/-- Sorted names and ASCII characters only, so that equal values have one text. -/
def canonical : Style where
  comma := ", "
  colon := ": "
  sorted := true
  asciiOnly := true
  nan := "NaN"
  infinity := "Infinity"
  negativeInfinity := "-Infinity"

def unitEscape (n : Nat) : List Char := '\\' :: 'u' :: Text.hex 4 n

def unicodeEscape (c : Char) : List Char :=
  let n := c.toNat
  if n < 0x10000 then unitEscape n
  else unitEscape (0xd800 + (n - 0x10000) / 0x400) ++ unitEscape (0xdc00 + (n - 0x10000) % 0x400)

def escapedChar (asciiOnly : Bool) (c : Char) : List Char :=
  if c = '"' ∨ c = '\\' then ['\\', c]
  else if c = '\n' then ['\\', 'n']
  else if c = '\r' then ['\\', 'r']
  else if c = '\t' then ['\\', 't']
  else if c.toNat = 8 then ['\\', 'b']
  else if c.toNat = 12 then ['\\', 'f']
  else if c.toNat < 32 ∨ (asciiOnly ∧ 126 < c.toNat) then unicodeEscape c
  else [c]

def quotedText (asciiOnly : Bool) (s : String) : String :=
  String.ofList ('"' :: s.toList.flatMap (escapedChar asciiOnly) ++ ['"'])

def numberText (style : Style) : Number → String
  | .int n => toString n
  | .float .nan => style.nan
  | .float (.infinite false) => style.infinity
  | .float (.infinite true) => style.negativeInfinity
  | .float x => x.text Binary64.standard

def ordered (style : Style) (ms : List (String × String)) : List (String × String) :=
  if style.sorted then ms.mergeSort (fun a b => decide (a.1 ≤ b.1)) else ms

mutual

def text (style : Style) : Json → String
  | null => "null"
  | bool true => "true"
  | bool false => "false"
  | num n => numberText style n
  | str s => quotedText style.asciiOnly s
  | arr xs => "[" ++ style.comma.intercalate (itemTexts style xs) ++ "]"
  | obj ms =>
    let written := (ordered style (memberTexts style ms)).map fun (k, v) =>
      quotedText style.asciiOnly k ++ style.colon ++ v
    "\x7b" ++ style.comma.intercalate written ++ "\x7d"

def itemTexts (style : Style) : List Json → List String
  | [] => []
  | x :: xs => x.text style :: itemTexts style xs

def memberTexts (style : Style) : Members → List (String × String)
  | [] => []
  | (k, v) :: rest => (k, v.text style) :: memberTexts style rest

end

end Cookbook.Json
