/-!
# A place in a text of lines

What is left of the line, with the column it starts at, and the lines below it.
-/

namespace Cookbook.Yaml

/-- The lines of a text, without their ends; every kind of line end counts. -/
def linesOf : List Char → List (List Char)
  | [] => [[]]
  | '\r' :: '\n' :: rest => [] :: linesOf rest
  | c :: rest =>
    if c = '\n' ∨ c = '\r' ∨ c = '\x85' then [] :: linesOf rest
    else match linesOf rest with
      | [] => [[c]]
      | line :: lines => (c :: line) :: lines

structure Cursor where
  column : Nat
  here : List Char
  below : List (List Char)
deriving Repr

namespace Cursor

def forward (n : Nat) (c : Cursor) : Cursor := ⟨c.column + n, c.here.drop n, c.below⟩

def overSpaces (c : Cursor) : Cursor := c.forward (c.here.takeWhile (· == ' ')).length

def isSpent : List Char → Bool
  | [] => true
  | c :: _ => c == '#'

/-- To the next character that matters, over blanks, comments and line ends. -/
def settle (column : Nat) (here : List Char) : List (List Char) → Cursor
  | [] =>
    let c := overSpaces ⟨column, here, []⟩
    if isSpent c.here then ⟨c.column, [], []⟩ else c
  | line :: below =>
    let c := overSpaces ⟨column, here, line :: below⟩
    if isSpent c.here then settle 0 line below else c

def next (c : Cursor) : Cursor := settle c.column c.here c.below

def atEnd (c : Cursor) : Bool := c.here.isEmpty && c.below.isEmpty

def endsLine (c : Cursor) : Bool := isSpent c.overSpaces.here

def sameLine (c d : Cursor) : Bool := c.below.length == d.below.length

def flat (c : Cursor) : List Char := c.here ++ c.below.flatMap ('\n' :: ·)

/-- The place at which some characters are left. -/
def ofFlat (column : Nat) (cs : List Char) : Cursor :=
  match linesOf cs with
  | [] => ⟨column, [], []⟩
  | line :: lines => ⟨column, line, lines⟩

end Cursor

end Cookbook.Yaml
