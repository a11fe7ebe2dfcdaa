import Cookbook.Failure
import Cookbook.Yaml.Node
import Cookbook.Yaml.Scalar
import Cookbook.Yaml.Text

/-!
# Reading YAML

A library reads a text or fails on it.  The one here reads block and flow collections, plain and
quoted scalars and comments, in one document.  Anchors, tags, block scalars and collections as keys
are not read, and dates are read as texts.  Every call takes one step of a budget that is several
times the length of the text, and takes a character or is followed by one that does.
-/

namespace Cookbook.Yaml

/-- What a library makes of a text, or how it fails. -/
abbrev Library := String → Attempt Node

namespace Reader

def startsItem (c : Cursor) : Bool :=
  match c.here with
  | '-' :: rest => blankNext rest
  | _ => false

/-- The place after a colon that ends a key, if one comes next on the line of the key. -/
def afterKey? (flow : Bool) (start c : Cursor) : Option Cursor :=
  let c := c.overSpaces
  if !start.sameLine c then none
  else match c.here with
    | ':' :: rest => if flow || endsKey false rest then some (c.forward 1) else none
    | _ => none

def finished? {α : Type} (value : α) (c : Cursor) : Option (α × Cursor) :=
  if c.endsLine then some (value, c) else none

def atSign (sign : Char) (c : Cursor) : Bool := c.here.head? == some sign

def scalar? (flow : Bool) (least : Nat) (c : Cursor) : Option (Node × Cursor) :=
  if atSign '"' c || atSign '\'' c then
    (quotedScalar? c).map fun (s, after) => (.scalar (.str s), after)
  else if startsPlain flow c.here then
    let (cs, after) := plainScalar flow least c
    some (.scalar (resolve cs), after)
  else none

def keyOf? : Node → Option Json
  | .scalar v => some v
  | _ => none

/-- Adds a member; one with a key that is equal by value gives way and keeps its key and place. -/
def put (ms : List (Json × Node)) (key : Json) (value : Node) : List (Json × Node) :=
  match ms with
  | [] => [(key, value)]
  | (k, n) :: rest => if k.alike key then (k, value) :: rest else (k, n) :: put rest key value

def mappingOf (ms : List (Json × Node)) : Node :=
  .mapping ((ms.foldl (fun acc (k, n) => put acc k n) []).map fun (k, n) => (.scalar k, n))

mutual

/-- A scalar or a collection in brackets; a plain scalar goes on in lines from the least column. -/
def leaf (flow : Bool) (least : Nat) (c : Cursor) : Nat → Option (Node × Cursor)
  | 0 => none
  | fuel + 1 =>
    if atSign '[' c then
      (flowItems (c.forward 1).next fuel).map fun (ns, after) => (.row .list ns, after)
    else if atSign '\x7b' c then
      (flowMembers (c.forward 1).next fuel).map fun (ms, after) => (mappingOf ms, after)
    else scalar? flow least c
termination_by structural fuel => fuel

/-- A value inside brackets, which may be left out before the signs that end it. -/
def flowValue (ends : List Char) (c : Cursor) : Nat → Option (Node × Cursor)
  | 0 => none
  | fuel + 1 =>
    let c := c.next
    if ends.any (atSign · c) then some (.scalar .null, c) else leaf true 0 c fuel
termination_by structural fuel => fuel

def flowItems (c : Cursor) : Nat → Option (List Node × Cursor)
  | 0 => none
  | fuel + 1 => do
    if atSign ']' c then some ([], c.forward 1)
    else
      let (n, after) ← leaf true 0 c fuel
      let (n, after) ← match afterKey? true c after with
        | none => some (n, after)
        | some value => do
          let k ← keyOf? n
          let (v, after) ← flowValue [',', ']'] value fuel
          some (mappingOf [(k, v)], after)
      let after := after.next
      if atSign ',' after then
        let (ns, after) ← flowItems (after.forward 1).next fuel
        some (n :: ns, after)
      else if atSign ']' after then some ([n], after.forward 1)
      else none
termination_by structural fuel => fuel

def flowMembers (c : Cursor) : Nat → Option (List (Json × Node) × Cursor)
  | 0 => none
  | fuel + 1 => do
    if atSign '\x7d' c then some ([], c.forward 1)
    else
      let (n, after) ← leaf true 0 c fuel
      let k ← keyOf? n
      let (v, after) ← match afterKey? true c after with
        | none => some (.scalar .null, after)
        | some value => flowValue [',', '\x7d'] value fuel
      let after := after.next
      if atSign ',' after then
        let (ms, after) ← flowMembers (after.forward 1).next fuel
        some ((k, v) :: ms, after)
      else if atSign '\x7d' after then some ([(k, v)], after.forward 1)
      else none
termination_by structural fuel => fuel

/-- A node at a place where block collections may start. -/
def node (least : Nat) (c : Cursor) : Nat → Option (Node × Cursor)
  | 0 => none
  | fuel + 1 => do
    if startsItem c then
      let (ns, after) ← items c.column c fuel
      some (.row .list ns, after)
    else
      let (n, after) ← leaf false least c fuel
      match afterKey? false c after with
      | none => finished? n after
      | some value =>
        let k ← keyOf? n
        let (ms, after) ← members c.column k value fuel
        some (mappingOf ms, after)
termination_by structural fuel => fuel

def items (column : Nat) (c : Cursor) : Nat → Option (List Node × Cursor)
  | 0 => none
  | fuel + 1 => do
    let inner := (c.forward 1).next
    let (n, after) ←
      if c.sameLine inner && !inner.here.isEmpty || column < inner.column && !inner.atEnd then
        node (column + 1) inner fuel
      else some (.scalar .null, inner)
    let after := after.next
    if after.atEnd || after.column < column then some ([n], after)
    else if after.column = column ∧ startsItem after then
      let (ns, after) ← items column after fuel
      some (n :: ns, after)
    else if after.column = column then some ([n], after)
    else none
termination_by structural fuel => fuel

def members (column : Nat) (key : Json) (c : Cursor) : Nat → Option (List (Json × Node) × Cursor)
  | 0 => none
  | fuel + 1 => do
    let (v, after) ← value column c fuel
    let after := after.next
    if after.atEnd || after.column < column then some ([(key, v)], after)
    else if column < after.column then none
    else
      let (n, rest) ← leaf false (column + 1) after fuel
      let k ← keyOf? n
      let next ← afterKey? false after rest
      let (ms, after) ← members column k next fuel
      some ((key, v) :: ms, after)
termination_by structural fuel => fuel

/-- The value of a key at a column: on its line, or in the lines below. -/
def value (column : Nat) (c : Cursor) : Nat → Option (Node × Cursor)
  | 0 => none
  | fuel + 1 => do
    let inner := c.next
    if inner.atEnd then some (.scalar .null, inner)
    else if c.sameLine inner then
      let (n, after) ← leaf false (column + 1) inner fuel
      finished? n after
    else if column < inner.column then node (column + 1) inner fuel
    else if inner.column = column ∧ startsItem inner then
      let (ns, after) ← items column inner fuel
      some (.row .list ns, after)
    else some (.scalar .null, inner)
termination_by structural fuel => fuel

end

def document (lines : List (List Char)) : Option Node :=
  let size := lines.flatten.length + lines.length
  let start := Cursor.settle 0 [] lines
  if start.atEnd then some (.scalar .null)
  else match node 0 start (4 * size + 16) with
    | some (n, after) => if after.next.atEnd then some n else none
    | none => none

def isAllowed (c : Char) : Bool :=
  let n := c.toNat
  n == 9 || n == 10 || n == 13 || n == 0x85 || (0x20 ≤ n && n ≤ 0x7e) ||
    (0xa0 ≤ n && n != 0xfffe && n != 0xffff)

def isMarker (line : List Char) : Bool :=
  (line.take 3 == ['-', '-', '-'] || line.take 3 == ['.', '.', '.']) && blankNext (line.drop 3)

/-- The lines with the marker of the first document blanked out. -/
def withoutStart : List (List Char) → List (List Char)
  | [] => []
  | line :: lines =>
    if Cursor.isSpent (line.dropWhile (· == ' ')) then line :: withoutStart lines
    else if isMarker line && line.head? == some '-' then
      (' ' :: ' ' :: ' ' :: line.drop 3) :: lines
    else line :: lines

end Reader

def ofText? (s : String) : Option Node :=
  let cs := match s.toList with
    | '\ufeff' :: rest => rest
    | cs => cs
  let lines := Reader.withoutStart (linesOf cs)
  if cs.all Reader.isAllowed && !lines.any Reader.isMarker then Reader.document lines else none

def Library.simple : Library := fun s => (ofText? s).elim (.error .noYaml) .ok

end Cookbook.Yaml
