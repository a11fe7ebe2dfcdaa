import Cookbook.Json.Basic
import Cookbook.Json.Token

/-!
# Reading JSON text

The tokens are read one by one with a stack of the containers that are still open.
-/

namespace Cookbook.Json

namespace Reader

/-- An open container; collected parts stand in reverse. -/
inductive Frame where
  | arr (done : List Json)
  | obj (done : List (String × Json)) (key : String)

inductive Place where
  | value
  | firstItem
  | firstKey (done : List (String × Json))
  | key (done : List (String × Json))
  | colon (done : List (String × Json)) (key : String)
  | after
  | finished (value : Json)

structure State where
  stack : List Frame
  place : Place

def give (stack : List Frame) (v : Json) : State :=
  match stack with
  | [] => ⟨[], .finished v⟩
  | .arr done :: rest => ⟨.arr (v :: done) :: rest, .after⟩
  | .obj done k :: rest => ⟨.obj ((k, v) :: done) k :: rest, .after⟩

def closeObject (stack : List Frame) (done : List (String × Json)) : State :=
  give stack (.obj (Members.ofList done.reverse))

def value? (stack : List Frame) : Token → Option State
  | .null => some (give stack .null)
  | .bool b => some (give stack (.bool b))
  | .num n => some (give stack (.num n))
  | .str s => some (give stack (.str s))
  | .openArray => some ⟨.arr [] :: stack, .firstItem⟩
  | .openObject => some ⟨stack, .firstKey []⟩
  | _ => none

def step? (s : State) (t : Token) : Option State :=
  match s.place, t with
  | .value, t => value? s.stack t
  | .firstItem, .closeArray =>
    match s.stack with
    | .arr done :: rest => some (give rest (.arr done.reverse))
    | _ => none
  | .firstItem, t => value? s.stack t
  | .firstKey done, .closeObject => some (closeObject s.stack done)
  | .firstKey done, .str k => some ⟨s.stack, .colon done k⟩
  | .key done, .str k => some ⟨s.stack, .colon done k⟩
  | .colon done k, .colon => some ⟨.obj done k :: s.stack, .value⟩
  | .after, .comma =>
    match s.stack with
    | .arr done :: rest => some ⟨.arr done :: rest, .value⟩
    | .obj done _ :: rest => some ⟨rest, .key done⟩
    | [] => none
  | .after, .closeArray =>
    match s.stack with
    | .arr done :: rest => some (give rest (.arr done.reverse))
    | _ => none
  | .after, .closeObject =>
    match s.stack with
    | .obj done _ :: rest => some (closeObject rest done)
    | _ => none
  | _, _ => none

def run? (s : State) : List Token → Option Json
  | [] => match s.place with
    | .finished v => some v
    | _ => none
  | t :: ts => do run? (← step? s t) ts

end Reader

/-- The value that a text writes; one member per name. -/
def ofText? (s : String) : Option Json := do
  let ts ← Token.lex? .between s.toList
  Reader.run? ⟨[], .value⟩ ts

end Cookbook.Json
