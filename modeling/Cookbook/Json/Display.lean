import Cookbook.Json.Basic
import Cookbook.Number.Shortest
import Cookbook.Text.Quoted

/-!
# Values in messages

`display` shows a text as it is; `literal` quotes it.  Inside lists and objects every value is a
literal.
-/

namespace Cookbook

def Number.text : Number → String
  | .int n => toString n
  | .float x => x.text Binary64.standard

namespace Json

mutual

def literal : Json → String
  | null => "None"
  | bool true => "True"
  | bool false => "False"
  | num n => n.text
  | str s => Text.quoted s
  | arr xs => "[" ++ ", ".intercalate (literals xs) ++ "]"
  | obj ms => "\x7b" ++ ", ".intercalate (memberLiterals ms) ++ "\x7d"

def literals : List Json → List String
  | [] => []
  | x :: xs => x.literal :: literals xs

def memberLiterals : Members → List String
  | [] => []
  | (k, v) :: rest => (Text.quoted k ++ ": " ++ v.literal) :: memberLiterals rest

end

def display : Json → String
  | str s => s
  | j => j.literal

end Json

def literalText (s : Option String) : String := (Json.ofOption .str s).literal

end Cookbook
