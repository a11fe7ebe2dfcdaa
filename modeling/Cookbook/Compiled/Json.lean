import Cookbook.Compiled.Basic
import Cookbook.Json.Library
import Cookbook.Predicate.Json

/-!
# Compiled rules as JSON text

Everything is written, absent parts as `null`, as a library writes JSON.  A text that the library
reads is read back with all issues of its shape.
-/

namespace Cookbook.Compiled

open Schema

def toJson (c : Compiled) : Json :=
  .obj [("mode", .str c.mode.name), ("predicate", c.predicate.toJson),
    ("warnings", .arr (c.warnings.map Warning.toJson)),
    ("source_hash", Json.ofOption .str c.sourceHash), ("compiled_at", .str c.compiledAt)]

def toText (lib : Json.Library) (c : Compiled) : Attempt String := lib.write c.toJson

def marksOf : Members → Checked Rule.Marks
  | [] => .ok []
  | (k, j) :: rest =>
    .apply ((((optional whole) j).under (.name k)).map fun i => ((k, i) :: ·)) (marksOf rest)

def marks (j : Json) : Checked Rule.Marks := (object j).andThen marksOf

def warningCode : Shape Warning.Code
  | .str s =>
    match Warning.Code.all.find? (·.name == s) with
    | some c => .ok c
    | none => .fault (.notMember (Warning.Code.all.map Warning.Code.name))
  | _ => .fault (.notMember (Warning.Code.all.map Warning.Code.name))

def warning : Shape Warning
  | .obj ms =>
    Warning.mk <$> member ms ["code"] warningCode
      <*> member ms ["message"] text
      <*> memberD ms ["location"] (optional marks) none
  | _ => .fault (.notPart "CompileWarning")

def ofJson (now : Instant) : Shape Compiled
  | .obj ms =>
    Compiled.mk <$> member ms ["mode"] (named [Rule.Mode.auto, .custom] Rule.Mode.name)
      <*> member ms ["predicate"] Predicate.ofJson
      <*> memberD ms ["warnings"] (list warning) []
      <*> memberD ms ["source_hash"] (optional text) none
      <*> memberD ms ["compiled_at"] text now.isoOffset
  | _ => .fault (.notPart "CompiledRule")

/-- Reads a text; the time is that of reading when the text has none. -/
def ofText (lib : Json.Library) (now : Instant) (s : String) : Checked Compiled :=
  (lib.read s).andThen (ofJson now)

end Cookbook.Compiled
