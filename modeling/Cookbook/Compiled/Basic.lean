import Cookbook.Compiled.Compile
import Cookbook.Digest.Sha256
import Cookbook.Instant
import Cookbook.Json.Printer
import Cookbook.Rule.Wire

/-!
# Compiled rules

The predicate of a rule with its warnings, the time, and a fingerprint of everything that the
predicate depends on: the rule and the links, and nothing else.
-/

namespace Cookbook

structure Compiled where
  mode : Rule.Mode
  predicate : Predicate
  warnings : List Warning
  sourceHash : Option String
  compiledAt : String
deriving DecidableEq, Repr

namespace Rule

def Links.toJson (l : Links) : Json :=
  .arr [Json.ofOption .str l.cuisine, Json.ofOption .str l.location, Json.ofOption .str l.tag]

def sourceText (r : Rule) (links : Links) : String :=
  (Json.obj [("rule", r.toJson), ("links", links.toJson)]).text Json.canonical

/-- The first 16 hexadecimal digits of the digest. -/
def sourceHash (r : Rule) (links : Links) : String :=
  String.ofList ((Sha256.hex (r.sourceText links)).toList.take 16)

def compile (r : Rule) (links : Links) (now : Instant) : Compiled where
  mode := r.mode
  predicate := r.predicate links
  warnings := r.warnings links
  sourceHash := some (r.sourceHash links)
  compiledAt := now.isoOffset

end Rule

namespace Compiled

def simplify (c : Compiled) : Compiled := { c with predicate := c.predicate.simplify }

end Compiled

end Cookbook
