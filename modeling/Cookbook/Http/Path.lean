import Cookbook.Json.Token

/-!
# Paths

A path is split at its slashes after the characters written by their codes are put in place.
-/

namespace Cookbook.Http

/-- The bytes that a path writes: a percent sign with two digits is the byte of that code. -/
def pathBytes : List Char → List UInt8
  | '%' :: h :: l :: rest =>
    match Json.Token.hexValue? h, Json.Token.hexValue? l with
    | some a, some b => UInt8.ofNat (a * 16 + b) :: pathBytes rest
    | _, _ => ('%'.toString.toUTF8.toList) ++ pathBytes (h :: l :: rest)
  | c :: rest => c.toString.toUTF8.toList ++ pathBytes rest
  | [] => []
termination_by cs => cs.length

def decodedPath (path : String) : String :=
  (String.fromUTF8? (ByteArray.mk (pathBytes path.toList).toArray)).getD path

def slashParts : List Char → List (List Char)
  | [] => [[]]
  | c :: rest =>
    match slashParts rest with
    | [] => [[c]]
    | part :: parts => if c = '/' then [] :: part :: parts else (c :: part) :: parts

/-- The parts of a path; a path starts with a slash. -/
def pathParts (path : String) : List String :=
  ((slashParts (decodedPath path).toList).drop 1).map String.ofList

def withoutEmptyEnd (parts : List String) : List String :=
  (parts.reverse.dropWhile String.isEmpty).reverse

end Cookbook.Http
