import Cookbook.Definition.Basic
import Cookbook.Distinct
import Cookbook.Yaml.Reader

/-!
# Folders of definitions

A file holds one definition or a list of them.  Every definition read is registered under its slug
at once, so those before a faulty one stay registered.  Reading a folder leaves out faulty files;
only one whose content is no mapping stops it, or one on which the library fails in a way of its
own.
-/

namespace Cookbook

/-- What a file holds: a text, or bytes that are none, with what decoding them says. -/
inductive Content where
  | text (s : String)
  | bytes (complaint : String)
deriving DecidableEq, Repr

/-- Files by name; a slash in a name leads into a folder within. -/
structure Folder where
  files : List (String × Content)
deriving DecidableEq, Repr

namespace Folder

def file? (f : Folder) (name : String) : Option Content := f.files.lookup name

def after? : List Char → List Char → Option (List Char)
  | [], rest => some rest
  | c :: cs, d :: rest => if c = d then after? cs rest else none
  | _ :: _, [] => none

def inner? (f : Folder) (name : String) : Option Folder :=
  let start := name.toList ++ ['/']
  match f.files.filterMap fun (n, content) =>
    (after? start n.toList).map fun rest => (String.ofList rest, content) with
  | [] => none
  | files => some ⟨files⟩

def opened (f : Folder) (name : String) : Attempt Content :=
  match f.file? name with
  | some c => .ok c
  | none =>
    match f.inner? name with
    | some _ => .error (.library "IsADirectoryError" name)
    | none => .error .noFile

/-- What a library makes of a file. -/
def root (yaml : Yaml.Library) (f : Folder) (name : String) : Attempt Yaml.Node :=
  f.opened name >>= fun
    | .text s => yaml s
    | .bytes complaint => .error (.value complaint)

def ending : String := ".yaml"

/-- The name of the file, or of the folder within that leads to it. -/
def entry (name : String) : String := String.ofList (name.toList.takeWhile (· ≠ '/'))

/-- What a folder is read for, by name. -/
def names (f : Folder) : List String :=
  (distinct ((f.files.map fun (n, _) => entry n).filter (·.endsWith ending))).mergeSort
    fun a b => decide (a ≤ b)

end Folder

/-- The definitions that were read, by slug, in the order in which their slugs first came. -/
structure Registry where
  definitions : List Sheet
deriving Repr

namespace Registry

def empty : Registry := ⟨[]⟩

def get? (r : Registry) (slug : String) : Option Sheet := r.definitions.find? (·.slug == slug)

def slugs (r : Registry) : List String := r.definitions.map Definition.slug

/-- A definition of the same slug gives way and leaves its place. -/
def put (r : Registry) (s : Sheet) : Registry :=
  if r.slugs.contains s.slug then ⟨r.definitions.map fun e => if e.slug = s.slug then s else e⟩
  else ⟨r.definitions ++ [s]⟩

end Registry

abbrev Loading := ExceptT Failure (StateM Registry)

namespace Loading

def run {α : Type} (l : Loading α) (r : Registry) : Attempt α × Registry := ExceptT.run l r

def register (n : Yaml.Node) : Loading Sheet := do
  match Sheet.ofNode n with
  | .ok s =>
    modify (·.put s)
    return s
  | .error f => throw f

section

variable (yaml : Yaml.Library)

def ofFile (f : Folder) (name : String) : Loading (List Sheet) :=
  match f.root yaml name with
  | .ok n => n.contents.mapM register
  | .error e => throw e

def Skips : Failure → Prop
  | .rule _ => True
  | .request _ => True
  | .value _ => True
  | .noYaml => True
  | _ => False

instance : DecidablePred Skips := fun
  | .rule _ | .request _ | .value _ | .noYaml => inferInstanceAs (Decidable True)
  | .store .. | .unknownCollection _ | .unknownRecipes _ | .takenSlug _ | .badOverride _ | .other _
  | .noPredicate | .overflow | .unencodable | .database | .noFile | .noMapping | .library .. =>
    inferInstanceAs (Decidable False)

/-- The definitions of a file, none if they are faulty. -/
def ofFileOrNone (f : Folder) (name : String) : Loading (List Sheet) :=
  tryCatch (ofFile yaml f name) fun e => if Skips e then return [] else throw e

def ofFolder (f : Folder) : Loading (List Sheet) := do
  let found ← f.names.mapM (ofFileOrNone yaml f)
  return found.flatten

/-- The definitions of the folder that a reader was made with, or of a folder within it. -/
def ofChosen (made : Option Folder) (inner : Option Folder) : Loading (List Sheet) :=
  match inner, made with
  | some f, _ => ofFolder yaml f
  | none, some f => ofFolder yaml f
  | none, none => throw (.value "No collections directory specified")

end

end Loading

end Cookbook
