import Cookbook.Failure

/-!
# Answers over HTTP

A failure of the known kinds has a status and a detail of its own; any other one is an error of the
server, of which nothing more is said.
-/

namespace Cookbook

namespace Http

structure Response where
  status : Nat
  body : Json
deriving DecidableEq, Repr

def detailed (status : Nat) (detail : Json) : Response := ⟨status, .obj [("detail", detail)]⟩

def notFound : Response := detailed 404 (.str "Not Found")

def methodNotAllowed : Response := detailed 405 (.str "Method Not Allowed")

def serverError : Response := ⟨500, .str "Internal Server Error"⟩

end Http

namespace Failure

def status : Failure → Nat
  | unknownCollection _ => 404
  | unknownRecipes _ => 400
  | badOverride _ => 400
  | takenSlug _ => 409
  | rule _ => 422
  | store .. => 503
  | _ => 500

/-- What callers are told about a failure. -/
def detail (f : Failure) : Json :=
  match f with
  | unknownRecipes ids => .obj [("message", .str f.message), ("recipeIds", Json.texts ids)]
  | rule ps => .obj [("message", .str f.message), ("errors", .arr (ps.map Rule.Problem.toJson))]
  | store _ operation =>
    .obj [("message", .str "Record store unavailable"), ("error", .str f.message),
      ("operation", Json.ofOption .str operation)]
  | _ => .str f.message

def toResponse (f : Failure) : Http.Response :=
  if f.IsOwn then Http.detailed f.status f.detail else Http.serverError

end Failure

namespace Schema

def Step.toJson : Step → Json
  | name n => .str n
  | index i => .int i

def Issue.toJson (i : Issue) : Json :=
  .obj [("type", .str i.fault.code), ("loc", .arr (i.path.map Step.toJson)),
    ("msg", .str i.fault.message)]

def unprocessable (is : List Issue) : Http.Response :=
  Http.detailed 422 (.arr (is.map Issue.toJson))

end Schema

end Cookbook
