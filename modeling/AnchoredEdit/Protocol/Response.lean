/-
`Protocol/Response.lean` -- responses, one JSON object on a line.

A response repeats the id of its request and carries either a result or an error. It is written
in the compact form, which never holds a line break, so that lines frame responses.
-/
import AnchoredEdit.Engine
import AnchoredEdit.Protocol.Shapes

set_option autoImplicit false

namespace AnchoredEdit

/-- The result of a successful request. -/
inductive Payload where
  /-- The edit that the named transformation produced. -/
  | edit (mod : String) (e : Edit)
  /-- The names of all transformations. -/
  | mods (names : List String)
deriving DecidableEq, Inhabited, Repr

namespace Payload

/-- A member that is left out when there is nothing to say. -/
def optionalMember {α : Type} (name : String) (f : α → Json) :
    Option α → List (String × Json)
  | none => []
  | some a => [(name, f a)]

/-- An edit as an object. -/
def editJson (mod : String) (e : Edit) : Json :=
  .obj ([("mod", .str mod), ("original_range", e.span.toJson),
      ("original_source", .ofText e.replaced), ("source", .ofText e.replacement)]
    ++ optionalMember "cursor" Position.toJson e.cursor
    ++ optionalMember "clipboard" Json.ofText e.clipboard)

/-- The names of transformations as an object. -/
def modsJson (names : List String) : Json :=
  .obj [("mods", .arr (names.map .str))]

/-- A payload as an object. -/
def toJson : Payload → Json
  | edit mod e => editJson mod e
  | mods names => modsJson names

end Payload

/-- A failure as an object. -/
def Failure.toJson (f : Failure) : Json :=
  .obj [("code", .str f.code.name), ("message", .str f.message)]

/-- Either half of a response. -/
inductive Reply where
  | result (p : Payload)
  | error (f : Failure)
deriving DecidableEq, Inhabited, Repr

namespace Reply

/-- The reply for the outcome of a run. -/
def ofOutcome (m : Mod) : Outcome → Reply
  | .ok e => .result (.edit m.name e)
  | .error f => .error f

/-- The reply that lists the transformations. -/
def registry : Reply :=
  .result (.mods Mod.names)

/-- The reply that reports an error of the engine. -/
def ofError (e : Error) : Reply :=
  .error e.toFailure

/-- The reply reports a failure. -/
def isError : Reply → Bool
  | error _ => true
  | result _ => false

/-- The one member that a reply is. -/
def toMember : Reply → String × Json
  | result p => ("result", p.toJson)
  | error f => ("error", f.toJson)

end Reply

/-- One line of output. -/
structure Response where
  id : Option Int
  reply : Reply
deriving DecidableEq, Inhabited, Repr

namespace Response

/-- The response as an object. -/
def toJson (r : Response) : Json :=
  .obj [("id", Json.ofOption Json.ofInt r.id), r.reply.toMember]

/-- The response as a line, without the break that ends it. -/
def toLine (r : Response) : Text :=
  r.toJson.compact

/-- The output that a list of responses makes: each line ended by a break. -/
def output (rs : List Response) : Text :=
  rs.flatMap fun r => r.toLine ++ ['\n']

end Response

end AnchoredEdit
