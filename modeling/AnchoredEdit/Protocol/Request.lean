/-
`Protocol/Request.lean` -- requests, one JSON object on a line.

A request names a method and carries its parameters, which stay a plain value until the method
is known. Three methods exist: listing the transformations, applying one, and abandoning a
request that is still in flight.
-/
import AnchoredEdit.Engine
import AnchoredEdit.Protocol.Shapes

set_option autoImplicit false

namespace AnchoredEdit

open Json

/-! ## 1. Requests -/

/-- One line of input. -/
structure Request where
  id : Option Int
  method : String
  params : Json
deriving Inhabited, Repr

namespace Request

/-- The fields of a request while they are collected. -/
structure Slots where
  id : Option (Option Int) := none
  method : Option String := none
  params : Option Json := none

/-- The parameters, as a value one level below the request. -/
def decodeParams (d : Draft) : Decoded Json :=
  match d.value? (maxDepth - 1) with
  | some v => .ok v
  | none => .error .malformed

/-- Collects one member. -/
def slotStep : MemberStep Slots := fun s key =>
  match key with
  | "id" =>
    some (fillSlot "id" s.id (decodeOption (decodeInt "i64")) fun n => { s with id := some n })
  | "method" =>
    some (fillSlot "method" s.method decodeString fun m => { s with method := some m })
  | "params" =>
    some (fillSlot "params" s.params decodeParams fun v => { s with params := some v })
  | _ => none

/-- How a request is decoded. -/
def shape : RecordShape Request where
  name := "Request"
  ofMembers members closed := do
    let s ← readMembersInto slotStep {} members closed
    let method ← required "method" s.method
    pure ⟨s.id.getD none, method, s.params.getD .null⟩
  ofElements es := do
    let (id, es) ← es.next (decodeOption (decodeInt "i64"))
    let (method, es) ← es.need 1 "struct Request with 3 elements" decodeString
    let (params, es) ← es.next decodeParams
    pure (⟨id.getD none, method, params.getD .null⟩, es)

/-- Reads one line. -/
def parse (line : Text) : Except Error Request :=
  match decodeText (shape.decode .text) line with
  | .ok r => .ok r
  | .error e => .error (.invalidRequest (.malformed e))

end Request

/-! ## 2. Calls -/

/-- The parameters of an application. -/
structure ApplyParams where
  mod : Mod
  source : Text
  language : Variant
  anchor : Anchor
deriving DecidableEq, Inhabited, Repr

namespace ApplyParams

/-- What the transformation is run on. -/
def context (p : ApplyParams) : Context :=
  ⟨p.source, p.language, p.anchor⟩

/-- The parameters as an object. -/
def toJson (p : ApplyParams) : Json :=
  .obj [("mod", .str p.mod.name), ("source", .ofText p.source),
    ("language", .str p.language.name), ("anchor", p.anchor.toJson)]

/-- The names of variants in the order in which an error lists them. -/
def languageNames : List String :=
  ["javascript", "script", "module", "typescript", "javascriptreact", "script+markup",
    "module+markup", "typescriptreact"]

/-- Decodes the name of a transformation. -/
def decodeMod : Draft → Decoded Mod :=
  decodeName Mod.ofName? Mod.names

/-- Decodes the name of a variant. -/
def decodeLanguage : Draft → Decoded Variant :=
  decodeName Variant.ofName? languageNames

/-- The fields while they are collected. -/
structure Slots where
  mod : Option Mod := none
  source : Option String := none
  language : Option Variant := none
  anchor : Option Anchor := none

/-- Collects one member; the language goes by two keys. -/
def slotStep : MemberStep Slots := fun s key =>
  match key with
  | "mod" => some (fillSlot "mod" s.mod decodeMod fun m => { s with mod := some m })
  | "source" => some (fillSlot "source" s.source decodeString fun x => { s with source := some x })
  | "language" | "languageVariant" =>
    some (fillSlot "language" s.language decodeLanguage fun v => { s with language := some v })
  | "anchor" =>
    some (fillSlot "anchor" s.anchor Anchor.decode fun a => { s with anchor := some a })
  | _ => none

/-- How the parameters are decoded. -/
def shape : RecordShape ApplyParams where
  name := "ApplyParams"
  ofMembers members closed := do
    let s ← readMembersInto slotStep {} members closed
    let mod ← required "mod" s.mod
    let source ← required "source" s.source
    let anchor ← required "anchor" s.anchor
    pure ⟨mod, source.toList, s.language.getD .standard, anchor⟩
  ofElements es := do
    let expected := "struct ApplyParams with 4 elements"
    let (mod, es) ← es.need 0 expected decodeMod
    let (source, es) ← es.need 1 expected decodeString
    let (language, es) ← es.next decodeLanguage
    let (anchor, es) ← es.need 3 expected Anchor.decode
    pure (⟨mod, source.toList, language.getD .standard, anchor⟩, es)

end ApplyParams

/-- The parameters of a cancellation: the id to abandon. -/
def cancelShape : RecordShape Int where
  name := "CancelParams"
  ofMembers members closed := do
    let id ← readMembersInto (fun id key =>
      match key with
      | "id" => some (fillSlot "id" id (decodeInt "i64") some)
      | _ => none) none members closed
    required "id" id
  ofElements es := es.need 0 "struct CancelParams with 1 element" (decodeInt "i64")

/-- A decoded request. -/
inductive Call where
  /-- Lists the transformations. -/
  | mods
  /-- Runs one. -/
  | apply (p : ApplyParams)
  /-- Abandons a request. -/
  | cancel (id : Int)
deriving DecidableEq, Inhabited, Repr

namespace Request

/-- Decodes the parameters of a method. -/
def decodeCall {α : Type} (r : Request) (shape : RecordShape α) (call : α → Call) :
    Except Error Call :=
  match shape.decode .value r.params.toDraft with
  | .ok a => .ok (call a)
  | .error e => .error (.invalidRequest (.invalidParams r.method e))

/-- The call that a request makes. -/
def call (r : Request) : Except Error Call :=
  match r.method with
  | "mods" | "list-mods" => .ok .mods
  | "apply" => r.decodeCall ApplyParams.shape .apply
  | "cancel" => r.decodeCall cancelShape .cancel
  | method => .error (.invalidRequest (.unknownMethod method))

/-- The line that asks for an application. -/
def applyLine (id : Int) (p : ApplyParams) : Text :=
  (Json.obj [("id", .ofInt id), ("method", .str "apply"), ("params", p.toJson)]).compact

end Request

end AnchoredEdit
