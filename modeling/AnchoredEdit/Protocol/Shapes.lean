/-
`Protocol/Shapes.lean` -- positions, spans, descriptions and anchors on the wire.

Each has an encoder, which writes the fields in their declared order, and a decoder, which takes
objects in any order and arrays in the declared one. An anchor carries no tag: it is a
description if it decodes as one, and a position otherwise.
-/
import AnchoredEdit.Json.Decode
import AnchoredEdit.Syntax.Descriptor

set_option autoImplicit false

namespace AnchoredEdit

open Json

/-! ## 1. Positions -/

namespace Position

/-- The position as an object. -/
def toJson (p : Position) : Json :=
  .obj [("line", .ofNat p.line), ("column", .ofNat p.column)]

/-- The fields of a position while they are collected. -/
structure Slots where
  line : Option Nat := none
  column : Option Nat := none

/-- Collects one member. -/
def slotStep : MemberStep Slots := fun s key =>
  match key with
  | "line" => some (fillSlot "line" s.line (decodeNat "usize") fun n => { s with line := some n })
  | "column" =>
    some (fillSlot "column" s.column (decodeNat "usize") fun n => { s with column := some n })
  | _ => none

/-- How a position is decoded. -/
def shape : RecordShape Position where
  name := "Position"
  ofMembers members closed := do
    let s ← readMembersInto slotStep {} members closed
    let line ← required "line" s.line
    let column ← required "column" s.column
    pure ⟨line, column⟩
  ofElements es := do
    let expected := "struct Position with 2 elements"
    let (line, es) ← es.need 0 expected (decodeNat "usize")
    let (column, es) ← es.need 1 expected (decodeNat "usize")
    pure (⟨line, column⟩, es)

end Position

/-! ## 2. Spans -/

namespace Span

/-- The span as an object. -/
def toJson (s : Span) : Json :=
  .obj [("start", s.start.toJson), ("end", s.stop.toJson)]

/-- The fields of a span while they are collected. -/
structure Slots where
  start : Option Position := none
  stop : Option Position := none

/-- Collects one member. -/
def slotStep (origin : Origin) : MemberStep Slots := fun s key =>
  match key with
  | "start" =>
    some (fillSlot "start" s.start (Position.shape.decode origin)
      fun p => { s with start := some p })
  | "end" =>
    some (fillSlot "end" s.stop (Position.shape.decode origin) fun p => { s with stop := some p })
  | _ => none

/-- How a span is decoded. -/
def shape (origin : Origin) : RecordShape Span where
  name := "Range"
  ofMembers members closed := do
    let s ← readMembersInto (slotStep origin) {} members closed
    let start ← required "start" s.start
    let stop ← required "end" s.stop
    pure ⟨start, stop⟩
  ofElements es := do
    let expected := "struct Range with 2 elements"
    let (start, es) ← es.need 0 expected (Position.shape.decode origin)
    let (stop, es) ← es.need 1 expected (Position.shape.decode origin)
    pure (⟨start, stop⟩, es)

end Span

/-! ## 3. Descriptions -/

namespace Descriptor

/-- The description as an object; a cursor that was not recorded is left out. -/
def toJson (d : Descriptor) : Json :=
  .obj ([("range", d.span.toJson), ("text", .ofText d.text), ("type", .str d.kind)]
    ++ match d.cursor with
      | some p => [("cursor", p.toJson)]
      | none => [])

/-- The fields of a description while they are collected. -/
structure Slots where
  span : Option Span := none
  text : Option String := none
  kind : Option String := none
  cursor : Option (Option Position) := none

/-- Collects one member. -/
def slotStep (origin : Origin) : MemberStep Slots := fun s key =>
  match key with
  | "range" =>
    some (fillSlot "range" s.span ((Span.shape origin).decode origin)
      fun r => { s with span := some r })
  | "text" => some (fillSlot "text" s.text decodeString fun x => { s with text := some x })
  | "type" => some (fillSlot "type" s.kind decodeString fun x => { s with kind := some x })
  | "cursor" =>
    some (fillSlot "cursor" s.cursor (decodeOption (Position.shape.decode origin))
      fun p => { s with cursor := some p })
  | _ => none

/-- How a description is decoded. -/
def shape (origin : Origin) : RecordShape Descriptor where
  name := "NodeDescriptor"
  ofMembers members closed := do
    let s ← readMembersInto (slotStep origin) {} members closed
    let span ← required "range" s.span
    let text ← required "text" s.text
    let kind ← required "type" s.kind
    pure ⟨span, text.toList, kind, s.cursor.getD none⟩
  ofElements es := do
    let expected := "struct NodeDescriptor with 4 elements"
    let (span, es) ← es.need 0 expected ((Span.shape origin).decode origin)
    let (text, es) ← es.need 1 expected decodeString
    let (kind, es) ← es.need 2 expected decodeString
    let (cursor, es) ← es.next (decodeOption (Position.shape.decode origin))
    pure (⟨span, text.toList, kind, cursor.getD none⟩, es)

/-- The description that a text holds. -/
def ofText (t : Text) : Decoded Descriptor :=
  decodeText ((shape .text).decode .text) t

end Descriptor

/-! ## 4. Anchors -/

namespace Anchor

/-- The anchor as the object of what it holds. -/
def toJson : Anchor → Json
  | node d => d.toJson
  | point p => p.toJson

/-- A description if it decodes as one, otherwise a position. -/
def decode (d : Draft) : Decoded Anchor :=
  match (Descriptor.shape .value).decode .value d with
  | .ok x => .ok (.node x)
  | .error _ =>
    match Position.shape.decode .value d with
    | .ok p => .ok (.point p)
    | .error _ => .error (.noAlternative "Anchor")

end Anchor

end AnchoredEdit
