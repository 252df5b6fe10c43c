/-
`Json/Decode.lean` -- judging the shape of a draft.

A record is decoded from an object, whose members may come in any order and may include
unknown ones, or from an array of its fields in their declared order. The first trouble in the
order of the text is the one reported: a member of the wrong type, a known key for the second
time, or a place where reading got stuck. What is missing shows only at the end.

Values that were read into memory before they are decoded have their own rule for arrays that
are too long; `Origin` tells the two apart.
-/
import AnchoredEdit.Json.Draft
import AnchoredEdit.Text.Quoted

set_option autoImplicit false

namespace AnchoredEdit

namespace Json

/-! ## 1. Errors -/

/-- What was found where something else was expected. -/
inductive Found where
  | null
  | bool (b : Bool)
  | int (n : Int)
  | real (negative : Bool) (magnitude : Binary64)
  | str (s : String)
  | sequence
  | map
deriving DecidableEq, Inhabited, Repr

/-- The wording of what was found. -/
def Found.describe : Found → String
  | null => "null"
  | bool b => "boolean `" ++ toString b ++ "`"
  | int n => "integer `" ++ toString n ++ "`"
  | real negative x => "floating point `" ++ (if negative then "-" else "") ++ x.toText ++ "`"
  | str s => "string " ++ String.ofList (Text.quote s.toList)
  | sequence => "sequence"
  | map => "map"

/-- Why a text or a value does not decode. -/
inductive DecodeError where
  /-- The text is no JSON. -/
  | malformed
  | missingField (name : String)
  | duplicateField (name : String)
  | invalidType (found : Found) (expected : String)
  | invalidValue (found : Found) (expected : String)
  | invalidLength (length : Nat) (expected : String)
  | unknownVariant (name : String) (known : List String)
  /-- None of the alternatives of the named choice fits. -/
  | noAlternative (choice : String)
deriving DecidableEq, Inhabited, Repr

/-- The wording of an error. -/
def DecodeError.message : DecodeError → String
  | malformed => "malformed JSON"
  | missingField name => "missing field `" ++ name ++ "`"
  | duplicateField name => "duplicate field `" ++ name ++ "`"
  | invalidType found expected =>
    "invalid type: " ++ found.describe ++ ", expected " ++ expected
  | invalidValue found expected =>
    "invalid value: " ++ found.describe ++ ", expected " ++ expected
  | invalidLength length expected =>
    "invalid length " ++ toString length ++ ", expected " ++ expected
  | unknownVariant name known =>
    "unknown variant `" ++ name ++ "`, expected one of "
      ++ ", ".intercalate (known.map fun k => "`" ++ k ++ "`")
  | noAlternative choice => "data did not match any variant of untagged enum " ++ choice

/-- A result, or why there is none. -/
abbrev Decoded := Except DecodeError

/-- Where a draft comes from. -/
inductive Origin where
  /-- Straight from a text. -/
  | text
  /-- From a value that was read before. -/
  | value
deriving DecidableEq, Inhabited, Repr

/-! ## 2. Leaves -/

/-- The error for a draft that is no `expected`. -/
def mismatch (expected : String) : Draft → DecodeError
  | .null => .invalidType .null expected
  | .bool b => .invalidType (.bool b) expected
  | .num (.nat n) => .invalidType (.int n) expected
  | .num (.neg n) => .invalidType (.int (-n)) expected
  | .num (.real negative x) => .invalidType (.real negative x) expected
  | .str s => .invalidType (.str s) expected
  | .arr _ _ => .invalidType .sequence expected
  | .obj _ _ => .invalidType .map expected
  | .halfString | .hugeNumber | .stuck => .malformed

/-- An unsigned 64-bit integer. -/
def decodeNat (expected : String) : Draft → Decoded Nat
  | .num (.nat n) => .ok n
  | .num (.neg n) => .error (.invalidValue (.int (-n)) expected)
  | d => .error (mismatch expected d)

/-- A signed 64-bit integer. -/
def decodeInt (expected : String) : Draft → Decoded Int
  | .num (.nat n) =>
    if n < signedBound then .ok n else .error (.invalidValue (.int n) expected)
  | .num (.neg n) => .ok (-n)
  | d => .error (mismatch expected d)

/-- A string. -/
def decodeString : Draft → Decoded String
  | .str s => .ok s
  | d => .error (mismatch "a string" d)

/-- A value that may be `null`. -/
def decodeOption {α : Type} (decode : Draft → Decoded α) : Draft → Decoded (Option α)
  | .null => .ok none
  | d => (decode d).map some

/-- One of a list of names: the name itself, or an object that maps it to `null`. -/
def decodeName {α : Type} (ofName? : String → Option α) (known : List String) :
    Draft → Decoded α
  | .str s =>
    match ofName? s with
    | some a => .ok a
    | none => .error (.unknownVariant s known)
  | .obj [(some key, payload)] true =>
    match ofName? key with
    | none => .error (.unknownVariant key known)
    | some a =>
      match payload with
      | .null => .ok a
      | d => .error (mismatch "unit" d)
  | .obj _ true => .error (.invalidValue .map "map with a single key")
  | d => .error (mismatch "string or map" d)

/-! ## 3. Records -/

/-- What to do with the member called `key`: nothing if it is unknown, otherwise decode its value
into the state. -/
abbrev MemberStep (σ : Type) := (state : σ) → (key : String) → Option (Draft → Decoded σ)

/-- Goes through the members of an object in order. -/
def foldMembers {σ : Type} (step : MemberStep σ) :
    (state : σ) → List (Option String × Draft) → Decoded σ
  | state, [] => .ok state
  | _, (none, _) :: _ => .error .malformed
  | state, (some key, d) :: rest =>
    match step state key with
    | none => if d.complete then foldMembers step state rest else .error .malformed
    | some decode =>
      match decode d with
      | .ok state => foldMembers step state rest
      | .error e => .error e

/-- The slot of a field: filled once, an error the second time. -/
def fillSlot {α σ : Type} (name : String) (slot : Option α) (decode : Draft → Decoded α)
    (fill : α → σ) (d : Draft) : Decoded σ :=
  match slot with
  | some _ => .error (.duplicateField name)
  | none => (decode d).map fill

/-- The value of a slot that has to be filled. -/
def required {α : Type} (name : String) : Option α → Decoded α
  | some a => .ok a
  | none => .error (.missingField name)

/-- The elements of an array that are still to come. -/
structure Elements where
  items : List Draft
  closed : Bool
deriving Inhabited, Repr

/-- Decodes the next element of an array, if there is one. -/
def Elements.next {α : Type} (es : Elements) (decode : Draft → Decoded α) :
    Decoded (Option α × Elements) :=
  match es.items with
  | d :: rest => (decode d).map fun a => (some a, { es with items := rest })
  | [] => if es.closed then .ok (none, es) else .error .malformed

/-- Decodes the next element of an array, which has to be there. -/
def Elements.need {α : Type} (es : Elements) (index : Nat) (expected : String)
    (decode : Draft → Decoded α) : Decoded (α × Elements) :=
  match es.next decode with
  | .ok (some a, es) => .ok (a, es)
  | .ok (none, _) => .error (.invalidLength index expected)
  | .error e => .error e

/-- Makes sure that no element is left. `total` is the length of the whole array. -/
def Elements.finish (es : Elements) (origin : Origin) (total : Nat) : Decoded Unit :=
  if es.items = [] ∧ es.closed then .ok ()
  else
    match origin with
    | .text => .error .malformed
    | .value => .error (.invalidLength total "fewer elements in array")

/-- How a record is decoded. -/
structure RecordShape (α : Type) where
  name : String
  /-- From the members of an object, once all were read. -/
  ofMembers : List (Option String × Draft) → (closed : Bool) → Decoded α
  /-- From the elements of an array, with those that are left over. -/
  ofElements : Elements → Decoded (α × Elements)

/-- Decodes a record from an object or an array. -/
def RecordShape.decode {α : Type} (shape : RecordShape α) (origin : Origin) :
    Draft → Decoded α
  | .obj members closed => shape.ofMembers members closed
  | .arr items closed => do
    let (a, rest) ← shape.ofElements ⟨items, closed⟩
    rest.finish origin items.length
    pure a
  | d => .error (mismatch ("struct " ++ shape.name) d)

/-- Goes through the members of an object that has to be read to its end. -/
def readMembersInto {σ : Type} (step : MemberStep σ) (start : σ)
    (members : List (Option String × Draft)) (closed : Bool) : Decoded σ :=
  match foldMembers step start members with
  | .ok state => if closed then .ok state else .error .malformed
  | .error e => .error e

/-- Decodes a whole text. -/
def decodeText {α : Type} (decode : Draft → Decoded α) (t : Text) : Decoded α :=
  let document := read t
  match decode document.value with
  | .ok a => if document.clean then .ok a else .error .malformed
  | .error e => .error e

end Json

end AnchoredEdit
