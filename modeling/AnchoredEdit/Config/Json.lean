/-
`Config/Json.lean` -- configurations written as JSON.

A configuration is an object with some of the settings, or an array with the first few of them
in order. What is not given keeps its default.
-/
import AnchoredEdit.Config.Settings

set_option autoImplicit false

namespace AnchoredEdit

open Json

namespace Config

/-- The settings that were given, the last one first. -/
abbrev Assignment := List (Setting × Nat)

/-- The value given for a setting. -/
def Assignment.get? (a : Assignment) (s : Setting) : Option Nat :=
  (a.find? (·.1 = s)).map (·.2)

/-- The defaults with the given settings changed. -/
def Assignment.toConfig (a : Assignment) : Config :=
  a.foldr (fun (s, n) c => c.set s n) standard

/-- The width of a setting, as an error names it. -/
def Setting.expected : Setting → String
  | .requestTimeoutMs => "u64"
  | _ => "usize"

/-- Decodes the value of a setting. -/
def Setting.decode (s : Setting) : Draft → Decoded Nat :=
  decodeNat s.expected

/-- Collects one member. -/
def slotStep : MemberStep Assignment := fun a key =>
  (Setting.ofKey? key).map fun s => fillSlot s.key (a.get? s) s.decode fun n => (s, n) :: a

/-- Collects elements for as many of the settings as there are. -/
def readElements : List Setting → Assignment → Elements → Decoded (Assignment × Elements)
  | [], a, es => .ok (a, es)
  | s :: rest, a, es => do
    let (n, es) ← es.next s.decode
    match n with
    | some n => readElements rest ((s, n) :: a) es
    | none => pure (a, es)

/-- How a configuration is decoded. -/
def shape : RecordShape Config where
  name := "EngineConfig"
  ofMembers members closed := do
    let a ← readMembersInto slotStep [] members closed
    pure a.toConfig
  ofElements es := do
    let (a, es) ← readElements Setting.all [] es
    pure (a.toConfig, es)

/-- The valid configuration that a JSON text holds. -/
def ofJsonText (t : Text) : Except Error Config :=
  match decodeText (shape.decode .text) t with
  | .ok c => c.validate
  | .error e => .error (.invalidConfig (.json e))

/-- The configuration as an object. -/
def toJson (c : Config) : Json :=
  .obj (Setting.all.map fun s => (s.key, .ofNat (c.get s)))

end Config

end AnchoredEdit
