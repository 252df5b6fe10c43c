/-
`Proofs/Protocol/Response.lean` -- responses are framed by lines, and each line says everything.

Whatever texts a response carries, its line holds no character below U+0020. So the line
break behind it is the only one, and cutting the output at line breaks gives back the lines.

A line is read back by its keys: the id stands under one key, and the other one tells a result
from an error. Inside a result nothing tells an edit from a list of names but their keys, which
differ. The reader below looks at nothing else, and it recovers the response.
-/
import AnchoredEdit.Proofs.Protocol.Shapes
import AnchoredEdit.Protocol.Response
import AnchoredEdit.Serve.Lines

set_option autoImplicit false

namespace AnchoredEdit

open Json

/-! ## 1. Lines -/

namespace Lines

/-- A piece without line breaks is cut off at the break behind it. -/
theorem split_append_cons {α : Type} [DecidableEq α] {newline : α} {piece : List α}
    (hpiece : newline ∉ piece) (rest : List α) :
    split newline (piece ++ newline :: rest) = (piece, true) :: split newline rest := by
  induction piece with
  | nil => simp [split]
  | cons c piece ih =>
    have hc : c ≠ newline := fun h => hpiece (by simp [h])
    have htail : newline ∉ piece := fun h => hpiece (by simp [h])
    simp [split, hc, ih htail]

end Lines

namespace Response

theorem split_output (rs : List Response) :
    Lines.split '\n' (output rs) = rs.map fun r => (r.toLine, true) := by
  induction rs with
  | nil => rfl
  | cons r rs ih =>
    have hbreak : '\n' ∉ r.toLine := fun h => absurd (printable_compact r.toJson '\n' h) (by decide)
    have houtput : output (r :: rs) = r.toLine ++ '\n' :: output rs := by
      simp [output]
    rw [houtput, Lines.split_append_cons hbreak, ih, List.map_cons]

theorem ofText_output (rs : List Response) : Lines.ofText (output rs) = rs.map toLine := by
  rw [Lines.ofText, split_output, List.map_map]
  apply List.map_congr_left
  intro r _
  -- A carriage return at the end of a line would be taken for a part of the break.
  have hreturn : r.toLine.getLast? ≠ some '\r' := fun h =>
    absurd (printable_compact r.toJson '\r' (List.mem_of_getLast? h)) (by decide)
  simp [Lines.chomp, hreturn]

end Response

/-! ## 2. Responses of 64-bit words -/

/-- The numbers of the payload are ones that 64-bit words can hold. -/
def Payload.Fits : Payload → Prop
  | edit _ e => e.span.Fits ∧ ∀ p ∈ e.cursor, p.Fits
  | mods _ => True

instance : (p : Payload) → Decidable p.Fits
  | .edit _ e => inferInstanceAs (Decidable (e.span.Fits ∧ ∀ p ∈ e.cursor, p.Fits))
  | .mods _ => inferInstanceAs (Decidable True)

/-- The numbers of the reply are ones that 64-bit words can hold. -/
def Reply.Fits : Reply → Prop
  | result p => p.Fits
  | error _ => True

instance : (r : Reply) → Decidable r.Fits
  | .result p => inferInstanceAs (Decidable p.Fits)
  | .error _ => inferInstanceAs (Decidable True)

/-- The id is a signed word, and the numbers of the reply fit words as well. -/
def Response.Fits (r : Response) : Prop :=
  (∀ n ∈ r.id, -(signedBound : Int) ≤ n ∧ n < signedBound) ∧ r.reply.Fits

instance (r : Response) : Decidable r.Fits :=
  inferInstanceAs (Decidable ((∀ n ∈ r.id, -(signedBound : Int) ≤ n ∧ n < signedBound)
    ∧ r.reply.Fits))

/-! ## 3. Reading a response by its keys -/

namespace Json

/-- The string that a value is. -/
def string? : Json → Option String
  | .str s => some s
  | _ => none

/-- A member that may be left out. -/
def optional? {α : Type} (read? : Json → Option α) : Option Json → Option (Option α)
  | none => some none
  | some v => (read? v).map some

end Json

/-- The position that a value holds. -/
def Position.ofJson? (v : Json) : Option Position :=
  (Position.shape.decode .value v.toDraft).toOption

/-- The span that a value holds. -/
def Span.ofJson? (v : Json) : Option Span :=
  ((Span.shape .value).decode .value v.toDraft).toOption

/-- The edit of an object, and the name of the transformation that made it. -/
def Payload.editOfJson? (v : Json) : Option Payload := do
  let mod ← (v.member? "mod").bind string?
  let span ← (v.member? "original_range").bind Span.ofJson?
  let replaced ← (v.member? "original_source").bind string?
  let replacement ← (v.member? "source").bind string?
  let cursor ← optional? Position.ofJson? (v.member? "cursor")
  let clipboard ← optional? string? (v.member? "clipboard")
  pure (.edit mod ⟨span, replaced.toList, replacement.toList, cursor, clipboard.map (·.toList)⟩)

/-- The payload of an object: names if it has any, otherwise an edit. -/
def Payload.ofJson? (v : Json) : Option Payload :=
  match v.member? "mods" with
  | some (.arr names) => (names.mapM string?).map .mods
  | _ => editOfJson? v

/-- The failure of an object. -/
def Failure.ofJson? (v : Json) : Option Failure := do
  let code ← (v.member? "code").bind string?
  let message ← (v.member? "message").bind string?
  pure ⟨← Code.ofName? code, message⟩

/-- The response of an object: exactly one of its two halves is there. -/
def Response.ofJson? (v : Json) : Option Response := do
  let id ← (decodeOption (decodeInt "i64") (← v.member? "id").toDraft).toOption
  match v.member? "result", v.member? "error" with
  | some p, none => (Payload.ofJson? p).map fun p => ⟨id, .result p⟩
  | none, some f => (Failure.ofJson? f).map fun f => ⟨id, .error f⟩
  | _, _ => none

/-! ## 4. What is read back -/

theorem Position.ofJson?_sorted (p : Position) : ofJson? p.toJson.sorted = some p := by
  rw [ofJson?, p.decode_sorted]
  rfl

theorem Span.ofJson?_sorted (s : Span) : ofJson? s.toJson.sorted = some s := by
  rw [ofJson?, s.decode_sorted]
  rfl

namespace Json

theorem plainItems_map_str (depth : Nat) (names : List String) :
    PlainItems depth (names.map .str) := by
  induction names with
  | nil => trivial
  | cons name names ih => exact ⟨trivial, ih⟩

theorem sortedItems_map_str (names : List String) :
    sortedItems (names.map .str) = names.map .str := by
  induction names with
  | nil => rfl
  | cons name names ih => rw [List.map_cons, sortedItems, ih, sorted]

theorem mapM_string?_map_str (names : List String) :
    (names.map .str).mapM string? = some names := by
  induction names with
  | nil => rfl
  | cons name names ih => simp [ih, string?]

end Json

namespace Payload

theorem plain_editJson {mod : String} {e : Edit} (hspan : e.span.Fits)
    (hcursor : ∀ p ∈ e.cursor, p.Fits) (depth : Nat) : (editJson mod e).Plain (depth + 3) := by
  obtain ⟨span, replaced, replacement, cursor, clipboard⟩ := e
  have hspan := Span.plain_toJson hspan depth
  have hcursor : ∀ p, cursor = some p → p.toJson.Plain (depth + 2) := fun p hp =>
    Position.plain_toJson (hcursor p hp) (depth + 1)
  cases cursor <;> cases clipboard <;>
    simp_all [editJson, optionalMember, Plain, PlainMembers]

theorem plain_toJson {p : Payload} (hp : p.Fits) (depth : Nat) : p.toJson.Plain (depth + 3) := by
  cases p with
  | edit mod e => exact plain_editJson hp.1 hp.2 depth
  | mods names => exact ⟨plainItems_map_str (depth + 1) names, trivial⟩

/-- The members of an edit that are sorted behind the optional ones. -/
def sortedTail (mod : String) (e : Edit) : List (String × Json) :=
  [("mod", .str mod), ("original_range", e.span.toJson.sorted),
    ("original_source", .ofText e.replaced), ("source", .ofText e.replacement)]

theorem sorted_editJson (mod : String) (e : Edit) :
    (editJson mod e).sorted
      = .obj (optionalMember "clipboard" Json.ofText e.clipboard
        ++ optionalMember "cursor" (fun p => p.toJson.sorted) e.cursor ++ sortedTail mod e) := by
  obtain ⟨span, replaced, replacement, cursor, clipboard⟩ := e
  cases cursor <;> cases clipboard <;> rfl

/-- Each member of an edit is found under its key, and one that was left out is not found. -/
theorem ofJson?_sorted_edit (mod : String) (e : Edit) :
    ofJson? (editJson mod e).sorted = some (.edit mod e) := by
  rw [sorted_editJson]
  obtain ⟨span, replaced, replacement, cursor, clipboard⟩ := e
  -- Which members there are depends on the two optional ones.
  cases cursor <;> cases clipboard <;>
    simp [optionalMember, sortedTail, ofJson?, editOfJson?, member?, string?, optional?,
      Json.ofText, Span.ofJson?_sorted, Position.ofJson?_sorted]

/-- **A payload is recovered**, and an edit is never taken for a list of names. -/
theorem ofJson?_sorted (p : Payload) : ofJson? p.toJson.sorted = some p := by
  cases p with
  | edit mod e => exact ofJson?_sorted_edit mod e
  | mods names =>
    have hsorted : (modsJson names).sorted = modsJson names := by
      simp [modsJson, sorted, sortedMembers, sortMembers, insertMember, sortedItems_map_str]
    rw [toJson, hsorted]
    exact congrArg (Option.map Payload.mods) (mapM_string?_map_str names)

end Payload

/-- **A failure is recovered.** -/
theorem Failure.ofJson?_sorted (f : Failure) : ofJson? f.toJson.sorted = some f := by
  have hsorted : f.toJson.sorted = f.toJson := rfl
  rw [hsorted]
  simp [toJson, ofJson?, member?, string?, f.code.ofName?_name]

namespace Response

/-- The two members of a response, sorted by key. -/
def sortedMembers (r : Response) : List (String × Json) :=
  match r.reply with
  | .result p => [("id", Json.ofOption Json.ofInt r.id), ("result", p.toJson.sorted)]
  | .error f => [("error", f.toJson.sorted), ("id", Json.ofOption Json.ofInt r.id)]

theorem sorted_toJson (r : Response) : r.toJson.sorted = .obj r.sortedMembers := by
  obtain ⟨id, reply⟩ := r
  cases id <;> cases reply <;> rfl

theorem plain_toJson {r : Response} (hr : r.Fits) (depth : Nat) : r.toJson.Plain (depth + 4) := by
  obtain ⟨id, reply⟩ := r
  have hid : (ofOption ofInt id).Plain (depth + 3) := by
    cases id with
    | none => trivial
    | some n => exact Number.ofInt_fits (hr.1 n rfl).1 (hr.1 n rfl).2
  cases reply with
  | result p => exact ⟨hid, Payload.plain_toJson hr.2 depth, trivial⟩
  | error f => simp [toJson, Reply.toMember, Failure.toJson, Plain, PlainMembers, hid]

theorem parse?_toLine {r : Response} (hr : r.Fits) :
    Json.parse? r.toLine = some (.obj r.sortedMembers) := by
  have hplain : r.toJson.Plain maxDepth := plain_toJson hr 123
  rw [toLine, parse?_compact hplain, sorted_toJson]

theorem ofJson?_sortedMembers {r : Response} (hr : r.Fits) :
    ofJson? (.obj r.sortedMembers) = some r := by
  obtain ⟨id, reply⟩ := r
  have hid : decodeOption (decodeInt "i64") (ofOption ofInt id).toDraft = .ok id :=
    decodeOption_ofInt id (fun n hn => (hr.1 n hn).2) "i64"
  cases reply with
  | result p => simp [ofJson?, sortedMembers, member?, hid, Except.toOption, p.ofJson?_sorted]
  | error f => simp [ofJson?, sortedMembers, member?, hid, Except.toOption, f.ofJson?_sorted]

theorem keys_sortedMembers (r : Response) :
    r.sortedMembers.map (·.1) = ["id", "result"] ∨ r.sortedMembers.map (·.1) = ["error", "id"] := by
  cases hreply : r.reply <;> simp [sortedMembers, hreply]

/-- **Responses are framed by lines, and a line says everything.** A line holds no character below
U+0020. Cutting the output at line breaks gives the lines back, and so does reading it line by
line. Parsing a line gives an object with the key `id` and one of the keys `result` and `error`,
from which the response is recovered. So different responses have different lines. -/
theorem toLine_frames_and_decodes :
    (∀ r : Response, ∀ c ∈ r.toLine, 0x20 ≤ c.toNat)
      ∧ (∀ rs : List Response,
          Lines.split '\n' (output rs) = rs.map (fun r => (r.toLine, true))
            ∧ Lines.ofText (output rs) = rs.map toLine)
      ∧ (∀ r : Response, r.Fits →
          ∃ members, Json.parse? r.toLine = some (.obj members)
            ∧ (members.map (·.1) = ["id", "result"] ∨ members.map (·.1) = ["error", "id"])
            ∧ ofJson? (.obj members) = some r)
      ∧ ∀ r r' : Response, r.Fits → r'.Fits → r.toLine = r'.toLine → r = r' := by
  refine ⟨fun r => printable_compact r.toJson, fun rs => ⟨split_output rs, ofText_output rs⟩,
    fun r hr => ⟨r.sortedMembers, parse?_toLine hr, r.keys_sortedMembers,
      ofJson?_sortedMembers hr⟩, ?_⟩
  intro r r' hr hr' hline
  have hmembers : Json.obj r.sortedMembers = .obj r'.sortedMembers := by
    apply Option.some.inj
    rw [← parse?_toLine hr, ← parse?_toLine hr', hline]
  have hsome : some r = some r' := by
    rw [← ofJson?_sortedMembers hr, ← ofJson?_sortedMembers hr', hmembers]
  exact Option.some.inj hsome

/-- An edit with line breaks, quotes, a backslash and control characters in its texts. -/
def sampleEdit : Response where
  id := some (-9223372036854775808)
  reply := .result (.edit "move-left" {
    span := ⟨⟨0, 18446744073709551615⟩, ⟨18446744073709551615, 0⟩⟩
    replaced := "\"\\\n\r".toList
    replacement := "\x00\x1fé🙂".toList
    cursor := some ⟨1, 2⟩
    clipboard := some [] })

/-- A failure with the dump of a tree as its message. -/
def sampleFailure : Response where
  id := none
  reply := .error ⟨.debug, "program\n  identifier \"x\"\n"⟩

theorem toLine_frames_and_decodes_samples :
    sampleEdit.Fits ∧ sampleFailure.Fits
      ∧ Lines.ofText (output [sampleEdit, sampleFailure])
        = [sampleEdit.toLine, sampleFailure.toLine]
      ∧ (∃ members, Json.parse? sampleEdit.toLine = some (.obj members)
        ∧ ofJson? (.obj members) = some sampleEdit)
      ∧ sampleEdit.toLine ≠ sampleFailure.toLine := by
  obtain ⟨-, hlines, hdecode, hinj⟩ := toLine_frames_and_decodes
  have hedit : sampleEdit.Fits := by decide
  have hfailure : sampleFailure.Fits := by decide
  obtain ⟨members, hparse, -, hread⟩ := hdecode sampleEdit hedit
  refine ⟨hedit, hfailure, (hlines _).2, ⟨members, hparse, hread⟩, ?_⟩
  intro hline
  exact absurd (hinj _ _ hedit hfailure hline) (by decide)

end Response

end AnchoredEdit
