/-
`Proofs/Protocol/Shapes.lean` -- positions, spans, descriptions and anchors, written and decoded.

Each of the four is written as an object, and what is decoded later is that object with its
members sorted by key. So each has the same three facts: the object can be read back as long as
the numbers in it fit 64-bit words, it sorts into the members listed here, and decoding these
gives back what was written.

An anchor carries no tag. A description has members that no position has, and a position lacks
the span that every description needs; so an object that was written for the one never decodes
as the other, although descriptions are tried first.
-/
import AnchoredEdit.Proofs.Json.RoundTrip
import AnchoredEdit.Protocol.Shapes

set_option autoImplicit false

namespace AnchoredEdit

/-! ## 1. Leaves, and members into slots -/

namespace Json

theorem decodeInt_ofInt {n : Int} (hn : n < signedBound) (expected : String) :
    decodeInt expected (ofInt n).toDraft = .ok n := by
  cases n with
  | ofNat n => exact if_pos (Int.ofNat_lt.mp hn)
  | negSucc n => rfl

theorem decodeOption_ofInt (id : Option Int) (hid : ∀ n ∈ id, n < signedBound)
    (expected : String) :
    decodeOption (decodeInt expected) (ofOption ofInt id).toDraft = .ok id := by
  cases id with
  | none => rfl
  | some n =>
    have hdecode := decodeInt_ofInt (hid n rfl) expected
    rw [ofInt, toDraft] at hdecode
    rw [ofOption, ofInt, toDraft, decodeOption, hdecode]
    · rfl
    · nofun

variable {α σ : Type} {step : MemberStep σ} {s s' : σ} {key name : String} {d : Draft}
  {rest : List (Option String × Draft)}

/-- A member whose slot is empty fills it. -/
theorem foldMembers_fill {decode : Draft → Decoded α} {fill : α → σ} {a : α}
    (hstep : step s key = some (fillSlot name none decode fill)) (hd : decode d = .ok a) :
    foldMembers step s ((some key, d) :: rest) = foldMembers step (fill a) rest := by
  simp [foldMembers, hstep, fillSlot, hd, Except.map]

/-- A member with no slot is passed over. -/
theorem foldMembers_skip (hstep : step s key = none) (hd : d.complete = true) :
    foldMembers step s ((some key, d) :: rest) = foldMembers step s rest := by
  simp [foldMembers, hstep, hd]

theorem readMembersInto_of_foldMembers {members : List (Option String × Draft)}
    (h : foldMembers step s members = .ok s') : readMembersInto step s members true = .ok s' := by
  simp [readMembersInto, h]

end Json

open Json

/-! ## 2. Positions -/

namespace Position

theorem plain_toJson {p : Position} (hp : p.Fits) (depth : Nat) : p.toJson.Plain (depth + 1) := by
  simp [toJson, Plain, PlainMembers, ofNat, Number.Fits, hp.1, hp.2]

theorem sorted_toJson (p : Position) :
    p.toJson.sorted = .obj [("column", .ofNat p.column), ("line", .ofNat p.line)] := rfl

theorem decode_sorted (p : Position) (origin : Origin) :
    shape.decode origin p.toJson.sorted.toDraft = .ok p := by
  have hcolumn : decodeNat "usize" (ofNat p.column).toDraft = .ok p.column := rfl
  have hline : decodeNat "usize" (ofNat p.line).toDraft = .ok p.line := rfl
  have hread : foldMembers slotStep {}
      (toDraftMembers [("column", .ofNat p.column), ("line", .ofNat p.line)])
      = .ok ⟨some p.line, some p.column⟩ := by
    simp only [toDraftMembers]
    rw [foldMembers_fill rfl hcolumn, foldMembers_fill rfl hline, foldMembers]
  rw [sorted_toJson]
  simp only [toDraft, RecordShape.decode, shape, readMembersInto_of_foldMembers hread]
  rfl

/-- What is written for a position is not `null`. -/
theorem decodeOption_sorted (p : Position) (origin : Origin) :
    decodeOption (shape.decode origin) p.toJson.sorted.toDraft = .ok (some p) := by
  have hdecode := p.decode_sorted origin
  rw [sorted_toJson, toDraft] at hdecode ⊢
  rw [decodeOption, hdecode]
  · rfl
  · nofun

end Position

/-! ## 3. Spans -/

namespace Span

/-- The span is one that 64-bit words can hold. -/
def Fits (s : Span) : Prop :=
  s.start.Fits ∧ s.stop.Fits

instance (s : Span) : Decidable s.Fits :=
  inferInstanceAs (Decidable (s.start.Fits ∧ s.stop.Fits))

theorem plain_toJson {s : Span} (hs : s.Fits) (depth : Nat) : s.toJson.Plain (depth + 2) := by
  simp [toJson, Plain, PlainMembers, Position.plain_toJson hs.1, Position.plain_toJson hs.2]

theorem sorted_toJson (s : Span) :
    s.toJson.sorted = .obj [("end", s.stop.toJson.sorted), ("start", s.start.toJson.sorted)] := rfl

theorem decode_sorted (s : Span) (origin : Origin) :
    (shape origin).decode origin s.toJson.sorted.toDraft = .ok s := by
  have hread : foldMembers (slotStep origin) {}
      (toDraftMembers [("end", s.stop.toJson.sorted), ("start", s.start.toJson.sorted)])
      = .ok ⟨some s.start, some s.stop⟩ := by
    simp only [toDraftMembers]
    rw [foldMembers_fill rfl (s.stop.decode_sorted origin),
      foldMembers_fill rfl (s.start.decode_sorted origin), foldMembers]
  rw [sorted_toJson]
  simp only [toDraft, RecordShape.decode, shape, readMembersInto_of_foldMembers hread]
  rfl

end Span

/-! ## 4. Descriptions -/

namespace Descriptor

/-- The numbers of the description are ones that 64-bit words can hold. -/
def Fits (d : Descriptor) : Prop :=
  d.span.Fits ∧ ∀ p ∈ d.cursor, p.Fits

instance (d : Descriptor) : Decidable d.Fits :=
  inferInstanceAs (Decidable (d.span.Fits ∧ ∀ p ∈ d.cursor, p.Fits))

theorem plain_toJson {d : Descriptor} (hd : d.Fits) (depth : Nat) : d.toJson.Plain (depth + 3) := by
  obtain ⟨span, text, kind, cursor⟩ := d
  have hspan := Span.plain_toJson hd.1 depth
  cases cursor with
  | none => simp [toJson, Plain, PlainMembers, hspan]
  | some p =>
    have hcursor := Position.plain_toJson (hd.2 p rfl) (depth + 1)
    simp [toJson, Plain, PlainMembers, hspan, hcursor]

/-- The members that are sorted behind the cursor, if there is one. -/
def sortedTail (d : Descriptor) : List (String × Json) :=
  [("range", d.span.toJson.sorted), ("text", .ofText d.text), ("type", .str d.kind)]

theorem sorted_toJson_none (span : Span) (text : Text) (kind : String) :
    (Descriptor.mk span text kind none).toJson.sorted
      = .obj (sortedTail ⟨span, text, kind, none⟩) := rfl

theorem sorted_toJson_some (span : Span) (text : Text) (kind : String) (p : Position) :
    (Descriptor.mk span text kind (some p)).toJson.sorted
      = .obj (("cursor", p.toJson.sorted) :: sortedTail ⟨span, text, kind, some p⟩) := rfl

/-- The members behind the cursor fill their slots. -/
theorem foldMembers_sortedTail (d : Descriptor) (origin : Origin)
    (cursor : Option (Option Position)) :
    foldMembers (slotStep origin) ⟨none, none, none, cursor⟩ (toDraftMembers d.sortedTail)
      = .ok ⟨some d.span, some (String.ofList d.text), some d.kind, cursor⟩ := by
  have htext : decodeString (Json.ofText d.text).toDraft = .ok (String.ofList d.text) := rfl
  have hkind : decodeString (Json.str d.kind).toDraft = .ok d.kind := rfl
  simp only [sortedTail, toDraftMembers]
  rw [foldMembers_fill rfl (d.span.decode_sorted origin), foldMembers_fill rfl htext,
    foldMembers_fill rfl hkind, foldMembers]

/-- The description that the filled slots make. -/
theorem ofMembers_of_foldMembers {d : Descriptor} {origin : Origin}
    {members : List (Option String × Draft)} {cursor : Option (Option Position)}
    (hread : foldMembers (slotStep origin) {} members
      = .ok ⟨some d.span, some (String.ofList d.text), some d.kind, cursor⟩)
    (hcursor : cursor.getD none = d.cursor) : (shape origin).ofMembers members true = .ok d := by
  simp only [shape, readMembersInto_of_foldMembers hread]
  show Except.ok (Descriptor.mk d.span (String.ofList d.text).toList d.kind (cursor.getD none))
    = .ok d
  rw [String.toList_ofList, hcursor]

/-- **A description decodes as itself**, with and without a cursor. -/
theorem decode_sorted (d : Descriptor) (origin : Origin) :
    (shape origin).decode origin d.toJson.sorted.toDraft = .ok d := by
  obtain ⟨span, text, kind, cursor⟩ := d
  cases cursor with
  | none =>
    rw [sorted_toJson_none]
    exact ofMembers_of_foldMembers (foldMembers_sortedTail _ origin none) rfl
  | some p =>
    have hread := foldMembers_sortedTail ⟨span, text, kind, some p⟩ origin (some (some p))
    rw [sorted_toJson_some]
    refine ofMembers_of_foldMembers ?_ Option.getD_some
    rw [toDraftMembers, foldMembers_fill rfl (p.decodeOption_sorted origin)]
    exact hread

end Descriptor

/-! ## 5. Anchors -/

namespace Anchor

/-- The numbers of the anchor are ones that 64-bit words can hold. -/
def Fits : Anchor → Prop
  | node d => d.Fits
  | point p => p.Fits

instance : (a : Anchor) → Decidable a.Fits
  | node d => inferInstanceAs (Decidable d.Fits)
  | point p => inferInstanceAs (Decidable p.Fits)

theorem plain_toJson {a : Anchor} (ha : a.Fits) (depth : Nat) : a.toJson.Plain (depth + 3) := by
  cases a with
  | node d => exact Descriptor.plain_toJson ha depth
  | point p => exact Position.plain_toJson ha (depth + 2)

/-- A position is no description: nothing in it says which span is described. -/
theorem descriptor_decode_position (p : Position) :
    (Descriptor.shape .value).decode .value p.toJson.sorted.toDraft
      = .error (.missingField "range") := by
  have hread : foldMembers (Descriptor.slotStep .value) {}
      (toDraftMembers [("column", .ofNat p.column), ("line", .ofNat p.line)]) = .ok {} := by
    -- Neither member of a position has a slot in a description.
    simp only [toDraftMembers]
    rw [foldMembers_skip rfl rfl, foldMembers_skip rfl rfl, foldMembers]
  rw [Position.sorted_toJson]
  simp only [toDraft, RecordShape.decode, Descriptor.shape, readMembersInto_of_foldMembers hread]
  rfl

/-- **An anchor decodes as itself**: a description as a description, a position as a position. -/
theorem decode_sorted (a : Anchor) : decode a.toJson.sorted.toDraft = .ok a := by
  cases a with
  | node d => simp only [toJson, decode, d.decode_sorted]
  | point p => simp only [toJson, decode, descriptor_decode_position, p.decode_sorted]

end Anchor

end AnchoredEdit
