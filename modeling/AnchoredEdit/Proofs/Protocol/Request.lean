/-
`Proofs/Protocol/Request.lean` -- the line that asks for an application is understood.

The line goes through two readers. The first one takes the request apart in the order of the
text and keeps the parameters as a plain value, whose objects are sorted by key; the second one
decodes that value once the method is known. What comes out is the id and the very parameters
that were written.
-/
import AnchoredEdit.Proofs.Protocol.Shapes
import AnchoredEdit.Protocol.Request

set_option autoImplicit false

namespace AnchoredEdit

open Json

/-! ## 1. The parameters of an application -/

namespace ApplyParams

theorem plain_toJson {p : ApplyParams} (hp : p.anchor.Fits) (depth : Nat) :
    p.toJson.Plain (depth + 4) := by
  simp [toJson, Plain, PlainMembers, Anchor.plain_toJson hp]

/-- The members of the parameters, sorted by key. -/
def sortedMembers (p : ApplyParams) : List (String × Json) :=
  [("anchor", p.anchor.toJson.sorted), ("language", .str p.language.name),
    ("mod", .str p.mod.name), ("source", .ofText p.source)]

theorem sorted_toJson (p : ApplyParams) : p.toJson.sorted = .obj p.sortedMembers := rfl

theorem decodeMod_name (m : Mod) : decodeMod (Json.str m.name).toDraft = .ok m := by
  simp [decodeMod, toDraft, decodeName, m.ofName?_name]

theorem decodeLanguage_name (v : Variant) : decodeLanguage (Json.str v.name).toDraft = .ok v := by
  simp [decodeLanguage, toDraft, decodeName, v.ofName?_name]

/-- **Parameters decode as themselves.** -/
theorem decode_sorted (p : ApplyParams) : shape.decode .value p.toJson.sorted.toDraft = .ok p := by
  have hsource : decodeString (Json.ofText p.source).toDraft = .ok (String.ofList p.source) := rfl
  have hread : foldMembers slotStep {} (toDraftMembers p.sortedMembers)
      = .ok ⟨some p.mod, some (String.ofList p.source), some p.language, some p.anchor⟩ := by
    simp only [sortedMembers, toDraftMembers]
    rw [foldMembers_fill rfl p.anchor.decode_sorted,
      foldMembers_fill rfl (decodeLanguage_name p.language),
      foldMembers_fill rfl (decodeMod_name p.mod), foldMembers_fill rfl hsource, foldMembers]
  rw [sorted_toJson]
  simp only [toDraft, RecordShape.decode, shape, readMembersInto_of_foldMembers hread]
  show Except.ok (ApplyParams.mk p.mod (String.ofList p.source).toList p.language p.anchor) = .ok p
  rw [String.toList_ofList]

end ApplyParams

/-! ## 2. The line -/

namespace Request

/-- The members of the request that `applyLine` writes. -/
def applyMembers (id : Int) (p : ApplyParams) : List (String × Json) :=
  [("id", .ofInt id), ("method", .str "apply"), ("params", p.toJson)]

theorem applyLine_eq (id : Int) (p : ApplyParams) :
    applyLine id p = (Json.obj (applyMembers id p)).compact := rfl

theorem plain_applyMembers {id : Int} {p : ApplyParams} (hlow : -(signedBound : Int) ≤ id)
    (hhigh : id < signedBound) (hp : p.anchor.Fits) :
    (Json.obj (applyMembers id p)).Plain 5 := by
  have hid : (ofInt id).Plain 4 := Number.ofInt_fits hlow hhigh
  simp [applyMembers, Plain, PlainMembers, hid, ApplyParams.plain_toJson hp 0]

/-- The first reader: the parameters stay a value, with its objects sorted. -/
theorem decode_applyMembers {id : Int} {p : ApplyParams} (hid : id < signedBound)
    (hp : p.anchor.Fits) :
    shape.decode .text (Json.obj (applyMembers id p)).toDraft
      = .ok ⟨some id, "apply", p.toJson.sorted⟩ := by
  have hnumber : decodeOption (decodeInt "i64") (ofInt id).toDraft = .ok (some id) :=
    decodeOption_ofInt (some id) (by simpa using hid) "i64"
  have hmethod : decodeString (Json.str "apply").toDraft = .ok "apply" := rfl
  -- The parameters are one level below the request, so one level less is left to them.
  have hplain : p.toJson.Plain (maxDepth - 1) := ApplyParams.plain_toJson hp 122
  have hparams : decodeParams p.toJson.toDraft = .ok p.toJson.sorted := by
    rw [decodeParams, value?_toDraft p.toJson hplain]
  have hread : foldMembers slotStep {} (toDraftMembers (applyMembers id p))
      = .ok ⟨some (some id), some "apply", some p.toJson.sorted⟩ := by
    simp only [applyMembers, toDraftMembers]
    rw [foldMembers_fill rfl hnumber, foldMembers_fill rfl hmethod, foldMembers_fill rfl hparams,
      foldMembers]
  simp only [toDraft, RecordShape.decode, shape, readMembersInto_of_foldMembers hread]
  rfl

/-- **The line that asks for an application is understood**: reading it gives the id and the
parameters back. The id is any signed 64-bit integer, the source and the strings of a description
hold any characters, and the coordinates of the anchor are any that 64-bit words can hold. -/
theorem parse_applyLine {id : Int} {p : ApplyParams} (hlow : -(signedBound : Int) ≤ id)
    (hhigh : id < signedBound) (hp : p.anchor.Fits) :
    ∃ r, parse (applyLine id p) = .ok r ∧ r.id = some id ∧ r.call = .ok (.apply p) := by
  refine ⟨⟨some id, "apply", p.toJson.sorted⟩, ?_, rfl, ?_⟩
  · rw [parse, decodeText, applyLine_eq, read_compact (plain_applyMembers hlow hhigh hp),
      decode_applyMembers hhigh hp]
    rfl
  · simp only [call, decodeCall, p.decode_sorted]

/-- Quotes, a backslash, control characters and characters of several bytes in the source and in
the strings of the description, and every number at the end of its range. -/
def sampleParams : ApplyParams where
  mod := .deleteClosestTag
  source := "\"\\\x00\t\x1f\x7fé\u2028🙂".toList
  language := .scriptMarkup
  anchor := .node {
    span := ⟨⟨0, 18446744073709551615⟩, ⟨18446744073709551615, 0⟩⟩
    text := "\n\r".toList
    kind := "\"type\""
    cursor := some ⟨18446744073709551615, 7⟩ }

theorem parse_applyLine_sampleParams :
    -(signedBound : Int) ≤ -9223372036854775808
      ∧ (-9223372036854775808 : Int) < signedBound ∧ sampleParams.anchor.Fits
      ∧ ∃ r, parse (applyLine (-9223372036854775808) sampleParams) = .ok r
        ∧ r.id = some (-9223372036854775808) ∧ r.call = .ok (.apply sampleParams) :=
  ⟨by decide, by decide, by decide, parse_applyLine (by decide) (by decide) (by decide)⟩

end Request

end AnchoredEdit
