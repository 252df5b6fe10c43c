/-
`Text/Bytes.lean` -- texts, and cutting them at byte offsets.

A text is the list of its characters. Offsets into it count the bytes of its UTF-8
encoding, so an offset may fall inside a character; such an offset is no place to cut.
`cut?` is the one primitive: it answers exactly when the offset is the byte length of
some initial part of the text, and then it returns that part and the rest. Slicing and
splicing are two cuts each, so every fact about them comes down to facts about `cut?`.
-/

set_option autoImplicit false

namespace AnchoredEdit

/-- A text, as the list of its characters. -/
abbrev Text := List Char

namespace Text

/-! ## 1. Byte length -/

/-- The number of bytes of the UTF-8 encoding of `t`. -/
def byteLength : Text → Nat
  | [] => 0
  | c :: rest => c.utf8Size + byteLength rest

@[simp] theorem byteLength_nil : byteLength [] = 0 := rfl

@[simp] theorem byteLength_cons (c : Char) (t : Text) :
    byteLength (c :: t) = c.utf8Size + byteLength t := rfl

@[simp] theorem byteLength_append (a b : Text) :
    byteLength (a ++ b) = byteLength a + byteLength b := by
  induction a with
  | nil => simp
  | cons c a ih => simp [ih, Nat.add_assoc]

/-! ## 2. Cutting -/

/-- Cuts `t` at byte offset `n`: the part before it and the part after it. There is none
when `n` lies past the end or inside a character. -/
def cut? : Text → Nat → Option (Text × Text)
  | t, 0 => some ([], t)
  | [], _ + 1 => none
  | c :: rest, n + 1 =>
    if c.utf8Size ≤ n + 1 then
      (cut? rest (n + 1 - c.utf8Size)).map fun (before, after) => (c :: before, after)
    else none

@[simp] theorem cut?_zero (t : Text) : cut? t 0 = some ([], t) := by
  cases t <;> rfl

/-- **A cut is exact**: the two parts are the text again, and the first is `n` bytes long. -/
theorem cut?_eq_some {t : Text} {n : Nat} {a b : Text} (h : cut? t n = some (a, b)) :
    t = a ++ b ∧ byteLength a = n := by
  induction t, n using cut?.induct generalizing a b with
  | case1 t =>
    rw [cut?_zero] at h
    cases h
    simp
  | case2 n => simp [cut?] at h
  | case3 c rest n hc ih =>
    rw [cut?, if_pos hc, Option.map_eq_some_iff] at h
    obtain ⟨⟨a', b'⟩, h', heq⟩ := h
    cases heq
    obtain ⟨rfl, hlen⟩ := ih h'
    refine ⟨rfl, ?_⟩
    rw [byteLength_cons, hlen]
    omega
  | case4 c rest n hc => simp [cut?, hc] at h

/-- Every initial part of a text can be cut off at its byte length. -/
@[simp] theorem cut?_append (a b : Text) : cut? (a ++ b) (byteLength a) = some (a, b) := by
  induction a with
  | nil => simp
  | cons c a ih =>
    have hpos : 0 < c.utf8Size := c.utf8Size_pos
    obtain ⟨n, hn⟩ : ∃ n, byteLength (c :: a) = n + 1 :=
      ⟨byteLength (c :: a) - 1, by simp; omega⟩
    rw [hn, List.cons_append, cut?]
    have hle : c.utf8Size ≤ n + 1 := by simp at hn; omega
    have hsub : n + 1 - c.utf8Size = byteLength a := by simp at hn; omega
    rw [if_pos hle, hsub, ih]
    rfl

/-- Byte offset `n` lies between two characters of `t`, or at one of its ends. -/
def IsBoundary (t : Text) (n : Nat) : Prop :=
  (cut? t n).isSome

instance (t : Text) (n : Nat) : Decidable (IsBoundary t n) :=
  inferInstanceAs (Decidable ((cut? t n).isSome = true))

theorem isBoundary_iff {t : Text} {n : Nat} :
    IsBoundary t n ↔ ∃ a b, t = a ++ b ∧ byteLength a = n := by
  constructor
  · intro h
    obtain ⟨⟨a, b⟩, hab⟩ := Option.isSome_iff_exists.mp h
    exact ⟨a, b, cut?_eq_some hab⟩
  · rintro ⟨a, b, rfl, rfl⟩
    simp [IsBoundary]

/-! ## 3. Slices and splices -/

/-- The part of `t` between two byte offsets, both of which have to be boundaries in
order. -/
def slice? (t : Text) (start stop : Nat) : Option Text :=
  if start ≤ stop then do
    let (before, _) ← cut? t stop
    let (_, part) ← cut? before start
    pure part
  else none

/-- Replaces the part of `t` between two byte offsets by `new`. -/
def splice? (t : Text) (start stop : Nat) (new : Text) : Option Text :=
  if start ≤ stop then do
    let (before, _) ← cut? t start
    let (_, after) ← cut? t stop
    pure (before ++ new ++ after)
  else none

/-- **A slice is the middle of a three-part text.** -/
theorem slice?_append (a b c : Text) :
    slice? (a ++ b ++ c) (byteLength a) (byteLength (a ++ b)) = some b := by
  have h : byteLength a ≤ byteLength (a ++ b) := by simp
  rw [slice?, if_pos h, cut?_append]
  simp [-byteLength_append]

/-- **A splice exchanges the middle of a three-part text.** -/
theorem splice?_append (a b c new : Text) :
    splice? (a ++ b ++ c) (byteLength a) (byteLength (a ++ b)) new = some (a ++ new ++ c) := by
  have h : byteLength a ≤ byteLength (a ++ b) := by simp
  rw [splice?, if_pos h, cut?_append, List.append_assoc, cut?_append]
  rfl

end Text

end AnchoredEdit
