/-
`Proofs/Json/Layout.lean` -- objects of integers, in any layout.

Gaps may stand before and after each part of an object, and how wide they are is nobody's concern:
the reader skips them wherever it looks for the next part. So an object is described by a grammar,
with a gap in every place where one may be, and whatever text the grammar allows is read as the
same draft.
-/
import AnchoredEdit.Proofs.Json.RoundTrip

set_option autoImplicit false

namespace AnchoredEdit

namespace Json

variable {t u rest : Text} {key : String} {n : Nat} {members : List (String × Nat)}

/-! ## 1. Texts of objects -/

/-- The text holds nothing but blanks and line breaks. -/
def IsGapText (t : Text) : Prop :=
  ∀ c ∈ t, isGap c = true

instance (t : Text) : Decidable (IsGapText t) :=
  decidable_of_iff (t.all isGap = true) List.all_eq_true

/-- The text is a member, with gaps around its key and its value. -/
inductive WritesMember (key : String) (n : Nat) : Text → Prop
  | mk (before colon value after : Text) (hbefore : IsGapText before) (hcolon : IsGapText colon)
      (hvalue : IsGapText value) (hafter : IsGapText after) :
      WritesMember key n (before ++ (writeString key
        ++ (colon ++ ':' :: (value ++ (Nat.toDigits 10 n ++ after)))))

/-- The text is the members in their order, separated by commas. -/
inductive WritesMembers : List (String × Nat) → Text → Prop
  | last {key : String} {n : Nat} {t : Text} (h : WritesMember key n t) :
      WritesMembers [(key, n)] t
  | more {key : String} {n : Nat} {t u : Text} {members : List (String × Nat)}
      (h : WritesMember key n t) (hmore : WritesMembers members u) :
      WritesMembers ((key, n) :: members) (t ++ ',' :: u)

/-- The text is an object with these members, with gaps around it. -/
inductive WritesObject : List (String × Nat) → Text → Prop
  | empty (before inside after : Text) (hbefore : IsGapText before) (hinside : IsGapText inside)
      (hafter : IsGapText after) :
      WritesObject [] (before ++ '{' :: (inside ++ '}' :: after))
  | members (before after : Text) {t : Text} {members : List (String × Nat)}
      (hbefore : IsGapText before) (h : WritesMembers members t) (hafter : IsGapText after) :
      WritesObject members (before ++ '{' :: (t ++ '}' :: after))

/-- The draft of a member. -/
def memberDraft (m : String × Nat) : Option String × Draft :=
  (some m.1, .num (.nat m.2))

/-! ## 2. Gaps -/

/-- A gap is skipped up to where it ends. -/
theorem skipGap_append (ht : IsGapText t) (u : Text) : skipGap (t ++ u) = skipGap u :=
  List.dropWhile_append_of_pos ht

theorem skipGap_gap (ht : IsGapText t) : skipGap t = [] := by
  rw [← List.append_nil t, skipGap_append ht]
  rfl

theorem readValue_gap (ht : IsGapText t) (fuel : Nat) :
    readValue fuel (t ++ u) = readValue fuel u := by
  cases fuel with
  | zero => rw [readValue, readValue]
  | succ fuel => rw [readValue, readValue, skipGap_append ht]

theorem readMembers_gap (ht : IsGapText t) (fuel : Nat) :
    readMembers fuel (t ++ u) = readMembers fuel u := by
  cases fuel with
  | zero => rw [readMembers, readMembers]
  | succ fuel => rw [readMembers, readMembers, skipGap_append ht]

/-- No numeral goes on with a gap. -/
theorem endsNumeral_gap (ht : IsGapText t) (hu : EndsNumeral u) : EndsNumeral (t ++ u) := by
  cases t with
  | nil => exact hu
  | cons c t =>
    rintro d ⟨rfl⟩
    have hgap := ht c List.mem_cons_self
    simp only [isGap, Bool.or_eq_true, decide_eq_true_eq] at hgap
    rcases hgap with ((rfl | rfl) | rfl) | rfl <;> decide

/-! ## 3. Reading -/

theorem readValue_toDigits (hn : n < wordCount) (hrest : EndsNumeral rest) (fuel : Nat) :
    readValue (fuel + 1) (Nat.toDigits 10 n ++ rest) = (.num (.nat n), some rest) := by
  obtain ⟨c, digits, hstart, hc⟩ := toDigits_starts n
  have hread := readNumber_write (n := .nat n) hn hrest
  rw [Number.write, hstart, List.cons_append] at hread
  rw [hstart, List.cons_append, readValue_numeral (by simp [startsNumeral, hc]), hread]

/-- **The last member** is followed by the closing brace. -/
theorem WritesMember.read_last (h : WritesMember key n t) (hn : n < wordCount) (fuel : Nat) :
    readMembers (fuel + 2) (t ++ '}' :: rest) = ([memberDraft (key, n)], some rest) := by
  obtain ⟨before, colon, value, after, hbefore, hcolon, hvalue, hafter⟩ := h
  have hread := readValue_toDigits hn (endsNumeral_gap hafter (endsNumeral_brace rest)) fuel
  simp only [List.append_assoc, List.cons_append, readMembers_gap hbefore]
  rw [readMembers]
  simp [writeString, skipGap_cons, isGap, readString?_escaped key, skipGap_append hcolon,
    readValue_gap hvalue, hread, skipGap_append hafter, memberDraft]

/-- **Any other member** is followed by a comma, and the next one comes after it. -/
theorem WritesMember.read_more {drafts : List (Option String × Draft)} {fuel : Nat}
    (h : WritesMember key n t) (hn : n < wordCount)
    (hmore : readMembers (fuel + 1) u = (drafts, some rest)) :
    readMembers (fuel + 2) (t ++ ',' :: u) = (memberDraft (key, n) :: drafts, some rest) := by
  obtain ⟨before, colon, value, after, hbefore, hcolon, hvalue, hafter⟩ := h
  have hread := readValue_toDigits hn (endsNumeral_gap hafter (endsNumeral_comma u)) fuel
  simp only [List.append_assoc, List.cons_append, readMembers_gap hbefore]
  rw [readMembers]
  simp [writeString, skipGap_cons, isGap, readString?_escaped key, skipGap_append hcolon,
    readValue_gap hvalue, hread, skipGap_append hafter, hmore, memberDraft]

theorem WritesMembers.length_le (h : WritesMembers members t) : members.length ≤ t.length := by
  induction h with
  | last h =>
    cases h
    simp [writeString]
    omega
  | more h _ ih =>
    simp only [List.length_cons, List.length_append]
    omega

/-- **All members**, by induction over the grammar. -/
theorem WritesMembers.read (h : WritesMembers members t) (hfits : ∀ m ∈ members, m.2 < wordCount)
    (fuel : Nat) : readMembers (fuel + members.length + 1) (t ++ '}' :: rest)
      = (members.map memberDraft, some rest) := by
  induction h with
  | last h => exact h.read_last (hfits _ List.mem_cons_self) fuel
  | more h _ ih =>
    obtain ⟨hn, hfits⟩ := List.forall_mem_cons.mp hfits
    rw [List.append_assoc, List.cons_append]
    exact h.read_more hn (ih hfits)

/-- A member starts with the quote of its key. -/
theorem WritesMembers.starts (h : WritesMembers members t) (rest : Text) :
    ∃ u, skipGap (t ++ rest) = '"' :: u := by
  have hmember {key : String} {n : Nat} {t : Text} (h : WritesMember key n t) (rest : Text) :
      ∃ u, skipGap (t ++ rest) = '"' :: u := by
    obtain ⟨before, colon, value, after, hbefore, -, -, -⟩ := h
    rw [List.append_assoc, skipGap_append hbefore]
    exact ⟨_, skipGap_cons rfl⟩
  cases h with
  | last h => exact hmember h rest
  | more h hmore =>
    rw [List.append_assoc]
    exact hmember h _

/-- A text is read to its end if nothing but a gap follows its value. -/
theorem read_of_readValue {d : Draft} (h : readValue (2 * t.length + 1) t = (d, some rest))
    (hrest : IsGapText rest) : read t = ⟨d, true⟩ := by
  simp [read, h, skipGap_gap hrest]

/-- **An object of integers is read in any layout.** -/
theorem WritesObject.read (h : WritesObject members t) (hfits : ∀ m ∈ members, m.2 < wordCount) :
    Json.read t = ⟨.obj (members.map memberDraft) true, true⟩ := by
  have hopen (t : Text) : skipGap ('{' :: t) = '{' :: t := skipGap_cons rfl
  cases h with
  | empty before inside after hbefore hinside hafter =>
    have hclose : skipGap (inside ++ '}' :: after) = '}' :: after :=
      (skipGap_append hinside _).trans (skipGap_cons rfl)
    refine read_of_readValue ?_ hafter
    rw [readValue_gap hbefore, readValue, hopen]
    simp [hclose]
  | @members before after t _ hbefore h hafter =>
    refine read_of_readValue ?_ hafter
    obtain ⟨u, hstart⟩ := h.starts ('}' :: after)
    -- Each member has at least one character, which pays for the step to the next.
    have hle : members.length + 1 ≤ 2 * (before ++ '{' :: (t ++ '}' :: after)).length := by
      have hlength := h.length_le
      simp only [List.length_append, List.length_cons]
      omega
    obtain ⟨fuel, hfuel⟩ := Nat.exists_eq_add_of_le' hle
    rw [← Nat.add_assoc] at hfuel
    rw [hfuel, readValue_gap hbefore, readValue, hopen]
    simp [hstart, h.read hfits]

end Json

end AnchoredEdit
