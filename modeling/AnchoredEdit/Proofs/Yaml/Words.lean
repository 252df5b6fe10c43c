/-
`Proofs/Yaml/Words.lean` -- plain words, and how the scanner reads them.

A word is a text of letters, digits and underscores. No character of a word means anything to YAML:
none is an indicator, a blank or a break. So a word is a plain scalar, and it goes on until
something comes that is no part of a word.
-/
import AnchoredEdit.Yaml.Node

set_option autoImplicit false

namespace AnchoredEdit

namespace Yaml

/-! ## 1. Words -/

/-- A letter, a digit or an underscore. -/
def isWordChar (c : Char) : Bool :=
  c.isAlphanum || c = '_'

/-- The text is a word: it has characters, and all are letters, digits or underscores. -/
structure IsWord (t : Text) : Prop where
  nonempty : t ≠ []
  chars : ∀ c ∈ t, isWordChar c = true

instance (t : Text) : Decidable (IsWord t) :=
  decidable_of_iff (t ≠ [] ∧ t.all isWordChar = true)
    ⟨fun h => ⟨h.1, List.all_eq_true.mp h.2⟩, fun h => ⟨h.1, List.all_eq_true.mpr h.2⟩⟩

variable {c d : Char} {t w rest : Text} {m : Mark}

theorem ne_of_isWordChar (hc : isWordChar c = true) (hd : isWordChar d = false) : c ≠ d := by
  rintro rfl
  rw [hc] at hd
  cases hd

theorem isSpaceOrBreak_of_isWordChar (hc : isWordChar c = true) : isSpaceOrBreak c = false := by
  have hne : ∀ {d : Char}, isWordChar d = false → c ≠ d := ne_of_isWordChar hc
  simp only [isSpaceOrBreak, isSpace, isBreak, Bool.or_eq_false_iff, decide_eq_false_iff_not]
  exact ⟨⟨hne rfl, hne rfl⟩, ⟨⟨⟨hne rfl, hne rfl⟩, hne rfl⟩, hne rfl⟩, hne rfl⟩

theorem isAllowed_of_isWordChar (hc : isWordChar c = true) : isAllowed c = true := by
  have hrange : 0x20 ≤ c.toNat ∧ c.toNat ≤ 0x7e := by
    change (((decide (65 ≤ c.val ∧ c.val ≤ 90)
      || decide (97 ≤ c.val) && decide (c.val ≤ 122))
      || decide (48 ≤ c.val) && decide (c.val ≤ 57)) || decide (c = '_')) = true at hc
    simp only [Bool.or_eq_true, Bool.and_eq_true, decide_eq_true_eq,
      UInt32.le_iff_toNat_le] at hc
    change ((((65 ≤ c.toNat ∧ c.toNat ≤ 90) ∨ (97 ≤ c.toNat ∧ c.toNat ≤ 122))
      ∨ (48 ≤ c.toNat ∧ c.toNat ≤ 57)) ∨ c = '_') at hc
    rcases hc with hc | rfl
    · omega
    · decide
  simp [isAllowed, hrange]

theorem contains_of_isWordChar (hc : isWordChar c = true) {indicators : List Char}
    (h : indicators.any isWordChar = false) : indicators.contains c = false := by
  rw [Bool.eq_false_iff, ne_eq, List.contains_iff_mem]
  intro hmem
  exact List.any_eq_false.mp h c hmem hc

theorem startsPlain_of_isWordChar (hc : isWordChar c = true) (rest : Text) :
    Scan.startsPlain false c rest = true := by
  have hne : ∀ {d : Char}, isWordChar d = false → c ≠ d := ne_of_isWordChar hc
  unfold Scan.startsPlain
  rw [if_neg (hne rfl), contains_of_isWordChar hc rfl, isSpaceOrBreak_of_isWordChar hc]
  simp [hne (d := '?') rfl, hne (d := ':') rfl]

theorem IsWord.exists_cons (h : IsWord w) : ∃ c t, w = c :: t ∧ isWordChar c = true := by
  cases w with
  | nil => exact absurd rfl h.nonempty
  | cons c t => exact ⟨c, t, rfl, h.chars c List.mem_cons_self⟩

/-- No document starts or ends with a word. -/
theorem atDocumentMark_of_isWordChar (hc : isWordChar c = true) (t : Text) (m : Mark) :
    atDocumentMark (c :: t) m = false := by
  unfold atDocumentMark
  split
  · next h => exact absurd (List.cons.inj h).1 (ne_of_isWordChar hc (by decide))
  · next h => exact absurd (List.cons.inj h).1 (ne_of_isWordChar hc (by decide))
  · exact Bool.and_false _

/-! ## 2. Plain scalars -/

/-- A plain scalar does not go on with this text. -/
def EndsPlain (rest : Text) : Prop :=
  plainRun false rest = some ([], rest)

theorem endsPlain_nil : EndsPlain [] := rfl

theorem endsPlain_newline (t : Text) : EndsPlain ('\n' :: t) := by
  simp [EndsPlain, plainRun, isSpaceOrBreak, isBreak]

theorem endsPlain_colon (t : Text) : EndsPlain (':' :: ' ' :: t) := by
  simp [EndsPlain, plainRun, isSpaceOrBreak, isSpace, isBreak, atWordEnd]

/-- **A word is read to its end.** -/
theorem plainRun_word (hw : ∀ c ∈ w, isWordChar c = true) (hrest : EndsPlain rest) :
    plainRun false (w ++ rest) = some (w, rest) := by
  induction w with
  | nil => exact hrest
  | cons c w ih =>
    obtain ⟨hc, hw⟩ := List.forall_mem_cons.mp hw
    have hcolon : c ≠ ':' := ne_of_isWordChar hc rfl
    rw [List.cons_append, plainRun, isSpaceOrBreak_of_isWordChar hc]
    simp [hcolon, ih hw]

/-- A word that ends on its line. -/
theorem readPlain_word (hw : IsWord w) (hrest : EndsPlain rest)
    (hnext : rest.head?.any isSpaceOrBreak = false) (indent : Int) (m : Mark) :
    readPlain false indent (w ++ rest) m = some (⟨w, false⟩, rest, m.past w) := by
  obtain ⟨c, t, rfl, hc⟩ := hw.exists_cons
  have hhash : c ≠ '#' := ne_of_isWordChar hc rfl
  have hrun := plainRun_word hw.chars hrest
  rw [readPlain, plainLoop, hrun, List.cons_append, atDocumentMark_of_isWordChar hc]
  simp [hhash, hnext, Gap.folded]

/-- A gap ends where no blank and no break comes. -/
theorem readGap_stop (hnext : rest.head?.any isSpaceOrBreak = false) (indent : Int) (m : Mark)
    (g : Gap) : readGap indent rest m g = some (g, rest, m) := by
  cases rest with
  | nil => rw [readGap]
  | cons c t =>
    have hc : isSpaceOrBreak c = false := hnext
    obtain ⟨hspace, hbreak⟩ := Bool.or_eq_false_iff.mp hc
    rw [readGap, hspace, hbreak]
    · rfl
    · rintro _ rfl -
      cases hbreak

/-- A word at the end of its line, in a block. What comes next is not indented. -/
theorem readPlain_line (hw : IsWord w) (hnext : rest.head?.any isSpaceOrBreak = false) (m : Mark) :
    readPlain false 0 (w ++ '\n' :: rest) m
      = some (⟨w, true⟩, rest, (m.past w).newLine ['\n']) := by
  obtain ⟨c, t, rfl, hc⟩ := hw.exists_cons
  have hhash : c ≠ '#' := ne_of_isWordChar hc rfl
  have hrun := plainRun_word hw.chars (endsPlain_newline rest)
  have hgap (m : Mark) : readGap 1 ('\n' :: rest) m {}
      = some ({ first := some ['\n'] }, rest, m.newLine ['\n']) := by
    rw [readGap]
    · exact readGap_stop hnext 1 _ _
    · nofun
  rw [readPlain, plainLoop, hrun, List.cons_append, atDocumentMark_of_isWordChar hc]
  simp [hhash, hgap, Gap.folded, isSpaceOrBreak, isBreak, Gap.hasBreak, Mark.newLine]

end Yaml

end AnchoredEdit
