/-
`Proofs/Diff/Preview.lean` -- the preview and the summary of a change tell the same story.

The summary counts over the whole script and the preview shows its groups. Neither knows how the
script was found. Of the script it is only used that it covers the lines of both texts, of the
groups that they leave out equal lines only, and that each of them has a change. Every line of the
old text is kept or deleted and every line of the new text is kept or inserted, so the counts
balance. The groups show all changes, so they show as many as were counted. If nothing was counted,
all lines are kept, and there is nothing for a group to show.

What is shown is said of the text itself: a piece of it is a sign and then a line.
-/
import AnchoredEdit.Proofs.Diff.Groups

set_option autoImplicit false

namespace AnchoredEdit

namespace Diff

variable {old new : List Text}

/-! ## 1. Signs -/

/-- A line that is shown: the sign in front of it, and the line. -/
abbrev Piece := Char × Text

/-- What is shown of a change. -/
def piece (c : Change × Text) : Piece :=
  (c.1.sign, c.2)

theorem Change.sign_eq_plus_iff (c : Change) : c.sign = '+' ↔ c = .insert := by
  cases c <;> decide

theorem Change.sign_eq_minus_iff (c : Change) : c.sign = '-' ↔ c = .delete := by
  cases c <;> decide

/-- The pieces with the sign `s`. -/
def withSign (s : Char) (pieces : List Piece) : List Piece :=
  pieces.filter fun c => c.1 = s

/-- The lines of the pieces with another sign than `s`. -/
def linesWithout (s : Char) (pieces : List Piece) : List Text :=
  (pieces.filter fun c => c.1 ≠ s).map (·.2)

theorem linesWithout_plus (cs : List (Change × Text)) :
    linesWithout '+' (cs.map piece) = oldLines cs := by
  have hsign (c : Change × Text) : (piece c).1 ≠ '+' ↔ c.1 ≠ .insert :=
    not_congr c.1.sign_eq_plus_iff
  simp only [linesWithout, oldLines, List.filter_map, List.map_map, Function.comp_def, hsign]
  rfl

theorem linesWithout_minus (cs : List (Change × Text)) :
    linesWithout '-' (cs.map piece) = newLines cs := by
  have hsign (c : Change × Text) : (piece c).1 ≠ '-' ↔ c.1 ≠ .delete :=
    not_congr c.1.sign_eq_minus_iff
  simp only [linesWithout, newLines, List.filter_map, List.map_map, Function.comp_def, hsign]
  rfl

theorem length_withSign_add (s : Char) (pieces : List Piece) :
    (withSign s pieces).length + (linesWithout s pieces).length = pieces.length := by
  unfold withSign linesWithout
  rw [List.length_map, ← List.countP_eq_length_filter, ← List.countP_eq_length_filter,
    List.length_eq_countP_add_countP fun c : Piece => c.1 = s]
  simp only [decide_eq_true_eq, decide_not, ne_eq]

/-- Without pieces of the sign `s`, nothing is dropped with it. -/
theorem linesWithout_of_withSign_eq_nil {s : Char} {pieces : List Piece}
    (h : withSign s pieces = []) : linesWithout s pieces = pieces.map (·.2) := by
  unfold withSign at h
  unfold linesWithout
  rw [List.filter_eq_nil_iff] at h
  rw [List.filter_eq_self.mpr]
  intro c hc
  simpa using h c hc

/-- A change is shown with a plus or with a minus. -/
theorem edits_eq_nil {cs : List (Change × Text)} (hplus : withSign '+' (cs.map piece) = [])
    (hminus : withSign '-' (cs.map piece) = []) : edits cs = [] := by
  unfold withSign at hplus hminus
  unfold edits
  rw [List.filter_eq_nil_iff, List.forall_mem_map] at hplus hminus
  rw [List.filter_eq_nil_iff]
  rintro ⟨c, line⟩ hc
  have hplus := hplus _ hc
  have hminus := hminus _ hc
  cases c with
  | equal => exact of_decide_eq_false rfl
  | delete => exact absurd rfl hminus
  | insert => exact absurd rfl hplus

/-- The summary counts the pieces by their sign. -/
theorem summarize_eq (old new : List Text) (ops : List Op) : summarize old new ops
    = ⟨(withSign '+' ((changes old new ops).map piece)).length,
      (withSign '-' ((changes old new ops).map piece)).length⟩ := by
  unfold summarize withSign changes
  simp only [List.filter_map, List.length_map, Function.comp_def, piece, Change.sign_eq_plus_iff,
    Change.sign_eq_minus_iff, List.count_eq_countP, List.countP_map,
    ← List.countP_eq_length_filter]
  rfl

/-- All pieces with another sign than a blank are left when equal lines are left out. -/
theorem Abridges.withSign_eq {short full : List (Change × Text)} (h : Abridges short full)
    {s : Char} (hs : s ≠ ' ') :
    withSign s (short.map piece) = withSign s (full.map piece) := by
  have hedits (cs : List (Change × Text)) :
      withSign s (cs.map piece) = withSign s ((edits cs).map piece) := by
    unfold withSign edits
    rw [List.filter_map, List.filter_map, List.filter_filter]
    apply congrArg (List.map piece)
    apply List.filter_congr
    rintro ⟨c, line⟩ _
    cases c with
    | equal => simp [piece, Change.sign, hs.symm]
    | delete => simp
    | insert => simp
  rw [hedits short, h.edits_eq, ← hedits full]

theorem sublist_linesWithout {short full : List Piece} (h : short.Sublist full) (s : Char) :
    (linesWithout s short).Sublist (linesWithout s full) :=
  (h.filter _).map _

/-! ## 2. A script and its groups -/

/-- What is shown of a change, hunk by hunk, and its summary agree with the old and the new lines:
the counts balance, they count what is shown with a sign, what is shown is in the order of the
lines, and where nothing is counted nothing is shown and nothing has changed. -/
structure Accounts (old new : List Text) (hunks : List (List Piece)) (s : Summary) : Prop where
  signs : ∀ c ∈ hunks.flatten, c.1 = ' ' ∨ c.1 = '-' ∨ c.1 = '+'
  balance : s.insertions + old.length = s.deletions + new.length
  insertions : (withSign '+' hunks.flatten).length = s.insertions
  deletions : (withSign '-' hunks.flatten).length = s.deletions
  old_lines : (linesWithout '+' hunks.flatten).Sublist old
  new_lines : (linesWithout '-' hunks.flatten).Sublist new
  unchanged : s.insertions = 0 → s.deletions = 0 → old = new ∧ hunks = []

/-- The groups of a script as pieces. -/
def hunks (old new : List Text) (groups : List (List Op)) : List (List Piece) :=
  groups.map fun g => (changes old new g).map piece

theorem flatten_hunks (groups : List (List Op)) :
    (hunks old new groups).flatten = (changes old new groups.flatten).map piece := by
  unfold hunks
  induction groups with
  | nil => rfl
  | cons g gs ih =>
    rw [List.map_cons, List.flatten_cons, List.flatten_cons, changes_append, List.map_append, ih]

/-- **Any script that covers both lists, grouped so that only equal lines are left out and no group
is without a change, accounts for every line.** -/
theorem Covers.accounts {ops : List Op} {groups : List (List Op)} (hcovers : Covers old new ops)
    (hshortens : Shortens groups.flatten ops)
    (hchanged : ∀ g ∈ groups, edits (changes old new g) ≠ []) :
    Accounts old new (hunks old new groups) (summarize old new ops) := by
  obtain ⟨hold, hnew⟩ := hcovers.lines
  have habridges : Abridges (changes old new groups.flatten) (changes old new ops) :=
    hshortens.abridges
  have hsub := habridges.sublist.map piece
  rw [← linesWithout_plus] at hold
  rw [← linesWithout_minus] at hnew
  rw [summarize_eq]
  constructor
  case signs =>
    rw [flatten_hunks, List.forall_mem_map]
    rintro ⟨c, line⟩ _
    cases c <;> simp [piece, Change.sign]
  case balance =>
    have hplus := length_withSign_add '+' ((changes old new ops).map piece)
    have hminus := length_withSign_add '-' ((changes old new ops).map piece)
    rw [hold] at hplus
    rw [hnew] at hminus
    exact hplus.trans hminus.symm
  case insertions => rw [flatten_hunks, habridges.withSign_eq (by decide)]
  case deletions => rw [flatten_hunks, habridges.withSign_eq (by decide)]
  case old_lines =>
    have hlines := sublist_linesWithout hsub '+'
    rw [hold] at hlines
    rw [flatten_hunks]
    exact hlines
  case new_lines =>
    have hlines := sublist_linesWithout hsub '-'
    rw [hnew] at hlines
    rw [flatten_hunks]
    exact hlines
  case unchanged =>
    intro hplus hminus
    rw [List.length_eq_zero_iff] at hplus hminus
    constructor
    · have hsame := (linesWithout_of_withSign_eq_nil hplus).trans
        (linesWithout_of_withSign_eq_nil hminus).symm
      exact hold.symm.trans (hsame.trans hnew)
    · have hnone : edits (changes old new groups.flatten) = [] :=
        habridges.edits_eq.trans (edits_eq_nil hplus hminus)
      -- A group would have a change, and it would be among those of all groups.
      rw [hunks, List.map_eq_nil_iff, List.eq_nil_iff_forall_not_mem]
      intro g hg
      apply hchanged g hg
      have hmem : (edits (changes old new g)).Sublist (edits (changes old new groups.flatten)) :=
        ((List.sublist_flatten_of_mem hg).flatMap _).filter _
      rw [hnone] at hmem
      exact List.sublist_nil.mp hmem

/-! ## 3. The preview -/

/-- What a line diff has to do, and all that preview and summary ask of it. -/
structure LineDiff.Lawful (d : LineDiff) : Prop where
  /-- Lines keep their endings: joined, they are the text. -/
  flatten_lines : ∀ t, (d.lines t).flatten = t
  /-- The script goes through the lines of both texts in order, without gaps, and what it keeps is
  the same on both sides. -/
  covers : ∀ before after, Covers (d.lines before) (d.lines after) (d.ops before after)
  /-- Grouping leaves out equal lines only. -/
  shortens : ∀ before after, Shortens (d.groups (d.ops before after)).flatten (d.ops before after)
  /-- No group is without a change. -/
  changed : ∀ before after, ∀ g ∈ d.groups (d.ops before after),
    edits (changes (d.lines before) (d.lines after) g) ≠ []

/-- The text of a hunk: piece after piece the sign, the line, and a break if the line has no
ending. -/
inductive Prints (unended : Text → Bool) : List Piece → Text → Prop
  | nil : Prints unended [] []
  | ended {sign : Char} {line text : Text} {hunk : List Piece} (hline : unended line = false)
      (hrest : Prints unended hunk text) :
      Prints unended ((sign, line) :: hunk) (sign :: line ++ text)
  | unended {sign : Char} {line text : Text} {hunk : List Piece} (hline : unended line = true)
      (hrest : Prints unended hunk text) :
      Prints unended ((sign, line) :: hunk) (sign :: line ++ '\n' :: text)

variable {d : LineDiff}

theorem prints_showGroup (group : List Op) :
    Prints d.unended ((changes old new group).map piece) (showGroup d old new group) := by
  unfold showGroup
  rw [← changes]
  induction changes old new group with
  | nil => exact .nil
  | cons c cs ih =>
    rw [List.map_cons, List.flatMap_cons, piece]
    dsimp only [showLine]
    cases hline : d.unended c.2 with
    | false =>
      rw [if_neg Bool.false_ne_true, List.append_nil]
      exact .ended hline ih
    | true =>
      rw [if_pos rfl, List.append_assoc]
      exact .unended hline ih

theorem forall₂_prints (groups : List (List Op)) :
    List.Forall₂ (Prints d.unended) (hunks old new groups) (groups.map (showGroup d old new)) := by
  unfold hunks
  rw [List.forall₂_map_left_iff, List.forall₂_map_right_iff, List.forall₂_same]
  exact fun g _ => prints_showGroup g

/-- **The preview and the summary account for every line**, whatever line diff is used. The preview
is two lines and then the hunks with a break between any two, and a hunk is pieces, each a sign and
a line. -/
theorem preview_accounts_for_lines (hd : d.Lawful) (before after label : Text) :
    ∃ (hunks : List (List Piece)) (texts : List Text),
      unified d before after label = "--- a/".toList ++ label ++ "\n+++ b/".toList ++ label
          ++ "\n".toList ++ ['\n'].intercalate texts
        ∧ List.Forall₂ (Prints d.unended) hunks texts
        ∧ Accounts (d.lines before) (d.lines after) hunks (summary d before after)
        ∧ ((summary d before after).insertions = 0 → (summary d before after).deletions = 0 →
          before = after ∧ unified d before after label
            = "--- a/".toList ++ label ++ "\n+++ b/".toList ++ label ++ "\n".toList) := by
  have haccounts := (hd.covers before after).accounts (hd.shortens before after)
    (hd.changed before after)
  refine ⟨_, _, rfl, forall₂_prints _, haccounts, ?_⟩
  intro hinsertions hdeletions
  obtain ⟨hlines, hhunks⟩ := haccounts.unchanged hinsertions hdeletions
  constructor
  · rw [← hd.flatten_lines before, hlines, hd.flatten_lines]
  · rw [hunks, List.map_eq_nil_iff] at hhunks
    rw [unified, hhunks]
    exact List.append_nil _

/-! ## 4. The line diff that runs -/

/-- The line diff of this library does what it has to do. -/
theorem LineDiff.lawful_standard : LineDiff.standard.Lawful where
  flatten_lines := Diff.flatten_lines
  covers _ _ := covers_script _ _
  shortens _ _ := shortens_groups _
  changed _ _ :=
    edits_ne_nil_of_mem_groups (alternates_script _ _) (walks_script _ _).edits_ne_nil

/-- A line is replaced by two, and the last line has no ending. -/
theorem preview_accounts_for_lines_sampleEnding :
    LineDiff.standard.Lawful
      ∧ (summary .standard "a\nb".toList "a\nc\nd".toList).insertions + 2
        = (summary .standard "a\nb".toList "a\nc\nd".toList).deletions + 3
      ∧ ∃ texts, unified .standard "a\nb".toList "a\nc\nd".toList "f".toList
        = "--- a/f\n+++ b/f\n".toList ++ ['\n'].intercalate texts := by
  obtain ⟨hunks, texts, hunified, -, haccounts, -⟩ := preview_accounts_for_lines
    LineDiff.lawful_standard "a\nb".toList "a\nc\nd".toList "f".toList
  exact ⟨LineDiff.lawful_standard, haccounts.balance, texts, hunified⟩

end Diff

end AnchoredEdit
