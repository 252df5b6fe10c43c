/-
`Proofs/Yaml/BlockMapping.lean` -- a mapping with one entry on each line.

Each line is a key, a colon, a blank and a value, where key and value are words. The scanner goes
through a line in three steps: the key, which may turn out to be one; the colon, which shows that it
was; and the value, with which the line ends. The first colon opens the mapping and the end of the
text closes it. At the start of every line the scanner is in the same state, up to where it is and
what it has collected, so a text is scanned line by line.
-/
import AnchoredEdit.Proofs.Yaml.Words

set_option autoImplicit false

namespace AnchoredEdit

namespace Yaml

variable {c : Char} {t w key value rest more : Text} {m : Mark} {slots : List Slot} {opened : Bool}

/-- An entry whose key and value are words. A key takes 1024 bytes at most. -/
structure IsEntry (e : Text × Text) : Prop where
  key : IsWord e.1
  short : e.1.byteLength ≤ 1024
  value : IsWord e.2

/-! ## 1. Between tokens -/

/-- The text is at its end, or a token starts here. -/
def StartsToken (t : Text) : Prop :=
  ∀ c ∈ t.head?, isSpaceOrBreak c = false ∧ c ≠ '#' ∧ c ≠ '\ufeff'

theorem startsToken_nil : StartsToken [] := nofun

theorem startsToken_colon (t : Text) : StartsToken (':' :: t) := by
  simp [StartsToken, isSpaceOrBreak, isSpace, isBreak]

theorem IsWord.startsToken (hw : IsWord w) (t : Text) : StartsToken (w ++ t) := by
  obtain ⟨c, w, rfl, hc⟩ := hw.exists_cons
  rintro d ⟨rfl⟩
  exact ⟨isSpaceOrBreak_of_isWordChar hc, ne_of_isWordChar hc rfl, ne_of_isWordChar hc rfl⟩

theorem StartsToken.not_gap (h : StartsToken t) : t.head?.any isSpaceOrBreak = false := by
  cases t with
  | nil => rfl
  | cons c t => exact (h c rfl).1

theorem StartsToken.not_break (h : StartsToken t) : t.head?.any isBreak = false := by
  cases t with
  | nil => rfl
  | cons c t => exact (Bool.or_eq_false_iff.mp (h c rfl).1).2

namespace Scan

variable {s s₁ s₂ : Scan}

theorem skipInLine_of_startsToken (h : StartsToken t) (tabs : Bool) (m : Mark) :
    skipInLine tabs t m = (t, m) := by
  cases t with
  | nil => rfl
  | cons c t =>
    obtain ⟨hc, hhash, -⟩ := h c rfl
    simp only [isSpaceOrBreak, isSpace, Bool.or_eq_false_iff, decide_eq_false_iff_not] at hc
    simp [skipInLine, skipWhile, hc, hhash, Mark.past]

theorem skipInLine_blank (h : StartsToken t) (tabs : Bool) (m : Mark) :
    skipInLine tabs (' ' :: t) m = (t, m.past [' ']) := by
  cases t with
  | nil => rfl
  | cons c t =>
    obtain ⟨hc, hhash, -⟩ := h c rfl
    simp only [isSpaceOrBreak, isSpace, Bool.or_eq_false_iff, decide_eq_false_iff_not] at hc
    simp [skipInLine, skipWhile, hc, hhash, Mark.past, Text.byteLength]

theorem skipToToken_of_startsToken (h : StartsToken s.rest) : s.skipToToken = s := by
  have hbom : s.rest.head? ≠ some '\ufeff' := fun hhead => (h _ hhead).2.2 rfl
  rw [skipToToken]
  simp [hbom, h.not_break, skipInLine_of_startsToken h, goto]

theorem skipToToken_blank (h : StartsToken t) (hrest : s.rest = ' ' :: t) :
    s.skipToToken = s.goto t (s.mark.past [' ']) := by
  rw [skipToToken]
  simp [hrest, h.not_break, skipInLine_blank h]

/-- **One token.** Nothing is stale and no block ends here. -/
theorem run_step (hskip : s.skipToToken = s₁) (hfresh : s₁.dropStale = some s₁)
    (hunroll : s₁.unrollTo s₁.mark.column = s₁) (hrest : s₁.rest = c :: rest)
    (hscan : s₁.scanToken c rest = some s₂) (hlt : s₂.rest.length < s.rest.length) :
    s.run = s₂.run := by
  rw [run, hskip, hfresh]
  simp [hunroll, hrest, hscan, hlt]

/-- The end of the text. -/
theorem run_end (hrest : s.rest = []) (hfresh : s.dropStale = some s)
    (hunroll : s.unrollTo s.mark.column = s) : s.run = s.finish := by
  rw [run, skipToToken_of_startsToken (hrest ▸ startsToken_nil), hfresh]
  simp [hunroll, hrest]

/-! ## 2. One line -/

/-- The scanner at the start of a line. The mapping has been opened or not. -/
def atLine (opened : Bool) (rest : Text) (mark : Mark) (slots : List Slot) : Scan where
  rest
  mark
  slots
  indent := if opened then 0 else -1
  outerIndents := if opened then [-1] else []

/-- The scanner after a key, before its colon. -/
def afterKey (opened : Bool) (key rest : Text) (mark : Mark) (slots : List Slot) : Scan :=
  { atLine opened rest (mark.past key) (slots ++ [{ token := .scalar .plain key }]) with
    candidate := some ⟨slots.length, mark, opened⟩
    keyAllowed := false }

/-- The scanner after the colon of a key. -/
def afterColon (opened : Bool) (key rest : Text) (mark : Mark) (slots : List Slot) : Scan :=
  { atLine true rest ((mark.past key).past [':'])
      (slots ++ [⟨.scalar .plain key, true, !opened⟩, { token := .value }]) with
    keyAllowed := false }

theorem scanToken_word (hc : isWordChar c = true) (hrest : s.rest = c :: rest)
    (hflow : s.inFlow = false) : s.scanToken c rest = s.scanPlain := by
  have hne : ∀ {d : Char}, isWordChar d = false → c ≠ d := ne_of_isWordChar hc
  unfold scanToken
  rw [hrest, atDocumentMark_of_isWordChar hc, hflow, startsPlain_of_isWordChar hc]
  -- None of the indicators is the character of a word.
  simp [hne (d := '%') rfl, hne (d := '[') rfl, hne (d := '{') rfl, hne (d := ']') rfl,
    hne (d := '}') rfl, hne (d := ',') rfl, hne (d := '-') rfl, hne (d := '?') rfl,
    hne (d := ':') rfl, hne (d := '*') rfl, hne (d := '&') rfl, hne (d := '!') rfl,
    hne (d := '|') rfl, hne (d := '>') rfl, hne (d := '\'') rfl, hne (d := '"') rfl]

theorem scanPlain_eq {plain : PlainText} (hsave : s.saveCandidate = some s₁)
    (hread : readPlain s₁.inFlow s₁.indent s₁.rest s₁.mark = some (plain, rest, m)) :
    s.scanPlain = some { (s₁.push (.scalar .plain plain.text)).goto rest m with
      keyAllowed := plain.endsInBreak } := by
  rw [scanPlain, hsave, Option.bind_eq_bind, Option.bind_some, hread]
  rfl

/-- No block is deeper than the column. -/
theorem unrollTo_of_le {column : Int} (h : s.indent ≤ column) : s.unrollTo column = s := by
  have hclose : closeBlocks column s.indent s.outerIndents = (s.indent, s.outerIndents, 0) := by
    simp [closeBlocks.eq_def, h]
  simp [unrollTo, hclose]

theorem indent_atLine (opened : Bool) (rest : Text) (m : Mark) (slots : List Slot) :
    (atLine opened rest m slots).indent ≤ 0 := by
  cases opened
  · exact Int.neg_nonpos_of_nonneg (by decide)
  · exact Int.le_refl 0

/-- A word at the start of a line may be a key, and has to be one where the mapping is open. -/
theorem saveCandidate_atLine (hm : m.column = 0) : (atLine opened rest m slots).saveCandidate
    = some { atLine opened rest m slots with candidate := some ⟨slots.length, m, opened⟩ } := by
  cases opened <;> simp [saveCandidate, dropCandidate, atLine, inFlow, hm]

/-- **First step:** the key, kept in mind as the start of a key that may come. -/
theorem run_atLine_key (hkey : IsWord key) (hm : m.column = 0) :
    (atLine opened (key ++ ':' :: ' ' :: t) m slots).run
      = (afterKey opened key (':' :: ' ' :: t) m slots).run := by
  obtain ⟨c, w, rfl, hc⟩ := hkey.exists_cons
  -- The line starts at column zero, which is where the mapping stands, so no block ends here.
  refine run_step (c := c) (skipToToken_of_startsToken (hkey.startsToken _)) rfl ?_ rfl ?_ ?_
  · exact unrollTo_of_le (by simpa [atLine, hm] using indent_atLine opened [] m slots)
  · rw [scanToken_word hc rfl rfl]
    exact scanPlain_eq (saveCandidate_atLine hm) (readPlain_word hkey (endsPlain_colon t) rfl _ _)
  · simp only [afterKey, atLine, List.length_append, List.length_cons]
    omega

/-- Marking the last slot. -/
theorem markKey_concat (slots : List Slot) (slot : Slot) (starts : Bool) :
    markKey (slots ++ [slot]) slots.length starts
      = slots ++ [{ slot with startsKey := true, startsMapping := starts }] :=
  List.modifyTailIdx_add _ 0 slots [slot]

/-- A key that is short enough is still one when its colon comes. -/
theorem dropStale_afterKey (hkey : key.byteLength ≤ 1024) :
    (afterKey opened key rest m slots).dropStale = some (afterKey opened key rest m slots) := by
  have hfresh : isStale (m.past key) ⟨slots.length, m, opened⟩ = false := by
    simp [isStale, Mark.past]
    omega
  simp [dropStale, freshen, afterKey, atLine, hfresh]

/-- The colon shows that the word before it is a key, and opens the mapping if it is the first. -/
theorem scanValue_afterKey (hm : m.column = 0) : (afterKey opened key (':' :: t) m slots).scanValue
    = some (afterColon opened key t m slots) := by
  cases opened <;>
    simp [scanValue, openBlock, afterKey, afterColon, atLine, inFlow, hm, markKey_concat, push,
      advance]

/-- **Second step:** the colon. -/
theorem run_afterKey (hkey : key.byteLength ≤ 1024) (hm : m.column = 0) :
    (afterKey opened key (':' :: ' ' :: t) m slots).run
      = (afterColon opened key (' ' :: t) m slots).run := by
  refine run_step (c := ':') (skipToToken_of_startsToken (startsToken_colon _))
    (dropStale_afterKey hkey) ?_ rfl ?_ ?_
  · exact unrollTo_of_le (Int.le_trans (indent_atLine opened [] m slots) (Int.natCast_nonneg _))
  · rw [← scanValue_afterKey hm]
    simp [scanToken, atDocumentMark, afterKey, atLine, atWordEnd, isSpaceOrBreak, isSpace]
  · simp [afterKey, afterColon, atLine]

/-- The scanner after a value. A line break came last or not. -/
def afterValue (ended : Bool) (rest : Text) (mark : Mark) (slots : List Slot) : Scan :=
  { atLine true rest mark slots with keyAllowed := ended }

/-- What a line adds. -/
def lineSlots (opened : Bool) (key value : Text) : List Slot :=
  [⟨.scalar .plain key, true, !opened⟩, { token := .value }, { token := .scalar .plain value }]

/-- **Third step:** the value, as far as it is read. No key may start after a colon, so the value is
not kept in mind as one. -/
theorem run_afterColon {m₁ : Mark} {ended : Bool} (hvalue : IsWord value)
    (hread : readPlain false 0 (value ++ t) (((m.past key).past [':']).past [' '])
      = some (⟨value, ended⟩, rest, m₁)) (hlt : rest.length ≤ t.length) :
    (afterColon opened key (' ' :: (value ++ t)) m slots).run
      = (afterValue ended rest m₁ (slots ++ lineSlots opened key value)).run := by
  obtain ⟨c, w, rfl, hc⟩ := hvalue.exists_cons
  refine run_step (c := c) (skipToToken_blank (hvalue.startsToken _) rfl) rfl ?_ rfl ?_ ?_
  · exact unrollTo_of_le (Int.natCast_nonneg _)
  · have hplain := scanPlain_eq (s := (afterColon opened key [] m slots).goto (c :: w ++ t)
      (((m.past key).past [':']).past [' '])) rfl hread
    rw [scanToken_word hc rfl rfl]
    simpa [afterColon, afterValue, atLine, goto, push, lineSlots] using hplain
  · simp [afterColon, afterValue, atLine]
    omega

/-- Key, colon and value. -/
theorem run_line_of_readPlain {m₁ : Mark} {ended : Bool} (hentry : IsEntry (key, value))
    (hm : m.column = 0) (hread : readPlain false 0 (value ++ t)
      (((m.past key).past [':']).past [' ']) = some (⟨value, ended⟩, rest, m₁))
    (hlt : rest.length ≤ t.length) :
    (atLine opened (key ++ ':' :: ' ' :: (value ++ t)) m slots).run
      = (afterValue ended rest m₁ (slots ++ lineSlots opened key value)).run := by
  rw [run_atLine_key hentry.key hm, run_afterKey hentry.short hm,
    run_afterColon hentry.value hread hlt]

/-- The start of the next line. -/
def nextLine (key value : Text) (m : Mark) : Mark :=
  ((((m.past key).past [':']).past [' ']).past value).newLine ['\n']

/-- **One line.** The next one starts where this one did, and the mapping is open. -/
theorem run_line (hentry : IsEntry (key, value)) (hm : m.column = 0) (hmore : StartsToken more) :
    (atLine opened (key ++ ':' :: ' ' :: (value ++ '\n' :: more)) m slots).run
      = (atLine true more (nextLine key value m) (slots ++ lineSlots opened key value)).run :=
  run_line_of_readPlain hentry hm (readPlain_line hentry.value hmore.not_gap _) (Nat.le_succ _)

/-- The end of the text ends the mapping. -/
theorem run_afterValue_nil (ended : Bool) (m : Mark) (slots : List Slot) :
    (afterValue ended [] m slots).run = some (slots.flatMap Slot.tokens ++ [.blockEnd]) := by
  rw [run_end rfl rfl (unrollTo_of_le (Int.natCast_nonneg _))]
  simp [finish, unrollTo, closeBlocks, afterValue, atLine, inFlow, dropCandidate, Slot.tokens]

theorem run_atLine_nil : (atLine true [] m slots).run
    = some (slots.flatMap Slot.tokens ++ [.blockEnd]) :=
  run_afterValue_nil true m slots

/-- The last line, with no break at its end. -/
theorem run_lastLine (hentry : IsEntry (key, value)) (hm : m.column = 0) :
    (atLine opened (key ++ ':' :: ' ' :: value) m slots).run
      = some ((slots ++ lineSlots opened key value).flatMap Slot.tokens ++ [.blockEnd]) := by
  rw [← run_afterValue_nil, ← run_line_of_readPlain hentry hm
    (readPlain_word hentry.value endsPlain_nil rfl _ _) (Nat.le_refl _), List.append_nil]

end Scan

/-! ## 3. All lines -/

/-- A mapping with one entry on each line. The last line ends with a break or not. -/
def mappingText (ended : Bool) : List (Text × Text) → Text
  | [] => []
  | [(key, value)] => key ++ ':' :: ' ' :: (value ++ if ended then ['\n'] else [])
  | (key, value) :: e :: entries =>
    key ++ ':' :: ' ' :: (value ++ '\n' :: mappingText ended (e :: entries))

/-- The tokens of an entry. -/
def entryTokens (e : Text × Text) : List Token :=
  [.key, .scalar .plain e.1, .value, .scalar .plain e.2]

/-- The tokens of a mapping. -/
def mappingTokens (entries : List (Text × Text)) : List Token :=
  .blockMappingStart :: (entries.flatMap entryTokens ++ [.blockEnd])

variable {ended : Bool} {e : Text × Text} {entries : List (Text × Text)}

theorem length_mappingTokens (entries : List (Text × Text)) :
    (mappingTokens entries).length = 4 * entries.length + 2 := by
  have hentries : (entries.flatMap entryTokens).length = 4 * entries.length := by
    induction entries with
    | nil => rfl
    | cons e entries ih =>
      rw [List.flatMap_cons, List.length_append, ih, List.length_cons, Nat.mul_add, Nat.add_comm]
      rfl
  rw [mappingTokens, List.length_cons, List.length_append, hentries, List.length_singleton]

theorem startsToken_mappingText (hentries : ∀ e ∈ entries, IsEntry e) :
    StartsToken (mappingText ended entries) := by
  match entries with
  | [] => exact startsToken_nil
  | [(key, value)] => exact (hentries _ List.mem_cons_self).key.startsToken _
  | (key, value) :: e :: entries => exact (hentries _ List.mem_cons_self).key.startsToken _

theorem flatMap_lineSlots (opened : Bool) (key value : Text) :
    (Scan.lineSlots opened key value).flatMap Slot.tokens
      = (if opened then [] else [.blockMappingStart]) ++ entryTokens (key, value) := by
  cases opened <;> rfl

/-- **All lines**, by induction: each leaves the scanner at the start of the next. -/
theorem run_mappingText (hentries : ∀ e' ∈ e :: entries, IsEntry e') (hm : m.column = 0) :
    (Scan.atLine opened (mappingText ended (e :: entries)) m slots).run
      = some (slots.flatMap Slot.tokens ++ (if opened then [] else [.blockMappingStart])
          ++ (e :: entries).flatMap entryTokens ++ [.blockEnd]) := by
  induction entries generalizing e opened m slots with
  | nil =>
    have hentry := hentries e List.mem_cons_self
    -- Without a break the value ends with the text. With one, an empty line is left over.
    cases ended with
    | false => simp [mappingText, Scan.run_lastLine hentry hm, flatMap_lineSlots]
    | true =>
      rw [mappingText, if_pos rfl, Scan.run_line hentry hm startsToken_nil, Scan.run_atLine_nil]
      simp [flatMap_lineSlots]
  | cons e' entries ih =>
    obtain ⟨hentry, hentries⟩ := List.forall_mem_cons.mp hentries
    rw [mappingText, Scan.run_line hentry hm (startsToken_mappingText hentries), ih hentries rfl]
    simp [flatMap_lineSlots]

theorem isAllowed_mappingText (hentries : ∀ e ∈ entries, IsEntry e) :
    (mappingText ended entries).all isAllowed = true := by
  have hword {w : Text} (hw : IsWord w) : w.all isAllowed = true :=
    List.all_eq_true.mpr fun c hc => isAllowed_of_isWordChar (hw.chars c hc)
  fun_induction mappingText ended entries with
  | case1 => rfl
  | case2 key value =>
    have hentry := hentries _ List.mem_cons_self
    cases ended <;> simp [hword hentry.key, hword hentry.value, isAllowed]
  | case3 key value e entries ih =>
    obtain ⟨hentry, hentries⟩ := List.forall_mem_cons.mp hentries
    simp [hword hentry.key, hword hentry.value, ih hentries, isAllowed]

/-- The tokens of a mapping with at least one line. -/
theorem tokens?_mappingText (hentries : ∀ e' ∈ e :: entries, IsEntry e') :
    tokens? (mappingText ended (e :: entries)) = some (mappingTokens (e :: entries)) := by
  have hrun : (Scan.atLine false (mappingText ended (e :: entries)) {} []).run = _ :=
    run_mappingText hentries rfl
  rw [tokens?, if_pos (isAllowed_mappingText hentries)]
  exact hrun

/-! ## 4. The mapping -/

namespace Compose

/-- The node of a plain scalar without properties. -/
def plainNode (text : Text) : Node :=
  .scalar { text }

/-- The nodes of an entry. -/
def entryNodes (e : Text × Text) : Node × Node :=
  (plainNode e.1, plainNode e.2)

variable {handles : List (Text × Text)} {tokens : List Token}

theorem nodeUnless?_scalar (fuel : Nat) :
    nodeUnless? (fuel + 3) true true [.key, .value, .blockEnd]
        { tokens := .scalar .plain t :: tokens, handles }
      = some (plainNode t, { tokens, handles }) := by
  simp [nodeUnless?, node?, content?, sees, peek?, takeProperties?, takeAnchor, takeTag?, skip,
    closeAnchor, plainNode]

/-- One entry. -/
theorem blockEntries?_entry (fuel : Nat) :
    blockEntries? (fuel + 4) { tokens := entryTokens e ++ tokens, handles }
      = (blockEntries? (fuel + 3) { tokens, handles }).map fun r => (entryNodes e :: r.1, r.2) := by
  rw [blockEntries?]
  cases hrest : blockEntries? (fuel + 3) { tokens, handles }
  all_goals simp [peek?, skip, sees, entryTokens, nodeUnless?_scalar, entryNodes, hrest]

/-- **All entries**, up to the end of the mapping. -/
theorem blockEntries?_entryTokens (fuel : Nat) :
    blockEntries? (fuel + entries.length + 4)
        { tokens := entries.flatMap entryTokens ++ .blockEnd :: tokens, handles }
      = some (entries.map entryNodes, { tokens, handles }) := by
  induction entries with
  | nil =>
    rw [blockEntries?]
    rfl
  | cons e entries ih =>
    rw [List.flatMap_cons, List.append_assoc, blockEntries?_entry]
    exact congrArg _ ih

/-- The whole mapping. -/
theorem node?_mappingTokens (fuel : Nat) (indentless : Bool) :
    node? (fuel + entries.length + 6) true indentless { tokens := mappingTokens entries, handles }
      = some (.mapping (entries.map entryNodes), { tokens := [], handles }) := by
  have hcontent : content? (fuel + entries.length + 5) true indentless {}
      { tokens := mappingTokens entries, handles }
      = some (.mapping (entries.map entryNodes), { tokens := [], handles }) := by
    rw [content?]
    simp [peek?, skip, mappingTokens, blockEntries?_entryTokens]
  have hpeek : ({ tokens := mappingTokens entries, handles } : Compose).peek?
      = some .blockMappingStart := rfl
  simp [node?, hpeek, takeProperties?, takeAnchor, takeTag?, hcontent, closeAnchor]

end Compose

/-- **A mapping with one entry on each line is read as it was written.** -/
theorem parse?_mappingText (hentries : ∀ e' ∈ e :: entries, IsEntry e') :
    parse? (mappingText ended (e :: entries))
      = some (some ⟨.mapping ((e :: entries).map Compose.entryNodes), []⟩) := by
  -- An entry takes four tokens and one unit of fuel, so there is more fuel than entries.
  have hfuel : 4 * (mappingTokens (e :: entries)).length + 4
      = 15 * (e :: entries).length + 6 + (e :: entries).length + 6 := by
    rw [length_mappingTokens]
    omega
  have hdocument : Compose.document? false [] (mappingTokens (e :: entries))
      = some ⟨.mapping ((e :: entries).map Compose.entryNodes), []⟩ := by
    simp only [Compose.document?, Bool.false_and, hfuel, Compose.node?_mappingTokens]
    rfl
  rw [parse?, tokens?_mappingText hentries, Option.bind_some, mappingTokens, document?]
  · rw [← mappingTokens, hdocument]
    rfl
  all_goals nofun

/-- Nothing at all holds no document. -/
theorem parse?_nil : parse? [] = some none := by
  have hrun : Scan.run { rest := [] } = some [] := by
    rw [Scan.run_end rfl rfl (Scan.unrollTo_of_le (by decide))]
    rfl
  rw [parse?, tokens?, List.all_nil, if_pos rfl, hrun]
  rfl

end Yaml

end AnchoredEdit
