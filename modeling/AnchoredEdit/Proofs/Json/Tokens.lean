/-
`Proofs/Json/Tokens.lean` -- numbers and strings, written and read back.

The reader takes a text apart from the left and has to find the end of each token by itself. A
string ends at its quote. A numeral has no mark at its end: it is read back only if what follows
does not carry it on, which is what `EndsNumeral` says of the rest. Every value is followed by
a comma, a bracket, a brace or the end of the text, and none of these carries a numeral on.

Integers of 64 bits are read back exactly. A string is read back whatever it holds: each
character is written as one piece, and each piece is joined back into its character.
-/
import AnchoredEdit.Json.Draft

set_option autoImplicit false

namespace AnchoredEdit

namespace Json

/-! ## 1. Digits -/

/-- What no numeral goes on with. -/
def EndsNumeral (rest : Text) : Prop :=
  ∀ c ∈ rest.head?, c.isDigit = false ∧ c ≠ '.' ∧ c ≠ 'e' ∧ c ≠ 'E'

theorem endsNumeral_nil : EndsNumeral [] := nofun

theorem endsNumeral_comma (t : Text) : EndsNumeral (',' :: t) := by
  simp [EndsNumeral]

theorem endsNumeral_bracket (t : Text) : EndsNumeral (']' :: t) := by
  simp [EndsNumeral]

theorem endsNumeral_brace (t : Text) : EndsNumeral ('}' :: t) := by
  simp [EndsNumeral]

theorem isDigit_of_mem_toDigits {n : Nat} {c : Char} (h : c ∈ Nat.toDigits 10 n) :
    c.isDigit = true :=
  Nat.isDigit_of_mem_toDigits (by decide) (by decide) h

theorem toDigits_starts (n : Nat) : ∃ c t, Nat.toDigits 10 n = c :: t ∧ c.isDigit = true := by
  cases hdigits : Nat.toDigits 10 n with
  | nil => exact absurd hdigits Nat.toDigits_ne_nil
  | cons c t =>
    have hmem : c ∈ Nat.toDigits 10 n := by simp [hdigits]
    exact ⟨c, t, rfl, isDigit_of_mem_toDigits hmem⟩

/-- Only zero is written with a zero in front. -/
theorem eq_zero_of_head?_toDigits (n : Nat) (h : (Nat.toDigits 10 n).head? = some '0') :
    n = 0 := by
  induction n using Nat.strongRecOn with
  | _ n ih =>
    by_cases hn : n < 10
    · rw [Nat.toDigits_of_lt_base hn, List.head?_cons, Option.some.injEq] at h
      exact Nat.digitChar_eq_zero.mp h
    · -- The first digit is that of `n / 10`, which is not zero.
      obtain ⟨c, t, hstart, -⟩ := toDigits_starts (n / 10)
      rw [Nat.toDigits_of_base_le (by decide) (by omega), hstart] at h
      have hzero := ih (n / 10) (by omega) (by rw [hstart]; exact h)
      omega

theorem natOfDigits_toDigits (n : Nat) : natOfDigits (Nat.toDigits 10 n) = n := by
  have h := Nat.ofDigitChars_ten_toDigits (n := n)
  rwa [Nat.ofDigitChars_eq_foldl] at h

/-- Digits are taken up to where they end. -/
theorem takeDigits_append {digits rest : Text} (hdigits : ∀ c ∈ digits, c.isDigit = true)
    (hrest : EndsNumeral rest) : takeDigits (digits ++ rest) = (digits, rest) := by
  have hstop : rest.takeWhile (·.isDigit) = [] ∧ rest.dropWhile (·.isDigit) = rest := by
    cases rest with
    | nil => exact ⟨rfl, rfl⟩
    | cons c t => simp [(hrest c rfl).1]
  rw [takeDigits, List.takeWhile_append_of_pos hdigits, List.dropWhile_append_of_pos hdigits,
    hstop.1, hstop.2, List.append_nil]

/-! ## 2. Numerals -/

/-- The number is an integer of 64 bits: unsigned, or negative and signed. -/
def Number.Fits : Number → Prop
  | .nat n => n < wordCount
  | .neg n => 0 < n ∧ n ≤ signedBound
  | .real _ _ => False

theorem Number.ofInt_fits {n : Int} (hlow : -(signedBound : Int) ≤ n) (hhigh : n < signedBound) :
    (Number.ofInt n).Fits := by
  have hcount := wordCount_eq
  cases n with
  | ofNat n =>
    rw [Int.ofNat_eq_natCast] at hhigh
    exact show n < wordCount by omega
  | negSucc n => exact show 0 < n + 1 ∧ n + 1 ≤ signedBound by omega

namespace Numeral

theorem readWhole?_toDigits (n : Nat) {rest : Text} (hrest : EndsNumeral rest) :
    readWhole? (Nat.toDigits 10 n ++ rest) = some (Nat.toDigits 10 n, rest) := by
  have hdigits : ∀ c ∈ Nat.toDigits 10 n, c.isDigit = true := fun _ => isDigit_of_mem_toDigits
  rw [readWhole?, takeDigits_append hdigits hrest]
  split
  · next h => exact absurd (Prod.mk.inj h).1 Nat.toDigits_ne_nil
  · next h =>
    -- A zero in front of other digits is refused, but no number is written with one.
    have hfront := (Prod.mk.inj h).1
    have hzero := eq_zero_of_head?_toDigits n (by rw [hfront]; rfl)
    rw [hzero, Nat.toDigits_zero] at hfront
    cases hfront
  · next h =>
    obtain ⟨rfl, rfl⟩ := Prod.mk.inj h
    rfl

theorem readFraction?_of_endsNumeral {rest : Text} (hrest : EndsNumeral rest) :
    readFraction? rest = some ([], rest) := by
  rw [readFraction?.eq_def]
  split
  · next t => exact absurd rfl (hrest '.' rfl).2.1
  · rfl

theorem readExponent?_of_endsNumeral {rest : Text} (hrest : EndsNumeral rest) :
    readExponent? rest = some (none, rest) := by
  cases rest with
  | nil => rfl
  | cons c t =>
    obtain ⟨-, -, he, hE⟩ := hrest c rfl
    simp [readExponent?, he, hE]

/-- The digits of a natural are a numeral. -/
theorem read?_toDigits (n : Nat) {rest : Text} (hrest : EndsNumeral rest) :
    read? (Nat.toDigits 10 n ++ rest) = some (⟨false, Nat.toDigits 10 n, [], none⟩, rest) := by
  -- Without a sign the reader goes straight to the digits.
  have hsign : ∀ t, Nat.toDigits 10 n ++ rest ≠ '-' :: t := by
    intro t h
    obtain ⟨c, digits, hstart, hc⟩ := toDigits_starts n
    rw [hstart] at h
    obtain rfl : c = '-' := (List.cons.inj h).1
    exact absurd hc (by decide)
  rw [read?]
  · simp [readWhole?_toDigits n hrest, readFraction?_of_endsNumeral hrest,
      readExponent?_of_endsNumeral hrest]
  · exact hsign

/-- So are a minus sign and the digits of a natural. -/
theorem read?_minus_toDigits (n : Nat) {rest : Text} (hrest : EndsNumeral rest) :
    read? ('-' :: Nat.toDigits 10 n ++ rest)
      = some (⟨true, Nat.toDigits 10 n, [], none⟩, rest) := by
  simp [read?, readWhole?_toDigits n hrest, readFraction?_of_endsNumeral hrest,
    readExponent?_of_endsNumeral hrest]

end Numeral

/-- **An integer of 64 bits is read back.** -/
theorem readNumber_write {n : Number} (hn : n.Fits) {rest : Text} (hrest : EndsNumeral rest) :
    readNumber (n.write ++ rest) = (.num n, some rest) := by
  cases n with
  | nat n =>
    have hn : n < wordCount := hn
    simp [readNumber, Number.write, Numeral.read?_toDigits n hrest, Numeral.number?,
      natOfDigits_toDigits, hn]
  | neg n =>
    have hn : 0 < n ∧ n ≤ signedBound := hn
    rw [readNumber, Number.write, Numeral.read?_minus_toDigits n hrest]
    simp [Numeral.number?, natOfDigits_toDigits, hn]
  | real negative x => exact hn.elim

/-! ## 3. Strings -/

/-- The piece that the reader makes of the written form of a character. -/
def Piece.ofChar (c : Char) : Piece :=
  if c.toNat < 0x20 ∧ c ∉ ['\x08', '\t', '\n', '\x0c', '\r'] then .unit c.toNat else .char c

/-- The two hexadecimal digits of a small code unit. -/
theorem codeUnit?_hexDigit {n : Nat} (hn : n < 0x20) :
    codeUnit? '0' '0' (hexDigit (n / 16)) (hexDigit (n % 16)) = some n := by
  revert n
  decide

/-- A backslash and a letter are one piece. -/
theorem readPieces?_short {e c : Char} (he : unescape? e = some c) (t : Text) :
    readPieces? ('\\' :: e :: t)
      = (readPieces? t).map fun (pieces, rest) => (.char c :: pieces, rest) := by
  have hu : e ≠ 'u' := by
    rintro rfl
    cases he
  rw [readPieces?]
  · simp only [he, Option.bind_eq_bind, Option.bind_some]
    cases readPieces? t <;> rfl
  · exact fun _ _ _ _ _ h => absurd h hu

/-- A code unit in hexadecimal is one piece. -/
theorem readPieces?_unit {a b c d : Char} {n : Nat} (hn : codeUnit? a b c d = some n) (t : Text) :
    readPieces? ('\\' :: 'u' :: a :: b :: c :: d :: t)
      = (readPieces? t).map fun (pieces, rest) => (.unit n :: pieces, rest) := by
  rw [readPieces?]
  simp only [hn, Option.bind_eq_bind, Option.bind_some]
  cases readPieces? t <;> rfl

/-- Any other character stands for itself. -/
theorem readPieces?_self {c : Char} (hquote : c ≠ '"') (hslash : c ≠ '\\')
    (hc : 0x20 ≤ c.toNat) (t : Text) :
    readPieces? (c :: t)
      = (readPieces? t).map fun (pieces, rest) => (.char c :: pieces, rest) := by
  rw [readPieces?]
  · simp only [hslash, decide_false, Bool.or_false, Nat.not_lt.mpr hc]
    cases readPieces? t <;> rfl
  all_goals simp_all

/-- **What is written for a character is read as one piece.** -/
theorem readPieces?_escapeChar (c : Char) (t : Text) :
    readPieces? (escapeChar c ++ t)
      = (readPieces? t).map fun (pieces, rest) => (Piece.ofChar c :: pieces, rest) := by
  unfold escapeChar
  split
  -- Seven characters are written as a backslash and a letter or sign.
  · exact readPieces?_short rfl t
  · exact readPieces?_short rfl t
  · exact readPieces?_short rfl t
  · exact readPieces?_short rfl t
  · exact readPieces?_short rfl t
  · exact readPieces?_short rfl t
  · exact readPieces?_short rfl t
  · next hquote hslash hb ht hn hf hr =>
    split
    · next hc =>
      have hpiece : Piece.ofChar c = .unit c.toNat := if_pos ⟨hc, by
        simp only [List.mem_cons, List.not_mem_nil, or_false, not_or]
        exact ⟨hb, ht, hn, hf, hr⟩⟩
      rw [hpiece]
      exact readPieces?_unit (codeUnit?_hexDigit hc) t
    · next hc =>
      have hpiece : Piece.ofChar c = .char c := if_neg fun h => hc h.1
      rw [hpiece]
      exact readPieces?_self hquote hslash (Nat.not_lt.mp hc) t

/-- The written form of a text is read as one piece for each of its characters. -/
theorem readPieces?_flatMap (s rest : Text) :
    readPieces? (s.flatMap escapeChar ++ '"' :: rest) = some (s.map Piece.ofChar, rest) := by
  induction s with
  | nil => rw [List.flatMap_nil, List.nil_append, readPieces?, List.map_nil]
  | cons c s ih =>
    rw [List.flatMap_cons, List.append_assoc, readPieces?_escapeChar, ih, List.map_cons]
    rfl

/-- A code unit below the surrogates is joined with none. -/
theorem joinPieces?_unit {n : Nat} (hn : n < 0xd800) (pieces : List Piece) :
    joinPieces? (.unit n :: pieces) = (joinPieces? pieces).map (Char.ofNat n :: ·) := by
  -- What comes next is looked at only after the first half of a surrogate pair.
  have hhigh : ¬ (0xd800 ≤ n ∧ n < 0xdc00) := by omega
  have hlow : ¬ (0xdc00 ≤ n ∧ n < 0xe000) := by omega
  have hnone : ¬ (0xd800 ≤ n ∧ n < 0xe000) := by omega
  match pieces with
  | [] => simp [joinPieces?, hnone]
  | .char c :: rest => simp [joinPieces?, hnone]
  | .unit m :: rest => rw [joinPieces?, if_neg hhigh, if_neg hlow]

/-- **Joining the pieces gives the text back.** -/
theorem joinPieces?_map_ofChar (s : Text) : joinPieces? (s.map Piece.ofChar) = some s := by
  induction s with
  | nil => rw [List.map_nil, joinPieces?]
  | cons c s ih =>
    rw [List.map_cons, Piece.ofChar]
    split
    · next hc =>
      rw [joinPieces?_unit (by omega), ih, Char.ofNat_toNat]
      rfl
    · rw [joinPieces?, ih]
      rfl

/-- **A string is read back**, whatever characters it holds. -/
theorem readString?_escaped (s : String) (rest : Text) :
    readString? (s.toList.flatMap escapeChar ++ '"' :: rest) = some (some s, rest) := by
  simp [readString?, readPieces?_flatMap, joinPieces?_map_ofChar]

/-! ## 4. Characters below U+0020 -/

/-- No character of the text is below U+0020. -/
def Printable (t : Text) : Prop :=
  ∀ c ∈ t, 0x20 ≤ c.toNat

@[simp] theorem printable_nil : Printable [] := nofun

@[simp] theorem printable_cons {c : Char} {t : Text} :
    Printable (c :: t) ↔ 0x20 ≤ c.toNat ∧ Printable t :=
  List.forall_mem_cons

@[simp] theorem printable_append {a b : Text} : Printable (a ++ b) ↔ Printable a ∧ Printable b :=
  List.forall_mem_append

@[simp] theorem printable_toDigits (n : Nat) : Printable (Nat.toDigits 10 n) := by
  intro c hc
  have hdigit := isDigit_of_mem_toDigits hc
  rw [Char.isDigit, Bool.and_eq_true, decide_eq_true_eq, ge_iff_le,
    UInt32.le_iff_toNat_le] at hdigit
  exact Nat.le_trans (by decide) hdigit.1

@[simp] theorem printable_zeros (n : Nat) : Printable (List.replicate n '0') := by
  intro c hc
  obtain rfl := (List.mem_replicate.mp hc).2
  decide

theorem printable_positional (d : Binary64.Decimal) : Printable d.positional.toList := by
  rw [Binary64.Decimal.positional]
  split
  · simp
  · have hpadded : ∀ n, Printable (List.replicate n '0' ++ Nat.toDigits 10 d.digits) := by simp
    simp only [String.toList_append, String.toList_ofList, printable_append]
    exact ⟨⟨fun c hc => hpadded _ c (List.mem_of_mem_take hc), by simp⟩,
      fun c hc => hpadded _ c (List.mem_of_mem_drop hc)⟩

theorem printable_scientific (d : Binary64.Decimal) : Printable d.scientific.toList := by
  have hdigits := printable_toDigits d.digits
  have hmark : ∀ e, Printable (Binary64.Decimal.exponentMark e).toList := by
    intro e
    rw [Binary64.Decimal.exponentMark, Nat.toString_eq_ofList_toDigits]
    split <;> simp
  rw [Binary64.Decimal.scientific]
  split
  · simp
  · next first rest h =>
    rw [h, printable_cons] at hdigits
    split <;> simp [hdigits, hmark]

theorem printable_write (n : Number) : Printable n.write := by
  cases n with
  | nat n => exact printable_toDigits n
  | neg n => simp [Number.write]
  | real negative x =>
    have htext : Printable x.toText.toList := by
      rw [Binary64.toText]
      split
      · simp
      · rw [Binary64.Layout.write]
        split
        · exact printable_positional _
        · exact printable_scientific _
    rw [Number.write, printable_append]
    exact ⟨by split <;> simp, htext⟩

theorem printable_hexDigit {n : Nat} (hn : n < 16) : 0x20 ≤ (hexDigit n).toNat := by
  revert n
  decide

/-- What is written for a character is printable, whatever the character is. -/
theorem printable_escapeChar (c : Char) : Printable (escapeChar c) := by
  unfold escapeChar
  split
  case h_8 =>
    -- A character without a letter of its own is spelled in digits, or printable as it is.
    split
    · next hc =>
      have hhigh := printable_hexDigit (n := c.toNat / 16) (by omega)
      have hlow := printable_hexDigit (n := c.toNat % 16) (Nat.mod_lt _ (by decide))
      simp [hhigh, hlow]
    · next hc => simpa using hc
  all_goals simp

theorem printable_writeString (s : String) : Printable (writeString s) := by
  have hescaped : Printable (s.toList.flatMap escapeChar) := by
    intro c hc
    obtain ⟨d, -, hd⟩ := List.mem_flatMap.mp hc
    exact printable_escapeChar d c hd
  simp [writeString, hescaped]

end Json

end AnchoredEdit
