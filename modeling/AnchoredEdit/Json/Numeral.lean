/-
`Json/Numeral.lean` -- numbers as JSON writes them.

A numeral is a sign, digits, perhaps a fraction, perhaps an exponent. Without fraction and
exponent it denotes an integer as long as that fits 64 bits: unsigned, or signed if it is
negative. Any other numeral, minus zero included, denotes a binary64 number. Its significand
is what fits 64 bits of its leading digits; the digits left over before the point only raise
the exponent, and those after it are dropped. A numeral out of that range denotes nothing.
-/
import AnchoredEdit.Decimal.Shortest
import AnchoredEdit.Text.Bytes
import AnchoredEdit.Words

set_option autoImplicit false

namespace AnchoredEdit

namespace Json

/-! ## 1. Numbers -/

/-- A number that a numeral denotes. -/
inductive Number where
  /-- An integer that is not negative. -/
  | nat (n : Nat)
  /-- The integer `-n`. -/
  | neg (n : Nat)
  | real (negative : Bool) (magnitude : Binary64)
deriving DecidableEq, Inhabited, Repr

/-- The integer `n` as a number. -/
def Number.ofInt : Int → Number
  | .ofNat n => .nat n
  | .negSucc n => .neg (n + 1)

/-! ## 2. Numerals -/

/-- The parts of a numeral, each as the digits it is written with. -/
structure Numeral where
  negative : Bool
  whole : Text
  fraction : Text
  /-- Whether the exponent is negative, and its digits. -/
  exponent : Option (Bool × Text)
deriving DecidableEq, Inhabited, Repr

/-- The value of a decimal digit. -/
def digitValue (c : Char) : Nat :=
  c.toNat - '0'.toNat

/-- The natural that a text of decimal digits denotes. -/
def natOfDigits (digits : Text) : Nat :=
  digits.foldl (fun n c => 10 * n + digitValue c) 0

/-- The digits at the front of a text, and the rest. -/
def takeDigits (t : Text) : Text × Text :=
  (t.takeWhile (·.isDigit), t.dropWhile (·.isDigit))

namespace Numeral

/-- The digits before the point: no leading zero unless it stands alone. -/
def readWhole? (t : Text) : Option (Text × Text) :=
  match takeDigits t with
  | ([], _) => none
  | ('0' :: _ :: _, _) => none
  | (digits, rest) => some (digits, rest)

/-- The digits after the point, if there is one. -/
def readFraction? : Text → Option (Text × Text)
  | '.' :: t =>
    match takeDigits t with
    | ([], _) => none
    | (digits, rest) => some (digits, rest)
  | t => some ([], t)

/-- The exponent after its letter and sign. -/
def readPower? (negative : Bool) (t : Text) : Option (Option (Bool × Text) × Text) :=
  match takeDigits t with
  | ([], _) => none
  | (digits, rest) => some (some (negative, digits), rest)

/-- The exponent, if there is one. -/
def readExponent? : Text → Option (Option (Bool × Text) × Text)
  | c :: t =>
    if c = 'e' || c = 'E' then
      match t with
      | '-' :: t => readPower? true t
      | '+' :: t => readPower? false t
      | t => readPower? false t
    else some (none, c :: t)
  | [] => some (none, [])

/-- The numeral at the front of a text, and the rest. -/
def read? (t : Text) : Option (Numeral × Text) := do
  let (negative, t) := match t with
    | '-' :: t => (true, t)
    | t => (false, t)
  let (whole, t) ← readWhole? t
  let (fraction, t) ← readFraction? t
  let (exponent, t) ← readExponent? t
  pure (⟨negative, whole, fraction, exponent⟩, t)

/-! ## 3. What a numeral denotes -/

/-- Appends digits to a significand as long as it fits 64 bits. The number of digits that were
left over is the second part. -/
def extend (significand : Nat) : Text → Nat × Nat
  | [] => (significand, 0)
  | c :: rest =>
    let next := 10 * significand + digitValue c
    if next < wordCount then extend next rest else (significand, rest.length + 1)

/-- The exponent as an integer. -/
def power (n : Numeral) : Int :=
  match n.exponent with
  | none => 0
  | some (true, digits) => -(natOfDigits digits : Int)
  | some (false, digits) => natOfDigits digits

/-- The binary64 number of a numeral. -/
def real? (n : Numeral) : Option Number :=
  -- A digit that did not fit before the point does not keep a smaller one after it from fitting.
  let (significand, raised) := extend 0 n.whole
  let (significand, dropped) := extend significand n.fraction
  let taken : Int := n.fraction.length - dropped
  (Binary64.ofDecimal? significand (raised - taken + n.power)).map (.real n.negative)

/-- The number that a numeral denotes. -/
def number? (n : Numeral) : Option Number :=
  if n.fraction = [] && n.exponent = none then
    let value := natOfDigits n.whole
    if n.negative then
      if 0 < value && value ≤ signedBound then some (.neg value) else n.real?
    else
      if value < wordCount then some (.nat value) else n.real?
  else n.real?

end Numeral

end Json

end AnchoredEdit
