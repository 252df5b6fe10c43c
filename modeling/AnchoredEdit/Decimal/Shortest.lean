/-
`Decimal/Shortest.lean` -- the fewest decimal digits that read back as a given number.

Around a number lies the interval of reals that round to it: up to half the distance to its
neighbours, the ends included exactly if its mantissa is even. Below a power of two the lower
neighbour is only half as far. For one digit, two digits, and so on, the two neighbours of the
number on the grid of decimals with that many digits are tried; the first grid with a hit has
the fewest digits, and of two hits the nearer one is taken. Seventeen digits always suffice.

As text, numbers of ordinary size are written with a point only, and all others with one digit
before the point and an exponent.
-/
import AnchoredEdit.Decimal.Binary

set_option autoImplicit false

namespace AnchoredEdit

namespace Binary64

/-! ## 1. The shortest decimal -/

/-- Compares `a * 2 ^ s` with `c * 10 ^ t`. -/
def compareScaled (a : Nat) (s : Int) (c : Nat) (t : Int) : Ordering :=
  compare (a * twoTo s.toNat * tenTo (-t).toNat) (c * tenTo t.toNat * twoTo (-s).toNat)

/-- The number of places by which a number below one has to be moved up to reach one. -/
def leadingPlaces (a : Nat) (s : Int) : (tries : Nat) → Nat → Nat
  | 0, k => k
  | tries + 1, k =>
    if compareScaled a s 1 (-(k : Int)) = .lt then leadingPlaces a s tries (k + 1) else k

/-- The power of ten of the first digit of `a * 2 ^ s`, which is not zero. -/
def leadingPower (a : Nat) (s : Int) : Int :=
  let whole := (a * twoTo s.toNat) / twoTo (-s).toNat
  if whole = 0 then -(leadingPlaces a s 400 1 : Int)
  else (Nat.toDigits 10 whole).length - 1

/-- A decimal `digits * 10 ^ power`. -/
structure Decimal where
  digits : Nat
  power : Int
deriving DecidableEq, Inhabited, Repr

/-- The decimals on the grid `10 ^ t` next to `a * 2 ^ s` that lie between `lo * 2 ^ s` and
`hi * 2 ^ s`; the nearer one of two. -/
def onGrid? (a lo hi : Nat) (s : Int) (closed : Bool) (t : Int) : Option Decimal :=
  let below := (a * twoTo s.toNat * tenTo (-t).toNat) / (tenTo t.toNat * twoTo (-s).toNat)
  let fits (c : Nat) : Bool :=
    match compareScaled lo s c t, compareScaled hi s c t with
    | .lt, .gt => true
    | .eq, _ => closed
    | _, .eq => closed
    | _, _ => false
  match fits below, fits (below + 1) with
  | true, true =>
    match compareScaled (2 * a) s (2 * below + 1) t with
    | .gt => some ⟨below + 1, t⟩
    | .lt => some ⟨below, t⟩
    | .eq => some ⟨if below % 2 = 0 then below else below + 1, t⟩
  | true, false => some ⟨below, t⟩
  | false, true => some ⟨below + 1, t⟩
  | false, false => none

/-- The shortest decimal that reads back as `x`, which is not zero. -/
def shortest (x : Binary64) : Decimal :=
  let a := 4 * x.mantissa
  let lo := if x.mantissa = twoTo 52 && -1074 < x.exponent then a - 1 else a - 2
  let s := x.exponent - 2
  let lead := leadingPower a s
  let tries := (List.range 17).map fun (n : Nat) => lead - n
  (tries.findSome? (onGrid? a lo (a + 2) s (x.mantissa % 2 = 0))).getD ⟨x.mantissa, x.exponent⟩

/-! ## 2. Decimals as text -/

namespace Decimal

/-- The decimal without the zeros at the end of its digits; `fuel` bounds their number. -/
def trim : (fuel : Nat) → Decimal → Decimal
  | 0, d => d
  | fuel + 1, d =>
    if d.digits ≠ 0 ∧ d.digits % 10 = 0 then trim fuel ⟨d.digits / 10, d.power + 1⟩ else d

/-- The power of ten of the first digit. -/
def firstPower (d : Decimal) : Int :=
  d.power + ((Nat.toDigits 10 d.digits).length - 1 : Nat)

/-- The digits written out with a point, without an exponent. -/
def positional (d : Decimal) : String :=
  let digits := Nat.toDigits 10 d.digits
  if 0 ≤ d.power then
    String.ofList (digits ++ List.replicate d.power.toNat '0') ++ ".0"
  else
    let places := (-d.power).toNat
    let padded := List.replicate (places + 1 - digits.length) '0' ++ digits
    String.ofList (padded.take (padded.length - places)) ++ "."
      ++ String.ofList (padded.drop (padded.length - places))

/-- The exponent mark, always with a sign. -/
def exponentMark (e : Int) : String :=
  (if e < 0 then "e-" else "e+") ++ toString e.natAbs

/-- The first digit, a point before the others if there are any, and an exponent. -/
def scientific (d : Decimal) : String :=
  let point := if d.digits < 10 then "" else "."
  match Nat.toDigits 10 d.digits with
  | [] => "0.0"
  | first :: rest =>
    String.ofList [first] ++ point ++ String.ofList rest ++ exponentMark d.firstPower

end Decimal

/-- Which decimals are written without an exponent, by the power of their first digit. -/
structure Layout where
  lowest : Int
  highest : Int
deriving DecidableEq, Inhabited, Repr

/-- Positional from `0.00001` up to sixteen digits before the point. -/
def layout : Layout :=
  ⟨-5, 15⟩

/-- The decimal in the way that the layout asks for. -/
def Layout.write (l : Layout) (d : Decimal) : String :=
  if l.lowest ≤ d.firstPower ∧ d.firstPower ≤ l.highest then d.positional else d.scientific

/-- The number as decimal text: the fewest digits that read back, with an exponent where the
number is very large or very small. -/
def toText (x : Binary64) : String :=
  if x.mantissa = 0 then "0.0" else layout.write (x.shortest.trim 17)

end Binary64

end AnchoredEdit
