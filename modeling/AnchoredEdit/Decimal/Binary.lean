/-
`Decimal/Binary.lean` -- nonnegative numbers with a 53-bit mantissa.

A `Binary64` is the magnitude of a finite binary64 number, `mantissa * 2 ^ exponent` with the
mantissa below `2 ^ 53` and the exponent from -1074 to 971. Everything is exact arithmetic on
naturals: an operation forms the exact quotient and rounds it once, to the nearest such number
and to the even mantissa where two are equally near. A result too large to be written that way
is none at all.
-/

set_option autoImplicit false

namespace AnchoredEdit

/-- The power of two with the exponent `n`. -/
def twoTo (n : Nat) : Nat :=
  Nat.pow 2 n

/-- The power of ten with the exponent `n`. -/
def tenTo (n : Nat) : Nat :=
  Nat.pow 10 n

/-- The magnitude `mantissa * 2 ^ exponent`. -/
structure Binary64 where
  mantissa : Nat
  exponent : Int
deriving DecidableEq, Inhabited, Repr

namespace Binary64

/-- The quotient of two naturals, rounded to the nearest natural and to the even one of two. -/
def divEven (num den : Nat) : Nat :=
  let q := num / den
  let r := num % den
  if 2 * r < den then q
  else if den < 2 * r then q + 1
  else if q % 2 = 0 then q
  else q + 1

/-- Multiplies the quotient `num / den` by a power of two. -/
def shift (num den : Nat) (e : Int) : Nat × Nat :=
  if 0 ≤ e then (num * twoTo e.toNat, den) else (num, den * twoTo (-e).toNat)

/-- The exponent with which the quotient `num / den` has 53 bits before the point, but never
below -1074. -/
def exponentFor (num den : Nat) : Int :=
  let guess : Int := (num.log2 : Int) - den.log2 - 52
  let (n, d) := shift num den (-guess)
  max (-1074) (if n / d < twoTo 52 then guess - 1 else guess)

/-- The number nearest to `num / den`; none if that is out of range. -/
def ofRatio? (num den : Nat) : Option Binary64 :=
  if num = 0 then some ⟨0, -1074⟩
  else
    let e := exponentFor num den
    let (n, d) := shift num den (-e)
    let m := divEven n d
    let (m, e) := if m = twoTo 53 then (twoTo 52, e + 1) else (m, e)
    if 971 < e then none else some ⟨m, e⟩

/-- The number nearest to the natural `n`. -/
def ofNat? (n : Nat) : Option Binary64 :=
  ofRatio? n 1

/-- The number nearest to `10 ^ n`. -/
def powerOfTen? (n : Nat) : Option Binary64 :=
  ofNat? (tenTo n)

/-- The product, rounded. -/
def mul? (x y : Binary64) : Option Binary64 :=
  let (n, d) := shift (x.mantissa * y.mantissa) 1 (x.exponent + y.exponent)
  ofRatio? n d

/-- The quotient, rounded; the divisor is not zero. -/
def div? (x y : Binary64) : Option Binary64 :=
  let (n, d) := shift x.mantissa y.mantissa (x.exponent - y.exponent)
  ofRatio? n d

/-- Divides by `10 ^ 308` until at most 308 powers of ten are left to divide by, or nothing
is left of the number. -/
def scaleDown : (steps : Nat) → Binary64 → (powers : Nat) → Option Binary64
  | 0, x, powers => (powerOfTen? powers).bind (div? x)
  | steps + 1, x, powers =>
    if powers ≤ 308 then (powerOfTen? powers).bind (div? x)
    else if x.mantissa = 0 then some x
    else (powerOfTen? 308).bind fun p =>
      (div? x p).bind fun y => scaleDown steps y (powers - 308)

/-- The number nearest to `significand`, scaled by `10 ^ exponent` in one rounded step per
power of ten that can itself be written. -/
def ofDecimal? (significand : Nat) (exponent : Int) : Option Binary64 :=
  (ofNat? significand).bind fun x =>
    if 0 ≤ exponent then
      if x.mantissa = 0 then some x
      else if exponent ≤ 308 then (powerOfTen? exponent.toNat).bind (mul? x)
      else none
    else scaleDown ((-exponent).toNat / 308 + 1) x (-exponent).toNat

end Binary64

end AnchoredEdit
