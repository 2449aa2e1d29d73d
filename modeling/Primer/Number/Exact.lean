import Primer.Number.Binary

/-!
# Exact operations on doubles

The operations whose result is always a double again, so that no rounding takes part: the whole part of a number, going
down, up or to the nearest, the remainder of a division that goes toward zero, and the smaller and larger of two numbers
with `-0` below `0`.
-/

set_option autoImplicit false

namespace Primer.Number

/-- The whole part of a finite number's size. -/
def wholePart (x : Float) : Nat :=
  let m := magnitude x
  scale m.mantissa m.exponent

/-- Whether a finite number has a fractional part. -/
def hasFraction (x : Float) : Bool :=
  let m := magnitude x
  if 0 ≤ m.exponent then false else m.mantissa % Nat.pow 2 (-m.exponent).toNat != 0

/-- Whether `x` equals its whole part. Infinities count as whole, NaN does not. -/
def isWhole (x : Float) : Bool :=
  if isFinite x then !hasFraction x else isInfinite x

/-- The integer that is left of a finite number without its fractional part. -/
def integerPart (x : Float) : Int := if x < 0.0 then -(wholePart x : Int) else wholePart x

/-- The integer that a whole finite number is, if it is one. -/
def toInt? (x : Float) : Option Int :=
  if isFinite x && !hasFraction x then
    some (if isNegative x then -(wholePart x : Int) else wholePart x)
  else none

/-- A double of a given sign with a whole size; keeps the sign of zero. -/
def wholeWithSign (negative : Bool) (n : Nat) : Float := nearest negative n 1

/-- The largest whole number that is not above `x`. -/
def floor (x : Float) : Float :=
  if isFinite x then
    let up := isNegative x && hasFraction x
    wholeWithSign (isNegative x) (if up then wholePart x + 1 else wholePart x)
  else x

/-- The smallest whole number that is not below `x`. -/
def ceil (x : Float) : Float :=
  if isFinite x then
    let up := !isNegative x && hasFraction x
    wholeWithSign (isNegative x) (if up then wholePart x + 1 else wholePart x)
  else x

/-- The nearest whole number, a half going up. -/
def round (x : Float) : Float :=
  let f := floor x
  if (0.5 : Float) ≤ x - f then f + 1.0 else f

/-- The size of a number without its sign. -/
def abs (x : Float) : Float :=
  if isNegative x then -x else x

/-- The remainder of `x / y` for finite `x` and finite non-zero `y`: exact, with the sign of `x`. -/
def finiteRemainder (x y : Float) : Float :=
  let a := magnitude x
  let b := magnitude y
  let e := if a.exponent ≤ b.exponent then a.exponent else b.exponent
  let m := scale a.mantissa (a.exponent - e)
  let n := scale b.mantissa (b.exponent - e)
  let (num, den) := if 0 ≤ e then ((m % n) * Nat.pow 2 e.toNat, 1) else (m % n, Nat.pow 2 (-e).toNat)
  nearest (isNegative x) num den

/-- The remainder of a division whose quotient goes toward zero. -/
def remainder (x y : Float) : Float :=
  if isNaN x || isNaN y || isInfinite x || y == 0.0 then nan
  else if isInfinite y then x
  else finiteRemainder x y

/-- The smaller of two numbers that are not NaN; `-0` is below `0`. -/
def least (x y : Float) : Float :=
  if x < y then x
  else if y < x then y
  else if isNegative x then x else y

/-- The larger of two numbers that are not NaN; `-0` is below `0`. -/
def greatest (x y : Float) : Float :=
  if y < x then x
  else if x < y then y
  else if isNegative x then y else x

end Primer.Number
