import Primer.Number.Exact

/-!
# Powers

A power with a whole exponent is a product: the base is split into a fraction and a power of two, the fractions are
multiplied by repeated squaring, and the powers of two are added up. What the exponent has behind its point counts
as a factor of its own, which is found with the exponential and the logarithm.
-/

set_option autoImplicit false

namespace Primer.Number

/-- Whether a number is an odd integer. -/
def isOdd (x : Float) : Bool := isFinite x && !hasFraction x && wholePart x % 2 == 1

/-- The power of a zero. An odd exponent keeps the sign. -/
def zeroPower (x y : Float) : Float :=
  let signed := isNegative x && isOdd y
  if y < 0.0 then infinity signed
  else if signed then x
  else 0.0

/-- The power of a number whose exponent is so large that it has no other. -/
def extremePower (x : Float) (growing : Bool) : Float :=
  if x == -1.0 then 1.0
  else if decide (abs x < 1.0) == growing then 0.0
  else infinity false

/-- A product and a power of two: `fraction` and `exponent` are multiplied by `base` and `weight`, as often as the
last argument says. -/
def repeatedSquares (fraction base : Float) (exponent weight : Int) (count : Nat) : Float × Int :=
  if _h : count = 0 then (fraction, exponent)
  else if weight < -4096 || 4096 < weight then (fraction, exponent + weight)
  else
    let (fraction, exponent) :=
      if count % 2 = 1 then (fraction * base, exponent + weight) else (fraction, exponent)
    let square := base * base
    if square < 0.5 then repeatedSquares fraction (square + square) exponent (2 * weight - 1) (count / 2)
    else repeatedSquares fraction square exponent (2 * weight) (count / 2)
termination_by count
decreasing_by all_goals omega

/-- The power of a finite number that is not zero, with a finite exponent that is not zero. -/
def finitePower (x y : Float) : Float :=
  let size := abs y
  let rest := size - floor size
  if rest != 0.0 && x < 0.0 then nan
  else if 9223372036854775808.0 ≤ size then extremePower x (0.0 < y)
  else
    -- The whole exponent is the nearest one, so that what is left for the factor is at most a half.
    let (rest, count) := if 0.5 < rest then (rest - 1.0, wholePart size + 1) else (rest, wholePart size)
    let factor := if rest == 0.0 then 1.0 else Float.exp (rest * Float.log x)
    let (base, weight) := x.frExp
    let (fraction, exponent) := repeatedSquares factor base 0 weight count
    if y < 0.0 then (1.0 / fraction).scaleB (-exponent) else fraction.scaleB exponent

/-- One number to the power of another. -/
def power (x y : Float) : Float :=
  if y == 0.0 || x == 1.0 then 1.0
  else if y == 1.0 then x
  else if isNaN x || isNaN y then nan
  else if x == 0.0 then zeroPower x y
  else if isInfinite y then extremePower x (0.0 < y)
  else if isInfinite x then
    if isNegative x then zeroPower (-0.0) (-y) else if y < 0.0 then 0.0 else infinity false
  else if y == 0.5 then Float.sqrt x
  else if y == -0.5 then 1.0 / Float.sqrt x
  else finitePower x y

end Primer.Number
