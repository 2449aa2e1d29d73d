/-!
# Doubles as exact numbers

A finite double is `mantissa * 2 ^ exponent` for a natural mantissa and an integer exponent. This file
reads that form off the sixty-four bits, and writes the double nearest to a ratio of naturals, so that
every conversion between doubles and text, and every operation that must be exact, is arithmetic on
`Nat` and `Int`.
-/

set_option autoImplicit false

namespace Primer.Number

/-- The exact size of a finite double: `mantissa * 2 ^ exponent`. -/
structure Magnitude where
  mantissa : Nat
  exponent : Int
  deriving Repr, DecidableEq, Inhabited

/-- The least exponent of a magnitude: the weight of the last bit of a subnormal double is `2 ^ (-1074)`. -/
def leastExponent : Int := -1074

/-- The bit pattern of positive infinity. -/
def infinityBits : Nat := 0x7ff * Nat.pow 2 52

/-- The sign bit: set for negative numbers and for negative zero. -/
def isNegative (x : Float) : Bool := x.toBits.toNat / Nat.pow 2 63 == 1

/-- The exponent field, biased by 1023. -/
def exponentField (x : Float) : Nat := x.toBits.toNat / Nat.pow 2 52 % Nat.pow 2 11

/-- The fraction field. -/
def fractionField (x : Float) : Nat := x.toBits.toNat % Nat.pow 2 52

/-- Whether `x` is neither infinite nor NaN. -/
def isFinite (x : Float) : Bool := exponentField x != 0x7ff

/-- Whether `x` is one of the two infinities. -/
def isInfinite (x : Float) : Bool := exponentField x == 0x7ff && fractionField x == 0

/-- Whether `x` is not a number. -/
def isNaN (x : Float) : Bool := exponentField x == 0x7ff && fractionField x != 0

/-- The size of a finite double. The hidden bit is added for normal doubles. -/
def magnitude (x : Float) : Magnitude :=
  if exponentField x = 0 then
    ⟨fractionField x, leastExponent⟩
  else
    ⟨fractionField x + Nat.pow 2 52, (exponentField x : Int) - 1075⟩

/-- Multiplies a natural by `2 ^ e`, dropping a fractional part when `e` is negative. -/
def scale (n : Nat) (e : Int) : Nat :=
  if 0 ≤ e then n * Nat.pow 2 e.toNat else n / Nat.pow 2 (-e).toNat

/-- A quotient rounded to the nearest natural, a tie going to the even one. -/
def roundHalfEven (num den : Nat) : Nat :=
  let q := num / den
  let r := num % den
  if 2 * r < den then q
  else if den < 2 * r then q + 1
  else if q % 2 = 0 then q else q + 1

/-- The mantissa, before rounding, of `num / den` at the exponent `e`: the ratio
`num / (den * 2 ^ e)` as a pair of naturals. -/
def ratioAt (num den : Nat) (e : Int) : Nat × Nat :=
  if 0 ≤ e then (num, den * Nat.pow 2 e.toNat) else (num * Nat.pow 2 (-e).toNat, den)

/-- The exponent at which the mantissa of `num / den` has fifty-three bits, or the least exponent. -/
def mantissaExponent (num den : Nat) : Int :=
  let guess : Int := (Nat.log2 num : Int) - (Nat.log2 den : Int) - 52
  let (n, d) := ratioAt num den guess
  let tight := if n / d < Nat.pow 2 52 then guess - 1 else guess
  if tight < leastExponent then leastExponent else tight

/-- The bit pattern of the non-negative double nearest to `num / den`, ties to the even mantissa; a
ratio beyond the largest double gives infinity. -/
def nearestBits (num den : Nat) : Nat :=
  if num = 0 then 0
  else
    let e := mantissaExponent num den
    let (n, d) := ratioAt num den e
    let bits := (e - leastExponent).toNat * Nat.pow 2 52 + roundHalfEven n d
    if infinityBits ≤ bits then infinityBits else bits

/-- The double with the given bit pattern. -/
def ofBitPattern (bits : Nat) : Float := Float.ofBits bits.toUInt64

/-- The double with a bit pattern of the non-negative doubles, negated on request. -/
def withSign (negative : Bool) (bits : Nat) : Float :=
  ofBitPattern (if negative then bits + Nat.pow 2 63 else bits)

/-- The double nearest to `num / den`, negated on request. -/
def nearest (negative : Bool) (num den : Nat) : Float :=
  withSign negative (nearestBits num den)

/-- The double nearest to an integer. -/
def ofInt (n : Int) : Float := nearest (n < 0) n.natAbs 1

/-- The double nearest to a length. Lengths are machine integers of sixty-four bits. -/
def ofLength (n : Nat) : Float := n.toUInt64.toFloat

/-- Not a number. -/
def nan : Float := ofBitPattern (0x7ff8 * Nat.pow 2 48)

/-- Positive or negative infinity. -/
def infinity (negative : Bool) : Float := withSign negative infinityBits

/-- The least signed integer of sixty-four bits. -/
def leastWord : Int := -9223372036854775808

/-- Whether an integer is a signed one of sixty-four bits. -/
def fitsWord (n : Int) : Bool := leastWord ≤ n && n < -leastWord

end Primer.Number
