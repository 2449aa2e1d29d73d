import Primer.Number.Exact

/-!
# Numbers of half the width

Rounding to a number that fits into thirty-two bits, and the integers of a given width that a number
becomes.
-/

set_option autoImplicit false

namespace Primer.Number

/-- The exponent at which a mantissa fits into twenty-four bits, not below that of the smallest number. -/
def singleExponent (m : Magnitude) : Int :=
  let fitting : Int := m.exponent + (Nat.log2 m.mantissa : Int) - 23
  if fitting < -149 then -149 else fitting

/-- The nearest number of thirty-two bits, ties to the even mantissa; what is too large becomes infinite. -/
def toSingle (x : Float) : Float :=
  if isFinite x then
    let m := magnitude x
    let e := singleExponent m
    if e ≤ m.exponent then x
    else
      let mantissa := roundHalfEven m.mantissa (Nat.pow 2 (e - m.exponent).toNat)
      if 0 ≤ e then
        if Nat.pow 2 128 ≤ mantissa * Nat.pow 2 e.toNat then infinity (isNegative x)
        else nearest (isNegative x) (mantissa * Nat.pow 2 e.toNat) 1
      else nearest (isNegative x) mantissa (Nat.pow 2 (-e).toNat)
  else x

/-- The signed integer of `bits` bits that an integer becomes. It first goes into sixty-four bits, where
everything out of range becomes the least one, and then loses its upper bits. -/
def wrapSigned (bits : Nat) (n : Int) : Int :=
  let wide := if fitsWord n then n else leastWord
  Int.bmod wide (Nat.pow 2 bits)

/-- The unsigned integer of `bits` bits that a natural number becomes. It first goes into sixty-four bits,
where everything out of range becomes the middle one, and then loses its upper bits. -/
def wrapUnsigned (bits : Nat) (n : Nat) : Nat :=
  let wide := if n < Nat.pow 2 64 then n else Nat.pow 2 63
  wide % Nat.pow 2 bits

end Primer.Number
