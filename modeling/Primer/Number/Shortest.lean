import Primer.Number.Binary

/-!
# The fewest digits that read back

For a finite non-zero double this file finds the decimal with the fewest significant digits that
rounds to it, and among those the one nearest to it. The reals that round to `m * 2 ^ q` form an
interval around it, whose ends belong to it exactly when `m` is even. For one, two, three and more
digits the two neighbours of the number on that decimal grid are tried; a number has at most seventeen
digits to try.
-/

set_option autoImplicit false

namespace Primer.Number

/-- A decimal `digits * 10 ^ exponent`. -/
structure Decimal where
  digits : Nat
  exponent : Int
  deriving Repr, DecidableEq, Inhabited

/-- A non-negative rational, as an unreduced pair. -/
structure Ratio where
  num : Nat
  den : Nat
  deriving Repr, DecidableEq, Inhabited

namespace Ratio

/-- Comparison by cross multiplication. -/
def le (a b : Ratio) : Bool := a.num * b.den ≤ b.num * a.den

/-- Strict comparison by cross multiplication. -/
def lt (a b : Ratio) : Bool := a.num * b.den < b.num * a.den

/-- The rational `n * b ^ e`. -/
def ofPower (n b : Nat) (e : Int) : Ratio :=
  if 0 ≤ e then ⟨n * Nat.pow b e.toNat, 1⟩ else ⟨n, Nat.pow b (-e).toNat⟩

end Ratio

/-- The rational that a decimal denotes. -/
def Decimal.value (d : Decimal) : Ratio := Ratio.ofPower d.digits 10 d.exponent

/-- The reals that round to one double: from `low` to `high`, ends included or not. -/
structure Interval where
  low : Ratio
  high : Ratio
  closed : Bool
  deriving Repr, Inhabited

/-- Whether a rational lies in the interval. -/
def Interval.contains (i : Interval) (r : Ratio) : Bool :=
  if i.closed then i.low.le r && r.le i.high else i.low.lt r && r.lt i.high

/-- The interval of the reals that round to a magnitude. Below a power of two the next double is
half as far away, except at the least exponent. -/
def roundingInterval (m : Magnitude) : Interval :=
  let narrow := m.mantissa = Nat.pow 2 52 && leastExponent < m.exponent
  { low := Ratio.ofPower (4 * m.mantissa - (if narrow then 1 else 2)) 2 (m.exponent - 2)
    high := Ratio.ofPower (4 * m.mantissa + 2) 2 (m.exponent - 2)
    closed := m.mantissa % 2 = 0 }

/-- Raises `guess` while `10 ^ (guess + 1)` is not above the ratio, at most `steps` times. -/
def raiseExponent (r : Ratio) : Nat → Int → Int
  | 0, guess => guess
  | steps + 1, guess =>
    if (Ratio.ofPower 1 10 (guess + 1)).le r then raiseExponent r steps (guess + 1) else guess

/-- The decimal exponent of a positive ratio: the `e` with `10 ^ e ≤ r < 10 ^ (e + 1)`. The binary
exponents give a guess from below that is off by at most a few. -/
def decimalExponent (r : Ratio) : Int :=
  let binary : Int := (Nat.log2 r.num : Int) - (Nat.log2 r.den : Int) - 1
  raiseExponent r 6 ((binary * 30103) / 100000 - 2)

/-- The number of grid units `10 ^ g` that fit into the ratio, and the two remainders that tell
which neighbour is nearer: what is left over and the unit, over a common denominator. -/
def gridNeighbour (r : Ratio) (g : Int) : Nat × Nat × Nat :=
  let (n, d) := if 0 ≤ g then (r.num, r.den * Nat.pow 10 g.toNat) else (r.num * Nat.pow 10 (-g).toNat, r.den)
  (n / d, n % d, d)

/-- The nearer of the two neighbours of the ratio on the grid `10 ^ g` that lie in the interval, if
one does. A tie goes to the even neighbour. -/
def hitOnGrid (i : Interval) (r : Ratio) (g : Int) : Option Decimal :=
  let (q, rest, unit) := gridNeighbour r g
  let below : Decimal := ⟨q, g⟩
  let above : Decimal := ⟨q + 1, g⟩
  let belowIn := 0 < q && i.contains below.value
  let aboveIn := i.contains above.value
  let preferBelow := 2 * rest < unit || (2 * rest = unit && q % 2 = 0)
  if belowIn && aboveIn then some (if preferBelow then below else above)
  else if belowIn then some below
  else if aboveIn then some above
  else none

/-- Drops trailing zeros of the digits, at most `steps` of them. -/
def dropZeros : Nat → Decimal → Decimal
  | 0, d => d
  | steps + 1, d =>
    if d.digits % 10 = 0 && 0 < d.digits then dropZeros steps ⟨d.digits / 10, d.exponent + 1⟩ else d

/-- Tries grids of `count`, `count + 1`, … digits and takes the first hit. -/
def searchDigits (i : Interval) (r : Ratio) (e : Int) : Nat → Nat → Decimal
  | 0, count => ⟨(gridNeighbour r (e + 1 - count)).1, e + 1 - count⟩
  | steps + 1, count =>
    match hitOnGrid i r (e + 1 - count) with
    | some d => d
    | none => searchDigits i r e steps (count + 1)

/-- The decimal with the fewest digits that rounds to a finite non-zero double's size, without
trailing zeros. -/
def shortestDecimal (m : Magnitude) : Decimal :=
  let r := Ratio.ofPower m.mantissa 2 m.exponent
  let i := roundingInterval m
  dropZeros 20 (searchDigits i r (decimalExponent r) 17 1)

end Primer.Number
