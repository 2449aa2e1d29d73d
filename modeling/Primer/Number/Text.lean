import Primer.Breakdown
import Primer.Number.Shortest

/-!
# Numbers as text

A decimal is written from its digits and the position of its point. `render` gives the text of a
number value: positional between one millionth and `10 ^ 21`, with an exponent elsewhere.
`renderLiteral` gives the text of a number literal that was built without one.

A number value is written by cutting its digits where the point goes, and such a cut can break down.
`render?` and the functions below it cut as the engine does; what they write is what `render` and its
functions write.
-/

set_option autoImplicit false

namespace Primer.Number

/-- The decimal digits of a natural, most significant first. -/
def digitChars (n : Nat) : List Char := Nat.toDigits 10 n

/-- A run of zeros. -/
def zeros (n : Nat) : List Char := List.replicate n '0'

/-- An exponent with its sign, padded with zeros to a least width. -/
def exponentChars (width : Nat) (e : Int) : List Char :=
  let ds := digitChars e.natAbs
  (if e < 0 then '-' else '+') :: (zeros (width - ds.length) ++ ds)

/-- Digits with the point after the first `point` of them; `point` may lie outside the digits. -/
def positional (ds : List Char) (point : Int) : List Char :=
  if (ds.length : Int) ≤ point then ds ++ zeros (point.toNat - ds.length)
  else if 0 < point then ds.take point.toNat ++ '.' :: ds.drop point.toNat
  else '0' :: '.' :: (zeros (-point).toNat ++ ds)

/-- Digits with one digit before the point and an exponent. -/
def scientific (width : Nat) (ds : List Char) (point : Int) : List Char :=
  let fraction := match ds.drop 1 with
    | [] => []
    | rest => '.' :: rest
  ds.take 1 ++ fraction ++ 'e' :: exponentChars width (point - 1)

/-- How numbers are laid out: which positions of the point are written without an exponent, and how
many digits an exponent has at least. -/
structure Layout where
  lowestPoint : Int
  highestPoint : Int
  exponentWidth : Nat
  deriving Repr, DecidableEq

/-- Values are positional from one millionth up to below `10 ^ 21`. -/
def Layout.value : Layout := ⟨-5, 21, 1⟩

/-- Literals are positional from one ten-thousandth up to below one million. -/
def Layout.literal : Layout := ⟨-3, 6, 2⟩

/-- The text of a decimal without trailing zeros. -/
def Layout.write (l : Layout) (d : Decimal) : List Char :=
  let ds := digitChars d.digits
  let point := (ds.length : Int) + d.exponent
  if l.lowestPoint ≤ point && point ≤ l.highestPoint then positional ds point
  else scientific l.exponentWidth ds point

/-- The text of a finite non-zero number. -/
def Layout.writeFinite (l : Layout) (x : Float) : String :=
  let body := l.write (shortestDecimal (magnitude x))
  String.ofList (if isNegative x then '-' :: body else body)

/-- The text of a number value: the fewest digits that read back. Both zeros are written `0`. -/
def render (x : Float) : String :=
  if isNaN x then "NaN"
  else if isInfinite x then (if isNegative x then "-Infinity" else "Infinity")
  else if (magnitude x).mantissa = 0 then "0"
  else Layout.value.writeFinite x

/-- Digits with the point after the first `point` of them, cut there. -/
def positional? (ds : List Char) (point : Int) : Except Breakdown (List Char) :=
  if (ds.length : Int) ≤ point then do
    let behind ← repeated (point - ds.length) '0'
    .ok (ds ++ behind)
  else if 0 < point then do
    let whole ← cutTo ds point
    let fraction ← cutFrom ds point
    .ok (whole ++ '.' :: fraction)
  else do
    let before ← repeated (-point) '0'
    .ok ('0' :: '.' :: (before ++ ds))

/-- Digits with one digit before the point and an exponent, cut behind the first digit. -/
def scientific? (width : Nat) (ds : List Char) (point : Int) : Except Breakdown (List Char) :=
  let exponent := 'e' :: exponentChars width (point - 1)
  if ds.length = 1 then .ok (ds ++ exponent)
  else do
    let whole ← cutTo ds 1
    let fraction ← cutFrom ds 1
    .ok (whole ++ '.' :: fraction ++ exponent)

/-- The text of a decimal without trailing zeros, with its digits cut. -/
def Layout.write? (l : Layout) (d : Decimal) : Except Breakdown (List Char) :=
  let ds := digitChars d.digits
  let point := (ds.length : Int) + d.exponent
  if l.lowestPoint ≤ point && point ≤ l.highestPoint then positional? ds point
  else scientific? l.exponentWidth ds point

/-- The text of a number value, or the breakdown of writing it. -/
def render? (x : Float) : Except Breakdown String :=
  if isNaN x then .ok "NaN"
  else if isInfinite x then .ok (if isNegative x then "-Infinity" else "Infinity")
  else if (magnitude x).mantissa = 0 then .ok "0"
  else do
    let body ← Layout.value.write? (shortestDecimal (magnitude x))
    .ok (String.ofList (if isNegative x then '-' :: body else body))

/-- The text of a number literal that carries no text of its own. -/
def renderLiteral (x : Float) : String :=
  if isNaN x then "NaN"
  else if isInfinite x then (if isNegative x then "-Inf" else "+Inf")
  else if (magnitude x).mantissa = 0 then (if isNegative x then "-0" else "0")
  else Layout.literal.writeFinite x

end Primer.Number
