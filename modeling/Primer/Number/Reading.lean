import Primer.Number.Binary

/-!
# Reading numbers

A decimal numeral is an optional sign, digits with an optional point among them, and an optional
exponent. It denotes an exact rational; `readDecimal` gives the nearest double. A value too large for
a double is told apart from a text that is no numeral, because some callers refuse it and others take
infinity.
-/

set_option autoImplicit false

namespace Primer.Number

/-- A decimal numeral: a sign, the digits before and after the point, and the exponent. -/
structure Numeral where
  negative : Bool
  whole : List Char
  fraction : List Char
  exponent : Int
  deriving Repr, DecidableEq

/-- The value of a decimal digit. -/
def digitValue (c : Char) : Nat := c.toNat - '0'.toNat

/-- The value of a digit sequence in base ten. -/
def decimalValue (cs : List Char) : Nat := cs.foldl (fun n c => 10 * n + digitValue c) 0

/-- Splits an optional sign off a text. -/
def splitSign : List Char → Bool × List Char
  | '-' :: cs => (true, cs)
  | '+' :: cs => (false, cs)
  | cs => (false, cs)

/-- Reads an exponent part: nothing, or `e` with an optional sign and at least one digit, up to the
end of the text. -/
def readExponent : List Char → Option Int
  | [] => some 0
  | c :: cs =>
    if c = 'e' || c = 'E' then
      let (negative, ds) := splitSign cs
      if ds.isEmpty || !ds.all Char.isDigit then none
      else some (if negative then -(decimalValue ds : Int) else decimalValue ds)
    else none

/-- Reads a whole text as a decimal numeral; at least one digit must stand before the exponent. -/
def readNumeral (cs : List Char) : Option Numeral :=
  let (negative, cs) := splitSign cs
  let whole := cs.takeWhile Char.isDigit
  let rest := cs.dropWhile Char.isDigit
  let (fraction, rest) := match rest with
    | '.' :: tail => (tail.takeWhile Char.isDigit, tail.dropWhile Char.isDigit)
    | _ => ([], rest)
  if whole.isEmpty && fraction.isEmpty then none
  else (readExponent rest).map fun e => ⟨negative, whole, fraction, e⟩

/-- Reads an exact size `n * 10 ^ e` as the bit pattern of the nearest double. Sizes that are certainly
beyond the largest or below half the smallest double are settled without computing the power. -/
def nearestDecimalBits (n : Nat) (e : Int) : Nat :=
  let count : Int := (Nat.toDigits 10 n).length
  if n = 0 then 0
  else if 310 < count + e then infinityBits
  else if count + e < -330 then 0
  else if 0 ≤ e then nearestBits (n * Nat.pow 10 e.toNat) 1
  else nearestBits n (Nat.pow 10 (-e).toNat)

/-- The bit pattern of the double nearest to a numeral's size. -/
def Numeral.bits (n : Numeral) : Nat :=
  nearestDecimalBits (decimalValue (n.whole ++ n.fraction)) (n.exponent - n.fraction.length)

/-- The double nearest to a numeral, an infinity when it is too large. -/
def Numeral.toFloat (n : Numeral) : Float := withSign n.negative n.bits

/-- What reading a text as a number found. -/
inductive Reading where
  | value (x : Float)
  | tooLarge (x : Float)
  | malformed
  deriving Inhabited

/-- Reads a whole text as a decimal number. -/
def readDecimal (s : String) : Reading :=
  match readNumeral s.toList with
  | none => .malformed
  | some n => if n.bits = infinityBits then .tooLarge n.toFloat else .value n.toFloat

/-- The value of a hexadecimal digit. -/
def hexValue? (c : Char) : Option Nat :=
  if '0' ≤ c && c ≤ '9' then some (c.toNat - '0'.toNat)
  else if 'a' ≤ c && c ≤ 'f' then some (c.toNat - 'a'.toNat + 10)
  else if 'A' ≤ c && c ≤ 'F' then some (c.toNat - 'A'.toNat + 10)
  else none

/-- Whether a character is a hexadecimal digit. -/
def isHexDigit (c : Char) : Bool := (hexValue? c).isSome

/-- The value of a sequence of digits in a base, given the value of each digit. -/
def readDigits (value? : Char → Option Nat) (base : Nat) (cs : List Char) : Option Nat :=
  if cs.isEmpty then none
  else cs.foldl (fun n? c => do
    let n ← n?
    let d ← value? c
    if d < base then some (base * n + d) else none) (some 0)

/-- The base that the beginning of an integer announces, with the digits behind it: two, eight and sixteen
have letters, and any other leading zero announces eight. -/
def splitBase : List Char → Nat × List Char
  | '0' :: c :: rest =>
    if c = 'x' || c = 'X' then (16, rest)
    else if c = 'b' || c = 'B' then (2, rest)
    else if c = 'o' || c = 'O' then (8, rest)
    else (8, c :: rest)
  | cs => (10, cs)

/-- The size of an integer in the base that its beginning announces. -/
def readBased (cs : List Char) : Option Nat :=
  let (base, digits) := splitBase cs
  readDigits hexValue? base digits

/-- An integer with a sign. -/
def signed (negative : Bool) (size : Nat) : Int := if negative then -(size : Int) else size

/-! ## Numerals of the hosts

The hosts read more than decimal numerals: infinities and NaN by name, hexadecimal numerals with a binary exponent,
and underscores between digits. -/

/-- The infinity or NaN that a text names, in any case. NaN has no sign. -/
def named? (cs : List Char) : Option Float :=
  let (negative, name) := splitSign cs
  match String.ofList (name.map Char.toLower) with
  | "inf" | "infinity" => some (infinity negative)
  | "nan" => if name.length = cs.length then some nan else none
  | _ => none

/-- Whether underscores stand between digits only. `last` is what came last, if it was a digit or an underscore:
whether it was a digit. -/
def separates (isDigit : Char → Bool) (last : Option Bool) : List Char → Bool
  | [] => last != some false
  | c :: cs =>
    if isDigit c then separates isDigit (some true) cs
    else if c = '_' then last = some true && separates isDigit (some false) cs
    else last != some false && separates isDigit none cs

/-- Whether the underscores of a numeral stand between its digits. A mark of the base counts as a digit. -/
def separatesDigits (cs : List Char) : Bool :=
  match (splitSign cs).2 with
  | '0' :: c :: rest =>
    if c = 'x' || c = 'X' then separates isHexDigit (some true) rest
    else if c = 'b' || c = 'B' || c = 'o' || c = 'O' then separates Char.isDigit (some true) rest
    else separates Char.isDigit (some true) (c :: rest)
  | cs => separates Char.isDigit none cs

/-- Reads an exact size `n * 2 ^ e` as the bit pattern of the nearest double. Sizes that are certainly beyond the
largest or below half the smallest double are settled without computing the power. -/
def nearestBinaryBits (n : Nat) (e : Int) : Nat :=
  if n = 0 then 0
  else if 1025 < n.log2 + e then infinityBits
  else if n.log2 + e < -1080 then 0
  else if 0 ≤ e then nearestBits (n * Nat.pow 2 e.toNat) 1
  else nearestBits n (Nat.pow 2 (-e).toNat)

/-- A double that was read, given its bit pattern. -/
def Reading.ofBits (negative : Bool) (bits : Nat) : Reading :=
  if bits = infinityBits then .tooLarge (withSign negative bits) else .value (withSign negative bits)

/-- Reads what stands behind the mark of a hexadecimal numeral: digits with an optional point among them, and a binary
exponent, which is written in base ten behind `p`. -/
def readHexadecimal (negative : Bool) (cs : List Char) : Reading :=
  let whole := cs.takeWhile isHexDigit
  let rest := cs.dropWhile isHexDigit
  let (fraction, rest) := match rest with
    | '.' :: tail => (tail.takeWhile isHexDigit, tail.dropWhile isHexDigit)
    | _ => ([], rest)
  match rest, readDigits hexValue? 16 (whole ++ fraction) with
  | mark :: exponent, some n =>
    if mark = 'p' || mark = 'P' then
      match readExponent ('e' :: exponent) with
      | some e => .ofBits negative (nearestBinaryBits n (e - 4 * fraction.length))
      | none => .malformed
    else .malformed
  | _, _ => .malformed

/-- Reads a whole text as a numeral without underscores. -/
def readUnseparated (cs : List Char) : Reading :=
  match splitSign cs with
  | (negative, '0' :: mark :: rest) =>
    if mark = 'x' || mark = 'X' then readHexadecimal negative rest else readDecimal (String.ofList cs)
  | _ => readDecimal (String.ofList cs)

/-- Reads a whole text as a numeral of the hosts. -/
def readFloat (cs : List Char) : Reading :=
  match named? cs with
  | some x => .value x
  | none => if separatesDigits cs then readUnseparated (cs.filter (· != '_')) else .malformed

end Primer.Number
