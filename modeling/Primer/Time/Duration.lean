import Primer.Number.Exact
import Primer.Number.Reading
import Primer.Text.Quoted

/-!
# Durations

A duration is written as a sequence of numbers with units, such as `1h2m3.5s`, with an optional sign. It
denotes a whole number of nanoseconds; what is below a nanosecond is dropped.
-/

set_option autoImplicit false

namespace Primer.Duration

/-- The units and their sizes in nanoseconds. -/
def units : List (String × Nat) :=
  [("ns", 1), ("us", 1000), ("µs", 1000), ("μs", 1000), ("ms", 1000000), ("s", 1000000000),
    ("m", 60000000000), ("h", 3600000000000)]

/-- Why a text is no duration. -/
inductive Refusal where
  | invalid
  | missingUnit
  | unknownUnit (unit : String)
  deriving Repr, DecidableEq, Inhabited

/-- A character of a quoted duration: what is not plain text is shown byte by byte. -/
def quotedChar (c : Char) : List Char :=
  if c.toNat < 0x20 || 0x80 ≤ c.toNat then
    (String.singleton c).toUTF8.toList.flatMap fun b => '\\' :: 'x' :: Text.hexDigits 2 b.toNat
  else if c = '"' || c = '\\' then ['\\', c]
  else [c]

/-- A duration between quotes. -/
def quote (s : String) : String := String.ofList ('"' :: (s.toList.flatMap quotedChar ++ ['"']))

/-- The message for a refused text. -/
def Refusal.message (text : String) : Refusal → String
  | .invalid => "time: invalid duration " ++ quote text
  | .missingUnit => "time: missing unit in duration " ++ quote text
  | .unknownUnit unit => "time: unknown unit " ++ quote unit ++ " in duration " ++ quote text

/-- The digits behind a point that take part: a numerator and the number of its places. Digits that would
make the numerator too large are dropped. -/
def fraction (digits : List Char) : Nat × Nat :=
  let (n, places, _) := digits.foldl (fun (n, places, full) c =>
    let next := 10 * n + Number.digitValue c
    if full || (Nat.pow 2 63 - 1) / 10 < n || Nat.pow 2 63 < next then (n, places, true)
    else (next, places + 1, false)) (0, 0, false)
  (n, places)

/-- The nanoseconds of a number of units. -/
def amount (whole : Nat) (digits : List Char) (unit : Nat) : Nat :=
  let (n, places) := fraction digits
  if n = 0 then whole * unit
  else
    let part := Number.nearest false n 1 * (Number.nearest false unit 1 / Number.nearest false (Nat.pow 10 places) 1)
    whole * unit + Number.wholePart part

/-- Whether a character belongs to a number. -/
def isNumeral (c : Char) : Bool := c = '.' || c.isDigit

/-- Adds up the parts of a duration, of which there are at most `fuel`. -/
def addParts : Nat → Nat → List Char → Except Refusal Nat
  | _, total, [] => .ok total
  | 0, _, _ :: _ => .error .invalid
  | fuel + 1, total, c :: cs =>
    if !isNumeral c then .error .invalid
    else
      let digits := (c :: cs).takeWhile Char.isDigit
      let rest := (c :: cs).dropWhile Char.isDigit
      let (decimals, rest) := match rest with
        | '.' :: tail => (tail.takeWhile Char.isDigit, tail.dropWhile Char.isDigit)
        | rest => ([], rest)
      let whole := Number.decimalValue digits
      if Nat.pow 2 63 < whole || (digits.isEmpty && decimals.isEmpty) then .error .invalid
      else
        let name := rest.takeWhile fun c => !isNumeral c
        let rest := rest.dropWhile fun c => !isNumeral c
        if name.isEmpty then .error .missingUnit
        else
          match units.lookup (String.ofList name) with
          | none => .error (.unknownUnit (String.ofList name))
          | some unit =>
            let part := amount whole decimals unit
            if Nat.pow 2 63 / unit < whole || Nat.pow 2 63 < part then .error .invalid
            else
              let sum := (total + part) % Nat.pow 2 64
              if Nat.pow 2 63 < sum then .error .invalid else addParts fuel sum rest

/-- Reads a duration as nanoseconds. -/
def parse (text : String) : Except Refusal Int :=
  let (negative, cs) := Number.splitSign text.toList
  if cs = ['0'] then .ok 0
  else if cs.isEmpty then .error .invalid
  else
    match addParts cs.length 0 cs with
    | .error e => .error e
    | .ok total =>
      if negative then .ok (-(total : Int))
      else if Nat.pow 2 63 ≤ total then .error .invalid
      else .ok total

end Primer.Duration
