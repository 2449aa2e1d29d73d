import Primer.Value.Memory
import Primer.Number.Text
import Primer.Number.Reading
import Primer.Text.Blank
import Primer.Text.Quoted

/-!
# Conversions

How values turn into text, numbers and truth values. `Memory.text` is the text that the console shows: an
array is its elements with commas between them, and a reference to an array that is just being written is
left empty. `Memory.describe` is the short form used in messages. `Memory.text?` and `Memory.describe?` write
them as a run does, where writing a number can break down.
-/

set_option autoImplicit false

namespace Primer

/-- A truth value as text. -/
def boolText (b : Bool) : String := if b then "true" else "false"

namespace Memory

/-- The text of a value below the arrays that are just being written. Each step into a cell or an array
uses up one of `steps`. -/
def textWithin (m : Memory) : Nat → List ArrayRef → Value → String
  | 0, _, _ => ""
  | steps + 1, joining, v =>
    match v with
    | .absent | .undefined | .pending _ _ => "undefined"
    | .null => "null"
    | .number x => Number.render x
    | .string s => s
    | .boolean b => boolText b
    | .array a =>
      if joining.contains a then ""
      else String.intercalate "," ((m.values a).map fun e =>
        match e with
        | .undefined | .null => ""
        | e => textWithin m steps (a :: joining) e)
    | .object _ => "[object Object]"
    | .function _ | .hostFunction _ => "[function]"
    | .cell r => textWithin m steps joining (m.read r)
    | .hostVariable _ | .arrayLength _ | .textLength _ => "[variable]"

/-- The text of a value. -/
def text (m : Memory) (v : Value) : String := m.textWithin (m.cells.size + m.arrays.size + 2) [] v

/-- The text of a value below the arrays that are just being written, or the breakdown of a number in it. -/
def textWithin? (m : Memory) : Nat → List ArrayRef → Value → Except Breakdown String
  | 0, _, _ => .ok ""
  | steps + 1, joining, v =>
    match v with
    | .number x => Number.render? x
    | .array a =>
      if joining.contains a then .ok ""
      else do
        let parts ← (m.values a).mapM fun e =>
          match e with
          | .undefined | .null => .ok ""
          | e => textWithin? m steps (a :: joining) e
        .ok (String.intercalate "," parts)
    | .cell r => textWithin? m steps joining (m.read r)
    | v => .ok (m.textWithin (steps + 1) joining v)

/-- The text of a value, or the breakdown of writing it. -/
def text? (m : Memory) (v : Value) : Except Breakdown String :=
  m.textWithin? (m.cells.size + m.arrays.size + 2) [] v

/-- The short form of a value that is no cell. -/
def describeSettled : Value → String
  | .absent | .undefined | .pending _ _ => "undefined"
  | .null => "null"
  | .number x => if Number.isFinite x then Number.render x else "null"
  | .string s => Text.quoteJson s
  | .boolean b => boolText b
  | .array _ => "[array]"
  | .object _ => "[object]"
  | .function _ | .hostFunction _ => "[function]"
  | .hostVariable _ | .arrayLength _ | .textLength _ => "[variable]"
  | .cell _ => ""

/-- The short form of a value, for messages. -/
def describe (m : Memory) (v : Value) : String := describeSettled (m.settle v)

/-- The short form of a value, or the breakdown of writing it. -/
def describe? (m : Memory) (v : Value) : Except Breakdown String :=
  match m.settle v with
  | .number x => if Number.isFinite x then Number.render? x else .ok "null"
  | .string s => Text.quoteJson? s
  | v => .ok (describeSettled v)

/-- Writes out the operands of an operator, as text for a sum or a comparison and in short form for a
refusal. Numbers among themselves are not written. -/
def writeOut? (m : Memory) (operands : List Value) : Except Breakdown Unit :=
  if operands.all fun v => v matches .number _ then .ok ()
  else operands.forM fun v => do
    let _ ← m.text? v
    let _ ← m.describe? v

end Memory

/-- Why a length was refused, in words. -/
def Memory.lengthRefusal (m : Memory) (v : Value) : Memory.LengthFault → String
  | .tooLong => arrayTooLong
  | .invalid => "<var>" ++ m.describe v ++ "</var> is not a valid array length"

/-- Why a length was refused, or the breakdown of writing it. -/
def Memory.lengthRefusal? (m : Memory) (v : Value) : Memory.LengthFault → Except Breakdown String
  | .tooLong => .ok arrayTooLong
  | .invalid => do
    let shown ← m.describe? v
    .ok ("<var>" ++ shown ++ "</var> is not a valid array length")

/-- Whether a character can stand in a decimal number. -/
def isNumeralChar (c : Char) : Bool :=
  c.isDigit || c == '.' || c == 'e' || c == 'E' || c == '+' || c == '-'

/-- The number that a text without blanks at its ends stands for. -/
def trimmedToNumber (s : String) : Float :=
  match s.toList with
  | [] => 0.0
  | '0' :: x :: d :: ds =>
    if x = 'x' || x = 'X' then
      match Number.readDigits Number.hexValue? 16 (d :: ds) with
      | some n => if n < Nat.pow 2 64 then Number.nearest false n 1 else Number.nan
      | none => Number.nan
    else decimal
  | _ =>
    if s = "Infinity" || s = "+Infinity" then Number.infinity false
    else if s = "-Infinity" then Number.infinity true
    else decimal
where
  /-- A decimal number; one that is too large is no number. -/
  decimal : Float :=
    if s.toList.all isNumeralChar then
      match Number.readDecimal s with
      | .value x => x
      | _ => Number.nan
    else Number.nan

/-- The number that a text stands for. -/
def textToNumber (s : String) : Float := trimmedToNumber (Text.trim s)

namespace Memory

/-- The number that a value stands for. -/
def toNumber (m : Memory) (v : Value) : Float :=
  match m.settle v with
  | .number x => x
  | .boolean b => if b then 1.0 else 0.0
  | .null => 0.0
  | .string s => textToNumber s
  | .array a => textToNumber (m.text (.array a))
  | _ => Number.nan

/-- Whether a value counts as true. -/
def isTruthy (m : Memory) (v : Value) : Bool :=
  match m.settle v with
  | .absent | .undefined | .null | .pending _ _ => false
  | .boolean b => b
  | .number x => x != 0.0 && !Number.isNaN x
  | .string s => s != ""
  | _ => true

/-- How a value shows itself; a place shows what it holds or its name. -/
def inspect (m : Memory) (v : Value) : String :=
  match m.settle v with
  | .number x => describeSettled (.number x)
  | .hostVariable h => "[variable " ++ h.name ++ "]"
  | .arrayLength _ | .textLength _ => "[variable length]"
  | .array _ => "[array]"
  | v => describeSettled v

end Memory

end Primer
