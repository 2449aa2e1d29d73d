import Primer.Value.Conversion

/-!
# Equality

The comparison of two values by `==`: undefined and null are equal to each other and to nothing else;
numbers, texts and truth values are compared as numbers when they differ in kind; an array or object is
compared by its text with any of those; and everything else is equal only to itself.
-/

set_option autoImplicit false

namespace Primer.Memory

/-- Takes a value out of one cell, and reads an absent value as undefined. -/
def operand (m : Memory) (v : Value) : Value :=
  match (match v with
    | .cell r => m.read r
    | v => v) with
  | .absent => .undefined
  | v => v

/-- Compares a number with a value. -/
def numberEquals (m : Memory) (x : Float) : Value → Bool
  | .number y => x == y
  | .string s => x == textToNumber s
  | .boolean b => x == (if b then 1.0 else 0.0)
  | .array a => x == textToNumber (m.text (.array a))
  | .object o => x == textToNumber (m.text (.object o))
  | _ => false

/-- Compares a text with a value. -/
def stringEquals (m : Memory) (s : String) : Value → Bool
  | .string t => s == t
  | .number y => textToNumber s == y
  | .boolean b => textToNumber s == (if b then 1.0 else 0.0)
  | .array a => s == m.text (.array a)
  | .object o => s == m.text (.object o)
  | _ => false

/-- Compares a truth value with a value. -/
def booleanEquals (m : Memory) (b : Bool) : Value → Bool
  | .boolean c => b == c
  | v => m.numberEquals (if b then 1.0 else 0.0) v

/-- Whether two operands are equal. -/
def operandsEqual (m : Memory) : Value → Value → Bool
  | .undefined, .undefined | .undefined, .null | .null, .undefined | .null, .null => true
  | .undefined, _ | .null, _ => false
  | .number x, v => m.numberEquals x v
  | .string s, v => m.stringEquals s v
  | .boolean b, v => m.booleanEquals b v
  | v, .number x => m.numberEquals x v
  | v, .string s => m.stringEquals s v
  | v, .boolean b => m.booleanEquals b v
  | v, w => v.isSame w

/-- Whether two values are equal by `==`. -/
def looselyEqual (m : Memory) (a b : Value) : Bool := m.operandsEqual (m.operand a) (m.operand b)

end Primer.Memory
