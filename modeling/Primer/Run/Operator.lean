import Primer.Value.Equality
import Primer.Run.Fault

/-!
# Operators

What the operators between two operands and before one operand compute. `checked` is the strict form that
refuses operands of the wrong kind; `unchecked` is the lenient form of JavaScript. The symbol of a
compound assignment, such as `+=`, stands for the operation that it contains.
-/

set_option autoImplicit false

namespace Primer

/-- The tag that an operator records. A sum of which one operand is a text has a tag of its own; an
operand that could not be read counts as a number. -/
def operatorTag (symbol : String) (a b : Value) : String :=
  match symbol with
  | "+" | "+=" => if a.isString || b.isString then "+s" else symbol
  | "-" | "*" | "/" | "%" => "+"
  | "-=" | "*=" | "/=" | "%=" => "+="
  | ">" | ">=" | "<" | "<=" => ">"
  | "==" | "!=" => "=="
  | "&&" | "||" => "&&"
  | _ => symbol

/-- A refused operation: the class of the fault and its message. -/
abbrev Refusal := FaultClass × String

namespace Memory

/-- The refusal of an operand that is not of the kind that an operator needs. -/
def notA (m : Memory) (symbol : String) (v : Value) (kind : String) : Refusal :=
  (.type, "<var>" ++ symbol ++ "</var> not possible since <var>" ++ m.describe v ++ "</var> is not " ++ kind)

/-- A finite number, or the refusal of anything else. -/
def finiteNumber (m : Memory) (symbol : String) : Value → Except Refusal Float
  | .number x => if Number.isFinite x then .ok x else .error (m.notA symbol (.number x) "a number")
  | v => .error (m.notA symbol v "a number")

/-- The sum of two values: texts are joined if one operand is a text, else numbers are added. -/
def add (m : Memory) (a b : Value) : Value :=
  if a.isString || b.isString then .string (m.text a ++ m.text b)
  else .number (m.toNumber a + m.toNumber b)

/-- An arithmetic or ordering operator on two finite numbers. -/
def numeric (symbol : String) (x y : Float) : Value :=
  match symbol with
  | "-" | "-=" => .number (x - y)
  | "*" | "*=" => .number (x * y)
  | "/" | "/=" => .number (x / y)
  | "%" | "%=" => .number (Number.remainder x y)
  | ">" => .boolean (y < x)
  | ">=" => .boolean (y ≤ x)
  | "<" => .boolean (x < y)
  | _ => .boolean (x ≤ y)

/-- Whether an operator divides. -/
def divides (symbol : String) : Bool :=
  symbol = "/" || symbol = "/=" || symbol = "%" || symbol = "%="

/-- The operators that need two finite numbers. -/
def numericSymbols : List String :=
  ["-", "*", "/", "%", "-=", "*=", "/=", "%=", ">", ">=", "<", "<="]

/-- The strict form of an operator between two operands. -/
def checked (m : Memory) (symbol : String) (a b : Value) : Except Refusal Value :=
  if numericSymbols.contains symbol then do
    let x ← m.finiteNumber symbol a
    let y ← m.finiteNumber symbol b
    if divides symbol && y == 0.0 then
      .error (.value, "<var>" ++ symbol ++ "</var> not possible since it is a division by zero")
    else .ok (numeric symbol x y)
  else if symbol = "+" || symbol = "+=" then
    if !a.isNumberOrString then .error (m.notA symbol a "a number or string")
    else if !b.isNumberOrString then .error (m.notA symbol b "a number or string")
    else .ok (m.add a b)
  else if symbol = "&&" || symbol = "||" then
    match a, b with
    | .boolean x, .boolean y => .ok (.boolean (if symbol = "&&" then x && y else x || y))
    | .boolean _, v => .error (m.notA symbol v "a boolean")
    | v, _ => .error (m.notA symbol v "a boolean")
  else if symbol = "==" then .ok (.boolean (m.looselyEqual a b))
  else if symbol = "!=" then .ok (.boolean (!m.looselyEqual a b))
  else .error (.internal, "Unknown operator <var>" ++ symbol ++ "</var>")

/-- What an operand is before it is compared or added: arrays, objects and functions become texts. -/
def toPrimitive (m : Memory) : Value → Value
  | .array a => .string (m.text (.array a))
  | .object o => .string (m.text (.object o))
  | .function f => .string (m.text (.function f))
  | .hostFunction f => .string (m.text (.hostFunction f))
  | .undefined => .undefined
  | .null => .null
  | .number x => .number x
  | .string s => .string s
  | .boolean b => .boolean b
  | _ => .undefined

/-- The lenient order: texts by their characters, everything else by its number. -/
def ordered (m : Memory) (symbol : String) (a b : Value) : Bool :=
  match m.toPrimitive a, m.toPrimitive b with
  | .string s, .string t =>
    match symbol with
    | ">" => t < s
    | ">=" => t ≤ s
    | "<" => s < t
    | _ => s ≤ t
  | p, q =>
    let x := m.toNumber p
    let y := m.toNumber q
    if Number.isNaN x || Number.isNaN y then false
    else
      match symbol with
      | ">" => y < x
      | ">=" => y ≤ x
      | "<" => x < y
      | _ => x ≤ y

/-- The operator that a symbol contains: the symbol without one `=` at its end, except for the
comparisons that are written with one. -/
def baseSymbol (symbol : String) : String :=
  if ["==", "!=", ">=", "<="].contains symbol then symbol
  else if symbol.toList.getLast? = some '=' then String.ofList symbol.toList.dropLast
  else symbol

/-- The lenient form of an operator between two operands. -/
def unchecked (m : Memory) (symbol : String) (a b : Value) : Value :=
  match baseSymbol symbol with
  | "+" =>
    if a.isNumberOrString && b.isNumberOrString then m.add a b
    else m.add (m.toPrimitive a) (m.toPrimitive b)
  | "-" => .number (m.toNumber a - m.toNumber b)
  | "*" => .number (m.toNumber a * m.toNumber b)
  | "/" => .number (m.toNumber a / m.toNumber b)
  | "%" => .number (Number.remainder (m.toNumber a) (m.toNumber b))
  | ">" => .boolean (m.ordered ">" a b)
  | ">=" => .boolean (m.ordered ">=" a b)
  | "<" => .boolean (m.ordered "<" a b)
  | "<=" => .boolean (m.ordered "<=" a b)
  | "==" => .boolean (m.looselyEqual a b)
  | "!=" => .boolean (!m.looselyEqual a b)
  | _ => .undefined

/-- The strict form of an operator before an operand. -/
def checkedUnary (m : Memory) (symbol : String) : Value → Except Refusal Value
  | .boolean b =>
    if symbol = "!" then .ok (.boolean (!b)) else .error (m.notA symbol (.boolean b) "a number")
  | .number x =>
    if symbol = "!" then .error (m.notA symbol (.number x) "a boolean")
    else if symbol = "-" then .ok (.number (-x))
    else .ok (.number x)
  | v => .error (m.notA symbol v (if symbol = "!" then "a boolean" else "a number"))

/-- The lenient form of an operator before an operand. -/
def uncheckedUnary (m : Memory) (symbol : String) (v : Value) : Value :=
  if symbol = "!" then .boolean (!m.isTruthy v)
  else if symbol = "-" then .number (-(m.toNumber v))
  else .number (m.toNumber v)

end Memory

end Primer
