import Primer.Tree.Basic

/-!
# Values

What an expression of a running program can give: a plain value, something that can be called, or a place
that holds a value. Arrays and places are references into the memory of a run. Objects, functions and
variables of the hosts are known by keys; what they do is the hosts' matter.
-/

set_option autoImplicit false

namespace Primer

/-- The number of a cell of the memory. -/
abbrev CellRef := Nat

/-- The number of an array of the memory. -/
abbrev ArrayRef := Nat

/-- The functions of the console. -/
inductive ConsoleFunction where
  | log
  | clear
  | setColor
  deriving Repr, DecidableEq, Inhabited

/-- The functions of `Math`. -/
inductive MathFunction where
  | floor
  | ceil
  | round
  | abs
  | sqrt
  | pow
  | min
  | max
  deriving Repr, DecidableEq, Inhabited

/-- The constants of `Math`. -/
inductive MathConstant where
  | pi
  | e
  deriving Repr, DecidableEq, Inhabited

/-- An object of the hosts; `extra` ones belong to whoever embeds a program. -/
inductive ObjectKey where
  | console
  | math
  | extra (n : Nat)
  deriving Repr, DecidableEq, Inhabited

/-- A function of the hosts. -/
inductive FunctionKey where
  | console (f : ConsoleFunction)
  | math (f : MathFunction)
  | extra (n : Nat)
  deriving Repr, DecidableEq, Inhabited

/-- A variable of the hosts. -/
inductive VariableKey where
  | color
  | math (c : MathConstant)
  | extra (n : Nat)
  deriving Repr, DecidableEq, Inhabited

/-- A function of the hosts with the tag that its calls record. -/
structure HostFunction where
  key : FunctionKey
  tag : String
  deriving Repr, DecidableEq, Inhabited

/-- A variable of the hosts with its name. -/
structure HostVariable where
  key : VariableKey
  name : String
  deriving Repr, DecidableEq, Inhabited

/-- A function that the program declared. Two declarations differ in `ref`, even of the same text. -/
structure UserFunction where
  ref : Nat
  info : Info
  name : String
  params : List String
  body : List Stmt
  deriving Inhabited

/-- What an expression can give. -/
inductive Value where
  /-- No value at all: what a host gives that has nothing to give. -/
  | absent
  | undefined
  | null
  | number (x : Float)
  | string (s : String)
  | boolean (b : Bool)
  | array (ref : ArrayRef)
  | object (key : ObjectKey)
  | function (f : UserFunction)
  | hostFunction (f : HostFunction)
  /-- A cell of the memory: a variable or an element of an array. -/
  | cell (ref : CellRef)
  | hostVariable (v : HostVariable)
  /-- The length of an array, which can be read and written. -/
  | arrayLength (ref : ArrayRef)
  /-- The length of a text, which can only be read. -/
  | textLength (s : String)
  /-- An element at or behind the end of an array: it cannot be read, and writing makes it. -/
  | pending (array : ArrayRef) (index : Nat)
  deriving Inhabited

namespace Value

/-- The name of a value's kind. -/
def kind : Value → String
  | .absent => ""
  | .undefined => "undefined"
  | .null => "null"
  | .number _ => "number"
  | .string _ => "string"
  | .boolean _ => "boolean"
  | .array _ => "array"
  | .object _ => "object"
  | .function _ => "function"
  | .hostFunction _ => "internalFunction"
  | .cell _ => "local"
  | .hostVariable _ | .arrayLength _ | .textLength _ => "variable"
  | .pending _ _ => "newArrayValue"

/-- Whether a value is a place that holds or makes another value. -/
def isPlace : Value → Bool
  | .cell _ | .hostVariable _ | .arrayLength _ | .textLength _ | .pending _ _ => true
  | _ => false

/-- Whether a value can be called. -/
def isCallable : Value → Bool
  | .function _ | .hostFunction _ => true
  | _ => false

/-- Whether a value is a text. -/
def isString : Value → Bool
  | .string _ => true
  | _ => false

/-- Whether a value is a number or a text. -/
def isNumberOrString : Value → Bool
  | .number _ | .string _ => true
  | _ => false

/-- Whether two values are the same thing in memory or among the hosts. -/
def isSame : Value → Value → Bool
  | .array a, .array b => a == b
  | .object a, .object b => a == b
  | .function f, .function g => f.ref == g.ref
  | .hostFunction f, .hostFunction g => f.key == g.key
  | .cell a, .cell b => a == b
  | .hostVariable a, .hostVariable b => a.key == b.key
  | .arrayLength a, .arrayLength b => a == b
  | _, _ => false

end Value

end Primer
