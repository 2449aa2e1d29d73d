import Primer.Source.Token

/-!
# The tree of a source

What reading a JavaScript source gives, before the subset is cut out of it. The tree keeps byte offsets.
Parts that the subset refuses whatever they contain are kept as a kind with their extent, so every
construct of the surrounding language has a place here.
-/

set_option autoImplicit false

namespace Primer.Source

/-- Expressions that the subset refuses as a whole. -/
inductive ForeignTerm where
  | function
  | object
  | conditional
  | new
  | this
  | sequence
  | regularExpression
  /-- An element left out of an array, or a member whose name cannot be read. -/
  | unreadable
  deriving Repr, DecidableEq, Inhabited

/-- An expression of a source. -/
inductive Term where
  | number (start : Nat) (text : String) (value : Float)
  | string (start : Nat) (text : String) (value : String)
  | boolean (start : Nat) (value : Bool)
  | null (start : Nat)
  | name (start : Nat) (name : String)
  | dot (left : Term) (nameStart : Nat) (name : String)
  | bracket (left : Term) (position : Term) (stop : Nat)
  | call (callee : Term) (arguments : List Term) (stop : Nat)
  | array (start : Nat) (items : List Term) (stop : Nat)
  | binary (left : Term) (symbol : String) (right : Term)
  | unary (start : Nat) (symbol : String) (operand : Term)
  /-- `++` or `--` behind its operand. -/
  | bumped (operand : Term) (symbol : String)
  | assign (left : Term) (symbol : String) (right : Term)
  | foreign (kind : ForeignTerm) (start stop : Nat)
  deriving Inhabited

namespace Term

/-- The offset of the first byte of an expression, leaving out parentheses around it. -/
def start : Term → Nat
  | .number s _ _ | .string s _ _ | .boolean s _ | .null s | .name s _ | .array s _ _
  | .unary s _ _ | .foreign _ s _ => s
  | .dot left _ _ | .bracket left _ _ | .binary left _ _ | .assign left _ _ => left.start
  | .call callee _ _ => callee.start
  | .bumped operand _ => operand.start

/-- The offset behind an expression. The end of a word is counted by its decoded name, and the end of an
increment lies two bytes behind its operand wherever the operator stands. -/
def stop : Term → Nat
  | .number s text _ | .string s text _ => s + text.utf8ByteSize
  | .boolean s value => s + (if value then 4 else 5)
  | .null s => s + 4
  | .name s n => s + n.utf8ByteSize
  | .dot _ s n => s + n.utf8ByteSize
  | .bracket _ _ e | .call _ _ e | .array _ _ e | .foreign _ _ e => e
  | .binary _ _ right | .assign _ _ right => right.stop
  | .unary _ _ operand => operand.stop
  | .bumped operand _ => operand.stop + 2

/-- Whether an expression can be assigned to. -/
def isTarget : Term → Bool
  | .name .. | .dot .. | .bracket .. => true
  | _ => false

end Term

/-- A declared variable with its optional first value. -/
structure Variable where
  start : Nat
  name : String
  value : Option Term
  deriving Inhabited

/-- The offset behind a declared variable. -/
def Variable.stop (v : Variable) : Nat :=
  match v.value with
  | none => v.start + v.name.utf8ByteSize
  | some e => e.stop

/-- Statements that the subset refuses as a whole. -/
inductive ForeignClause where
  | break
  | continue
  | doWhile
  | forIn
  | switch
  | exception
  /-- Labels, `with` and `debugger`. -/
  | other
  deriving Repr, DecidableEq, Inhabited

/-- The first part of the header of a `for` loop. -/
inductive Header where
  | empty
  | declared (list : List Variable)
  | term (value : Term)
  deriving Inhabited

/-- A parameter with its offset. -/
structure Param where
  start : Nat
  name : String
  deriving Repr, DecidableEq, Inhabited

/-- A statement of a source. -/
inductive Clause where
  | empty (start : Nat)
  | term (value : Term)
  | var (start : Nat) (list : List Variable)
  | cond (start : Nat) (test : Term) (body : Clause) (otherwise : Option Clause)
  | while (start : Nat) (test : Term) (body : Clause)
  | for (start : Nat) (header : Header) (test update : Option Term) (body : Clause)
  | function (start : Nat) (name : String) (params : List Param) (body : List Clause)
  | return (start : Nat) (value : Option Term)
  | block (start : Nat) (body : List Clause)
  | foreign (kind : ForeignClause) (start : Nat)
  deriving Inhabited

/-- The offset of the first byte of a statement. -/
def Clause.start : Clause → Nat
  | .empty s | .var s _ | .cond s _ _ _ | .while s _ _ | .for s _ _ _ _ | .function s _ _ _
  | .return s _ | .block s _ | .foreign _ s => s
  | .term value => value.start

end Primer.Source
