/-!
# Program trees

The tree of a program: expressions, statements and the program itself. Every node has a number and a
token, so that errors, command records and steps can point back at it. Operators are kept as they are
written, because a tree built by hand may hold any text there; the evaluator tells the known ones apart.
-/

set_option autoImplicit false

namespace Primer

/-- The text a node starts with and where it starts. Lines and columns count from one; zero means
unknown. -/
structure Token where
  lexeme : String
  line : Int
  column : Int
  deriving Repr, DecidableEq, Inhabited

/-- The token as text: its position, if it has one, and its lexeme. -/
def Token.text (t : Token) : String :=
  if t.line = 0 then t.lexeme
  else toString t.line ++ ":" ++ toString t.column ++ " " ++ t.lexeme

/-- Whether a token has no position. -/
def Token.isUnplaced (t : Token) : Bool := t.line = 0 && t.column = 0

/-- The number of a node within its program. -/
abbrev NodeId := Nat

/-- What every node carries: its number and its token. -/
structure Info where
  id : NodeId
  token : Token
  deriving Repr, DecidableEq, Inhabited

/-- An expression. -/
inductive Expr where
  /-- A number; `literal` is its text as written, empty when there is none. -/
  | number (info : Info) (value : Float) (literal : String)
  /-- A text; `literal` is its form as written, empty when there is none. -/
  | string (info : Info) (value : String) (literal : String)
  | boolean (info : Info) (value : Bool)
  | null (info : Info)
  | name (info : Info) (name : String)
  /-- A member of an object: `object.property`. -/
  | member (info : Info) (object : Expr) (property : String)
  /-- An element of an array: `array[position]`. -/
  | element (info : Info) (array : Expr) (position : Expr)
  | call (info : Info) (callee : Expr) (arguments : List Expr)
  | array (info : Info) (items : List Expr)
  | binary (info : Info) (left : Expr) (symbol : String) (right : Expr)
  | unary (info : Info) (symbol : String) (operand : Expr)
  deriving Inhabited

/-- What an expression carries. -/
def Expr.info : Expr → Info
  | .number i _ _ | .string i _ _ | .boolean i _ | .null i | .name i _ | .member i _ _
  | .element i _ _ | .call i _ _ | .array i _ | .binary i _ _ _ | .unary i _ _ => i

/-- An assignment: `target = value`, or a compound form such as `target += value`. -/
structure Assignment where
  info : Info
  target : Expr
  symbol : String
  value : Expr
  deriving Inhabited

/-- A declared name with an optional first value, which is an assignment of its own. -/
structure Declared where
  info : Info
  name : String
  first : Option Assignment
  deriving Inhabited

/-- A call that stands as a statement. -/
structure Call where
  info : Info
  callee : Expr
  arguments : List Expr
  deriving Inhabited

/-- The call as an expression. -/
def Call.toExpr (c : Call) : Expr := .call c.info c.callee c.arguments

/-- A statement. The branches of a conditional hang below it: `branch` is absent, an `elseIf` or an
`orElse`. Those two, and a single declared name, have no meaning as statements of their own. -/
inductive Stmt where
  | var (info : Info) (names : List Declared)
  | declared (name : Declared)
  | assign (assignment : Assignment)
  /-- `target++` or `target--`. -/
  | bump (info : Info) (target : Expr) (symbol : String)
  | call (info : Info) (call : Call)
  | cond (info : Info) (test : Expr) (body : List Stmt) (branch : Option Stmt)
  /-- `else` followed by a conditional, whose parts are given in place. -/
  | elseIf (info : Info) (inner : Info) (test : Expr) (body : List Stmt) (branch : Option Stmt)
  | orElse (info : Info) (body : List Stmt)
  | while (info : Info) (test : Expr) (body : List Stmt)
  | for (info : Info) (first : Option Stmt) (test : Expr) (update : Option Stmt) (body : List Stmt)
  | function (info : Info) (name : String) (params : List String) (body : List Stmt)
  | return (info : Info) (value : Option Expr)
  deriving Inhabited

/-- What a statement carries. -/
def Stmt.info : Stmt → Info
  | .var i _ | .bump i _ _ | .call i _ | .cond i _ _ _ | .elseIf i _ _ _ _ | .orElse i _
  | .while i _ _ | .for i _ _ _ _ | .function i _ _ _ | .return i _ => i
  | .declared d => d.info
  | .assign a => a.info

/-- A program. `count` is the number of nodes that were made while it was built. -/
structure Program where
  info : Info
  file : String
  body : List Stmt
  count : Nat
  deriving Inhabited

end Primer
