import Primer.Tree.Code

/-!
# Walking a tree

The nodes of a program, each before its parts and the parts in the order in which they are written. The
index maps a node's number to the last node of the walk that carries it.
-/

set_option autoImplicit false

namespace Primer

/-- What a walk sees of a node: what the node carries, the name of its kind and its code. -/
structure Node where
  info : Info
  kind : String
  code : String
  deriving Repr, DecidableEq, Inhabited

/-- The kind of an expression. -/
def Expr.kind : Expr → String
  | .number .. => "NumberLiteral"
  | .string .. => "StringLiteral"
  | .boolean .. => "BooleanLiteral"
  | .null .. => "NullLiteral"
  | .name .. => "NameIdentifier"
  | .member .. => "ObjectIdentifier"
  | .element .. => "ArrayIdentifier"
  | .call .. => "FunctionCall"
  | .array .. => "ArrayDefinition"
  | .binary .. => "BinaryExpression"
  | .unary .. => "UnaryExpression"

/-- The kind of a statement. -/
def Stmt.kind : Stmt → String
  | .var .. => "VarStatement"
  | .declared .. => "VarItem"
  | .assign .. => "AssignmentStatement"
  | .bump .. => "PostfixStatement"
  | .call .. => "CallStatement"
  | .cond .. => "IfBlock"
  | .elseIf .. => "ElseIfBlock"
  | .orElse .. => "ElseBlock"
  | .while .. => "WhileBlock"
  | .for .. => "ForBlock"
  | .function .. => "FunctionDeclaration"
  | .return .. => "ReturnStatement"

/-- An expression as a node. -/
def Expr.node (e : Expr) : Node := ⟨e.info, e.kind, e.code⟩

mutual

/-- The nodes of an expression. -/
def Expr.walk : Expr → List Node
  | .member i object property => (Expr.member i object property).node :: object.walk
  | .element i base position =>
    (Expr.element i base position).node :: (base.walk ++ position.walk)
  | .call i callee arguments =>
    (Expr.call i callee arguments).node :: (callee.walk ++ Expr.walkAll arguments)
  | .array i items => (Expr.array i items).node :: Expr.walkAll items
  | .binary i left symbol right => (Expr.binary i left symbol right).node :: (left.walk ++ right.walk)
  | .unary i symbol operand => (Expr.unary i symbol operand).node :: operand.walk
  | e => [e.node]

/-- The nodes of several expressions. -/
def Expr.walkAll : List Expr → List Node
  | [] => []
  | e :: es => e.walk ++ Expr.walkAll es

end

/-- The nodes of an assignment. -/
def Assignment.walk (a : Assignment) : List Node :=
  ⟨a.info, "AssignmentStatement", a.code⟩ :: (a.target.walk ++ a.value.walk)

/-- The nodes of a declared name. -/
def Declared.walk (d : Declared) : List Node :=
  ⟨d.info, "VarItem", d.code⟩ :: (match d.first with
    | none => []
    | some a => a.walk)

/-- A statement as a node. -/
def Stmt.node (s : Stmt) : Node := ⟨s.info, s.kind, s.code⟩

mutual

/-- The nodes of a statement. -/
def Stmt.walk : Stmt → List Node
  | .var i names => (Stmt.var i names).node :: names.flatMap Declared.walk
  | .declared d => d.walk
  | .assign a => a.walk
  | .bump i target symbol => (Stmt.bump i target symbol).node :: target.walk
  | .call i c => (Stmt.call i c).node :: c.toExpr.walk
  | .cond i test body branch =>
    (Stmt.cond i test body branch).node ::
      (test.walk ++ Stmt.walkAll body ++ Stmt.walkOption branch)
  | .elseIf i inner test body branch =>
    (Stmt.elseIf i inner test body branch).node ::
      (Stmt.cond inner test body branch).node ::
      (test.walk ++ Stmt.walkAll body ++ Stmt.walkOption branch)
  | .orElse i body => (Stmt.orElse i body).node :: Stmt.walkAll body
  | .while i test body => (Stmt.while i test body).node :: (test.walk ++ Stmt.walkAll body)
  | .for i first test update body =>
    (Stmt.for i first test update body).node ::
      (Stmt.walkOption first ++ test.walk ++ Stmt.walkOption update ++ Stmt.walkAll body)
  | .function i name params body =>
    (Stmt.function i name params body).node :: Stmt.walkAll body
  | .return i none => [(Stmt.return i none).node]
  | .return i (some value) => (Stmt.return i (some value)).node :: value.walk

/-- The nodes of a statement that may be absent. -/
def Stmt.walkOption : Option Stmt → List Node
  | none => []
  | some s => s.walk

/-- The nodes of a statement list. -/
def Stmt.walkAll : List Stmt → List Node
  | [] => []
  | s :: rest => s.walk ++ Stmt.walkAll rest

end

/-- The nodes of a program. The program's own code is left to `Program.code`. -/
def Program.walk (p : Program) : List Node := ⟨p.info, "Program", ""⟩ :: Stmt.walkAll p.body

/-- The node that carries a number, the last one of the walk if several do. -/
def Program.nodeAt? (p : Program) (id : NodeId) : Option Node :=
  p.walk.reverse.find? fun n => n.info.id = id

/-- The numbers that nodes of the program carry, each once. -/
def Program.ids (p : Program) : List NodeId := (p.walk.map fun n => n.info.id).eraseDups

end Primer
