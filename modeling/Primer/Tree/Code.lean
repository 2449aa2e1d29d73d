import Primer.Tree.Basic
import Primer.Number.Text
import Primer.Text.Quoted

/-!
# Canonical code

Every node can be written back as program text: one statement a line, blocks indented by two spaces,
and parentheses only where the binding strengths of the operators and their grouping to the left do not
already say how an expression is built.
-/

set_option autoImplicit false

namespace Primer

/-- How strongly an operator between two operands binds; unknown ones bind least. -/
def operatorStrength (symbol : String) : Nat :=
  match symbol with
  | "||" => 1
  | "&&" => 2
  | "==" | "!=" => 3
  | "<" | ">" | "<=" | ">=" => 4
  | "+" | "-" => 5
  | "*" | "/" | "%" => 6
  | _ => 0

/-- The strength of an operator before its operand. -/
def unaryStrength : Nat := 7

/-- The strength of everything that needs no parentheses of its own. -/
def memberStrength : Nat := 8

/-- How strongly an expression holds together. -/
def Expr.strength : Expr → Nat
  | .binary _ _ symbol _ => operatorStrength symbol
  | .unary .. => unaryStrength
  | _ => memberStrength

/-- Puts parentheses around a text on request. -/
def parenthesize (needed : Bool) (code : String) : String :=
  if needed then "(" ++ code ++ ")" else code

mutual

/-- The code of an expression. -/
def Expr.code : Expr → String
  | .number _ value literal => if literal = "" then Number.renderLiteral value else literal
  | .string _ value literal => if literal = "" then Text.quoteShown value else literal
  | .boolean _ value => if value then "true" else "false"
  | .null _ => "null"
  | .name _ text => text
  | .member _ object property =>
    parenthesize (object.strength < memberStrength) object.code ++ "." ++ property
  | .element _ base position =>
    parenthesize (base.strength < memberStrength) base.code ++ "[" ++ position.code ++ "]"
  | .call _ callee arguments =>
    parenthesize (callee.strength < memberStrength) callee.code ++
      "(" ++ String.intercalate ", " (Expr.codes arguments) ++ ")"
  | .array _ items => "[" ++ String.intercalate ", " (Expr.codes items) ++ "]"
  | .binary _ left symbol right =>
    parenthesize (left.strength < operatorStrength symbol) left.code ++ " " ++ symbol ++ " " ++
      parenthesize (right.strength ≤ operatorStrength symbol) right.code
  | .unary _ symbol operand =>
    symbol ++ parenthesize (operand.strength < unaryStrength) operand.code

/-- The codes of several expressions. -/
def Expr.codes : List Expr → List String
  | [] => []
  | e :: es => e.code :: Expr.codes es

end

/-- The code of an assignment. -/
def Assignment.code (a : Assignment) : String :=
  a.target.code ++ " " ++ a.symbol ++ " " ++ a.value.code

/-- The code of a declared name. -/
def Declared.code (d : Declared) : String :=
  match d.first with
  | none => d.name
  | some a => a.code

/-- The code of a call. -/
def Call.code (c : Call) : String := c.toExpr.code

/-- The parameter list of a function, in parentheses. -/
def paramList (params : List String) : String := "(" ++ String.intercalate ", " params ++ ")"

/-- The blanks before a line at a depth. -/
def indentation (depth : Nat) : String := String.ofList (List.replicate (2 * depth) ' ')

/-- A block from the code of its lines. -/
def braced (depth : Nat) (lines : String) : String := "\x7b\n" ++ lines ++ indentation depth ++ "\x7d"

/-- Whether a statement ends without a semicolon of its own. -/
def Stmt.isBlock : Stmt → Bool
  | .cond .. | .while .. | .for .. | .function .. => true
  | _ => false

mutual

/-- The code of a statement whose first line stands at a depth. Parts of a conditional that are printed
on their own count from the left margin. -/
def Stmt.codeAt (depth : Nat) : Stmt → String
  | .var _ names => "var " ++ String.intercalate ", " (names.map Declared.code)
  | .declared d => d.code
  | .assign a => a.code
  | .bump _ target symbol => target.code ++ symbol
  | .call _ c => c.code
  | .cond _ test body branch =>
    "if (" ++ test.code ++ ") " ++ braced depth (Stmt.linesAt (depth + 1) body) ++
      Stmt.branchAt depth branch
  | .elseIf _ _ test body branch =>
    "else if (" ++ test.code ++ ") " ++ braced 0 (Stmt.linesAt 1 body) ++ Stmt.branchAt 0 branch
  | .orElse _ body => "else " ++ braced 0 (Stmt.linesAt 1 body)
  | .while _ test body =>
    "while (" ++ test.code ++ ") " ++ braced depth (Stmt.linesAt (depth + 1) body)
  | .for _ first test update body =>
    "for (" ++ Stmt.headerCode first ++ "; " ++ test.code ++ "; " ++ Stmt.headerCode update ++ ") " ++
      braced depth (Stmt.linesAt (depth + 1) body)
  | .function _ name params body =>
    "function " ++ name ++ paramList params ++ " " ++ braced depth (Stmt.linesAt (depth + 1) body)
  | .return _ none => "return"
  | .return _ (some value) => "return " ++ value.code

/-- The code of a statement in the header of a loop. -/
def Stmt.headerCode : Option Stmt → String
  | none => ""
  | some s => s.codeAt 0

/-- The code of the branch that hangs below a conditional; other statements there are not shown. -/
def Stmt.branchAt (depth : Nat) : Option Stmt → String
  | some (.elseIf _ _ test body branch) =>
    " else if (" ++ test.code ++ ") " ++ braced depth (Stmt.linesAt (depth + 1) body) ++
      Stmt.branchAt depth branch
  | some (.orElse _ body) => " else " ++ braced depth (Stmt.linesAt (depth + 1) body)
  | _ => ""

/-- The code of a statement list, one statement a line. -/
def Stmt.linesAt (depth : Nat) : List Stmt → String
  | [] => ""
  | s :: rest =>
    indentation depth ++ s.codeAt depth ++ (if s.isBlock then "\n" else ";\n") ++
      Stmt.linesAt depth rest

end

/-- The code of a statement on its own. -/
def Stmt.code (s : Stmt) : String := s.codeAt 0

/-- The code of a whole program. -/
def Program.code (p : Program) : String := Stmt.linesAt 0 p.body

end Primer
