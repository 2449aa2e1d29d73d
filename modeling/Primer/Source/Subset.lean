import Primer.Source.Reader
import Primer.Tree.Code
import Primer.Diagnostic

/-!
# The subset

The language for beginners is a subset of JavaScript: what lies outside it is refused with a diagnostic
that says what to write instead, and every simple statement must end with a semicolon. What lies inside
becomes a program tree, whose nodes are numbered in the order in which they are made: a node before its
parts, parts as they are written.
-/

set_option autoImplicit false

namespace Primer.Source

/-- What the tree is built from: the name of the source, its text, where its lines start, and where its places come
from if the text was itself made from another one. -/
structure Origin where
  file : String
  source : List Char
  starts : List Nat
  size : Nat
  relocate : Place → Place

/-- The origin of a source that is its own. -/
def Origin.of (file source : String) : Origin :=
  let cs := source.toList
  ⟨file, cs, lineStarts 0 cs, source.utf8ByteSize, id⟩

/-- The token of a node at an offset; an offset behind the source counts as its end, which comes from nowhere
else. -/
def Origin.token (o : Origin) (off : Nat) (lexeme : String) : Token :=
  let place := if off < o.size then o.relocate (placeFrom o.starts off) else placeFrom o.starts o.size
  ⟨lexeme, place.line, place.column⟩

/-- The diagnostic for a construct outside the subset. -/
def Origin.outside (o : Origin) (off : Nat) (message : String) : Diagnostic :=
  ⟨"P002", o.token off "", o.file, message⟩

/-- Building a part of the tree: it takes the next free number and gives the part and the number that is
free afterwards, or a diagnostic. -/
abbrev Build (α : Type) := StateT NodeId (Except Diagnostic) α

/-- Takes the next number for a node with the given token. -/
def freshInfo (token : Token) : Build Info := fun id => .ok (⟨id, token⟩, id + 1)

/-- Refuses a construct. -/
def refuse {α : Type} (o : Origin) (off : Nat) (message : String) : Build α :=
  fun _ => .error (o.outside off message)

/-- What follows a number of bytes; a character that is cut counts as following. -/
def dropBytes (n : Nat) : List Char → List Char
  | [] => []
  | c :: cs =>
    if n = 0 then c :: cs
    else if c.utf8Size ≤ n then dropBytes (n - c.utf8Size) cs
    else c :: cs

/-- Whether a semicolon comes next, behind blanks, closing parentheses and comments. -/
def semicolonFollows (gap : Gap) : List Char → Bool
  | [] => false
  | c :: cs =>
    match gap with
    | .plain =>
      if c = ';' then true
      else if c = ' ' || c = '\t' || c = '\r' || c = '\n' || c = ')' then semicolonFollows .plain cs
      else if c = '/' then semicolonFollows .slash cs
      else false
    | .slash =>
      if c = '/' then semicolonFollows .lineComment cs
      else if c = '*' then semicolonFollows .blockComment cs
      else false
    | .lineComment => semicolonFollows (if c = '\n' then .plain else .lineComment) cs
    | .blockComment => semicolonFollows (if c = '*' then .blockStar else .blockComment) cs
    | .blockStar =>
      semicolonFollows (if c = '/' then .plain else if c = '*' then .blockStar else .blockComment) cs

/-- Checks that a simple statement which ends at an offset is closed by a semicolon. -/
def requireSemicolon (o : Origin) (stop : Nat) : Build Unit := fun id =>
  if semicolonFollows .plain (dropBytes stop o.source) then .ok ((), id)
  else .error ⟨"P001", o.token stop "", o.file,
    "There is a semicolon (<var>;</var>) missing at the end of this statement"⟩

/-- The operators between two operands that the subset has. -/
def subsetBinary : List String :=
  ["+", "-", "*", "/", "%", "<", ">", "<=", ">=", "==", "!=", "&&", "||"]

/-- The operators before an operand that the subset has. -/
def subsetUnary : List String := ["!", "+", "-"]

/-- The assignments that the subset has. -/
def subsetAssign : List String := ["=", "+=", "-=", "*=", "/=", "%="]

/-- Why an operator between two operands is refused. -/
def binaryRefusal (symbol : String) : String :=
  if symbol = "===" then "Use <var>==</var> instead of <var>===</var>"
  else if symbol = "!==" then "Use <var>!=</var> instead of <var>!==</var>"
  else "Operator <var>" ++ symbol ++ "</var> is not supported"

/-- Why an expression of another kind is refused. -/
def ForeignTerm.refusal : ForeignTerm → String
  | .function => "Functions can only be declared at the top level"
  | .object => "Objects cannot be created in jsmm"
  | .conditional => "The <var>? :</var> operator is not supported, use <var>if</var>"
  | .new => "<var>new</var> is not supported"
  | .this => "<var>this</var> is not supported"
  | .sequence => "The <var>,</var> operator is not supported"
  | .regularExpression => "Regular expressions are not supported"
  | .unreadable => "This kind of expression is not supported"

/-- Why a statement of another kind is refused. -/
def ForeignClause.refusal : ForeignClause → String
  | .break => "<var>break</var> is not supported"
  | .continue => "<var>continue</var> is not supported"
  | .doWhile => "<var>do</var> loops are not supported, use <var>while</var>"
  | .forIn => "<var>for in</var> loops are not supported"
  | .switch => "<var>switch</var> is not supported, use <var>if</var>"
  | .exception => "Exceptions are not supported"
  | .other => "This kind of statement is not supported"

mutual

/-- Builds an expression. -/
def buildExpr (o : Origin) : Term → Build Expr
  | .number start text value => do
    .number (← freshInfo (o.token start text)) value text |> pure
  | .string start text value => do
    .string (← freshInfo (o.token start text)) value text |> pure
  | .boolean start value => do
    .boolean (← freshInfo (o.token start (if value then "true" else "false"))) value |> pure
  | .null start => do
    .null (← freshInfo (o.token start "null")) |> pure
  | .name start name => do
    .name (← freshInfo (o.token start name)) name |> pure
  | .dot left _ name => do
    let info ← freshInfo (o.token left.start name)
    let object ← buildExpr o left
    pure (.member info object name)
  | .bracket left position _ => do
    let info ← freshInfo (o.token left.start "[")
    let array ← buildExpr o left
    let index ← buildExpr o position
    pure (.element info array index)
  | .call callee args _ => do
    let info ← freshInfo (o.token callee.start "(")
    let f ← buildExpr o callee
    let arguments ← buildExprs o args
    pure (.call { info with token := { info.token with lexeme := f.code } } f arguments)
  | .array start items _ => do
    let info ← freshInfo (o.token start "[")
    let values ← buildExprs o items
    pure (.array info values)
  | .binary left symbol right =>
    if subsetBinary.contains symbol then do
      let info ← freshInfo (o.token left.start symbol)
      let l ← buildExpr o left
      let r ← buildExpr o right
      pure (.binary info l symbol r)
    else refuse o left.start (binaryRefusal symbol)
  | .unary start symbol operand =>
    if symbol = "++" || symbol = "--" then
      refuse o start ("<var>" ++ symbol ++ "</var> can only be used as a separate statement")
    else if subsetUnary.contains symbol then do
      let info ← freshInfo (o.token start symbol)
      let e ← buildExpr o operand
      pure (.unary info symbol e)
    else refuse o start ("Operator <var>" ++ symbol ++ "</var> is not supported")
  | .bumped operand symbol =>
    refuse o operand.start ("<var>" ++ symbol ++ "</var> can only be used as a separate statement")
  | .assign left _ _ => refuse o left.start "Assignments can only be used as separate statements"
  | .foreign kind start _ => refuse o start kind.refusal

/-- Builds several expressions in order. -/
def buildExprs (o : Origin) : List Term → Build (List Expr)
  | [] => pure []
  | t :: ts => do
    let e ← buildExpr o t
    let es ← buildExprs o ts
    pure (e :: es)

end

/-- Builds the target of an assignment. -/
def buildTarget (o : Origin) (t : Term) : Build Expr :=
  if t.isTarget then buildExpr o t
  else refuse o t.start "Only variables, properties and array elements can be assigned to"

/-- Builds an assignment. -/
def buildAssignment (o : Origin) (left : Term) (symbol : String) (right : Term) : Build Assignment :=
  if subsetAssign.contains symbol then do
    let info ← freshInfo (o.token left.start symbol)
    let target ← buildTarget o left
    let value ← buildExpr o right
    pure ⟨info, target, symbol, value⟩
  else refuse o left.start ("Operator <var>" ++ symbol ++ "</var> is not supported")

/-- Builds an expression that stands as a statement: an assignment, an increment or a call. -/
def buildSimple (o : Origin) : Term → Build Stmt
  | .assign left symbol right => do
    let a ← buildAssignment o left symbol right
    pure (.assign a)
  | .bumped operand symbol => do
    let info ← freshInfo (o.token operand.start symbol)
    let target ← buildTarget o operand
    pure (.bump info target symbol)
  | .call callee args _ => do
    let info ← freshInfo (o.token callee.start "")
    let callInfo ← freshInfo (o.token callee.start "(")
    let f ← buildExpr o callee
    let arguments ← buildExprs o args
    let named (i : Info) : Info := { i with token := { i.token with lexeme := f.code } }
    pure (.call (named info) ⟨named callInfo, f, arguments⟩)
  | .unary start symbol operand =>
    if symbol = "++" || symbol = "--" then
      refuse o start
        ("Use <var>i" ++ symbol ++ "</var> instead of <var>" ++ symbol ++ "i</var>")
    else refuse o (Term.unary start symbol operand).start
      "Only assignments, increments and function calls can be used as statements"
  | t => refuse o t.start "Only assignments, increments and function calls can be used as statements"

/-- Builds declared names. -/
def buildDeclared (o : Origin) : List Variable → Build (List Declared)
  | [] => pure []
  | v :: vs => do
    let info ← freshInfo (o.token v.start v.name)
    let first ← match v.value with
      | none => pure none
      | some t => do
        let assignInfo ← freshInfo (o.token v.start "=")
        let nameInfo ← freshInfo (o.token v.start v.name)
        let value ← buildExpr o t
        pure (some ⟨assignInfo, .name nameInfo v.name, "=", value⟩)
    let rest ← buildDeclared o vs
    pure (⟨info, v.name, first⟩ :: rest)

/-- Builds a declaration of variables. -/
def buildVar (o : Origin) (start : Nat) (list : List Variable) : Build Stmt := do
  let info ← freshInfo (o.token start "var")
  let names ← buildDeclared o list
  pure (.var info names)

/-- The offset behind the last declared variable. -/
def variablesStop (start : Nat) (list : List Variable) : Nat :=
  match list.getLast? with
  | none => start + 3
  | some v => v.stop

/-- Builds the first part of the header of a loop. -/
def buildHeader (o : Origin) : Header → Build (Option Stmt)
  | .empty => pure none
  | .declared list => do
    let s ← buildVar o ((list.head?.map (·.start)).getD 0) list
    pure (some s)
  | .term t =>
    refuse o t.start "Only one statement can be used at the start of a <var>for</var> loop"

/-- The first parameter whose name stands before it as well. -/
def repeatedParam? (seen : List String) : List Param → Option Param
  | [] => none
  | p :: ps => if seen.contains p.name then some p else repeatedParam? (p.name :: seen) ps

mutual

/-- Builds a statement; an empty one leaves nothing. -/
def buildStmt (o : Origin) (top : Bool) : Clause → Build (Option Stmt)
  | .empty _ => pure none
  | .term t => do
    requireSemicolon o t.stop
    let s ← buildSimple o t
    pure (some s)
  | .var start list => do
    requireSemicolon o (variablesStop start list)
    let s ← buildVar o start list
    pure (some s)
  | .cond start test body branch => do
    let info ← freshInfo (o.token start "if")
    let t ← buildExpr o test
    let b ← buildBlock o "if" body
    let e ← buildBranch o branch
    pure (some (.cond info t b e))
  | .while start test body => do
    let info ← freshInfo (o.token start "while")
    let t ← buildExpr o test
    let b ← buildBlock o "while" body
    pure (some (.while info t b))
  | .for start header test update body => do
    let info ← freshInfo (o.token start "for")
    let first ← buildHeader o header
    match test with
    | none => refuse o start "A <var>for</var> loop needs a condition"
    | some test => do
      let t ← buildExpr o test
      let u ← match update with
        | none => pure none
        | some u => do
          let s ← buildSimple o u
          pure (some s)
      let b ← buildBlock o "for" body
      pure (some (.for info first t u b))
  | .function start name params body =>
    if top then do
      let info ← freshInfo (o.token start "function")
      match repeatedParam? [] params with
      | some p => refuse o p.start ("Parameter <var>" ++ p.name ++ "</var> is used twice")
      | none => do
        let b ← buildStmts o false body
        pure (some (.function info name (params.map Param.name) b))
    else refuse o start "Functions can only be declared at the top level"
  | .return start value => do
    requireSemicolon o ((value.map Term.stop).getD (start + 6))
    let info ← freshInfo (o.token start "return")
    match value with
    | none => pure (some (.return info none))
    | some t => do
      let e ← buildExpr o t
      pure (some (.return info (some e)))
  | .block start _ => refuse o start "Blocks can only be used after if, else, while, for and function"
  | .foreign kind start => refuse o start kind.refusal

/-- Builds the branch below a conditional. -/
def buildBranch (o : Origin) : Option Clause → Build (Option Stmt)
  | none => pure none
  | some (.cond start test body branch) => do
    let outer ← freshInfo (o.token start "else")
    let info ← freshInfo (o.token start "if")
    let t ← buildExpr o test
    let b ← buildBlock o "if" body
    let e ← buildBranch o branch
    pure (some (.elseIf outer info t b e))
  | some other => do
    let info ← freshInfo (o.token other.start "else")
    let b ← buildBlock o "else" other
    pure (some (.orElse info b))

/-- Builds the body of a compound statement, which must stand in braces. -/
def buildBlock (o : Origin) (keyword : String) : Clause → Build (List Stmt)
  | .block _ body => buildStmts o false body
  | other => refuse o other.start ("Use \x7b and \x7d around the body of " ++ keyword)

/-- Builds a statement list. -/
def buildStmts (o : Origin) (top : Bool) : List Clause → Build (List Stmt)
  | [] => pure []
  | c :: cs => do
    let s ← buildStmt o top c
    let rest ← buildStmts o top cs
    pure (s.toList ++ rest)

end

/-- Builds the program of a source that has been read. -/
def buildProgram (o : Origin) (clauses : List Clause) : Except Diagnostic Program := do
  let (body, count) ← buildStmts o true clauses 1
  .ok ⟨⟨0, ⟨"", 1, 1⟩⟩, o.file, body, count⟩

end Primer.Source
