import Primer.Source.Grammar
import Primer.Source.Literal
import Primer.Source.Pattern

/-!
# Reading a source

A reader for the grammar of JavaScript (the fifth edition of its standard). It looks one token ahead and
stops at the first mistake. Semicolons may be left out where the grammar allows it; whether the subset
accepts that is decided later. The relational operators group to the right, all other operators between
two operands to the left.

Every function takes a bound on the depth of its recursion; `readSource` gives one that is larger than
any source of its length can need.
-/

set_option autoImplicit false

namespace Primer.Source

/-- What surrounds the part that is being read. -/
structure Surroundings where
  inFunction : Bool
  inLoop : Bool
  inSwitch : Bool
  labels : List String
  /-- Whether `in` is an operator here; it is not in the first part of a `for` header. -/
  allowIn : Bool
  deriving Repr, Inhabited

/-- The surroundings of a whole source. -/
def Surroundings.top : Surroundings := ⟨false, false, false, [], true⟩

/-- The surroundings of a function's body. -/
def Surroundings.function : Surroundings := ⟨true, false, false, [], true⟩

/-- The same surroundings inside a loop. -/
def Surroundings.loop (env : Surroundings) : Surroundings :=
  { env with inLoop := true, allowIn := true }

/-- Whether the current token is a given keyword or punctuation mark. -/
def Cursor.is (c : Cursor) (text : String) : Bool := c.kind = .mark && c.text = text

/-- Whether the current token is one of several marks. -/
def Cursor.isOneOf (c : Cursor) (texts : List String) : Bool :=
  c.kind = .mark && texts.contains c.text

/-- Whether the source ends here. -/
def Cursor.isEnd (c : Cursor) : Bool := c.kind = .endOfInput

/-- The mistake that the current token is not expected. -/
def Cursor.unexpected (c : Cursor) : Mistake :=
  match c.kind with
  | .endOfInput => ⟨c.start, "Unexpected end of input"⟩
  | .illegal => ⟨c.start, "Unexpected token ILLEGAL"⟩
  | .identifier => ⟨c.start, "Unexpected identifier"⟩
  | .reserved => ⟨c.start, "Unexpected reserved word"⟩
  | .number => ⟨c.start, "Unexpected number"⟩
  | .string => ⟨c.start, "Unexpected string"⟩
  | .boolean | .null | .mark => ⟨c.start, "Unexpected token " ++ c.text⟩

/-- Steps over a mark that must stand here. -/
def Cursor.expect (c : Cursor) (text : String) : Except Mistake Cursor :=
  if c.is text then c.next else .error c.unexpected

/-- Steps over the end of a statement that needs one: a semicolon, a line end, or a closing bracket that
is left in place. -/
def Cursor.endStatement (c : Cursor) : Except Mistake Cursor :=
  if c.is ")" || c.is "\x7d" then .ok c
  else if c.afterLine then .ok { c with afterLine := false }
  else c.expect ";"

/-- Steps over the end of an expression statement: a semicolon if there is one; otherwise a line end, a
closing brace or the end of the source must follow. -/
def Cursor.endTerm (c : Cursor) : Except Mistake Cursor :=
  if c.is ";" then c.next
  else if c.afterLine then .ok { c with afterLine := false }
  else if c.isEnd || c.is "\x7d" then .ok c
  else .error c.unexpected

/-- Reads an identifier that must stand here: its offset and name. -/
def Cursor.identifier (c : Cursor) : Except Mistake (Param × Cursor) := do
  if c.kind = .identifier then
    let next ← c.next
    .ok (⟨c.start, c.text⟩, next)
  else .error c.unexpected

/-- Whether a text can stand behind a point: a letter, `$` or `_`, then also digits. -/
def isMemberName (text : String) : Bool :=
  match text.toList with
  | [] => false
  | c :: cs =>
    (c == '$' || c == '_' || Text.isLetter c) &&
      cs.all fun d => d == '$' || d == '_' || d.isDigit || d.toNat == 0x7d || Text.isLetter d

/-- The operators that assign. -/
def assignOperators : List String :=
  ["=", "+=", "-=", "*=", "/=", "%=", "&=", "&^=", "|=", "^=", "<<=", ">>=", ">>>="]

/-- The level of the relational operators, which group to the right. -/
def relationalLevel : Nat := 7

/-- How strongly an operator between two operands binds. -/
def binaryLevel? (allowIn : Bool) (text : String) : Option Nat :=
  match text with
  | "||" => some 1
  | "&&" => some 2
  | "|" => some 3
  | "^" => some 4
  | "&" => some 5
  | "==" | "!=" | "===" | "!==" => some 6
  | "<" | ">" | "<=" | ">=" | "instanceof" => some relationalLevel
  | "in" => if allowIn then some relationalLevel else none
  | "<<" | ">>" | ">>>" => some 8
  | "+" | "-" => some 9
  | "*" | "/" | "%" => some 10
  | _ => none

/-- The operators that stand before their operand. -/
def unaryOperators : List String := ["+", "-", "!", "~", "delete", "void", "typeof"]

/-- The keywords at which reading can resume after a part that cannot be read. -/
def resumeKeywords : List String :=
  ["break", "continue", "for", "if", "return", "switch", "var", "do", "try", "with", "while", "throw",
   "catch", "finally"]

/-- Skips to a keyword that starts a statement, or to the end. -/
def skipToStatement : Nat → Cursor → Except Mistake Cursor
  | 0, c => .ok c
  | n + 1, c =>
    if c.isEnd || c.isOneOf resumeKeywords then .ok c
    else do skipToStatement n (← c.next)

/-- Reads a regular expression with its flags. -/
def regularExpression (c : Cursor) : Except Mistake (Term × Cursor) := do
  let mistake (text : String) : Mistake := ⟨c.start, "Invalid regular expression: " ++ text⟩
  match Pattern.scan c.stop false false c.rest with
  | none => .error (mistake "missing /")
  | some p =>
    let after ← Cursor.next { c with rest := p.rest, stop := p.stop, mayEnd := true }
    let (stop, last) ←
      if after.kind = .identifier then do
        let last ← after.next
        .ok (last.stop - 1, last)
      else .ok (p.stop, after)
    match p.fault? with
    | some fault => .error (mistake fault.message)
    | none => .ok (.foreign .regularExpression c.start stop, last)

/-- Steps over the key of an object's property: any token, but an undecodable text is a mistake. -/
def propertyKey (c : Cursor) : Except Mistake (String × Cursor) := do
  let next ← c.next
  match c.kind with
  | .string =>
    match stringValue c.text with
    | .ok _ => .ok (c.text, next)
    | .error m => .error ⟨c.start, m⟩
  | _ => .ok (c.text, next)

/-- The mistake of a source that is nested more deeply than any source of its length can be. -/
def tooDeep (c : Cursor) : Mistake := ⟨c.start, "Source is nested too deeply"⟩

/-- Reads the parameters of a function, up to the closing parenthesis; a comma may stand behind the last
one. -/
def parameters : Nat → Cursor → Except Mistake (List Param × Cursor)
  | 0, c => .error (tooDeep c)
  | n + 1, c => do
    if c.is ")" || c.isEnd then
      let c ← c.expect ")"
      .ok ([], c)
    else
      let (param, c) ← c.identifier
      let c ← if c.is ")" then .ok c else c.expect ","
      let (params, c) ← parameters n c
      .ok (param :: params, c)

mutual

/-- Reads an expression, possibly several with commas between them. -/
def expression : Nat → Surroundings → Cursor → Except Mistake (Term × Cursor)
  | 0, _, c => .error (tooDeep c)
  | n + 1, env, c => do
    let (first, c) ← assignment n env c
    if c.is "," then
      let (last, c) ← sequenceTail n env first c
      .ok (.foreign .sequence first.start last.stop, c)
    else .ok (first, c)
termination_by structural n => n

/-- Reads the expressions behind commas and gives the last one. -/
def sequenceTail : Nat → Surroundings → Term → Cursor → Except Mistake (Term × Cursor)
  | 0, _, _, c => .error (tooDeep c)
  | n + 1, env, last, c =>
    if c.is "," then do
      let c ← c.next
      let (e, c) ← assignment n env c
      sequenceTail n env e c
    else .ok (last, c)
termination_by structural n => n

/-- Reads an expression without commas. -/
def assignment : Nat → Surroundings → Cursor → Except Mistake (Term × Cursor)
  | 0, _, c => .error (tooDeep c)
  | n + 1, env, c => do
    let (left, c) ← conditional n env c
    if c.isOneOf assignOperators then
      let symbol := c.text
      let c ← c.next
      if left.isTarget then
        let (right, c) ← assignment n env c
        .ok (.assign left symbol right, c)
      else .error ⟨left.start, "invalid left-hand side in assignment"⟩
    else .ok (left, c)
termination_by structural n => n

/-- Reads an expression that may be a choice by `?` and `:`. -/
def conditional : Nat → Surroundings → Cursor → Except Mistake (Term × Cursor)
  | 0, _, c => .error (tooDeep c)
  | n + 1, env, c => do
    let (test, c) ← binary n env 1 c
    if c.is "?" then
      let c ← c.next
      let (_, c) ← assignment n env c
      let c ← c.expect ":"
      let (last, c) ← assignment n env c
      .ok (.foreign .conditional test.start last.stop, c)
    else .ok (test, c)
termination_by structural n => n

/-- Reads operands joined by operators that bind at least as strongly as `level`. -/
def binary : Nat → Surroundings → Nat → Cursor → Except Mistake (Term × Cursor)
  | 0, _, _, c => .error (tooDeep c)
  | n + 1, env, level, c => do
    let (left, c) ← unary n env c
    binaryTail n env level left c
termination_by structural n => n

/-- Reads operators and right operands behind a left operand. -/
def binaryTail : Nat → Surroundings → Nat → Term → Cursor → Except Mistake (Term × Cursor)
  | 0, _, _, _, c => .error (tooDeep c)
  | n + 1, env, level, left, c =>
    match (if c.kind = .mark then binaryLevel? env.allowIn c.text else none) with
    | none => .ok (left, c)
    | some l =>
      if l < level then .ok (left, c)
      else do
        let symbol := c.text
        let c ← c.next
        let (right, c) ←
          if l = relationalLevel then binary n { env with allowIn := true } l c
          else binary n env (l + 1) c
        binaryTail n env level (.binary left symbol right) c
termination_by structural n => n

/-- Reads an operand with the operators before it. -/
def unary : Nat → Surroundings → Cursor → Except Mistake (Term × Cursor)
  | 0, _, c => .error (tooDeep c)
  | n + 1, env, c =>
    if c.isOneOf unaryOperators then do
      let next ← c.next
      let (operand, after) ← unary n env next
      .ok (.unary c.start c.text operand, after)
    else if c.is "++" || c.is "--" then do
      let next ← c.next
      let (operand, after) ← unary n env next
      if operand.isTarget then .ok (.unary c.start c.text operand, after)
      else .error ⟨c.start, "invalid left-hand side in assignment"⟩
    else do
      let (operand, after) ← operand n env c
      if (after.is "++" || after.is "--") && !after.afterLine then
        let last ← after.next
        if operand.isTarget then .ok (.bumped operand after.text, last)
        else .error ⟨after.start, "invalid left-hand side in assignment"⟩
      else .ok (operand, after)
termination_by structural n => n

/-- Reads an operand with its members, elements and calls. -/
def operand : Nat → Surroundings → Cursor → Except Mistake (Term × Cursor)
  | 0, _, c => .error (tooDeep c)
  | n + 1, env, c => do
    let inner := { env with allowIn := true }
    let (first, c) ← if c.is "new" then newTerm n inner c else primary n inner c
    accesses n inner true first c
termination_by structural n => n

/-- Reads members, elements and, if allowed, calls behind an expression. -/
def accesses : Nat → Surroundings → Bool → Term → Cursor → Except Mistake (Term × Cursor)
  | 0, _, _, _, c => .error (tooDeep c)
  | n + 1, env, calls, left, c =>
    if c.is "." then do
      let word ← c.next
      if isMemberName word.text && word.kind != .string then
        let next ← word.next
        accesses n env calls (.dot left word.start word.text) next
      else if word.kind = .identifier then
        let next ← word.next
        let after ← skipToStatement n next
        accesses n env calls (.foreign .unreadable c.start after.start) after
      else .error word.unexpected
    else if c.is "[" then do
      let next ← c.next
      let (position, close) ← expression n env next
      let after ← close.expect "]"
      accesses n env calls (.bracket left position (close.start + 1)) after
    else if calls && c.is "(" then do
      let (args, stop, after) ← arguments n env c
      accesses n env calls (.call left args stop) after
    else .ok (left, c)
termination_by structural n => n

/-- Reads the arguments of a call in their parentheses: the arguments, the offset behind the closing
parenthesis and the next token. -/
def arguments : Nat → Surroundings → Cursor → Except Mistake (List Term × Nat × Cursor)
  | 0, _, c => .error (tooDeep c)
  | n + 1, env, c => do
    let c ← c.expect "("
    let (args, close) ← argumentList n env c
    let after ← close.expect ")"
    .ok (args, close.start + 1, after)
termination_by structural n => n

/-- Reads arguments up to the closing parenthesis; a comma may stand behind the last one. -/
def argumentList : Nat → Surroundings → Cursor → Except Mistake (List Term × Cursor)
  | 0, _, c => .error (tooDeep c)
  | n + 1, env, c =>
    if c.is ")" then .ok ([], c)
    else do
      let (arg, c) ← assignment n env c
      if c.is "," then
        let c ← c.next
        let (args, c) ← argumentList n env c
        .ok (arg :: args, c)
      else .ok ([arg], c)
termination_by structural n => n

/-- Reads `new` with its operand and optional arguments. -/
def newTerm : Nat → Surroundings → Cursor → Except Mistake (Term × Cursor)
  | 0, _, c => .error (tooDeep c)
  | n + 1, env, c => do
    let start := c.start
    let c ← c.expect "new"
    let (first, c) ← if c.is "new" then newTerm n env c else primary n env c
    let (callee, c) ← accesses n env false first c
    if c.is "(" then
      let (_, stop, c) ← arguments n env c
      .ok (.foreign .new start stop, c)
    else .ok (.foreign .new start callee.stop, c)
termination_by structural n => n

/-- Reads an expression that is not built by operators. -/
def primary : Nat → Surroundings → Cursor → Except Mistake (Term × Cursor)
  | 0, _, c => .error (tooDeep c)
  | n + 1, env, c =>
    match c.kind with
    | .identifier => do .ok (.name c.start c.text, ← c.next)
    | .null => do .ok (.null c.start, ← c.next)
    | .boolean => do .ok (.boolean c.start (c.text = "true"), ← c.next)
    | .number => do .ok (.number c.start c.text (numberValue c.text), ← c.next)
    | .string => do
      let next ← c.next
      match stringValue c.text with
      | .ok value => .ok (.string c.start c.text value, next)
      | .error m => .error ⟨c.start, m⟩
    | .mark =>
      if c.text = "/" || c.text = "/=" then regularExpression c
      else if c.text = "\x7b" then do
        let next ← c.next
        let (stop, after) ← properties n env next
        .ok (.foreign .object c.start stop, after)
      else if c.text = "[" then do
        let next ← c.next
        let (items, close) ← elements n env next
        let after ← close.expect "]"
        .ok (.array c.start items (close.start + 1), after)
      else if c.text = "(" then do
        let next ← c.next
        let (e, close) ← expression n env next
        .ok (e, ← close.expect ")")
      else if c.text = "this" then do .ok (.foreign .this c.start (c.start + 4), ← c.next)
      else if c.text = "function" then do
        let next ← c.next
        let afterName ← if next.kind = .identifier then next.next else .ok next
        let (_, _, stop, after) ← functionRest n afterName
        .ok (.foreign .function c.start stop, after)
      else .error c.unexpected
    | _ => .error c.unexpected
termination_by structural n => n

/-- Reads the elements of an array up to its closing bracket. A comma without an element before it stands
for an element that was left out. -/
def elements : Nat → Surroundings → Cursor → Except Mistake (List Term × Cursor)
  | 0, _, c => .error (tooDeep c)
  | n + 1, env, c =>
    if c.is "]" || c.isEnd then .ok ([], c)
    else if c.is "," then do
      let next ← c.next
      let (items, after) ← elements n env next
      .ok (.foreign .unreadable c.start c.start :: items, after)
    else do
      let (item, c) ← assignment n env c
      let c ← if c.is "]" then .ok c else c.expect ","
      let (items, c) ← elements n env c
      .ok (item :: items, c)
termination_by structural n => n

/-- Reads the properties of an object up to its closing brace; gives the offset behind the brace. -/
def properties : Nat → Surroundings → Cursor → Except Mistake (Nat × Cursor)
  | 0, _, c => .error (tooDeep c)
  | n + 1, env, c =>
    if c.is "\x7d" || c.isEnd then do
      let after ← c.expect "\x7d"
      .ok (c.start + 1, after)
    else do
      let (key, c) ← propertyKey c
      let c ←
        if (key = "get" || key = "set") && !c.is ":" then do
          let (_, c) ← propertyKey c
          let (_, _, _, c) ← functionRest n c
          .ok c
        else do
          let c ← c.expect ":"
          let (_, c) ← assignment n env c
          .ok c
      let c ← if c.is "," then c.next else .ok c
      properties n env c
termination_by structural n => n

/-- Reads the parameters and the body of a function; gives both, the offset behind the body and the next
token. -/
def functionRest : Nat → Cursor → Except Mistake (List Param × List Clause × Nat × Cursor)
  | 0, c => .error (tooDeep c)
  | n + 1, c => do
    let c ← c.expect "("
    let (params, c) ← parameters n c
    let c ← c.expect "\x7b"
    let (body, close) ← clauses n .function c
    let after ← close.expect "\x7d"
    .ok (params, body, close.start + 1, after)
termination_by structural n => n

/-- Reads statements up to a closing brace or the end. -/
def clauses : Nat → Surroundings → Cursor → Except Mistake (List Clause × Cursor)
  | 0, _, c => .error (tooDeep c)
  | n + 1, env, c =>
    if c.is "\x7d" || c.isEnd then .ok ([], c)
    else do
      let (first, c) ← clause n env c
      let (rest, c) ← clauses n env c
      .ok (first :: rest, c)
termination_by structural n => n

/-- Reads the declared variables of a `var` statement or a `for` header. -/
def variableList : Nat → Surroundings → Cursor → Except Mistake (List Variable × Cursor)
  | 0, _, c => .error (tooDeep c)
  | n + 1, env, c => do
    let (name, c) ← c.identifier
    let (value, c) ←
      if c.is "=" then do
        let c ← c.next
        let (e, c) ← assignment n env c
        .ok (some e, c)
      else .ok (none, c)
    let first : Variable := ⟨name.start, name.name, value⟩
    if c.is "," then
      let c ← c.next
      let (rest, c) ← variableList n env c
      .ok (first :: rest, c)
    else .ok ([first], c)
termination_by structural n => n

/-- Reads a condition in parentheses. -/
def condition : Nat → Surroundings → Cursor → Except Mistake (Term × Cursor)
  | 0, _, c => .error (tooDeep c)
  | n + 1, env, c => do
    let c ← c.expect "("
    let (test, c) ← expression n env c
    let c ← c.expect ")"
    .ok (test, c)
termination_by structural n => n

/-- Reads an expression unless one of the given marks stands here. -/
def optionalTerm : Nat → Surroundings → String → Cursor → Except Mistake (Option Term × Cursor)
  | 0, _, _, c => .error (tooDeep c)
  | n + 1, env, mark, c =>
    if c.is mark then .ok (none, c)
    else do
      let (e, c) ← expression n env c
      .ok (some e, c)
termination_by structural n => n

/-- Reads a `for` loop. -/
def forClause : Nat → Surroundings → Cursor → Except Mistake (Clause × Cursor)
  | 0, _, c => .error (tooDeep c)
  | n + 1, env, c => do
    let start := c.start
    let c ← c.expect "for"
    let c ← c.expect "("
    let inner := { env with allowIn := false }
    if c.is ";" then forRest n env start .empty c
    else if c.is "var" then
      let c ← c.next
      let (list, c) ← variableList n inner c
      if list.length = 1 && c.is "in" then
        let c ← c.next
        forInRest n env start c
      else forRest n env start (.declared list) c
    else
      let (e, c) ← expression n inner c
      if c.is "in" then
        let c ← c.next
        if e.isTarget then forInRest n env start c
        else .error ⟨start, "Invalid left-hand side in for-in"⟩
      else forRest n env start (.term e) c
termination_by structural n => n

/-- Reads a `for` loop behind the first part of its header. -/
def forRest : Nat → Surroundings → Nat → Header → Cursor → Except Mistake (Clause × Cursor)
  | 0, _, _, _, c => .error (tooDeep c)
  | n + 1, env, start, header, c => do
    let c ← c.expect ";"
    let (test, c) ← optionalTerm n env ";" c
    let c ← c.expect ";"
    let (update, c) ← optionalTerm n env ")" c
    let c ← c.expect ")"
    let (body, c) ← clause n env.loop c
    .ok (.for start header test update body, c)
termination_by structural n => n

/-- Reads a loop over the members of an object behind its `in`. -/
def forInRest : Nat → Surroundings → Nat → Cursor → Except Mistake (Clause × Cursor)
  | 0, _, _, c => .error (tooDeep c)
  | n + 1, env, start, c => do
    let (_, c) ← expression n env c
    let c ← c.expect ")"
    let (_, c) ← clause n env.loop c
    .ok (.foreign .forIn start, c)
termination_by structural n => n

/-- Reads the branches of a `switch` up to its closing brace, or to the end; at most one may be the
default. -/
def cases : Nat → Surroundings → Bool → Cursor → Except Mistake Cursor
  | 0, _, _, c => .error (tooDeep c)
  | n + 1, env, seen, c =>
    if c.isEnd then .ok c
    else if c.is "\x7d" then c.next
    else do
      let isDefault := c.is "default"
      let start := c.start
      let c ←
        if isDefault then c.next
        else do
          let c ← c.expect "case"
          let (_, c) ← expression n env c
          .ok c
      let c ← c.expect ":"
      let c ← caseBody n env c
      if isDefault && seen then .error ⟨start, "Already saw a default in switch"⟩
      else cases n env (seen || isDefault) c
termination_by structural n => n

/-- Reads the statements of one branch of a `switch`. -/
def caseBody : Nat → Surroundings → Cursor → Except Mistake Cursor
  | 0, _, c => .error (tooDeep c)
  | n + 1, env, c =>
    if c.isEnd || c.isOneOf ["\x7d", "case", "default"] then .ok c
    else do
      let (_, c) ← clause n env c
      caseBody n env c
termination_by structural n => n

/-- Reads a block in braces. -/
def block : Nat → Surroundings → Cursor → Except Mistake (List Clause × Cursor)
  | 0, _, c => .error (tooDeep c)
  | n + 1, env, c => do
    let c ← c.expect "\x7b"
    let (body, c) ← clauses n env c
    let c ← c.expect "\x7d"
    .ok (body, c)
termination_by structural n => n

/-- Reads `try` with its handlers. -/
def tryClause : Nat → Surroundings → Cursor → Except Mistake (Clause × Cursor)
  | 0, _, c => .error (tooDeep c)
  | n + 1, env, c => do
    let start := c.start
    let c ← c.expect "try"
    let (_, c) ← block n env c
    let (caught, c) ←
      if c.is "catch" then do
        let c ← c.next
        let c ← c.expect "("
        let (_, c) ← c.identifier
        let c ← c.expect ")"
        let (_, c) ← block n env c
        .ok (true, c)
      else .ok (false, c)
    let (ended, c) ←
      if c.is "finally" then do
        let c ← c.next
        let (_, c) ← block n env c
        .ok (true, c)
      else .ok (false, c)
    if caught || ended then .ok (.foreign .exception start, c)
    else .error ⟨start, "Missing catch or finally after try"⟩
termination_by structural n => n

/-- Reads `break` or `continue` with an optional label. -/
def branchClause : Nat → Surroundings → Bool → Cursor → Except Mistake (Clause × Cursor)
  | 0, _, _, c => .error (tooDeep c)
  | _ + 1, env, isBreak, c => do
    let start := c.start
    let word := c.text
    let kind : ForeignClause := if isBreak then .break else .continue
    let illegal : Mistake := ⟨start, "Illegal " ++ word ++ " statement"⟩
    let legal := env.inLoop || (isBreak && env.inSwitch)
    let c ← c.next
    if c.is ";" then
      let c ← c.next
      if legal then .ok (.foreign kind start, { c with afterLine := false }) else .error illegal
    else if c.afterLine || c.is "\x7d" then
      if legal then .ok (.foreign kind start, { c with afterLine := false }) else .error illegal
    else
      let (label, c) ← c.identifier
      if !env.labels.contains label.name then
        .error ⟨start, "Undefined label '" ++ label.name ++ "'"⟩
      else if !isBreak && !env.inLoop then .error illegal
      else
        let c ← c.endStatement
        .ok (.foreign kind start, c)

/-- Reads a statement. -/
def clause : Nat → Surroundings → Cursor → Except Mistake (Clause × Cursor)
  | 0, _, c => .error (tooDeep c)
  | n + 1, env, c =>
    let start := c.start
    if c.kind = .mark then
      match c.text with
      | ";" => do .ok (.empty start, ← c.next)
      | "\x7b" => do
        let (body, c) ← block n env c
        .ok (.block start body, c)
      | "if" => do
        let c ← c.next
        let (test, c) ← condition n env c
        let (body, c) ← clause n env c
        if c.is "else" then
          let c ← c.next
          let (other, c) ← clause n env c
          .ok (.cond start test body (some other), c)
        else .ok (.cond start test body none, c)
      | "do" => do
        let c ← c.next
        let (_, c) ← clause n env.loop c
        let c ← c.expect "while"
        let (_, c) ← condition n env c
        let c ← if c.is ";" then c.next else .ok { c with afterLine := false }
        .ok (.foreign .doWhile start, c)
      | "while" => do
        let c ← c.next
        let (test, c) ← condition n env c
        let (body, c) ← clause n env.loop c
        .ok (.while start test body, c)
      | "for" => forClause n env c
      | "break" => branchClause n env true c
      | "continue" => branchClause n env false c
      | "debugger" => do
        let c ← c.next
        .ok (.foreign .other start, ← c.endStatement)
      | "with" => do
        let c ← c.next
        let (_, c) ← condition n env c
        let (_, c) ← clause n env c
        .ok (.foreign .other start, c)
      | "var" => do
        let c ← c.next
        let (list, c) ← variableList n env c
        .ok (.var start list, ← c.endStatement)
      | "function" => do
        let c ← c.next
        let (name, c) ← c.identifier
        let (params, body, _, c) ← functionRest n c
        .ok (.function start name.name params body, c)
      | "switch" => do
        let c ← c.next
        let (_, c) ← condition n env c
        let c ← c.expect "\x7b"
        let c ← cases n { env with inSwitch := true } false c
        .ok (.foreign .switch start, c)
      | "return" => do
        let c ← c.next
        if !env.inFunction then .error ⟨start, "Illegal return statement"⟩
        else if c.afterLine || c.is ";" || c.is "\x7d" || c.isEnd then
          .ok (.return start none, ← c.endStatement)
        else
          let (value, c) ← expression n env c
          .ok (.return start (some value), ← c.endStatement)
      | "throw" => do
        let c ← c.next
        if c.afterLine then
          .error ⟨start, if c.rest.isEmpty then "Unexpected end of input" else "Illegal newline after throw"⟩
        else
          let (_, c) ← expression n env c
          .ok (.foreign .exception start, ← c.endStatement)
      | "try" => tryClause n env c
      | _ => termClause n env c
    else termClause n env c
termination_by structural n => n

/-- Reads an expression that stands as a statement, or a statement with a label. -/
def termClause : Nat → Surroundings → Cursor → Except Mistake (Clause × Cursor)
  | 0, _, c => .error (tooDeep c)
  | n + 1, env, c => do
    let (e, c) ← expression n env c
    match e with
    | .name start name =>
      if c.is ":" then
        let c ← c.next
        if env.labels.contains name then .error ⟨start, "Label '" ++ name ++ "' already exists"⟩
        else
          let (_, c) ← clause n { env with labels := name :: env.labels } c
          .ok (.foreign .other start, c)
      else .ok (.term e, ← c.endTerm)
    | _ => .ok (.term e, ← c.endTerm)
termination_by structural n => n

end

/-- Reads the statements of a whole source. A closing brace that closes nothing is a mistake. -/
def topClauses : Nat → Cursor → Except Mistake (List Clause)
  | 0, c => .error (tooDeep c)
  | n + 1, c =>
    if c.isEnd then .ok []
    else do
      let (first, c) ← clause n .top c
      let rest ← topClauses n c
      .ok (first :: rest)

/-- A bound on the depth of recursion for a source of some length: every token is read at most a few
calls below the one before it. -/
def depthBound (source : List Char) : Nat := 20 * (source.length + 4)

/-- Reads a whole source. -/
def readSource (source : List Char) : Except Mistake (List Clause) := do
  let c ← Cursor.first source
  topClauses (depthBound source) c

end Primer.Source
