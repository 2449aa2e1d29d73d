import Primer.Proofs.Print.Lexeme
import Primer.Proofs.Print.Tree
import Primer.Tree.Code

/-!
# The lexemes of canonical code

Every part of a program has a layout: the lexemes that its code consists of, once it is known what blanks stand
before the first of them. Layouts follow the printer step by step, so the text of a layout is the printed code
(`Expr.render_layout`, `Stmt.render_lines`). Expressions may also stand in more pairs of parentheses than they need,
which the printer leaves out.
-/

set_option autoImplicit false

namespace Primer

open Source (Lexeme render)

/-- The lexemes of a printed part, behind a gap. -/
abbrev Layout := List Char → List Lexeme

namespace Layout

/-- A layout in some pairs of parentheses. -/
def enclose : Nat → Layout → Layout
  | 0, layout, gap => layout gap
  | n + 1, layout, gap => .mark gap "(" :: (enclose n layout [] ++ [.mark [] ")"])

/-- No parentheses beyond those that are needed. -/
def plain (_ : Info) : Nat := 0

/-- Layouts with commas between them. -/
def commas : List Layout → Layout
  | [], _ => []
  | [layout], gap => layout gap
  | layout :: next :: more, gap => layout gap ++ .mark [] "," :: commas (next :: more) [' ']

/-- A block behind its head. -/
def block (depth : Nat) (lines : Layout) : List Lexeme :=
  .mark [' '] "\x7b" :: (lines ['\n'] ++ [.mark ('\n' :: (indentation depth).toList) "\x7d"])

/-- A keyword with a condition and a block. -/
def guarded (keyword : String) (test : Layout) (block : List Lexeme) : Layout := fun gap =>
  .mark gap keyword :: .mark [' '] "(" :: (test [] ++ .mark [] ")" :: block)

/-- A word. -/
def word (name : String) : Layout := fun gap => [.word gap name]

end Layout

open Layout

/-! ## Expressions -/

section Layouts

variable (extra : Info → Nat)

/-- The pairs of parentheses around an expression: those that it has anyway, or one pair if it needs one. -/
def Expr.pairs (needed : Bool) (e : Expr) : Nat := max (extra e.info) needed.toNat

mutual

/-- The layout of an expression. -/
def Expr.layout : Expr → Layout
  | .number _ _ literal => fun gap => [⟨gap, .number, literal.toList⟩]
  | .string _ _ literal => fun gap => [⟨gap, .string, literal.toList⟩]
  | .boolean _ value => word (if value then "true" else "false")
  | .null _ => word "null"
  | .name _ text => word text
  | .member _ object property => fun gap =>
    enclose (object.pairs extra (object.strength < memberStrength)) object.layout gap ++ .mark [] "." :: word property []
  | .element _ base position => fun gap =>
    enclose (base.pairs extra (base.strength < memberStrength)) base.layout gap ++
      .mark [] "[" :: (enclose (position.pairs extra false) position.layout [] ++ [.mark [] "]"])
  | .call _ callee arguments => fun gap =>
    enclose (callee.pairs extra (callee.strength < memberStrength)) callee.layout gap ++
      .mark [] "(" :: (commas (Expr.layouts arguments) [] ++ [.mark [] ")"])
  | .array _ items => fun gap => .mark gap "[" :: (commas (Expr.layouts items) [] ++ [.mark [] "]"])
  | .binary _ left symbol right => fun gap =>
    enclose (left.pairs extra (left.strength < operatorStrength symbol)) left.layout gap ++
      .mark [' '] symbol :: enclose (right.pairs extra (right.strength ≤ operatorStrength symbol)) right.layout [' ']
  | .unary _ symbol operand => fun gap =>
    .mark gap symbol :: enclose (operand.pairs extra (operand.strength < unaryStrength)) operand.layout []

/-- The layouts of several expressions. -/
def Expr.layouts : List Expr → List Layout
  | [] => []
  | e :: es => enclose (e.pairs extra false) e.layout :: Expr.layouts es

end

/-- The layout of a whole expression, with the parentheses around it. -/
def Expr.whole (e : Expr) : Layout := enclose (e.pairs extra false) (e.layout extra)

/-- The layout of an assignment. -/
def Assignment.layout (a : Assignment) : Layout := fun gap =>
  a.target.layout extra gap ++ .mark [' '] a.symbol :: a.value.whole extra [' ']

/-- The layout of a declared name. -/
def Declared.layout (d : Declared) : Layout :=
  match d.first with
  | none => word d.name
  | some a => a.layout extra

/-! ## Statements -/

mutual

/-- The layout of a statement without the semicolon behind it. Branches and single declared names have none. -/
def Stmt.layout (depth : Nat) : Stmt → Layout
  | .var _ names => fun gap => .mark gap "var" :: commas (names.map (Declared.layout extra)) [' ']
  | .assign a => a.layout extra
  | .bump _ target symbol => fun gap => target.layout extra gap ++ [.mark [] symbol]
  | .call _ c => c.toExpr.layout extra
  | .cond _ test body branch => fun gap =>
    guarded "if" (test.whole extra) (block depth (Stmt.lines (depth + 1) body)) gap ++ Stmt.branchLayout depth branch
  | .while _ test body => guarded "while" (test.whole extra) (block depth (Stmt.lines (depth + 1) body))
  | .for _ first test update body => fun gap =>
    .mark gap "for" :: .mark [' '] "(" :: (Stmt.headerLayout first ++ .mark [] ";" :: (test.whole extra [' '] ++
      .mark [] ";" :: (Stmt.updateLayout update ++ block depth (Stmt.lines (depth + 1) body))))
  | .function _ name params body => fun gap =>
    .mark gap "function" :: (word name [' '] ++ .mark [] "(" :: (commas (params.map word) [] ++
      .mark [] ")" :: block depth (Stmt.lines (depth + 1) body)))
  | .return _ none => fun gap => [.mark gap "return"]
  | .return _ (some value) => fun gap => .mark gap "return" :: value.whole extra [' ']
  | .declared _ | .elseIf .. | .orElse .. => fun _ => []

/-- The layout of the first statement in the header of a loop. -/
def Stmt.headerLayout : Option Stmt → List Lexeme
  | none => []
  | some s => s.layout 0 []

/-- The last statement in the header of a loop, and the parenthesis that closes the header. -/
def Stmt.updateLayout : Option Stmt → List Lexeme
  | none => [.mark [' '] ")"]
  | some s => s.layout 0 [' '] ++ [.mark [] ")"]

/-- What hangs below a conditional. -/
def Stmt.branchLayout (depth : Nat) : Option Stmt → List Lexeme
  | some (.elseIf _ _ test body branch) =>
    .mark [' '] "else" :: (guarded "if" (test.whole extra) (block depth (Stmt.lines (depth + 1) body)) [' '] ++
      Stmt.branchLayout depth branch)
  | some (.orElse _ body) => .mark [' '] "else" :: block depth (Stmt.lines (depth + 1) body)
  | _ => []

/-- The layout of a statement list. -/
def Stmt.lines (depth : Nat) : List Stmt → Layout
  | [] => fun _ => []
  | s :: rest => fun gap =>
    s.layout depth (gap ++ (indentation depth).toList) ++ (if s.isBlock then [] else [.mark [] ";"]) ++
      Stmt.lines depth rest ['\n']

end

end Layouts

/-! ## Layouts and code -/

/-- A layout of a text. -/
def Layout.Renders (layout : Layout) (code : String) : Prop := ∀ gap, render (layout gap) = gap ++ code.toList

namespace Layout

/-- A word is written as its name. -/
theorem renders_word (name : String) : (word name).Renders name := fun gap => by simp [word]

/-- Parentheses that are needed are those of the printer, if there are no others. -/
theorem Renders.enclose {layout : Layout} {code : String} (h : layout.Renders code) (e : Expr) (needed : Bool) :
    (enclose (e.pairs plain needed) layout).Renders (parenthesize needed code) := by
  intro gap
  cases needed with
  | false => exact h gap
  | true =>
    show render (.mark gap "(" :: (layout [] ++ [.mark [] ")"])) = _
    simp [parenthesize, h []]

section Commas

variable {α : Type} {f : α → Layout} {g : α → String}

/-- A list with items is written with commas between them. -/
theorem renders_commas {x : α} {xs : List α} (h : ∀ y ∈ x :: xs, (f y).Renders (g y)) :
    (commas ((x :: xs).map f)).Renders (", ".intercalate ((x :: xs).map g)) := by
  intro gap
  induction xs generalizing x gap with
  | nil => simpa [Layout.commas] using h x List.mem_cons_self gap
  | cons y xs ih =>
    have hrest := ih (fun z hz => h z (List.mem_cons_of_mem x hz)) [' ']
    rw [List.map_cons] at hrest
    rw [List.map_cons, List.map_cons, List.map_cons, List.map_cons, String.intercalate_cons_cons, Layout.commas]
    simp [h x List.mem_cons_self gap, hrest]

/-- A list is written with commas between its items. -/
theorem render_commas {xs : List α} (h : ∀ x ∈ xs, (f x).Renders (g x)) :
    render (commas (xs.map f) []) = (", ".intercalate (xs.map g)).toList := by
  cases xs with
  | nil => simp [commas]
  | cons x xs => simpa using renders_commas h []

end Commas

end Layout

/-- The layouts of several expressions are those of each. -/
theorem Expr.layouts_eq_map (extra : Info → Nat) (es : List Expr) : Expr.layouts extra es = es.map (Expr.whole extra) := by
  induction es with
  | nil => rfl
  | cons e es ih => rw [Expr.layouts, ih, List.map_cons, Expr.whole]

/-- The codes of several expressions are those of each. -/
theorem Expr.codes_eq_map (es : List Expr) : Expr.codes es = es.map Expr.code := by
  induction es with
  | nil => rfl
  | cons e es ih => rw [Expr.codes, ih, List.map_cons]

mutual

/-- The layout of an expression is written as its code. -/
theorem Expr.render_layout : ∀ {e : Expr}, e.IsRead → (e.layout plain).Renders e.code
  | .number .., h => fun gap => by simp [Expr.layout, Expr.code, h.1.ne_empty]
  | .string .., h => fun gap => by simp [Expr.layout, Expr.code, h.1.ne_empty]
  | .boolean _ value, _ => renders_word _
  | .null _, _ => renders_word _
  | .name _ text, _ => renders_word _
  | .member _ object property, h => by
    intro gap
    simp [Expr.layout, Expr.code, (Expr.render_layout h.1).enclose _ _ gap, renders_word property []]
  | .element _ base position, h => by
    intro gap
    have hposition := (Expr.render_layout h.2).enclose position false []
    simp [Expr.layout, Expr.code, (Expr.render_layout h.1).enclose _ _ gap, hposition, parenthesize]
  | .call _ callee arguments, h => by
    intro gap
    simp [Expr.layout, Expr.code, (Expr.render_layout h.1).enclose _ _ gap, Expr.layouts_eq_map, Expr.codes_eq_map,
      render_commas (Expr.render_layouts h.2)]
  | .array _ items, h => by
    intro gap
    simp [Expr.layout, Expr.code, Expr.layouts_eq_map, Expr.codes_eq_map, render_commas (Expr.render_layouts h)]
  | .binary _ left symbol right, h => by
    intro gap
    simp [Expr.layout, Expr.code, (Expr.render_layout h.2.1).enclose _ _ gap, (Expr.render_layout h.2.2).enclose _ _ [' ']]
  | .unary _ symbol operand, h => by
    intro gap
    simp [Expr.layout, Expr.code, (Expr.render_layout h.2).enclose _ _ []]

/-- Each of several expressions is written as its code. -/
theorem Expr.render_layouts : ∀ {es : List Expr}, Expr.AllRead es → ∀ e ∈ es, (e.whole plain).Renders e.code
  | _ :: _, h, _, .head _ => (Expr.render_layout h.1).enclose _ false
  | _ :: _, h, _, .tail _ he => Expr.render_layouts h.2 _ he

end

/-- A complete expression is written as its code. -/
theorem Expr.render_whole {e : Expr} (h : e.IsRead) : (e.whole plain).Renders e.code :=
  (Expr.render_layout h).enclose e false

/-- The layout of an assignment is written as its code. -/
theorem Assignment.render_layout {extra : Info → Nat} {a : Assignment} {target value : String}
    (htarget : (a.target.layout extra).Renders target) (hvalue : (a.value.whole extra).Renders value) :
    (a.layout extra).Renders (target ++ " " ++ a.symbol ++ " " ++ value) := by
  intro gap
  simp [Assignment.layout, htarget gap, hvalue [' ']]

/-- The layout of a declared name is written as its code. -/
theorem Declared.render_layout {d : Declared} (h : d.IsRead) : (d.layout plain).Renders d.code := by
  unfold Declared.layout Declared.code
  cases hfirst : d.first with
  | none => exact renders_word d.name
  | some a =>
    obtain ⟨⟨i, htarget⟩, -, hvalue⟩ := h.2 a hfirst
    refine Assignment.render_layout ?_ (Expr.render_whole hvalue)
    rw [htarget]
    exact renders_word d.name

/-- A keyword with a condition and a block is written in a row. -/
theorem Layout.render_guarded {test : Layout} {code : String} (h : test.Renders code) (keyword : String)
    (block : List Lexeme) (gap : List Char) :
    render (guarded keyword test block gap) =
      gap ++ keyword.toList ++ " (".toList ++ code.toList ++ ")".toList ++ render block := by
  simp [guarded, h []]

/-- A block is written between braces. -/
theorem Layout.render_block {lines : Layout} {code : String}
    (h : render (lines ['\n']) ++ ['\n'] = ['\n'] ++ code.toList) (depth : Nat) :
    render (block depth lines) = ' ' :: (braced depth code).toList := by
  have hlines (rest : List Char) : render (lines ['\n']) ++ '\n' :: rest = '\n' :: (code.toList ++ rest) := by
    simpa using congrArg (· ++ rest) h
  simp [block, braced, hlines]

mutual

/-- The layout of a statement is written as its code. -/
theorem Stmt.render_layout (depth : Nat) {inFunction top : Bool} :
    ∀ {s : Stmt}, s.IsRead inFunction top → (s.layout plain depth).Renders (s.codeAt depth)
  | .var _ names, h => by
    intro gap
    obtain ⟨d, ds, rfl⟩ := List.exists_cons_of_ne_nil h.1
    have hnames : (commas ((d :: ds).map (Declared.layout plain))).Renders (", ".intercalate ((d :: ds).map Declared.code)) :=
      renders_commas fun d hd => Declared.render_layout (h.2 d hd)
    simp only [Stmt.layout, Stmt.codeAt, Source.render_cons, Lexeme.chars_mark, hnames [' '], String.toList_append]
    simp
  | .assign a, h => Assignment.render_layout (Expr.render_layout h.2.2.1) (Expr.render_whole h.2.2.2)
  | .bump _ target symbol, h => fun gap => by simp [Stmt.layout, Stmt.codeAt, Expr.render_layout h.2.1 gap]
  | .call _ c, h => Expr.render_layout h
  | .cond _ test body branch, h => by
    intro gap
    have hbody := render_block (Stmt.render_lines (depth + 1) h.2.1 (.inr rfl))
    simp [Stmt.layout, Stmt.codeAt, render_guarded (Expr.render_whole h.1), hbody, Stmt.render_branchLayout depth h.2.2]
  | .while _ test body, h => by
    intro gap
    have hbody := render_block (Stmt.render_lines (depth + 1) h.2 (.inr rfl))
    simp [Stmt.layout, Stmt.codeAt, render_guarded (Expr.render_whole h.1), hbody]
  | .for _ first test update body, h => by
    intro gap
    simp [Stmt.layout, Stmt.codeAt, Stmt.render_headerLayout h.1, Expr.render_whole h.2.1 [' '],
      Stmt.render_updateLayout h.2.2.1, render_block (Stmt.render_lines (depth + 1) h.2.2.2 (.inr rfl))]
  | .function _ name params body, h => by
    intro gap
    have hparams : render (commas (params.map word) []) = (", ".intercalate (params.map id)).toList :=
      render_commas fun p _ => renders_word p
    simp [Stmt.layout, Stmt.codeAt, paramList, renders_word name [' '], hparams,
      render_block (Stmt.render_lines (depth + 1) h.2.2.2.2 (.inr rfl))]
  | .return _ none, _ => fun gap => by simp [Stmt.layout, Stmt.codeAt]
  | .return _ (some value), h => by
    intro gap
    simp [Stmt.layout, Stmt.codeAt, Expr.render_whole (h.2 value rfl) [' ']]

/-- The first part of a `for` is written as its code. -/
theorem Stmt.render_headerLayout {kinds : Stmt → Bool} :
    ∀ {s : Option Stmt}, Stmt.IsReadPart kinds s → render (Stmt.headerLayout plain s) = (Stmt.headerCode s).toList
  | none, _ => rfl
  | some _, h => by simp [Stmt.headerLayout, Stmt.headerCode, Stmt.render_layout 0 h.2 []]

/-- The last part of a `for` is written as its code. -/
theorem Stmt.render_updateLayout {kinds : Stmt → Bool} :
    ∀ {s : Option Stmt}, Stmt.IsReadPart kinds s →
      render (Stmt.updateLayout plain s) = ' ' :: (Stmt.headerCode s).toList ++ [')']
  | none, _ => rfl
  | some _, h => by simp [Stmt.updateLayout, Stmt.headerCode, Stmt.render_layout 0 h.2 [' ']]

/-- The other branch of a condition is written as its code. -/
theorem Stmt.render_branchLayout (depth : Nat) {inFunction : Bool} :
    ∀ {branch : Option Stmt}, Stmt.IsReadBranch inFunction branch →
      render (Stmt.branchLayout plain depth branch) = (Stmt.branchAt depth branch).toList
  | none, _ => rfl
  | some (.elseIf _ _ test body branch), h => by
    simp [Stmt.branchLayout, Stmt.branchAt, render_guarded (Expr.render_whole h.1),
      render_block (Stmt.render_lines (depth + 1) h.2.1 (.inr rfl)), Stmt.render_branchLayout depth h.2.2]
  | some (.orElse _ body), h => by
    simp [Stmt.branchLayout, Stmt.branchAt, render_block (Stmt.render_lines (depth + 1) h (.inr rfl))]

/-- The lines of a body are written as its code. -/
theorem Stmt.render_lines (depth : Nat) {inFunction top : Bool} :
    ∀ {body : List Stmt} {gap : List Char}, Stmt.AllRead inFunction top body → body ≠ [] ∨ gap = ['\n'] →
      render (Stmt.lines plain depth body gap) ++ ['\n'] = gap ++ (Stmt.linesAt depth body).toList
  | [], gap, _, hgap => by
    obtain rfl : gap = ['\n'] := by simpa using hgap
    rfl
  | s :: rest, gap, h, _ => by
    have hrest := Stmt.render_lines depth h.2 (.inr rfl)
    have hsemicolon : render (if s.isBlock then [] else [.mark [] ";"]) ++ ['\n'] =
        (if s.isBlock then "\n" else ";\n").toList := by
      split <;> rfl
    rw [Stmt.lines, Source.render_append, Source.render_append, List.append_assoc, hrest,
      Stmt.render_layout depth h.1, List.append_assoc, ← List.append_assoc _ ['\n'], hsemicolon]
    simp [Stmt.linesAt]

end

end Primer
