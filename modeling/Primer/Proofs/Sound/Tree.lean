import Primer.Run.Operator
import Primer.Source.Program

/-!
# Trees that the engine handles

A tree that was built by hand may hold a statement where none of its kind can stand, or an operator that nobody
knows. `Stmt.allHandled` says that a statement list is free of all that: its statements are of the kinds that
can be run, the branches of conditionals are `else` and `else if`, the headers of loops hold such statements,
and every operator is one that the engine knows. Everything that is built from a source is handled
(`Source.buildStmts_handled`), whatever the source is and however it was read.
-/

set_option autoImplicit false

namespace Primer

/-! ## What is handled -/

/-- Whether the engine knows an operator between two operands. -/
def isOperator (symbol : String) : Bool :=
  Memory.numericSymbols.contains symbol || ["+", "+=", "&&", "||", "==", "!="].contains symbol

/-- Whether the engine knows an operator before an operand. -/
def isPrefixOperator (symbol : String) : Bool := ["!", "+", "-"].contains symbol

/-- Whether the engine knows an assignment. -/
def isAssignment (symbol : String) : Bool := ["=", "+=", "-=", "*=", "/=", "%="].contains symbol

/-- What stands in front of the sign of a compound assignment is an operator. -/
theorem isOperator_of_isAssignment {symbol : String} (h : isAssignment symbol = true) (hplain : symbol ≠ "=") :
    isOperator symbol = true := by
  have hall : ∀ s ∈ ["=", "+=", "-=", "*=", "/=", "%="], s ≠ "=" → isOperator s = true := by decide
  exact hall symbol (List.contains_iff_mem.mp h) hplain

mutual

/-- Whether the engine knows all operators in an expression. -/
def Expr.isHandled : Expr → Bool
  | .member _ object _ => object.isHandled
  | .element _ base position => base.isHandled && position.isHandled
  | .call _ callee args => callee.isHandled && Expr.allHandled args
  | .array _ items => Expr.allHandled items
  | .binary _ left symbol right => isOperator symbol && left.isHandled && right.isHandled
  | .unary _ symbol operand => isPrefixOperator symbol && operand.isHandled
  | _ => true

/-- Whether the engine knows all operators in several expressions. -/
def Expr.allHandled : List Expr → Bool
  | [] => true
  | e :: es => e.isHandled && Expr.allHandled es

end

/-- Whether the engine knows an assignment and all operators in it. -/
def Assignment.isHandled (a : Assignment) : Bool := isAssignment a.symbol && a.target.isHandled && a.value.isHandled

/-- Whether the engine knows all operators in the first value of a declared name. -/
def Declared.isHandled (d : Declared) : Bool := d.first.all Assignment.isHandled

mutual

/-- Whether a statement can be run as it is. -/
def Stmt.isHandled : Stmt → Bool
  | .var _ names => names.all Declared.isHandled
  | .assign a => a.isHandled
  | .bump _ target _ => target.isHandled
  | .call _ c => c.toExpr.isHandled
  | .cond _ test body branch => test.isHandled && Stmt.allHandled body && Stmt.isHandledBranch branch
  | .while _ test body => test.isHandled && Stmt.allHandled body
  | .for _ first test update body =>
    Stmt.isHandledPart first && test.isHandled && Stmt.isHandledPart update && Stmt.allHandled body
  | .function _ _ _ body => Stmt.allHandled body
  | .return _ value => value.all Expr.isHandled
  | .declared _ | .elseIf .. | .orElse .. => false

/-- Whether what stands below a conditional can be run as its branch. -/
def Stmt.isHandledBranch : Option Stmt → Bool
  | none => true
  | some (.elseIf _ _ test body branch) => test.isHandled && Stmt.allHandled body && Stmt.isHandledBranch branch
  | some (.orElse _ body) => Stmt.allHandled body
  | some _ => false

/-- Whether a statement in the header of a loop can be run, if there is one. -/
def Stmt.isHandledPart : Option Stmt → Bool
  | none => true
  | some s => s.isHandled

/-- Whether a statement list can be run. -/
def Stmt.allHandled : List Stmt → Bool
  | [] => true
  | s :: rest => s.isHandled && Stmt.allHandled rest

end

/-- Two bodies in a row are handled if both are. -/
theorem Stmt.allHandled_append (body rest : List Stmt) :
    Stmt.allHandled (body ++ rest) = (Stmt.allHandled body && Stmt.allHandled rest) := by
  induction body with
  | nil => rfl
  | cons s body ih => simp only [List.cons_append, Stmt.allHandled, ih, Bool.and_assoc]

/-! ## What a source can hold -/

namespace Source

variable {α β : Type}

/-- Whatever a part of the tree is built of, the part has a property. -/
structure Build.Yields (x : Build α) (P : α → Prop) : Prop where
  of_ok : ∀ id a id', x id = .ok (a, id') → P a

namespace Build.Yields

/-- A tree that meets the condition is built. -/
theorem pure {P : α → Prop} {a : α} (h : P a) : Yields (Pure.pure a) P := by
  constructor
  rintro id _ _ ⟨⟩
  exact h

/-- A refusal builds nothing, so every condition holds of what it builds. -/
theorem refuse {P : α → Prop} (o : Origin) (off : Nat) (message : String) :
    Yields (Source.refuse o off message) P := by
  constructor
  rintro id a id' ⟨⟩

/-- What a sequence of steps builds meets the condition of its last step. -/
theorem bind {P : α → Prop} {Q : β → Prop} {x : Build α} {f : α → Build β} (hx : Yields x P)
    (hf : ∀ a, P a → Yields (f a) Q) : Yields (x >>= f) Q := by
  constructor
  intro id b id'' h
  change (x id >>= fun result => f result.1 result.2) = .ok (b, id'') at h
  cases hxid : x id with
  | error d =>
    rw [hxid] at h
    cases h
  | ok result =>
    rw [hxid] at h
    exact (hf result.1 (hx.of_ok id result.1 result.2 hxid)).of_ok result.2 b id'' h

/-- Where nothing has to be known of the first part. -/
theorem after {Q : β → Prop} {x : Build α} {f : α → Build β} (hf : ∀ a, Yields (f a) Q) :
    Yields (x >>= f) Q :=
  bind ⟨fun _ _ _ _ => trivial⟩ fun a _ => hf a

end Build.Yields

open Build.Yields (after)

variable (o : Origin)

mutual

/-- Every expression that is built is handled. -/
theorem buildExpr_handled : ∀ t : Term, (buildExpr o t).Yields fun e => e.isHandled = true
  | .number .. | .string .. | .boolean .. | .null _ | .name .. => after fun _ => .pure rfl
  | .dot left _ _ => by
    apply after
    intro _
    refine .bind (buildExpr_handled left) ?_
    intro _ hobject
    exact .pure hobject
  | .bracket left position _ => by
    apply after
    intro _
    refine .bind (buildExpr_handled left) ?_
    intro _ hbase
    refine .bind (buildExpr_handled position) ?_
    intro _ hindex
    exact .pure (by simp only [Expr.isHandled, hbase, hindex, Bool.and_self])
  | .call callee args _ => by
    apply after
    intro _
    refine .bind (buildExpr_handled callee) ?_
    intro _ hf
    refine .bind (buildExprs_handled args) ?_
    intro _ hargs
    exact .pure (by simp only [Expr.isHandled, hf, hargs, Bool.and_self])
  | .array _ items _ => by
    apply after
    intro _
    refine .bind (buildExprs_handled items) ?_
    intro _ hitems
    exact .pure hitems
  | .binary left symbol right => by
    unfold buildExpr
    split
    case isTrue h =>
      have hall : ∀ s ∈ subsetBinary, isOperator s = true := by decide
      have hsymbol := hall symbol (List.contains_iff_mem.mp h)
      apply after
      intro _
      refine .bind (buildExpr_handled left) ?_
      intro _ hl
      refine .bind (buildExpr_handled right) ?_
      intro _ hr
      exact .pure (by simp only [Expr.isHandled, hsymbol, hl, hr, Bool.and_self])
    case isFalse => exact .refuse ..
  | .unary start symbol operand => by
    unfold buildExpr
    split
    · exact .refuse ..
    · split
      case isTrue h =>
        have hall : ∀ s ∈ subsetUnary, isPrefixOperator s = true := by decide
        have hsymbol := hall symbol (List.contains_iff_mem.mp h)
        apply after
        intro _
        refine .bind (buildExpr_handled operand) ?_
        intro _ he
        exact .pure (by simp only [Expr.isHandled, hsymbol, he, Bool.and_self])
      case isFalse => exact .refuse ..
  | .bumped .. | .assign .. | .foreign .. => .refuse ..

/-- Several expressions that are built are handled. -/
theorem buildExprs_handled : ∀ ts : List Term, (buildExprs o ts).Yields fun es => Expr.allHandled es = true
  | [] => .pure rfl
  | t :: ts => by
    refine .bind (buildExpr_handled t) ?_
    intro _ he
    refine .bind (buildExprs_handled ts) ?_
    intro _ hes
    exact .pure (by simp only [Expr.allHandled, he, hes, Bool.and_self])

end

/-- Every target that is built is handled. -/
theorem buildTarget_handled (t : Term) : (buildTarget o t).Yields fun e => e.isHandled = true := by
  unfold buildTarget
  split
  · exact buildExpr_handled o t
  · exact .refuse ..

/-- Every assignment that is built is handled. -/
theorem buildAssignment_handled (left : Term) (symbol : String) (right : Term) :
    (buildAssignment o left symbol right).Yields fun a => a.isHandled = true := by
  unfold buildAssignment
  split
  case isTrue h =>
    have hsymbol : isAssignment symbol = true := h
    apply after
    intro _
    refine .bind (buildTarget_handled o left) ?_
    intro _ htarget
    refine .bind (buildExpr_handled o right) ?_
    intro _ hvalue
    exact .pure (by simp only [Assignment.isHandled, hsymbol, htarget, hvalue, Bool.and_self])
  case isFalse => exact .refuse ..

/-- Every simple statement that is built is handled. -/
theorem buildSimple_handled (t : Term) : (buildSimple o t).Yields fun s => s.isHandled = true := by
  cases t
  case assign left symbol right =>
    refine .bind (buildAssignment_handled o left symbol right) ?_
    intro _ ha
    exact .pure ha
  case bumped operand symbol =>
    apply after
    intro _
    refine .bind (buildTarget_handled o operand) ?_
    intro _ htarget
    exact .pure htarget
  case call callee args stop =>
    apply after
    intro _
    apply after
    intro _
    refine .bind (buildExpr_handled o callee) ?_
    intro _ hf
    refine .bind (buildExprs_handled o args) ?_
    intro _ hargs
    exact .pure (by simp only [Stmt.isHandled, Call.toExpr, Expr.isHandled, hf, hargs, Bool.and_self])
  case unary start symbol operand =>
    show Build.Yields (if _ then _ else _) _
    split
    · exact .refuse ..
    · exact .refuse ..
  all_goals exact .refuse ..

/-- Every declared name that is built is handled. -/
theorem buildDeclared_handled (list : List Variable) :
    (buildDeclared o list).Yields fun names => names.all Declared.isHandled = true := by
  induction list with
  | nil => exact .pure rfl
  | cons v vs ih =>
    apply after
    intro info
    have hrest (first : Option Assignment) (hfirst : first.all Assignment.isHandled = true) :
        Build.Yields (do
          let rest ← buildDeclared o vs
          pure (⟨info, v.name, first⟩ :: rest : List Declared)) fun names =>
          names.all Declared.isHandled = true :=
      .bind ih fun rest hrest => .pure (by
        simp only [List.all_cons, Declared.isHandled, hfirst, Bool.true_and]
        exact hrest)
    cases v.value with
    | none => exact hrest none rfl
    | some t =>
      apply after
      intro _
      apply after
      intro _
      refine .bind (buildExpr_handled o t) ?_
      intro value hvalue
      refine hrest (some _) ?_
      simp only [Option.all_some, Assignment.isHandled, Expr.isHandled, hvalue, Bool.and_true]
      decide

/-- Every declaration that is built is handled. -/
theorem buildVar_handled (start : Nat) (list : List Variable) :
    (buildVar o start list).Yields fun s => s.isHandled = true :=
  after fun _ => .bind (buildDeclared_handled o list) fun _ hnames => .pure hnames

/-- The first part of a `for` that is built is handled. -/
theorem buildHeader_handled (header : Header) :
    (buildHeader o header).Yields fun first => Stmt.isHandledPart first = true := by
  cases header with
  | empty => exact .pure rfl
  | declared list => exact .bind (buildVar_handled o _ list) fun s hs => .pure hs
  | term t => exact .refuse ..

mutual

/-- Every statement that is built is handled. -/
theorem buildStmt_handled (top : Bool) :
    ∀ c : Clause, (buildStmt o top c).Yields fun s => Stmt.isHandledPart s = true
  | .empty _ => .pure rfl
  | .term t => by
    apply after
    intro _
    exact .bind (buildSimple_handled o t) fun _ hs => .pure hs
  | .var start list => by
    apply after
    intro _
    exact .bind (buildVar_handled o start list) fun _ hs => .pure hs
  | .cond _ test body branch => by
    apply after
    intro _
    refine .bind (buildExpr_handled o test) ?_
    intro _ ht
    refine .bind (buildBlock_handled "if" body) ?_
    intro _ hb
    refine .bind (buildBranch_handled branch) ?_
    intro _ he
    exact .pure (by simp only [Stmt.isHandledPart, Stmt.isHandled, ht, hb, he, Bool.and_self])
  | .while _ test body => by
    apply after
    intro _
    refine .bind (buildExpr_handled o test) ?_
    intro _ ht
    refine .bind (buildBlock_handled "while" body) ?_
    intro _ hb
    exact .pure (by simp only [Stmt.isHandledPart, Stmt.isHandled, ht, hb, Bool.and_self])
  | .for start header test update body => by
    apply after
    intro info
    refine .bind (buildHeader_handled o header) ?_
    intro first hfirst
    cases test with
    | none => exact .refuse ..
    | some test =>
      refine .bind (buildExpr_handled o test) ?_
      intro t ht
      have hbody (u : Option Stmt) (hu : Stmt.isHandledPart u = true) :
          Build.Yields (do
            let b ← buildBlock o "for" body
            pure (some (Stmt.for info first t u b))) fun s => Stmt.isHandledPart s = true :=
        .bind (buildBlock_handled "for" body) fun _ hb =>
          .pure (by simp only [Stmt.isHandledPart, Stmt.isHandled, hfirst, ht, hu, hb, Bool.and_self])
      cases update with
      | none => exact hbody none rfl
      | some u =>
        refine .bind (buildSimple_handled o u) ?_
        intro s hs
        exact hbody (some s) hs
  | .function start name params body => by
    show Build.Yields (if _ then _ else _) _
    split
    · apply after
      intro info
      cases repeatedParam? [] params with
      | some p => exact .refuse ..
      | none => exact .bind (buildStmts_handled false body) fun _ hb => .pure hb
    · exact .refuse ..
  | .return _ value => by
    apply after
    intro _
    apply after
    intro info
    cases value with
    | none => exact .pure rfl
    | some t => exact .bind (buildExpr_handled o t) fun _ he => .pure he
  | .block start _ => .refuse ..
  | .foreign kind start => .refuse ..

/-- The other branch of a condition that is built is handled. -/
theorem buildBranch_handled :
    ∀ c : Option Clause, (buildBranch o c).Yields fun s => Stmt.isHandledBranch s = true
  | none => .pure rfl
  | some c => by
    cases c
    case cond start test body branch =>
      apply after
      intro _
      apply after
      intro _
      refine .bind (buildExpr_handled o test) ?_
      intro _ ht
      refine .bind (buildBlock_handled "if" body) ?_
      intro _ hb
      refine .bind (buildBranch_handled branch) ?_
      intro _ he
      exact .pure (by simp only [Stmt.isHandledBranch, ht, hb, he, Bool.and_self])
    case block start body =>
      apply after
      intro _
      exact .bind (buildStmts_handled false body) fun _ hb => .pure hb
    all_goals exact after fun _ => .bind (P := fun _ => False) (.refuse ..) fun _ h => h.elim

/-- Every block that is built is handled. -/
theorem buildBlock_handled (keyword : String) :
    ∀ c : Clause, (buildBlock o keyword c).Yields fun body => Stmt.allHandled body = true
  | .block _ body => buildStmts_handled false body
  | .empty _ | .term _ | .var _ _ | .cond _ _ _ _ | .while _ _ _ | .for _ _ _ _ _ | .function _ _ _ _
  | .return _ _ | .foreign _ _ => .refuse ..

/-- Every body that is built is handled. -/
theorem buildStmts_handled (top : Bool) :
    ∀ cs : List Clause, (buildStmts o top cs).Yields fun body => Stmt.allHandled body = true
  | [] => .pure rfl
  | c :: cs =>
    .bind (buildStmt_handled top c) fun s hs => .bind (buildStmts_handled top cs) fun rest hrest =>
      .pure (by
        rw [Stmt.allHandled_append, hrest, Bool.and_true]
        cases s with
        | none => rfl
        | some s => exact Bool.and_eq_true_iff.mpr ⟨hs, rfl⟩)

end

/-- A program that was built is handled, whatever it was built of. -/
theorem buildProgram_handled {clauses : List Clause} {program : Program}
    (h : buildProgram o clauses = .ok program) : Stmt.allHandled program.body = true := by
  unfold buildProgram at h
  cases hbuild : buildStmts o true clauses 1 with
  | error d =>
    rw [hbuild] at h
    cases h
  | ok result =>
    rw [hbuild] at h
    cases h
    exact (buildStmts_handled o true clauses).of_ok 1 result.1 result.2 hbuild

end Source

/-- A program that was read from a text that is not blank is built of something. -/
theorem Program.built_of_parse {maps : Source.MapDecoder} {path source : String} {program : Program}
    (hblank : Text.trim source ≠ "") (h : parseWith maps path source = .ok program) :
    ∃ o clauses, Source.buildProgram o clauses = .ok program := by
  unfold parseWith at h
  rw [if_neg hblank] at h
  dsimp only at h
  split at h
  · cases h
  · next relocate _ =>
    unfold Source.readProgram at h
    split at h
    · cases h
    · exact ⟨_, _, h⟩

/-- A program that was read from a text is built of something, or it is empty. -/
theorem Program.of_parse {maps : Source.MapDecoder} {path source : String} {program : Program}
    (h : parseWith maps path source = .ok program) :
    program.body = [] ∨ ∃ o clauses, Source.buildProgram o clauses = .ok program := by
  by_cases hblank : Text.trim source = ""
  · unfold parseWith at h
    rw [if_pos hblank] at h
    cases h
    exact .inl rfl
  · exact .inr (Program.built_of_parse hblank h)

/-- A program that was read from a text is handled. -/
theorem Program.handled_of_parse {maps : Source.MapDecoder} {path source : String} {program : Program}
    (h : parseWith maps path source = .ok program) : Stmt.allHandled program.body = true := by
  rcases Program.of_parse h with hempty | ⟨o, clauses, hbuilt⟩
  · rw [hempty]
    rfl
  · exact Source.buildProgram_handled o hbuilt

/-! ## Programs from sources -/

/-- A program that comes from a source: it was read from a text, however maps are decoded, or it was built of clauses,
whatever they are. -/
inductive Program.Accepted (program : Program) : Prop where
  | read {maps : Source.MapDecoder} {path source : String} (h : parseWith maps path source = .ok program)
  | built {o : Source.Origin} {clauses : List Source.Clause} (h : Source.buildProgram o clauses = .ok program)

/-- A program that comes from a source is handled. -/
theorem Program.Accepted.handled {program : Program} (h : program.Accepted) :
    Stmt.allHandled program.body = true := by
  cases h with
  | read h => exact Program.handled_of_parse h
  | built h => exact Source.buildProgram_handled _ h

end Primer
