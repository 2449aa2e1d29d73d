import Primer.Proofs.Print.Expression

/-!
# Building what was read again

Trees are compared without the numbers and the places of their nodes (`Expr.bare`, `Stmt.bare`); their code shows
neither. What spells an expression is built to that expression, up to these, and the same goes for statements.
-/

set_option autoImplicit false

namespace Primer

/-! ## Trees without numbers and places -/

/-- What a node carries, left blank. -/
def Info.blank : Info := ⟨0, ⟨"", 0, 0⟩⟩

mutual

/-- An expression without the numbers and the places of its nodes. -/
def Expr.bare : Expr → Expr
  | .number _ value literal => .number .blank value literal
  | .string _ value literal => .string .blank value literal
  | .boolean _ value => .boolean .blank value
  | .null _ => .null .blank
  | .name _ text => .name .blank text
  | .member _ object property => .member .blank object.bare property
  | .element _ base position => .element .blank base.bare position.bare
  | .call _ callee arguments => .call .blank callee.bare (Expr.allBare arguments)
  | .array _ items => .array .blank (Expr.allBare items)
  | .binary _ left symbol right => .binary .blank left.bare symbol right.bare
  | .unary _ symbol operand => .unary .blank symbol operand.bare

/-- Several expressions without the numbers and the places of their nodes. -/
def Expr.allBare : List Expr → List Expr
  | [] => []
  | e :: es => e.bare :: Expr.allBare es

end

/-- An assignment without the numbers and the places of its nodes. -/
def Assignment.bare (a : Assignment) : Assignment := ⟨.blank, a.target.bare, a.symbol, a.value.bare⟩

/-- A declared name without the numbers and the places of its nodes. -/
def Declared.bare (d : Declared) : Declared := ⟨.blank, d.name, d.first.map Assignment.bare⟩

/-- A call without the numbers and the places of its nodes. -/
def Call.bare (c : Call) : Call := ⟨.blank, c.callee.bare, Expr.allBare c.arguments⟩

mutual

/-- A statement without the numbers and the places of its nodes. -/
def Stmt.bare : Stmt → Stmt
  | .var _ names => .var .blank (names.map Declared.bare)
  | .declared d => .declared d.bare
  | .assign a => .assign a.bare
  | .bump _ target symbol => .bump .blank target.bare symbol
  | .call _ c => .call .blank c.bare
  | .cond _ test body branch => .cond .blank test.bare (Stmt.allBare body) (Stmt.bareIn branch)
  | .elseIf _ _ test body branch => .elseIf .blank .blank test.bare (Stmt.allBare body) (Stmt.bareIn branch)
  | .orElse _ body => .orElse .blank (Stmt.allBare body)
  | .while _ test body => .while .blank test.bare (Stmt.allBare body)
  | .for _ first test update body =>
    .for .blank (Stmt.bareIn first) test.bare (Stmt.bareIn update) (Stmt.allBare body)
  | .function _ name params body => .function .blank name params (Stmt.allBare body)
  | .return _ value => .return .blank (value.map Expr.bare)

/-- A statement that may be absent, without the numbers and the places of its nodes. -/
def Stmt.bareIn : Option Stmt → Option Stmt
  | none => none
  | some s => some s.bare

/-- Several statements without the numbers and the places of their nodes. -/
def Stmt.allBare : List Stmt → List Stmt
  | [] => []
  | s :: rest => s.bare :: Stmt.allBare rest

end

/-! Code shows neither numbers nor places. -/

/-- The strength of an expression does not depend on its places. -/
@[simp]
theorem Expr.strength_bare (e : Expr) : e.bare.strength = e.strength := by
  cases e <;> rfl

mutual

/-- The code of an expression does not depend on its places. -/
@[simp]
theorem Expr.code_bare : ∀ e : Expr, e.bare.code = e.code
  | .number .. | .string .. | .boolean .. | .null _ | .name .. => rfl
  | .member _ object _ => by simp [Expr.bare, Expr.code, Expr.code_bare object]
  | .element _ base position => by simp [Expr.bare, Expr.code, Expr.code_bare base, Expr.code_bare position]
  | .call _ callee arguments => by simp [Expr.bare, Expr.code, Expr.code_bare callee, Expr.codes_allBare arguments]
  | .array _ items => by simp [Expr.bare, Expr.code, Expr.codes_allBare items]
  | .binary _ left _ right => by simp [Expr.bare, Expr.code, Expr.code_bare left, Expr.code_bare right]
  | .unary _ _ operand => by simp [Expr.bare, Expr.code, Expr.code_bare operand]

/-- The codes of several expressions do not depend on their places. -/
@[simp]
theorem Expr.codes_allBare : ∀ es : List Expr, Expr.codes (Expr.allBare es) = Expr.codes es
  | [] => rfl
  | e :: es => by simp [Expr.allBare, Expr.codes, Expr.code_bare e, Expr.codes_allBare es]

end

/-- The code of an assignment does not depend on its places. -/
theorem Assignment.code_bare (a : Assignment) : a.bare.code = a.code := by
  simp [Assignment.bare, Assignment.code]

/-- The code of a declared name does not depend on its places. -/
theorem Declared.code_bare (d : Declared) : d.bare.code = d.code := by
  unfold Declared.code Declared.bare
  cases d.first with
  | none => rfl
  | some a => exact a.code_bare

/-- The code of a call does not depend on its places. -/
theorem Call.code_bare (c : Call) : c.bare.code = c.code := by
  simp [Call.bare, Call.code, Call.toExpr, Expr.code]

/-- Whether a statement ends in a block does not depend on its places. -/
theorem Stmt.isBlock_bare (s : Stmt) : s.bare.isBlock = s.isBlock := by
  cases s <;> rfl

mutual

/-- The code of a statement does not depend on its places. -/
theorem Stmt.codeAt_bare (depth : Nat) : ∀ s : Stmt, s.bare.codeAt depth = s.codeAt depth
  | .var _ names => by
    have hnames : Declared.code ∘ Declared.bare = Declared.code := funext Declared.code_bare
    simp [Stmt.bare, Stmt.codeAt, hnames]
  | .declared d => d.code_bare
  | .assign a => a.code_bare
  | .bump _ target _ => by simp [Stmt.bare, Stmt.codeAt]
  | .call _ c => c.code_bare
  | .cond _ test body branch => by
    simp [Stmt.bare, Stmt.codeAt, Stmt.linesAt_allBare (depth + 1) body, Stmt.branchAt_bareIn depth branch]
  | .elseIf _ _ test body branch => by
    simp [Stmt.bare, Stmt.codeAt, Stmt.linesAt_allBare 1 body, Stmt.branchAt_bareIn 0 branch]
  | .orElse _ body => by simp [Stmt.bare, Stmt.codeAt, Stmt.linesAt_allBare 1 body]
  | .while _ test body => by simp [Stmt.bare, Stmt.codeAt, Stmt.linesAt_allBare (depth + 1) body]
  | .for _ first test update body => by
    simp [Stmt.bare, Stmt.codeAt, Stmt.headerCode_bareIn first, Stmt.headerCode_bareIn update,
      Stmt.linesAt_allBare (depth + 1) body]
  | .function _ _ _ body => by simp [Stmt.bare, Stmt.codeAt, Stmt.linesAt_allBare (depth + 1) body]
  | .return _ none => rfl
  | .return _ (some value) => by simp [Stmt.bare, Stmt.codeAt]

/-- The code of the first part of a `for` does not depend on its places. -/
theorem Stmt.headerCode_bareIn : ∀ s : Option Stmt, Stmt.headerCode (Stmt.bareIn s) = Stmt.headerCode s
  | none => rfl
  | some s => Stmt.codeAt_bare 0 s

/-- The code of the other branch of a condition does not depend on its places. -/
theorem Stmt.branchAt_bareIn (depth : Nat) : ∀ s : Option Stmt, Stmt.branchAt depth (Stmt.bareIn s) = Stmt.branchAt depth s
  | none => rfl
  | some (.elseIf _ _ test body branch) => by
    simp [Stmt.bareIn, Stmt.bare, Stmt.branchAt, Stmt.linesAt_allBare (depth + 1) body, Stmt.branchAt_bareIn depth branch]
  | some (.orElse _ body) => by simp [Stmt.bareIn, Stmt.bare, Stmt.branchAt, Stmt.linesAt_allBare (depth + 1) body]
  | some (.var ..) | some (.declared _) | some (.assign _) | some (.bump ..) | some (.call ..) | some (.cond ..)
  | some (.while ..) | some (.for ..) | some (.function ..) | some (.return ..) => rfl

/-- The lines of a body do not depend on its places. -/
theorem Stmt.linesAt_allBare (depth : Nat) : ∀ body : List Stmt,
    Stmt.linesAt depth (Stmt.allBare body) = Stmt.linesAt depth body
  | [] => rfl
  | s :: rest => by
    simp [Stmt.allBare, Stmt.linesAt, Stmt.codeAt_bare depth s, s.isBlock_bare, Stmt.linesAt_allBare depth rest]

end

/-! ## Building expressions -/

namespace Source

variable {α β : Type}

/-- Whatever the next free number is, a part of the tree is built and has a property. -/
structure Build.Succeeds (x : Build α) (P : α → Prop) : Prop where
  ok : ∀ id, ∃ a id', x id = .ok (a, id') ∧ P a

namespace Build.Succeeds

/-- A tree that meets the condition is built. -/
theorem pure {P : α → Prop} {a : α} (h : P a) : Succeeds (Pure.pure a) P := ⟨fun id => ⟨a, id, rfl, h⟩⟩

/-- What a sequence of steps builds meets the condition of its last step. -/
theorem bind {P : α → Prop} {Q : β → Prop} {x : Build α} {f : α → Build β} (hx : Succeeds x P)
    (hf : ∀ a, P a → Succeeds (f a) Q) : Succeeds (x >>= f) Q := by
  refine ⟨?_⟩
  intro id
  obtain ⟨a, id', hxid, ha⟩ := hx.ok id
  obtain ⟨b, id'', hfid, hb⟩ := (hf a ha).ok id'
  refine ⟨b, id'', ?_, hb⟩
  change (x id >>= fun result => f result.1 result.2) = _
  rw [hxid]
  exact hfid

/-- A node takes a number. -/
theorem fresh {Q : β → Prop} {token : Token} {f : Info → Build β} (hf : ∀ i, Succeeds (f i) Q) :
    Succeeds (freshInfo token >>= f) Q :=
  bind (P := fun _ => True) ⟨fun id => ⟨⟨id, token⟩, id + 1, rfl, trivial⟩⟩ fun i _ => hf i

end Build.Succeeds

open Build.Succeeds (fresh)

variable (o : Origin)

mutual

/-- What spells an expression is built to it. -/
theorem buildExpr_spells : ∀ {t : Term} {e : Expr}, t.Spells e → e.IsRead →
    (buildExpr o t).Succeeds fun e' => e'.bare = e.bare
  | .number .., e, h, hread => by
    cases e with
    | number => exact fresh fun _ => .pure (by simp only [Expr.bare, h.1, h.2])
    | _ => exact h.elim
  | .string .., e, h, hread => by
    cases e with
    | string => exact fresh fun _ => .pure (by simp only [Expr.bare, h.1, h.2])
    | _ => exact h.elim
  | .boolean .., e, h, hread => by
    cases e with
    | boolean => exact fresh fun _ => .pure (by simp only [Expr.bare, show _ = _ from h])
    | _ => exact h.elim
  | .null _, e, h, hread => by
    cases e with
    | null => exact fresh fun _ => .pure rfl
    | _ => exact h.elim
  | .name .., e, h, hread => by
    cases e with
    | name => exact fresh fun _ => .pure (by simp only [Expr.bare, show _ = _ from h])
    | _ => exact h.elim
  | .dot .., e, h, hread => by
    cases e with
    | member =>
      apply fresh
      intro _
      refine .bind (buildExpr_spells h.1 hread.1) ?_
      intro _ hobject
      exact .pure (by simp only [Expr.bare, hobject, h.2])
    | _ => exact h.elim
  | .bracket .., e, h, hread => by
    cases e with
    | element =>
      apply fresh
      intro _
      refine .bind (buildExpr_spells h.1 hread.1) ?_
      intro _ hbase
      refine .bind (buildExpr_spells h.2 hread.2) ?_
      intro _ hposition
      exact .pure (by simp only [Expr.bare, hbase, hposition])
    | _ => exact h.elim
  | .call .., e, h, hread => by
    cases e with
    | call =>
      apply fresh
      intro _
      refine .bind (buildExpr_spells h.1 hread.1) ?_
      intro _ hcallee
      refine .bind (buildExprs_spell h.2 hread.2) ?_
      intro _ harguments
      exact .pure (by simp only [Expr.bare, hcallee, harguments])
    | _ => exact h.elim
  | .array .., e, h, hread => by
    cases e with
    | array =>
      apply fresh
      intro _
      refine .bind (buildExprs_spell h hread) ?_
      intro _ hitems
      exact .pure (by simp only [Expr.bare, hitems])
    | _ => exact h.elim
  | .binary _ symbol _, e, h, hread => by
    cases e with
    | binary =>
      have hsymbol : subsetBinary.contains symbol = true := by
        rw [h.1]
        exact List.contains_iff_mem.mpr hread.1
      rw [buildExpr, if_pos hsymbol]
      apply fresh
      intro _
      refine .bind (buildExpr_spells h.2.1 hread.2.1) ?_
      intro _ hleft
      refine .bind (buildExpr_spells h.2.2 hread.2.2) ?_
      intro _ hright
      exact .pure (by simp only [Expr.bare, hleft, hright, h.1])
    | _ => exact h.elim
  | .unary _ symbol _, e, h, hread => by
    cases e with
    | unary =>
      have hall : ∀ s ∈ subsetUnary, (decide (s = "++") || decide (s = "--")) = false := by decide
      have hsymbol : subsetUnary.contains symbol = true ∧ (decide (symbol = "++") || decide (symbol = "--")) = false := by
        rw [h.1]
        exact ⟨List.contains_iff_mem.mpr hread.1, hall _ hread.1⟩
      rw [buildExpr, if_neg (by simp [hsymbol.2]), if_pos hsymbol.1]
      apply fresh
      intro _
      refine .bind (buildExpr_spells h.2 hread.2) ?_
      intro _ hoperand
      exact .pure (by simp only [Expr.bare, hoperand, h.1])
    | _ => exact h.elim
  | .bumped .., _, h, _ | .assign .., _, h, _ | .foreign .., _, h, _ => h.elim

/-- Read expressions that spell some expressions are built into them. -/
theorem buildExprs_spell : ∀ {ts : List Term} {es : List Expr}, Term.AllSpell ts es → Expr.AllRead es →
    (buildExprs o ts).Succeeds fun es' => Expr.allBare es' = Expr.allBare es
  | [], es, h, _ => by
    cases es with
    | nil => exact .pure rfl
    | cons => exact h.elim
  | _ :: _, es, h, hread => by
    cases es with
    | nil => exact h.elim
    | cons =>
      refine .bind (buildExpr_spells h.1 hread.1) ?_
      intro _ he
      refine .bind (buildExprs_spell h.2 hread.2) ?_
      intro _ hes
      exact .pure (by simp only [Expr.allBare, he, hes])

end

/-! ## Building statements -/

/-- What spells a place can be a target. -/
theorem isTarget_of_spells {t : Term} {e : Expr} (h : t.Spells e) (hplace : e.isPlace = true) : t.isTarget = true := by
  cases t <;> cases e <;> first | rfl | exact h.elim | cases hplace

/-- What spells a place is built into it. -/
theorem buildTarget_spells {t : Term} {e : Expr} (h : t.Spells e) (hread : e.IsRead) (hplace : e.isPlace = true) :
    (buildTarget o t).Succeeds fun e' => e'.bare = e.bare := by
  rw [buildTarget, if_pos (isTarget_of_spells h hplace)]
  exact buildExpr_spells o h hread

/-- What spells an assignment is built into it. -/
theorem buildSimple_assign {left right : Term} {a : Assignment} (hleft : left.Spells a.target)
    (hright : right.Spells a.value) (hread : a.IsRead) :
    (buildSimple o (.assign left a.symbol right)).Succeeds fun s => s.bare = (Stmt.assign a).bare := by
  have hbuild : (buildAssignment o left a.symbol right).Succeeds fun a' => a'.bare = a.bare := by
    rw [buildAssignment, if_pos (List.contains_iff_mem.mpr hread.1)]
    apply fresh
    intro _
    refine .bind (buildTarget_spells o hleft hread.2.2.1 hread.2.1) ?_
    intro _ htarget
    refine .bind (buildExpr_spells o hright hread.2.2.2) ?_
    intro _ hvalue
    exact .pure (by simp only [Assignment.bare, htarget, hvalue])
  refine .bind hbuild ?_
  intro _ ha
  exact .pure (by simp only [Stmt.bare, ha])

/-- What spells an increment or decrement is built into it. -/
theorem buildSimple_bump {t : Term} {target : Expr} (h : t.Spells target) (hread : target.IsRead)
    (hplace : target.isPlace = true) (i : Info) (symbol : String) :
    (buildSimple o (.bumped t symbol)).Succeeds fun s => s.bare = (Stmt.bump i target symbol).bare := by
  apply fresh
  intro _
  refine .bind (buildTarget_spells o h hread hplace) ?_
  intro _ htarget
  exact .pure (by simp only [Stmt.bare, htarget])

/-- What spells a call is built into it. -/
theorem buildSimple_call {t : Term} {c : Call} (h : t.Spells c.toExpr) (hread : c.toExpr.IsRead) (i : Info) :
    (buildSimple o t).Succeeds fun s => s.bare = (Stmt.call i c).bare := by
  cases t with
  | call callee args stop =>
    apply fresh
    intro _
    apply fresh
    intro _
    refine .bind (buildExpr_spells o h.1 hread.1) ?_
    intro _ hcallee
    refine .bind (buildExprs_spell o h.2 hread.2) ?_
    intro _ harguments
    exact .pure (by simp only [Stmt.bare, Call.bare, hcallee, harguments])
  | _ => exact h.elim

/-- A declared variable of a source that spells a declared name. -/
def Variable.Spells (v : Variable) (d : Declared) : Prop :=
  v.name = d.name ∧
    match v.value, d.first with
    | none, none => True
    | some t, some a => t.Spells a.value
    | _, _ => False

/-- Declared variables of a source that spell declared names. -/
def Variable.AllSpell : List Variable → List Declared → Prop
  | [], [] => True
  | v :: vs, d :: ds => v.Spells d ∧ Variable.AllSpell vs ds
  | _, _ => False

/-- What spells declared names is built into them. -/
theorem buildDeclared_spells {list : List Variable} {names : List Declared} (h : Variable.AllSpell list names)
    (hread : ∀ d ∈ names, d.IsRead) :
    (buildDeclared o list).Succeeds fun names' => names'.map Declared.bare = names.map Declared.bare := by
  induction list generalizing names with
  | nil =>
    cases names with
    | nil => exact .pure rfl
    | cons => exact h.elim
  | cons v vs ih =>
    cases names with
    | nil => exact h.elim
    | cons d ds =>
      obtain ⟨⟨hname, hvalue⟩, hvs⟩ := h
      apply fresh
      intro info
      -- A declared name is built with or without a first value, and the names behind it alike.
      have hrest (first : Option Assignment) (hfirst : first.map Assignment.bare = d.first.map Assignment.bare) :
          Build.Succeeds (do
            let rest ← buildDeclared o vs
            pure (⟨info, v.name, first⟩ :: rest : List Declared)) fun names' =>
            names'.map Declared.bare = (d :: ds).map Declared.bare :=
        .bind (ih hvs fun d' hd' => hread d' (List.mem_cons_of_mem d hd')) fun rest hrest =>
          .pure (by simp only [List.map_cons, hrest, Declared.bare, hname, hfirst])
      have hd := (hread d List.mem_cons_self).2
      cases hv : v.value with
      | none =>
        cases hf : d.first with
        | none => exact hrest none (by rw [hf])
        | some a => simp [hv, hf] at hvalue
      | some t =>
        cases hf : d.first with
        | none => simp [hv, hf] at hvalue
        | some a =>
          rw [hv, hf] at hvalue
          obtain ⟨⟨i, htarget⟩, hsymbol, hread⟩ := hd a hf
          apply fresh
          intro _
          apply fresh
          intro nameInfo
          refine .bind (buildExpr_spells o hvalue hread) ?_
          intro value hbare
          refine hrest (some _) ?_
          simp only [hf, Option.map_some, Assignment.bare, Expr.bare, hbare, htarget, hsymbol, hname]

/-- What spells a declaration is built into it. -/
theorem buildVar_spells (start : Nat) {list : List Variable} {names : List Declared}
    (h : Variable.AllSpell list names) (hread : ∀ d ∈ names, d.IsRead) (i : Info) :
    (buildVar o start list).Succeeds fun s => s.bare = (Stmt.var i names).bare := by
  apply fresh
  intro _
  refine .bind (buildDeclared_spells o h hread) ?_
  intro _ hnames
  exact .pure (by simp only [Stmt.bare, hnames])

/-! A semicolon is found behind parentheses. -/

/-- Behind an offset stands the rest of the source. -/
theorem dropBytes_behind {source rest : List Char} {stop : Nat} (h : Behind source stop rest) :
    dropBytes stop source = rest := by
  obtain ⟨before, rfl, rfl⟩ := h
  induction before with
  | nil => cases rest <;> rfl
  | cons c before ih =>
    have hpos := c.utf8Size_pos
    rw [List.cons_append, dropBytes, byteLength_cons, if_neg (by omega), if_pos (by omega), Nat.add_sub_cancel_left, ih]

/-- Closing parentheses and a semicolon end a simple statement. -/
theorem semicolonFollows_close (k : Nat) (rest : List Char) :
    semicolonFollows .plain (List.replicate k ')' ++ ';' :: rest) = true := by
  induction k with
  | zero => rfl
  | succ k ih => exact ih

/-- A semicolon stands behind an offset, with parentheses before it. -/
def EndsStatement (source : List Char) (stop : Nat) : Prop :=
  ∃ k rest, Behind source stop (List.replicate k ')' ++ ';' :: rest)

/-- No semicolon is missing where a statement ends. -/
theorem requireSemicolon_succeeds {stop : Nat} (h : EndsStatement o.source stop) :
    (requireSemicolon o stop).Succeeds fun _ => True := by
  obtain ⟨k, rest, hbehind⟩ := h
  refine ⟨?_⟩
  intro id
  refine ⟨(), id, ?_, trivial⟩
  rw [requireSemicolon, dropBytes_behind hbehind, if_pos (semicolonFollows_close k rest)]

/-! What a statement of a source is built to -/

/-- A statement of a source is built to a statement. -/
def Clause.Builds (top : Bool) (c : Clause) (s : Stmt) : Prop :=
  (buildStmt o top c).Succeeds fun s' => Stmt.bareIn s' = some s.bare

/-- Statements of a source are built to statements. -/
def Clause.AllBuild (top : Bool) (cs : List Clause) (body : List Stmt) : Prop :=
  (buildStmts o top cs).Succeeds fun body' => Stmt.allBare body' = Stmt.allBare body

/-- A statement of a source is a block that is built to statements. -/
def Clause.BuildsBlock (c : Clause) (body : List Stmt) : Prop := ∃ start cs, c = .block start cs ∧ Clause.AllBuild o false cs body

/-- What hangs below a conditional is built to a branch. -/
def Clause.BuildsBranch (c : Option Clause) (branch : Option Stmt) : Prop :=
  (buildBranch o c).Succeeds fun branch' => Stmt.bareIn branch' = Stmt.bareIn branch

variable {o}

/-- A block that builds a body does so for every keyword in front of it. -/
theorem Clause.BuildsBlock.succeeds {c : Clause} {body : List Stmt} (h : c.BuildsBlock o body) (keyword : String) :
    (buildBlock o keyword c).Succeeds fun body' => Stmt.allBare body' = Stmt.allBare body := by
  obtain ⟨start, cs, rfl, h⟩ := h
  exact h

/-- An expression that ends like a statement builds the statement it spells. -/
theorem Clause.builds_simple {t : Term} {s : Stmt} (hstop : EndsStatement o.source t.stop)
    (h : (buildSimple o t).Succeeds fun s' => s'.bare = s.bare) (top : Bool) : (Clause.term t).Builds o top s := by
  refine .bind (requireSemicolon_succeeds o hstop) ?_
  intro _ _
  exact .bind h fun _ hs => .pure (by simp only [Stmt.bareIn, hs])

/-- A declaration that ends like a statement is built. -/
theorem Clause.builds_var (start : Nat) {list : List Variable} {names : List Declared}
    (hstop : EndsStatement o.source (variablesStop start list)) (h : Variable.AllSpell list names)
    (hread : ∀ d ∈ names, d.IsRead) (i : Info) (top : Bool) : (Clause.var start list).Builds o top (.var i names) := by
  refine .bind (requireSemicolon_succeeds o hstop) ?_
  intro _ _
  refine .bind (buildVar_spells o start h hread i) ?_
  intro _ hs
  exact .pure (by simp only [Stmt.bareIn, hs])

section Guarded

variable {t : Term} {test : Expr} (htest : t.Spells test) (hread : test.IsRead) {c : Clause} {body : List Stmt}
  (hbody : c.BuildsBlock o body) (start : Nat)

include htest hread hbody

/-- A `while` builds if its test and its body do. -/
theorem Clause.builds_while (i : Info) (top : Bool) : (Clause.while start t c).Builds o top (.while i test body) := by
  apply fresh
  intro _
  refine .bind (buildExpr_spells o htest hread) ?_
  intro _ ht
  refine .bind (hbody.succeeds "while") ?_
  intro _ hb
  exact .pure (by simp only [Stmt.bareIn, Stmt.bare, ht, hb])

variable {d : Option Clause} {branch : Option Stmt} (hbranch : Clause.BuildsBranch o d branch)

include hbranch

/-- An `if` builds if its test, its body and its other branch do. -/
theorem Clause.builds_cond (i : Info) (top : Bool) : (Clause.cond start t c d).Builds o top (.cond i test body branch)
  := by
  apply fresh
  intro _
  refine .bind (buildExpr_spells o htest hread) ?_
  intro _ ht
  refine .bind (hbody.succeeds "if") ?_
  intro _ hb
  refine .bind hbranch ?_
  intro _ he
  exact .pure (by simp only [Stmt.bareIn, Stmt.bare, ht, hb, he])

/-- An `else if` builds if its test, its body and its other branch do. -/
theorem Clause.builds_elseIf (i inner : Info) :
    Clause.BuildsBranch o (some (.cond start t c d)) (some (.elseIf i inner test body branch)) := by
  apply fresh
  intro _
  apply fresh
  intro _
  refine .bind (buildExpr_spells o htest hread) ?_
  intro _ ht
  refine .bind (hbody.succeeds "if") ?_
  intro _ hb
  refine .bind hbranch ?_
  intro _ he
  exact .pure (by simp only [Stmt.bareIn, Stmt.bare, ht, hb, he])

end Guarded

/-- An `else` builds if its body does. -/
theorem Clause.builds_orElse {c : Clause} {body : List Stmt} (h : c.BuildsBlock o body) (i : Info) :
    Clause.BuildsBranch o (some c) (some (.orElse i body)) := by
  obtain ⟨start, cs, rfl, h⟩ := h
  apply fresh
  intro _
  refine .bind h ?_
  intro _ hb
  exact .pure (by simp only [Stmt.bareIn, Stmt.bare, hb])

/-- A `for` builds if its parts do. -/
theorem Clause.builds_for {header : Header} {first : Option Stmt} {t : Term} {test : Expr} {update : Option Term}
    {u : Option Stmt} {c : Clause} {body : List Stmt}
    (hheader : (buildHeader o header).Succeeds fun first' => Stmt.bareIn first' = Stmt.bareIn first)
    (htest : t.Spells test) (hread : test.IsRead)
    (hupdate : ∀ t ∈ update, ∃ s, u = some s ∧ (buildSimple o t).Succeeds fun s' => s'.bare = s.bare)
    (hnone : update = none → u = none) (hbody : c.BuildsBlock o body) (start : Nat) (i : Info) (top : Bool) :
    (Clause.for start header (some t) update c).Builds o top (.for i first test u body) := by
  apply fresh
  intro info
  refine .bind hheader ?_
  intro first' hfirst
  refine .bind (buildExpr_spells o htest hread) ?_
  intro test' ht
  have hrest (u' : Option Stmt) (hu : Stmt.bareIn u' = Stmt.bareIn u) : Build.Succeeds (do
      let b ← buildBlock o "for" c
      pure (some (Stmt.for info first' test' u' b))) fun s' => Stmt.bareIn s' = some (Stmt.for i first test u body).bare :=
    .bind (hbody.succeeds "for") fun _ hb => .pure (by simp only [Stmt.bareIn, Stmt.bare, hfirst, ht, hu, hb])
  cases update with
  | none => exact hrest none (by rw [hnone rfl])
  | some t =>
    obtain ⟨s, rfl, hs⟩ := hupdate t rfl
    refine .bind hs ?_
    intro s' hs'
    exact hrest (some s') (by simp only [Stmt.bareIn, hs'])

/-- A function whose parameters differ builds if its body does. -/
theorem Clause.builds_function {params : List Param} {cs : List Clause} {body : List Stmt}
    (hparams : (params.map Param.name).Nodup) (hbody : Clause.AllBuild o false cs body) (start : Nat) (name : String)
    (i : Info) : (Clause.function start name params cs).Builds o true (.function i name (params.map Param.name) body) := by
  have hnone : repeatedParam? [] params = none := repeatedParam?_eq_none.mpr ⟨hparams, fun _ _ => nofun⟩
  apply fresh
  intro _
  rw [hnone]
  refine .bind hbody ?_
  intro _ hb
  exact .pure (by simp only [Stmt.bareIn, Stmt.bare, hb])

/-- A `return` without a value builds. -/
theorem Clause.builds_return_nothing {start : Nat} (hstop : EndsStatement o.source (start + 6)) (i : Info) (top : Bool) :
    (Clause.return start none).Builds o top (.return i none) :=
  .bind (requireSemicolon_succeeds o hstop) fun _ _ => fresh fun _ => .pure rfl

/-- A `return` builds if its value does. -/
theorem Clause.builds_return {t : Term} {value : Expr} (hstop : EndsStatement o.source t.stop) (h : t.Spells value)
    (hread : value.IsRead) (start : Nat) (i : Info) (top : Bool) :
    (Clause.return start (some t)).Builds o top (.return i (some value)) := by
  refine .bind (requireSemicolon_succeeds o hstop) ?_
  intro _ _
  apply fresh
  intro _
  refine .bind (buildExpr_spells o h hread) ?_
  intro _ hvalue
  exact .pure (by simp only [Stmt.bareIn, Stmt.bare, hvalue, Option.map_some])

/-- No statements build none. -/
theorem Clause.allBuild_nil (top : Bool) : Clause.AllBuild o top [] [] := .pure rfl

/-- Several statements build if each of them does. -/
theorem Clause.allBuild_cons {top : Bool} {c : Clause} {cs : List Clause} {s : Stmt} {body : List Stmt}
    (h : c.Builds o top s) (hrest : Clause.AllBuild o top cs body) : Clause.AllBuild o top (c :: cs) (s :: body) := by
  refine .bind h ?_
  intro s' hs
  refine .bind hrest ?_
  intro rest hrest
  refine .pure ?_
  cases s' with
  | none => cases hs
  | some s' =>
    simp only [Stmt.bareIn, Option.some.injEq] at hs
    simp only [Option.toList_some, List.singleton_append, Stmt.allBare, hs, hrest]

end Source

end Primer
