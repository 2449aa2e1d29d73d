import Primer.Proofs.Semicolon.Reader

/-!
# Which semicolons are checked

Building a program looks for the semicolon of each simple statement of its source, in the order in which they are
written and before it looks at anything in the statement. So a program is built only if all of them are found; and what
stops it is the first that is not, unless a construct outside the subset is refused before (`buildStmts_checks`).
-/

set_option autoImplicit false

namespace Primer.Source

variable {α β : Type} {o : Origin} {simple : List Clause}

/-- The search finds the semicolon of a simple statement. -/
def Origin.Closes (o : Origin) (s : Clause) : Prop := semicolonFollows .plain (dropBytes s.stop o.source) = true

/-- The diagnostic for a simple statement whose semicolon is missing. -/
def Origin.unclosed (o : Origin) (s : Clause) : Diagnostic :=
  ⟨"P001", o.token s.stop "", o.file, "There is a semicolon (<var>;</var>) missing at the end of this statement"⟩

/-- A diagnostic is about the first of several simple statements whose semicolon is missing. -/
def Origin.FirstUnclosed (o : Origin) (simple : List Clause) (d : Diagnostic) : Prop :=
  ∃ before s after, simple = before ++ s :: after ∧ (∀ s' ∈ before, o.Closes s') ∧ ¬ o.Closes s ∧ d = o.unclosed s

/-- Building a part of the tree checks the semicolons of simple statements in order. -/
structure Build.Checks (o : Origin) (simple : List Clause) (x : Build α) : Prop where
  of_ok : ∀ id r, x id = .ok r → ∀ s ∈ simple, o.Closes s
  of_error : ∀ id d, x id = .error d → d.code = "P002" ∨ o.FirstUnclosed simple d

/-- A step that fails ends the steps behind it. -/
theorem Build.bind_error {x : Build α} {id : NodeId} {d : Diagnostic} (h : x id = .error d) (f : α → Build β) :
    (x >>= f) id = .error d := by
  show (x id >>= fun result => f result.1 result.2) = .error d
  rw [h]
  rfl

namespace Build.Checks

/-- Building without a refusal checks nothing. -/
theorem pure (a : α) : Checks o [] (Pure.pure a : Build α) := by
  constructor
  · exact fun _ _ _ s hs => absurd hs List.not_mem_nil
  · rintro id d ⟨⟩

/-- A refusal may be made whatever should have been checked. -/
theorem refuse (off : Nat) (message : String) : Checks o simple (Source.refuse o off message : Build α) := by
  constructor
  · rintro id r ⟨⟩
  · rintro id d ⟨⟩
    exact .inl rfl

/-- A sequence of steps checks what each of them does. -/
theorem bind {more : List Clause} {x : Build α} {f : α → Build β} (hx : Checks o simple x)
    (hf : ∀ a, Checks o more (f a)) : Checks o (simple ++ more) (x >>= f) := by
  have hbind (id : NodeId) : (x >>= f) id = (x id >>= fun result => f result.1 result.2) := rfl
  constructor
  · intro id r h
    rw [hbind] at h
    cases hxid : x id with
    | error d =>
      rw [hxid] at h
      cases h
    | ok result =>
      rw [hxid] at h
      exact List.forall_mem_append.mpr ⟨hx.of_ok id result hxid, (hf result.1).of_ok result.2 r h⟩
  · intro id d h
    rw [hbind] at h
    cases hxid : x id with
    | error d' =>
      rw [hxid] at h
      cases h
      refine (hx.of_error id d hxid).imp_right ?_
      rintro ⟨before, s, after, rfl, hbefore, hs, hd⟩
      exact ⟨before, s, after ++ more, by simp, hbefore, hs, hd⟩
    | ok result =>
      rw [hxid] at h
      refine ((hf result.1).of_error result.2 d h).imp_right ?_
      rintro ⟨before, s, after, rfl, hbefore, hs, hd⟩
      exact ⟨simple ++ before, s, after, by simp, List.forall_mem_append.mpr ⟨hx.of_ok id result hxid, hbefore⟩, hs, hd⟩

/-- A part without simple statements comes first. -/
theorem behind {x : Build α} {f : α → Build β} (hx : Checks o [] x) (hf : ∀ a, Checks o simple (f a)) :
    Checks o simple (x >>= f) := bind hx hf

/-- A part without simple statements comes last. -/
theorem before {x : Build α} {f : α → Build β} (hx : Checks o simple x) (hf : ∀ a, Checks o [] (f a)) :
    Checks o simple (x >>= f) := by
  rw [← List.append_nil simple]
  exact bind hx hf

/-- What would follow a refusal is not built. -/
theorem refused (off : Nat) (message : String) (f : α → Build β) : Checks o simple (Source.refuse o off message >>= f) := by
  constructor
  · rintro id r ⟨⟩
  · rintro id d ⟨⟩
    exact .inl rfl

/-- Numbering a node checks nothing. -/
theorem fresh (token : Token) : Checks o [] (freshInfo token) := by
  constructor
  · exact fun _ _ _ s hs => absurd hs List.not_mem_nil
  · rintro id d ⟨⟩

/-- Numbering a node in front changes nothing about what is checked. -/
theorem node {token : Token} {f : Info → Build β} (hf : ∀ info, Checks o simple (f info)) :
    Checks o simple (freshInfo token >>= f) := behind (fresh token) hf

/-- Looking for a semicolon checks the one statement. -/
theorem semicolon (s : Clause) : Checks o [s] (requireSemicolon o s.stop) := by
  constructor
  · intro id r h
    unfold requireSemicolon at h
    split at h
    case isTrue hfollows =>
      rintro _ (_ | ⟨_, ⟨⟩⟩)
      exact hfollows
    case isFalse => cases h
  · intro id d h
    unfold requireSemicolon at h
    split at h
    case isTrue => cases h
    case isFalse hfollows =>
      cases h
      exact .inr ⟨[], s, [], rfl, fun _ hs => absurd hs List.not_mem_nil, hfollows, rfl⟩

end Build.Checks

open Build.Checks (node behind before)

variable (o)

/-! ## Expressions -/

mutual

/-- Building an expression checks no semicolon. -/
theorem buildExpr_checks : ∀ t : Term, Build.Checks o [] (buildExpr o t)
  | .number .. | .string .. | .boolean .. | .null _ | .name .. => node fun _ => .pure _
  | .dot left _ _ => by
    apply node
    intro _
    exact behind (buildExpr_checks left) fun _ => .pure _
  | .bracket left position _ => by
    apply node
    intro _
    apply behind (buildExpr_checks left)
    intro _
    exact behind (buildExpr_checks position) fun _ => .pure _
  | .call callee args _ => by
    apply node
    intro _
    apply behind (buildExpr_checks callee)
    intro _
    exact behind (buildExprs_checks args) fun _ => .pure _
  | .array _ items _ => by
    apply node
    intro _
    exact behind (buildExprs_checks items) fun _ => .pure _
  | .binary left symbol right => by
    unfold buildExpr
    split
    · apply node
      intro _
      apply behind (buildExpr_checks left)
      intro _
      exact behind (buildExpr_checks right) fun _ => .pure _
    · exact .refuse ..
  | .unary start symbol operand => by
    unfold buildExpr
    split
    · exact .refuse ..
    · split
      · apply node
        intro _
        exact behind (buildExpr_checks operand) fun _ => .pure _
      · exact .refuse ..
  | .bumped .. | .assign .. | .foreign .. => .refuse ..

/-- Building several expressions checks no semicolon. -/
theorem buildExprs_checks : ∀ ts : List Term, Build.Checks o [] (buildExprs o ts)
  | [] => .pure _
  | t :: ts => by
    apply behind (buildExpr_checks t)
    intro _
    exact behind (buildExprs_checks ts) fun _ => .pure _

end

/-- Building a target checks no semicolon. -/
theorem buildTarget_checks (t : Term) : Build.Checks o [] (buildTarget o t) := by
  unfold buildTarget
  split
  · exact buildExpr_checks o t
  · exact .refuse ..

/-- Building an assignment checks no semicolon. -/
theorem buildAssignment_checks (left : Term) (symbol : String) (right : Term) :
    Build.Checks o [] (buildAssignment o left symbol right) := by
  unfold buildAssignment
  split
  · apply node
    intro _
    apply behind (buildTarget_checks o left)
    intro _
    exact behind (buildExpr_checks o right) fun _ => .pure _
  · exact .refuse ..

/-- Building a simple statement checks no semicolon itself. -/
theorem buildSimple_checks (t : Term) : Build.Checks o [] (buildSimple o t) := by
  cases t
  case assign left symbol right => exact behind (buildAssignment_checks o left symbol right) fun _ => .pure _
  case bumped operand symbol =>
    apply node
    intro _
    exact behind (buildTarget_checks o operand) fun _ => .pure _
  case call callee args stop =>
    apply node
    intro _
    apply node
    intro _
    apply behind (buildExpr_checks o callee)
    intro _
    exact behind (buildExprs_checks o args) fun _ => .pure _
  case unary start symbol operand =>
    show Build.Checks o [] (if _ then _ else _)
    split
    · exact .refuse ..
    · exact .refuse ..
  all_goals exact .refuse ..

/-- Building declared names checks no semicolon. -/
theorem buildDeclared_checks (list : List Variable) : Build.Checks o [] (buildDeclared o list) := by
  induction list with
  | nil => exact .pure _
  | cons v vs ih =>
    apply node
    intro info
    have hrest (first : Option Assignment) : Build.Checks o [] (do
        let rest ← buildDeclared o vs
        pure (⟨info, v.name, first⟩ :: rest : List Declared)) :=
      behind ih fun _ => .pure _
    cases v.value with
    | none => exact hrest none
    | some t =>
      apply node
      intro _
      apply node
      intro _
      exact behind (buildExpr_checks o t) fun _ => hrest (some _)

/-- Building a declaration checks no semicolon itself. -/
theorem buildVar_checks (start : Nat) (list : List Variable) : Build.Checks o [] (buildVar o start list) :=
  node fun _ => behind (buildDeclared_checks o list) fun _ => .pure _

/-- Building the first part of a `for` checks no semicolon. -/
theorem buildHeader_checks (header : Header) : Build.Checks o [] (buildHeader o header) := by
  cases header with
  | empty => exact .pure _
  | declared list => exact behind (buildVar_checks o _ list) fun _ => .pure _
  | term t => exact .refuse ..

/-! ## Statements -/

mutual

/-- Building a statement checks the semicolons of its simple parts, in their order. -/
theorem buildStmt_checks (top : Bool) : ∀ c : Clause, Build.Checks o c.simple (buildStmt o top c)
  | .empty _ => .pure _
  | .term t => by
    apply before (.semicolon (.term t))
    intro _
    exact behind (buildSimple_checks o t) fun _ => .pure _
  | .var start list => by
    apply before (.semicolon (.var start list))
    intro _
    exact behind (buildVar_checks o start list) fun _ => .pure _
  | .cond _ test body branch => by
    apply node
    intro _
    apply behind (buildExpr_checks o test)
    intro _
    refine .bind (buildBlock_checks "if" body) ?_
    intro _
    exact before (buildBranch_checks branch) fun _ => .pure _
  | .while _ test body => by
    apply node
    intro _
    apply behind (buildExpr_checks o test)
    intro _
    exact before (buildBlock_checks "while" body) fun _ => .pure _
  | .for start header test update body => by
    apply node
    intro info
    apply behind (buildHeader_checks o header)
    intro first
    cases test with
    | none => exact .refuse ..
    | some test =>
      apply behind (buildExpr_checks o test)
      intro t
      have hbody (u : Option Stmt) : Build.Checks o body.simple (do
          let b ← buildBlock o "for" body
          pure (some (Stmt.for info first t u b))) :=
        before (buildBlock_checks "for" body) fun _ => .pure _
      cases update with
      | none => exact hbody none
      | some u => exact behind (buildSimple_checks o u) fun s => hbody (some s)
  | .function start name params body => by
    show Build.Checks o _ (if _ then _ else _)
    split
    · apply node
      intro info
      cases repeatedParam? [] params with
      | some p => exact .refuse ..
      | none => exact before (buildStmts_checks false body) fun _ => .pure _
    · exact .refuse ..
  | .return start value => by
    apply before (.semicolon (.return start value))
    intro _
    apply node
    intro info
    cases value with
    | none => exact .pure _
    | some t => exact behind (buildExpr_checks o t) fun _ => .pure _
  | .block start _ => .refuse ..
  | .foreign kind start => .refuse ..

/-- Building the other branch of a condition checks the semicolons of its simple parts. -/
theorem buildBranch_checks : ∀ c : Option Clause, Build.Checks o (Clause.simpleIn c) (buildBranch o c)
  | none => .pure _
  | some c => by
    cases c
    case cond start test body branch =>
      apply node
      intro _
      apply node
      intro _
      apply behind (buildExpr_checks o test)
      intro _
      refine .bind (buildBlock_checks "if" body) ?_
      intro _
      exact before (buildBranch_checks branch) fun _ => .pure _
    case block start body =>
      apply node
      intro _
      exact before (buildStmts_checks false body) fun _ => .pure _
    all_goals exact node fun _ => .refused ..

/-- Building a block checks the semicolons of its simple parts. -/
theorem buildBlock_checks (keyword : String) : ∀ c : Clause, Build.Checks o c.simple (buildBlock o keyword c)
  | .block _ body => buildStmts_checks false body
  | .empty _ | .term _ | .var _ _ | .cond _ _ _ _ | .while _ _ _ | .for _ _ _ _ _ | .function _ _ _ _
  | .return _ _ | .foreign _ _ => .refuse ..

/-- Building a body checks the semicolons of its simple parts. -/
theorem buildStmts_checks (top : Bool) : ∀ cs : List Clause, Build.Checks o (Clause.allSimple cs) (buildStmts o top cs)
  | [] => .pure _
  | c :: cs => by
    refine .bind (buildStmt_checks top c) ?_
    intro _
    exact before (buildStmts_checks top cs) fun _ => .pure _

end

/-- A program is built if all semicolons are found. -/
theorem buildProgram_checks (clauses : List Clause) :
    (∀ program, buildProgram o clauses = .ok program → ∀ s ∈ Clause.allSimple clauses, o.Closes s) ∧
      ∀ d, buildProgram o clauses = .error d → d.code = "P002" ∨ o.FirstUnclosed (Clause.allSimple clauses) d := by
  have hchecks := buildStmts_checks o true clauses
  unfold buildProgram
  cases hbuild : buildStmts o true clauses 1 with
  | ok result =>
    refine ⟨fun _ _ => hchecks.of_ok 1 result hbuild, ?_⟩
    rintro d ⟨⟩
  | error d =>
    constructor
    · rintro program ⟨⟩
    · rintro _ ⟨⟩
      exact hchecks.of_error 1 d hbuild

variable {o}

/-- The semicolon of a statement is looked for before anything else of it is built. -/
theorem Clause.EndsBefore.buildStmt_eq_unclosed_iff {source : List Char} {s : Clause} {after : Cursor}
    (h : s.EndsBefore source after) {top : Bool} {id : NodeId} :
    buildStmt o top s id = .error (o.unclosed s) ↔ ¬ o.Closes s := by
  have hchecks := buildStmt_checks o top s
  have hsimple : s.simple = [s] := by
    cases h <;> rfl
  rw [hsimple] at hchecks
  constructor
  · intro hbuild
    rcases hchecks.of_error id _ hbuild with hcode | ⟨before, s', rest, heq, -, hs', -⟩
    · have hne : "P001" ≠ "P002" := by decide
      exact absurd hcode hne
    · have hmem : s' ∈ [s] := by simp [heq]
      rwa [List.mem_singleton.mp hmem] at hs'
  · intro hcloses
    have hsemicolon : requireSemicolon o s.stop id = .error (o.unclosed s) := if_neg hcloses
    cases h
    all_goals
      rw [buildStmt]
      exact Build.bind_error hsemicolon _

end Primer.Source
