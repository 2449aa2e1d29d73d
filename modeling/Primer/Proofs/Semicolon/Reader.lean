import Primer.Proofs.Semicolon.Statement

/-!
# Where statements end

Reading an expression of a plainly written source stops at a token that is reached from the end of the expression's
tree, over gaps and closing parentheses (`EndReader.expression`). Reading the source then leaves each simple statement
with the token it ends before (`readSource_ends`).
-/

set_option autoImplicit false

namespace Primer.Source

variable {source : List Char}

/-! ## Expressions and statements -/

/-- An expression was read from a token, which is no closing parenthesis, up to one that is reached from its end. -/
structure TermEnds (source : List Char) (c : Cursor) (r : Term × Cursor) : Prop where
  opens : c.is ")" = false
  reaches : Reaches source r.1.stop r.2

/-- A statement was read up to a token. If that is no closing parenthesis, the simple statements in it have ended. -/
structure ClauseEnds (source : List Char) (r : Clause × Cursor) : Prop where
  simple : r.2.is ")" = false → Clause.AllEnd source r.1.simple
  token : TokenOf source r.2

/-- A statement without simple parts ends before every token. -/
theorem ClauseEnds.of_nothing {c : Clause} {after : Cursor} (hsimple : c.simple = []) (hafter : TokenOf source after) :
    ClauseEnds source (c, after) := by
  refine ⟨?_, hafter⟩
  intro _ s hs
  simp only [hsimple] at hs
  exact absurd hs List.not_mem_nil

/-- Reading with a bound on its depth keeps to the tokens of a source. -/
structure EndReader (source : List Char) (n : Nat) : Prop where
  expression : ∀ env c, TokenOf source c → Gives (expression n env c) (TermEnds source c)
  sequenceTail : ∀ env last c, Reaches source last.stop c →
    Gives (sequenceTail n env last c) fun r => Reaches source r.1.stop r.2
  assignment : ∀ env c, TokenOf source c → Gives (assignment n env c) (TermEnds source c)
  conditional : ∀ env c, TokenOf source c → Gives (conditional n env c) (TermEnds source c)
  binary : ∀ env level c, TokenOf source c → Gives (binary n env level c) (TermEnds source c)
  binaryTail : ∀ env level left c, Reaches source left.stop c →
    Gives (binaryTail n env level left c) fun r => Reaches source r.1.stop r.2
  unary : ∀ env c, TokenOf source c → Gives (unary n env c) (TermEnds source c)
  operand : ∀ env c, TokenOf source c → Gives (operand n env c) (TermEnds source c)
  accesses : ∀ env calls left c, Reaches source left.stop c →
    Gives (accesses n env calls left c) fun r => Reaches source r.1.stop r.2
  arguments : ∀ env c, TokenOf source c → Gives (arguments n env c) fun r => Follows source r.2.1 r.2.2
  argumentList : ∀ env c, TokenOf source c → Gives (argumentList n env c) fun r => TokenOf source r.2
  newTerm : ∀ env c, TokenOf source c → Gives (newTerm n env c) (TermEnds source c)
  primary : ∀ env c, TokenOf source c → Gives (primary n env c) (TermEnds source c)
  elements : ∀ env c, TokenOf source c → Gives (elements n env c) fun r => TokenOf source r.2
  properties : ∀ env c, TokenOf source c → Gives (properties n env c) fun r => Follows source r.1 r.2
  functionRest : ∀ c, TokenOf source c → Gives (functionRest n c) fun r =>
    Clause.AllEnd source (Clause.allSimple r.2.1) ∧ Follows source r.2.2.1 r.2.2.2
  clauses : ∀ env c, TokenOf source c → Gives (clauses n env c) fun r =>
    c.is ")" = false ∧ Clause.AllEnd source (Clause.allSimple r.1) ∧ TokenOf source r.2
  variableList : ∀ env c, TokenOf source c → Gives (variableList n env c) fun r =>
    r.1 ≠ [] ∧ ∀ start, Reaches source (variablesStop start r.1) r.2
  condition : ∀ env c, TokenOf source c → Gives (condition n env c) fun r => TokenOf source r.2
  optionalTerm : ∀ env mark c, TokenOf source c → Gives (optionalTerm n env mark c) fun r => TokenOf source r.2
  forClause : ∀ env c, TokenOf source c → Gives (forClause n env c) (ClauseEnds source)
  forRest : ∀ env start header c, TokenOf source c → Gives (forRest n env start header c) (ClauseEnds source)
  forInRest : ∀ env start c, TokenOf source c → Gives (forInRest n env start c) (ClauseEnds source)
  cases : ∀ env seen c, TokenOf source c → Gives (cases n env seen c) (TokenOf source)
  caseBody : ∀ env c, TokenOf source c → Gives (caseBody n env c) (TokenOf source)
  block : ∀ env c, TokenOf source c → Gives (block n env c) fun r =>
    Clause.AllEnd source (Clause.allSimple r.1) ∧ TokenOf source r.2
  tryClause : ∀ env c, TokenOf source c → Gives (tryClause n env c) (ClauseEnds source)
  clause : ∀ env c, TokenOf source c → Gives (clause n env c) fun r => c.is ")" = false ∧ ClauseEnds source r
  termClause : ∀ env c, TokenOf source c → Gives (termClause n env c) fun r => c.is ")" = false ∧ ClauseEnds source r

/-- Recovering from a broken name ends at a token of the source. -/
theorem skipToStatement_token (n : Nat) {c : Cursor} (hc : TokenOf source c) :
    Gives (skipToStatement n c) (TokenOf source) := by
  induction n generalizing c with
  | zero => exact .ok hc
  | succ n ih =>
    refine .ite (fun _ => .ok hc) ?_
    intro _
    exact .bind hc.next_follows fun next hnext => ih hnext.token

/-- A regular expression ends before the token behind it. -/
theorem regularExpression_ends (hplain : PlainlyWritten source) {c : Cursor} (hc : TokenOf source c)
    (hslash : c.isOneOf ["/", "/="] = true) : Gives (regularExpression c) (TermEnds source c) := by
  have hopens := is_close_of_isOneOf hslash (by decide)
  unfold regularExpression
  simp only
  split
  · exact .error _
  · next p hp =>
    refine .bind_of_eq (P := fun _ => True) ⟨fun _ _ => trivial⟩ ?_
    intro after hafter _
    have hfollows := hc.follows_pattern hslash hp hafter
    cases p.fault? with
    | some fault =>
      refine .ite (fun _ => .bind hfollows.token.next_follows fun _ _ => .error _) ?_
      intro _
      exact .error _
    | none =>
      refine .ite ?_ fun _ => .ok ⟨hopens, .here hfollows⟩
      intro hkind
      refine .bind_of_eq hfollows.token.next_follows ?_
      intro last hlast hnext
      refine .ok ⟨hopens, ?_⟩
      obtain ⟨hlegal, hend⟩ := hplain.flags c p after last hc hslash hp hafter hkind hlast
      exact hnext.token.reaches_last hlegal hend

/-- Behind the key of a property comes a token of the source. -/
theorem propertyKey_token {c : Cursor} (hc : TokenOf source c) : Gives (propertyKey c) fun r => TokenOf source r.2 := by
  refine .bind hc.next_follows ?_
  intro next hnext
  split
  · split
    · exact .ok hnext.token
    · exact .error _
  · exact .ok hnext.token

/-- Behind the parameters of a function comes a token of the source. -/
theorem parameters_token (hplain : PlainlyWritten source) (n : Nat) {c : Cursor} (hc : TokenOf source c) :
    Gives (parameters n c) fun r => TokenOf source r.2 := by
  induction n generalizing c with
  | zero => exact .error _
  | succ n ih =>
    refine .ite (fun _ => .bind (hc.expect_follows ")") fun c hc => .ok hc.2.token) ?_
    intro _
    refine .bind (hc.identifier_follows hplain) ?_
    rintro ⟨param, c⟩ hc
    have hrest (after : Cursor) (hafter : TokenOf source after) : Gives (do
        let rest ← parameters n after
        .ok (param :: rest.1, rest.2) : Except Mistake (List Param × Cursor)) fun r => TokenOf source r.2 :=
      .bind (ih hafter) fun r hr => .ok hr
    refine .ite (fun _ => hrest c hc.token) ?_
    intro _
    refine .bind (hc.token.expect_follows ",") ?_
    intro after hafter
    exact hrest after hafter.2.token

/-- A `break` or `continue` has no simple part that would have to end. -/
theorem branchClause_ends (hplain : PlainlyWritten source) (n : Nat) (env : Surroundings) (isBreak : Bool) {c : Cursor}
    (hc : TokenOf source c) : Gives (branchClause n env isBreak c) (ClauseEnds source) := by
  cases n with
  | zero => exact .error _
  | succ n =>
    rw [branchClause]
    refine .bind hc.next_follows ?_
    intro c hc
    refine .ite ?_ ?_
    · intro _
      refine .bind hc.token.next_follows ?_
      intro c hc
      refine .ite (fun _ => .ok (.of_nothing rfl hc.token.sameLine)) ?_
      intro _
      exact .error _
    · intro _
      refine .ite ?_ ?_
      · intro _
        refine .ite (fun _ => .ok (.of_nothing rfl hc.token.sameLine)) ?_
        intro _
        exact .error _
      · intro _
        refine .bind (hc.token.identifier_follows hplain) ?_
        rintro ⟨label, c⟩ hc
        refine .ite (fun _ => .error _) ?_
        intro _
        refine .ite (fun _ => .error _) ?_
        intro _
        refine .bind hc.token.endStatement_gives ?_
        intro c hc
        exact .ok (.of_nothing rfl hc.1)

namespace EndReader

/-- A reader without fuel gives nothing. -/
theorem zero : EndReader source 0 := by
  constructor
  all_goals
    intros
    simp only [Source.expression, Source.sequenceTail, Source.assignment, Source.conditional, Source.binary,
      Source.binaryTail, Source.unary, Source.operand, Source.accesses, Source.arguments, Source.argumentList,
      Source.newTerm, Source.primary, Source.elements, Source.properties, Source.functionRest, Source.clauses,
      Source.variableList, Source.condition, Source.optionalTerm, Source.forClause, Source.forRest, Source.forInRest,
      Source.cases, Source.caseBody, Source.block, Source.tryClause, Source.clause, Source.termClause]
    exact .error _

variable (hplain : PlainlyWritten source) {n : Nat} (h : EndReader source n) (env : Surroundings) {c : Cursor}
  (hc : TokenOf source c)

section Expressions

include h

/-- A step of reading further expressions behind a comma reaches the token behind them. -/
theorem sequenceTail_succ {last : Term} (hlast : Reaches source last.stop c) :
    Gives (Source.sequenceTail (n + 1) env last c) fun r => Reaches source r.1.stop r.2 := by
  rw [Source.sequenceTail]
  refine .ite ?_ fun _ => .ok hlast
  intro _
  refine .bind hlast.token.next_follows ?_
  intro c hc
  refine .bind (h.assignment env c hc.token) ?_
  rintro ⟨e, c⟩ he
  exact h.sequenceTail env e c he.reaches

/-- A step of reading further operands of a level reaches the token behind them. -/
theorem binaryTail_succ (level : Nat) {left : Term} (hleft : Reaches source left.stop c) :
    Gives (Source.binaryTail (n + 1) env level left c) fun r => Reaches source r.1.stop r.2 := by
  rw [Source.binaryTail]
  generalize (if c.kind = .mark then binaryLevel? env.allowIn c.text else none) = own
  cases own with
  | none => exact .ok hleft
  | some l =>
    refine .ite (fun _ => .ok hleft) ?_
    intro _
    refine .bind hleft.token.next_follows ?_
    intro next hnext
    have hrest (right : Term × Cursor) (hright : TermEnds source next right) :
        Gives (Source.binaryTail n env level (.binary left c.text right.1) right.2) fun r => Reaches source r.1.stop r.2 :=
      h.binaryTail env level _ right.2 hright.reaches
    refine .ite (fun _ => .bind (h.binary _ l next hnext.token) hrest) ?_
    intro _
    exact .bind (h.binary env (l + 1) next hnext.token) hrest

include hplain in
/-- A step of reading members, elements and calls reaches the token behind them. -/
theorem accesses_succ (calls : Bool) {left : Term} (hleft : Reaches source left.stop c) :
    Gives (Source.accesses (n + 1) env calls left c) fun r => Reaches source r.1.stop r.2 := by
  rw [Source.accesses]
  refine .ite (fun _ => ?_) fun _ => .ite (fun _ => ?_) fun _ => .ite (fun _ => ?_) fun _ => .ok hleft
  · refine .bind hleft.token.next_follows ?_
    intro word hword
    refine .ite ?_ ?_
    · intro hname
      simp only [Bool.and_eq_true] at hname
      obtain ⟨gap, hgap⟩ := hword.token.shown
      have hstop := hword.token.stop_eq hplain (hgap.scannedAs.legal_of_member hname.1)
      refine .bind hword.token.next_follows ?_
      intro next hnext
      refine h.accesses env calls _ next (.here ?_)
      rw [hstop] at hnext
      exact hnext
    · intro _
      refine .ite ?_ fun _ => .error _
      intro _
      refine .bind hword.token.next_follows ?_
      intro next hnext
      refine .bind (skipToStatement_token n hnext.token) ?_
      intro after hafter
      exact h.accesses env calls _ after (.here hafter.follows_start)
  · refine .bind hleft.token.next_follows ?_
    intro next hnext
    refine .bind (h.expression env next hnext.token) ?_
    rintro ⟨position, close⟩ hposition
    refine .bind (hposition.reaches.token.expect_follows "]") ?_
    intro after hafter
    refine h.accesses env calls _ after (.here ?_)
    have hfollows := hafter.2
    rw [hposition.reaches.token.stop_of_is hplain hafter.1] at hfollows
    exact hfollows
  · refine .bind (h.arguments env c hleft.token) ?_
    rintro ⟨args, stop, after⟩ hargs
    exact h.accesses env calls _ after (.here hargs)

include hc

/-- A step of reading an expression ends before the token behind it. -/
theorem expression_succ : Gives (Source.expression (n + 1) env c) (TermEnds source c) := by
  rw [Source.expression]
  refine .bind (h.assignment env c hc) ?_
  rintro ⟨first, after⟩ hfirst
  refine .ite ?_ fun _ => .ok hfirst
  intro _
  refine .bind (h.sequenceTail env first after hfirst.reaches) ?_
  intro r hr
  exact .ok ⟨hfirst.opens, hr⟩

/-- A step of reading an assignment ends before the token behind it. -/
theorem assignment_succ : Gives (Source.assignment (n + 1) env c) (TermEnds source c) := by
  rw [Source.assignment]
  refine .bind (h.conditional env c hc) ?_
  rintro ⟨left, after⟩ hleft
  refine .ite ?_ fun _ => .ok hleft
  intro _
  refine .bind hleft.reaches.token.next_follows ?_
  intro next hnext
  refine .ite ?_ fun _ => .error _
  intro _
  refine .bind (h.assignment env next hnext.token) ?_
  rintro ⟨right, last⟩ hright
  exact .ok ⟨hleft.opens, hright.reaches⟩

/-- A step of reading a conditional expression ends before the token behind it. -/
theorem conditional_succ : Gives (Source.conditional (n + 1) env c) (TermEnds source c) := by
  rw [Source.conditional]
  refine .bind (h.binary env 1 c hc) ?_
  rintro ⟨test, after⟩ htest
  refine .ite ?_ fun _ => .ok htest
  intro _
  refine .bind htest.reaches.token.next_follows ?_
  intro next hnext
  refine .bind (h.assignment env next hnext.token) ?_
  rintro ⟨_, colon⟩ hcolon
  refine .bind (hcolon.reaches.token.expect_follows ":") ?_
  intro next hnext
  refine .bind (h.assignment env next hnext.2.token) ?_
  rintro ⟨last, after⟩ hlast
  exact .ok ⟨htest.opens, hlast.reaches⟩

/-- A step of reading the operators of a level ends before the token behind them. -/
theorem binary_succ (level : Nat) : Gives (Source.binary (n + 1) env level c) (TermEnds source c) := by
  rw [Source.binary]
  refine .bind (h.unary env c hc) ?_
  rintro ⟨left, after⟩ hleft
  apply (h.binaryTail env level left after hleft.reaches).imp
  intro r hr
  exact ⟨hleft.opens, hr⟩

include hplain in
/-- A step of reading a sign ends before the token behind its operand. -/
theorem unary_succ : Gives (Source.unary (n + 1) env c) (TermEnds source c) := by
  rw [Source.unary]
  refine .ite ?_ ?_
  · intro hsign
    have hopens := is_close_of_isOneOf hsign (by decide)
    refine .bind hc.next_follows ?_
    intro next hnext
    refine .bind (h.unary env next hnext.token) ?_
    intro r hr
    exact .ok ⟨hopens, hr.reaches⟩
  · intro _
    refine .ite ?_ ?_
    · intro hmark
      have hopens : c.is ")" = false := by
        rcases Bool.or_eq_true_iff.mp hmark with his | his <;> exact is_of_ne his (by decide)
      refine .bind hc.next_follows ?_
      intro next hnext
      refine .bind (h.unary env next hnext.token) ?_
      intro r hr
      exact .ite (fun _ => .ok ⟨hopens, hr.reaches⟩) fun _ => .error _
    · intro _
      refine .bind_of_eq (h.operand env c hc) ?_
      rintro ⟨e, after⟩ hread he
      refine .ite ?_ fun _ => .ok he
      intro hmark
      simp only [Bool.and_eq_true, Bool.not_eq_true'] at hmark
      refine .bind he.reaches.token.next_follows ?_
      intro last hlast
      refine .ite ?_ fun _ => .error _
      intro htarget
      refine .ok ⟨he.opens, .here ?_⟩
      have hstop : after.stop = after.start + 2 := by
        rcases Bool.or_eq_true_iff.mp hmark.1 with his | his
        · exact he.reaches.token.stop_of_is hplain his
        · exact he.reaches.token.stop_of_is hplain his
      rw [hstop, hplain.bumps n env c e after hc hread he.reaches.token htarget hmark.1 hmark.2] at hlast
      exact hlast

/-- A step of reading an operand ends before the token behind it. -/
theorem operand_succ : Gives (Source.operand (n + 1) env c) (TermEnds source c) := by
  rw [Source.operand]
  have hrest (first : Term × Cursor) (hfirst : TermEnds source c first) :
      Gives (Source.accesses n { env with allowIn := true } true first.1 first.2) (TermEnds source c) :=
    (h.accesses _ true first.1 first.2 hfirst.reaches).imp fun r hr => ⟨hfirst.opens, hr⟩
  refine .ite (fun _ => .bind (h.newTerm _ c hc) hrest) ?_
  intro _
  exact .bind (h.primary _ c hc) hrest

/-- A step of reading a list of arguments ends at a token of the source. -/
theorem argumentList_succ : Gives (Source.argumentList (n + 1) env c) fun r => TokenOf source r.2 := by
  rw [Source.argumentList]
  refine .ite (fun _ => .ok hc) ?_
  intro _
  refine .bind (h.assignment env c hc) ?_
  rintro ⟨arg, after⟩ harg
  refine .ite ?_ fun _ => .ok harg.reaches.token
  intro _
  refine .bind harg.reaches.token.next_follows ?_
  intro next hnext
  refine .bind (h.argumentList env next hnext.token) ?_
  intro r hr
  exact .ok hr

/-- A step of reading the items of an array ends at a token of the source. -/
theorem elements_succ : Gives (Source.elements (n + 1) env c) fun r => TokenOf source r.2 := by
  rw [Source.elements]
  refine .ite (fun _ => .ok hc) ?_
  intro _
  refine .ite ?_ ?_
  · intro _
    refine .bind hc.next_follows ?_
    intro next hnext
    exact .bind (h.elements env next hnext.token) fun r hr => .ok hr
  · intro _
    refine .bind (h.assignment env c hc) ?_
    rintro ⟨item, after⟩ hitem
    have hrest (last : Cursor) (hlast : TokenOf source last) : Gives (do
        let rest ← Source.elements n env last
        .ok (item :: rest.1, rest.2) : Except Mistake (List Term × Cursor)) fun r => TokenOf source r.2 :=
      .bind (h.elements env last hlast) fun r hr => .ok hr
    refine .ite (fun _ => hrest after hitem.reaches.token) ?_
    intro _
    refine .bind (hitem.reaches.token.expect_follows ",") ?_
    intro last hlast
    exact hrest last hlast.2.token

include hplain in
/-- A step of reading arguments in parentheses ends right behind the closing one. -/
theorem arguments_succ : Gives (Source.arguments (n + 1) env c) fun r => Follows source r.2.1 r.2.2 := by
  rw [Source.arguments]
  refine .bind (hc.expect_follows "(") ?_
  intro first hfirst
  refine .bind (h.argumentList env first hfirst.2.token) ?_
  rintro ⟨args, close⟩ hclose
  refine .bind (hclose.expect_follows ")") ?_
  intro after hafter
  refine .ok ?_
  have hfollows := hafter.2
  rw [hclose.stop_of_is hplain hafter.1] at hfollows
  exact hfollows

/-- A step of reading a `new` expression ends before the token behind it. -/
theorem newTerm_succ : Gives (Source.newTerm (n + 1) env c) (TermEnds source c) := by
  rw [Source.newTerm]
  refine .bind (hc.expect_follows "new") ?_
  intro next hnext
  have hopens : c.is ")" = false := is_of_ne hnext.1 (by decide)
  have hrest (first : Term × Cursor) (hfirst : TermEnds source next first) : Gives (do
      let callee ← Source.accesses n env false first.1 first.2
      if callee.2.is "(" then do
        let args ← Source.arguments n env callee.2
        .ok (.foreign .new c.start args.2.1, args.2.2)
      else .ok (.foreign .new c.start callee.1.stop, callee.2) : Except Mistake (Term × Cursor)) (TermEnds source c) := by
    refine .bind (h.accesses env false first.1 first.2 hfirst.reaches) ?_
    intro r hr
    refine .ite ?_ fun _ => .ok ⟨hopens, hr⟩
    intro _
    refine .bind (h.arguments env r.2 hr.token) ?_
    intro r hr
    exact .ok ⟨hopens, .here hr⟩
  refine .ite (fun _ => .bind (h.newTerm _ next hnext.2.token) hrest) ?_
  intro _
  exact .bind (h.primary _ next hnext.2.token) hrest

include hplain in
/-- A step of reading an atom ends before the token behind it. -/
theorem primary_succ : Gives (Source.primary (n + 1) env c) (TermEnds source c) := by
  obtain ⟨gap, hgap⟩ := hc.shown
  rw [Source.primary]
  split
  case h_1 hkind =>
    have hopens := is_close_of_kind (by simp [hkind] : c.kind ≠ .mark)
    refine .bind hc.next_follows ?_
    intro next hnext
    refine .ok ⟨hopens, .here ?_⟩
    rw [hc.stop_eq hplain (by simp [hkind])] at hnext
    exact hnext
  case h_2 hkind =>
    have hopens := is_close_of_kind (by simp [hkind] : c.kind ≠ .mark)
    refine .bind hc.next_follows ?_
    intro next hnext
    refine .ok ⟨hopens, .here ?_⟩
    rw [hc.stop_eq hplain (by simp [hkind]), hgap.scannedAs.null_text hkind] at hnext
    exact hnext
  case h_3 hkind =>
    have hopens := is_close_of_kind (by simp [hkind] : c.kind ≠ .mark)
    refine .bind hc.next_follows ?_
    intro next hnext
    refine .ok ⟨hopens, .here ?_⟩
    rw [hc.stop_eq hplain (by simp [hkind])] at hnext
    simp only [Term.stop]
    rcases hgap.scannedAs.boolean_text hkind with htext | htext
    · rw [htext] at hnext ⊢
      exact hnext
    · rw [htext] at hnext ⊢
      exact hnext
  case h_4 hkind =>
    have hopens := is_close_of_kind (by simp [hkind] : c.kind ≠ .mark)
    refine .bind hc.next_follows ?_
    intro next hnext
    refine .ok ⟨hopens, .here ?_⟩
    rw [hc.stop_eq hplain (by simp [hkind])] at hnext
    exact hnext
  case h_5 hkind =>
    have hopens := is_close_of_kind (by simp [hkind] : c.kind ≠ .mark)
    refine .bind hc.next_follows ?_
    intro next hnext
    rw [hc.stop_eq hplain (by simp [hkind])] at hnext
    split
    · exact .ok ⟨hopens, .here hnext⟩
    · exact .error _
  case h_6 hkind =>
    refine .ite (fun htext => ?_) fun _ => .ite (fun htext => ?_) fun _ => .ite (fun htext => ?_) fun _ =>
      .ite (fun htext => ?_) fun _ => .ite (fun htext => ?_) fun _ => .ite (fun htext => ?_) fun _ => .error _
    · refine regularExpression_ends hplain hc ?_
      simp only [Bool.or_eq_true, decide_eq_true_eq] at htext
      rcases htext with htext | htext <;> simp [Cursor.isOneOf, hkind, htext]
    · have hopens := is_close_of_text htext (by decide)
      refine .bind hc.next_follows ?_
      intro next hnext
      refine .bind (h.properties env next hnext.token) ?_
      intro r hr
      exact .ok ⟨hopens, .here hr⟩
    · have hopens := is_close_of_text htext (by decide)
      refine .bind hc.next_follows ?_
      intro next hnext
      refine .bind (h.elements env next hnext.token) ?_
      rintro ⟨items, close⟩ hclose
      refine .bind (hclose.expect_follows "]") ?_
      intro after hafter
      refine .ok ⟨hopens, .here ?_⟩
      have hfollows := hafter.2
      rw [hclose.stop_of_is hplain hafter.1] at hfollows
      exact hfollows
    · have hopens := is_close_of_text htext (by decide)
      refine .bind hc.next_follows ?_
      intro next hnext
      refine .bind (h.expression env next hnext.token) ?_
      rintro ⟨e, close⟩ he
      refine .bind (he.reaches.token.expect_follows ")") ?_
      intro after hafter
      exact .ok ⟨hopens, he.reaches.step hafter.1 hafter.2⟩
    · have hopens := is_close_of_text htext (by decide)
      refine .bind hc.next_follows ?_
      intro next hnext
      refine .ok ⟨hopens, .here ?_⟩
      rw [hc.stop_eq hplain (by simp [hkind]), htext] at hnext
      exact hnext
    · have hopens := is_close_of_text htext (by decide)
      have hrest (afterName : Cursor) (hname : TokenOf source afterName) : Gives (do
          let r ← Source.functionRest n afterName
          .ok (.foreign .function c.start r.2.2.1, r.2.2.2) : Except Mistake (Term × Cursor)) (TermEnds source c) :=
        .bind (h.functionRest afterName hname) fun r hr => .ok ⟨hopens, .here hr.2⟩
      refine .bind hc.next_follows ?_
      intro next hnext
      refine .ite (fun _ => .bind hnext.token.next_follows fun name hname => hrest name hname.token) ?_
      intro _
      exact hrest next hnext.token
  case h_7 => exact .error _

include hplain in
/-- A step of reading the properties of an object ends right behind the closing brace. -/
theorem properties_succ : Gives (Source.properties (n + 1) env c) fun r => Follows source r.1 r.2 := by
  rw [Source.properties]
  refine .ite (fun _ => .bind (hc.expect_follows "\x7d") fun after hafter => .ok ?_) fun _ => ?_
  · have hfollows := hafter.2
    rw [hc.stop_of_is hplain hafter.1] at hfollows
    exact hfollows
  have hrest (c : Cursor) (hc : TokenOf source c) : Gives (do
      let c ← if c.is "," then c.next else .ok c
      Source.properties n env c) fun r => Follows source r.1 r.2 :=
    .ite (fun _ => .bind hc.next_follows fun next hnext => h.properties env next hnext.token) fun _ =>
      h.properties env c hc
  refine .bind (propertyKey_token hc) ?_
  rintro ⟨key, c⟩ hc
  refine .ite ?_ ?_
  · intro _
    refine .bind (propertyKey_token hc) ?_
    rintro ⟨_, c⟩ hc
    exact .bind (h.functionRest c hc) fun r hr => hrest _ hr.2.token
  · intro _
    refine .bind (hc.expect_follows ":") ?_
    intro c hc
    refine .bind (h.assignment env c hc.2.token) ?_
    intro r hr
    exact hrest _ hr.reaches.token

include hplain in
/-- A step of reading a function ends each simple statement of its body, and itself right behind the brace. -/
theorem functionRest_succ : Gives (Source.functionRest (n + 1) c) fun r =>
    Clause.AllEnd source (Clause.allSimple r.2.1) ∧ Follows source r.2.2.1 r.2.2.2 := by
  rw [Source.functionRest]
  refine .bind (hc.expect_follows "(") ?_
  intro c hc
  refine .bind (parameters_token hplain n hc.2.token) ?_
  rintro ⟨params, c⟩ hc
  refine .bind (hc.expect_follows "\x7b") ?_
  intro c hc
  refine .bind (h.clauses .function c hc.2.token) ?_
  rintro ⟨body, close⟩ ⟨_, hbody, hclose⟩
  refine .bind (hclose.expect_follows "\x7d") ?_
  intro after hafter
  refine .ok ⟨hbody, ?_⟩
  have hfollows := hafter.2
  rw [hclose.stop_of_is hplain hafter.1] at hfollows
  exact hfollows

include hplain in
/-- A step of reading the names of a declaration reaches the token behind the last one. -/
theorem variableList_succ : Gives (Source.variableList (n + 1) env c) fun r =>
    r.1 ≠ [] ∧ ∀ start, Reaches source (variablesStop start r.1) r.2 := by
  rw [Source.variableList]
  refine .bind (hc.identifier_follows hplain) ?_
  rintro ⟨name, c⟩ hc
  have hrest (value : Option Term × Cursor)
      (hvalue : Reaches source (Variable.stop ⟨name.start, name.name, value.1⟩) value.2) :
      Gives (
        if value.2.is "," then do
          let c ← value.2.next
          let rest ← Source.variableList n env c
          .ok (⟨name.start, name.name, value.1⟩ :: rest.1, rest.2)
        else .ok ([⟨name.start, name.name, value.1⟩], value.2)) fun r : List Variable × Cursor =>
          r.1 ≠ [] ∧ ∀ start, Reaches source (variablesStop start r.1) r.2 := by
    refine .ite ?_ fun _ => .ok ⟨by simp, fun _ => hvalue⟩
    intro _
    refine .bind hvalue.token.next_follows ?_
    intro c hc
    refine .bind (h.variableList env c hc.token) ?_
    intro r hr
    refine .ok ⟨by simp, ?_⟩
    intro start
    have hlast := hr.2 start
    rw [variablesStop] at hlast ⊢
    rwa [List.getLast?_cons_of_ne_nil hr.1]
  refine .ite ?_ fun _ => hrest (none, c) (.here hc)
  intro _
  refine .bind hc.token.next_follows ?_
  intro c hc
  refine .bind (h.assignment env c hc.token) ?_
  intro r hr
  exact hrest (some r.1, r.2) hr.reaches

end Expressions

/-! ## Statements -/

section Statements

include h hc

/-- A step of reading a condition in parentheses ends at a token of the source. -/
theorem condition_succ : Gives (Source.condition (n + 1) env c) fun r => TokenOf source r.2 := by
  rw [Source.condition]
  refine .bind (hc.expect_follows "(") ?_
  intro c hc
  refine .bind (h.expression env c hc.2.token) ?_
  rintro ⟨test, c⟩ htest
  refine .bind (htest.reaches.token.expect_follows ")") ?_
  intro c hc
  exact .ok hc.2.token

/-- A step of reading an expression that may be missing ends at a token of the source. -/
theorem optionalTerm_succ (mark : String) :
    Gives (Source.optionalTerm (n + 1) env mark c) fun r => TokenOf source r.2 := by
  rw [Source.optionalTerm]
  refine .ite (fun _ => .ok hc) ?_
  intro _
  refine .bind (h.expression env c hc) ?_
  intro r hr
  exact .ok hr.reaches.token

/-- A step of reading a block ends each simple statement in it. -/
theorem block_succ : Gives (Source.block (n + 1) env c) fun r =>
    Clause.AllEnd source (Clause.allSimple r.1) ∧ TokenOf source r.2 := by
  rw [Source.block]
  refine .bind (hc.expect_follows "\x7b") ?_
  intro c hc
  refine .bind (h.clauses env c hc.2.token) ?_
  rintro ⟨body, c⟩ ⟨_, hbody, hc⟩
  refine .bind (hc.expect_follows "\x7d") ?_
  intro c hc
  exact .ok ⟨hbody, hc.2.token⟩

/-- A step of reading several statements ends each simple one, and no parenthesis stands in front. -/
theorem clauses_succ : Gives (Source.clauses (n + 1) env c) fun r =>
    c.is ")" = false ∧ Clause.AllEnd source (Clause.allSimple r.1) ∧ TokenOf source r.2 := by
  rw [Source.clauses]
  refine .ite (fun hend => .ok ⟨?_, fun s hs => absurd hs List.not_mem_nil, hc⟩) fun _ => ?_
  · rcases Bool.or_eq_true_iff.mp hend with his | hend
    · exact is_of_ne his (by decide)
    · exact is_close_of_kind (by simp [of_decide_eq_true hend])
  refine .bind (h.clause env c hc) ?_
  rintro ⟨first, c⟩ ⟨hopens, hfirst⟩
  refine .bind (h.clauses env c hfirst.token) ?_
  rintro ⟨rest, after⟩ ⟨hnext, hrest, hafter⟩
  exact .ok ⟨hopens, (hfirst.simple hnext).append hrest, hafter⟩

/-- A step of reading what follows the header of a `for` ends each simple statement of its body. -/
theorem forRest_succ (start : Nat) (header : Header) :
    Gives (Source.forRest (n + 1) env start header c) (ClauseEnds source) := by
  rw [Source.forRest]
  refine .bind (hc.expect_follows ";") ?_
  intro c hc
  refine .bind (h.optionalTerm env ";" c hc.2.token) ?_
  rintro ⟨test, c⟩ hc
  refine .bind (hc.expect_follows ";") ?_
  intro c hc
  refine .bind (h.optionalTerm env ")" c hc.2.token) ?_
  rintro ⟨update, c⟩ hc
  refine .bind (hc.expect_follows ")") ?_
  intro c hc
  refine .bind (h.clause env.loop c hc.2.token) ?_
  rintro ⟨body, c⟩ ⟨_, hbody⟩
  exact .ok ⟨hbody.simple, hbody.token⟩

/-- A step of reading a `for` over the properties of an object ends each simple statement of its body. -/
theorem forInRest_succ (start : Nat) : Gives (Source.forInRest (n + 1) env start c) (ClauseEnds source) := by
  rw [Source.forInRest]
  refine .bind (h.expression env c hc) ?_
  rintro ⟨_, c⟩ he
  refine .bind (he.reaches.token.expect_follows ")") ?_
  intro c hc
  refine .bind (h.clause env.loop c hc.2.token) ?_
  intro r hr
  exact .ok (.of_nothing rfl hr.2.token)

/-- A step of reading a `for` ends each simple statement of its body. -/
theorem forClause_succ : Gives (Source.forClause (n + 1) env c) (ClauseEnds source) := by
  rw [Source.forClause]
  refine .bind (hc.expect_follows "for") ?_
  intro first hfirst
  refine .bind (hfirst.2.token.expect_follows "(") ?_
  intro c hc
  refine .ite (fun _ => h.forRest env _ .empty c hc.2.token) ?_
  intro _
  refine .ite ?_ ?_
  · intro _
    refine .bind hc.2.token.next_follows ?_
    intro c hc
    refine .bind (h.variableList _ c hc.token) ?_
    rintro ⟨list, c⟩ hlist
    have hc := (hlist.2 0).token
    refine .ite (fun _ => .bind hc.next_follows fun c hc => h.forInRest env _ c hc.token) ?_
    intro _
    exact h.forRest env _ (.declared list) c hc
  · intro _
    refine .bind (h.expression _ c hc.2.token) ?_
    rintro ⟨e, c⟩ he
    refine .ite ?_ fun _ => h.forRest env _ (.term e) c he.reaches.token
    intro _
    refine .bind he.reaches.token.next_follows ?_
    intro c hc
    refine .ite (fun _ => h.forInRest env _ c hc.token) ?_
    intro _
    exact .error _

/-- A step of reading the body of a `case` ends at a token of the source. -/
theorem caseBody_succ : Gives (Source.caseBody (n + 1) env c) (TokenOf source) := by
  rw [Source.caseBody]
  refine .ite (fun _ => .ok hc) ?_
  intro _
  refine .bind (h.clause env c hc) ?_
  intro r hr
  exact h.caseBody env r.2 hr.2.token

/-- A step of reading the cases of a `switch` ends at a token of the source. -/
theorem cases_succ (seen : Bool) : Gives (Source.cases (n + 1) env seen c) (TokenOf source) := by
  rw [Source.cases]
  refine .ite (fun _ => .ok hc) ?_
  intro _
  refine .ite (fun _ => hc.next_follows.imp fun _ h => h.token) ?_
  intro _
  have hrest (after : Cursor) (hafter : TokenOf source after) : Gives (do
      let c' ← after.expect ":"
      let c' ← Source.caseBody n env c'
      if c.is "default" && seen then .error ⟨c.start, "Already saw a default in switch"⟩
      else Source.cases n env (seen || c.is "default") c') (TokenOf source) :=
    .bind (hafter.expect_follows ":") fun c hc => .bind (h.caseBody env c hc.2.token) fun c hc =>
      .ite (fun _ => .error _) fun _ => h.cases env _ c hc
  refine .ite (fun _ => .bind hc.next_follows fun c hc => hrest c hc.token) ?_
  intro _
  refine .bind (hc.expect_follows "case") ?_
  intro c hc
  refine .bind (h.expression env c hc.2.token) ?_
  intro r hr
  exact hrest r.2 hr.reaches.token

include hplain in
/-- A step of reading a `try` has no simple part that would have to end. -/
theorem tryClause_succ : Gives (Source.tryClause (n + 1) env c) (ClauseEnds source) := by
  rw [Source.tryClause]
  have hend (caught : Bool) (r : Bool × Cursor) (hr : TokenOf source r.2) :
      Gives (if (caught || r.1) = true then .ok (.foreign .exception c.start, r.2)
        else .error ⟨c.start, "Missing catch or finally after try"⟩) (ClauseEnds source) :=
    .ite (fun _ => .ok (.of_nothing rfl hr)) fun _ => .error _
  have hfinally (caught : Bool) (after : Cursor) (hafter : TokenOf source after) : Gives (do
      let last ←
        if after.is "finally" then do
          let c ← after.next
          let block ← Source.block n env c
          .ok (true, block.2)
        else .ok (false, after)
      if caught || last.1 then .ok (.foreign .exception c.start, last.2)
      else .error ⟨c.start, "Missing catch or finally after try"⟩) (ClauseEnds source) :=
    .ite (fun _ => .bind hafter.next_follows fun c hc => .bind (h.block env c hc.token) fun r hr =>
      hend caught (true, r.2) hr.2) fun _ => hend caught (false, after) hafter
  refine .bind (hc.expect_follows "try") ?_
  intro c hc
  refine .bind (h.block env c hc.2.token) ?_
  rintro ⟨_, c⟩ ⟨_, hc⟩
  refine .ite ?_ fun _ => hfinally false c hc
  intro _
  refine .bind hc.next_follows ?_
  intro c hc
  refine .bind (hc.token.expect_follows "(") ?_
  intro c hc
  refine .bind (hc.2.token.identifier_follows hplain) ?_
  rintro ⟨_, c⟩ hc
  refine .bind (hc.token.expect_follows ")") ?_
  intro c hc
  refine .bind (h.block env c hc.2.token) ?_
  intro r hr
  exact hfinally true r.2 hr.2

/-- A step of reading a statement that begins with an expression ends it before the token behind it. -/
theorem termClause_succ : Gives (Source.termClause (n + 1) env c) fun r => c.is ")" = false ∧ ClauseEnds source r := by
  rw [Source.termClause]
  refine .bind_of_eq (h.expression env c hc) ?_
  rintro ⟨e, after⟩ hread he
  have hafter := he.reaches.token
  have hend : Gives (do .ok (.term e, ← after.endTerm) : Except Mistake (Clause × Cursor)) fun r =>
      c.is ")" = false ∧ ClauseEnds source r := by
    refine .bind hafter.endTerm_gives ?_
    intro last hlast
    refine .ok ⟨he.opens, ?_, hlast.1⟩
    intro hopen s hs
    obtain rfl := List.mem_singleton.mp hs
    exact ⟨after, .term hc hread (hlast.2 hopen)⟩
  cases e with
  | name start text =>
    refine .ite ?_ fun _ => hend
    intro _
    refine .bind hafter.next_follows ?_
    intro next hnext
    refine .ite (fun _ => .error _) ?_
    intro _
    refine .bind (h.clause _ next hnext.token) ?_
    intro r hr
    exact .ok ⟨he.opens, .of_nothing rfl hr.2.token⟩
  | _ => exact hend

include hplain in
/-- A step of reading a statement ends each simple part of it, and no parenthesis stands in front. -/
theorem clause_succ : Gives (Source.clause (n + 1) env c) fun r => c.is ")" = false ∧ ClauseEnds source r := by
  rw [Source.clause]
  refine .ite ?_ fun _ => h.termClause env c hc
  intro hkind
  have hopens {text : String} (htext : c.text = text) (hne : text ≠ ")") : c.is ")" = false := is_close_of_text htext hne
  have his {text : String} (htext : c.text = text) : c.is text = true := by simp [Cursor.is, hkind, htext]
  split
  case h_1 htext =>
    -- The empty statement.
    refine .bind hc.next_follows ?_
    intro c hc
    exact .ok ⟨hopens htext (by decide), .of_nothing rfl hc.token⟩
  case h_2 htext =>
    -- Blocks.
    refine .bind (h.block env c hc) ?_
    rintro ⟨body, after⟩ ⟨hbody, hafter⟩
    exact .ok ⟨hopens htext (by decide), fun _ => hbody, hafter⟩
  case h_3 htext =>
    -- Conditionals.
    refine .bind hc.next_follows ?_
    intro next hnext
    refine .bind (h.condition env next hnext.token) ?_
    rintro ⟨test, close⟩ hclose
    refine .bind (h.clause env close hclose) ?_
    rintro ⟨body, after⟩ ⟨_, hbody⟩
    refine .ite ?_ ?_
    · intro helse
      refine .bind hbody.token.next_follows ?_
      intro next hnext
      refine .bind (h.clause env next hnext.token) ?_
      rintro ⟨other, last⟩ ⟨_, hother⟩
      refine .ok ⟨hopens htext (by decide), ?_, hother.token⟩
      intro hopen
      exact (hbody.simple (is_of_ne helse (by decide))).append (hother.simple hopen)
    · intro _
      refine .ok ⟨hopens htext (by decide), ?_, hbody.token⟩
      intro hopen
      apply (hbody.simple hopen).append
      intro s hs
      exact absurd hs List.not_mem_nil
  case h_4 htext =>
    -- `do` loops, which a semicolon on the same line may end.
    refine .bind hc.next_follows ?_
    intro next hnext
    refine .bind (h.clause env.loop next hnext.token) ?_
    rintro ⟨_, after⟩ ⟨_, hafter⟩
    refine .bind (hafter.token.expect_follows "while") ?_
    intro next hnext
    refine .bind (h.condition env next hnext.2.token) ?_
    rintro ⟨_, last⟩ hlast
    refine .ite (fun _ => .bind hlast.next_follows fun c hc => .ok ⟨hopens htext (by decide), .of_nothing rfl
      hc.token⟩) ?_
    intro _
    exact .ok ⟨hopens htext (by decide), .of_nothing rfl hlast.sameLine⟩
  case h_5 htext =>
    -- `while` loops.
    refine .bind hc.next_follows ?_
    intro next hnext
    refine .bind (h.condition env next hnext.token) ?_
    rintro ⟨test, close⟩ hclose
    refine .bind (h.clause env.loop close hclose) ?_
    rintro ⟨body, after⟩ ⟨_, hbody⟩
    exact .ok ⟨hopens htext (by decide), hbody.simple, hbody.token⟩
  case h_6 htext =>
    -- `for` loops.
    apply (h.forClause env c hc).imp
    intro r hr
    exact ⟨hopens htext (by decide), hr⟩
  case h_7 htext =>
    -- `break`.
    apply (branchClause_ends hplain n env true hc).imp
    intro r hr
    exact ⟨hopens htext (by decide), hr⟩
  case h_8 htext =>
    -- `continue`.
    apply (branchClause_ends hplain n env false hc).imp
    intro r hr
    exact ⟨hopens htext (by decide), hr⟩
  case h_9 htext =>
    -- `debugger`.
    refine .bind hc.next_follows ?_
    intro next hnext
    refine .bind hnext.token.endStatement_gives ?_
    intro last hlast
    exact .ok ⟨hopens htext (by decide), .of_nothing rfl hlast.1⟩
  case h_10 htext =>
    -- `with`.
    refine .bind hc.next_follows ?_
    intro next hnext
    refine .bind (h.condition env next hnext.token) ?_
    rintro ⟨_, close⟩ hclose
    refine .bind (h.clause env close hclose) ?_
    intro r hr
    exact .ok ⟨hopens htext (by decide), .of_nothing rfl hr.2.token⟩
  case h_11 htext =>
    -- Declarations.
    refine .bind_of_eq hc.next_follows ?_
    intro next hnext hfollows
    refine .bind_of_eq (h.variableList env next hfollows.token) ?_
    rintro ⟨list, after⟩ hread hlist
    refine .bind (hlist.2 0).token.endStatement_gives ?_
    intro last hlast
    refine .ok ⟨hopens htext (by decide), ?_, hlast.1⟩
    intro hopen s hs
    obtain rfl := List.mem_singleton.mp hs
    exact ⟨after, .var hc (his htext) hnext hread (hlast.2 hopen)⟩
  case h_12 htext =>
    -- Functions.
    refine .bind hc.next_follows ?_
    intro next hnext
    refine .bind (hnext.token.identifier_follows hplain) ?_
    rintro ⟨name, after⟩ hname
    refine .bind (h.functionRest after hname.token) ?_
    intro r hr
    exact .ok ⟨hopens htext (by decide), fun _ => hr.1, hr.2.token⟩
  case h_13 htext =>
    -- `switch`.
    refine .bind hc.next_follows ?_
    intro next hnext
    refine .bind (h.condition env next hnext.token) ?_
    rintro ⟨_, close⟩ hclose
    refine .bind (hclose.expect_follows "\x7b") ?_
    intro c hc
    refine .bind (h.cases _ false c hc.2.token) ?_
    intro c hc
    exact .ok ⟨hopens htext (by decide), .of_nothing rfl hc⟩
  case h_14 htext =>
    -- `return`, with a value and without.
    refine .bind_of_eq hc.next_follows ?_
    intro next hnext hfollows
    refine .ite (fun _ => .error _) ?_
    intro _
    refine .ite ?_ ?_
    · intro _
      refine .bind hfollows.token.endStatement_gives ?_
      intro last hlast
      refine .ok ⟨hopens htext (by decide), ?_, hlast.1⟩
      intro hopen s hs
      obtain rfl := List.mem_singleton.mp hs
      exact ⟨next, .returnNothing hc (his htext) hnext (hlast.2 hopen)⟩
    · intro _
      refine .bind_of_eq (h.expression env next hfollows.token) ?_
      rintro ⟨value, after⟩ hread hvalue
      refine .bind hvalue.reaches.token.endStatement_gives ?_
      intro last hlast
      refine .ok ⟨hopens htext (by decide), ?_, hlast.1⟩
      intro hopen s hs
      obtain rfl := List.mem_singleton.mp hs
      exact ⟨after, .returnValue hc (his htext) hnext hread (hlast.2 hopen)⟩
  case h_15 htext =>
    -- `throw`.
    refine .bind hc.next_follows ?_
    intro next hnext
    refine .ite (fun _ => .error _) ?_
    intro _
    refine .bind (h.expression env next hnext.token) ?_
    rintro ⟨_, after⟩ he
    refine .bind he.reaches.token.endStatement_gives ?_
    intro last hlast
    exact .ok ⟨hopens htext (by decide), .of_nothing rfl hlast.1⟩
  case h_16 htext =>
    -- `try`.
    apply (h.tryClause env c hc).imp
    intro r hr
    exact ⟨hopens htext (by decide), hr⟩
  case h_17 =>
    -- Anything else is an expression.
    exact h.termClause env c hc

end Statements

include hplain h in
/-- All functions of the reader end where they should with one more unit of fuel. -/
theorem succ : EndReader source (n + 1) where
  expression env _ hc := h.expression_succ env hc
  sequenceTail env _ _ hlast := h.sequenceTail_succ env hlast
  assignment env _ hc := h.assignment_succ env hc
  conditional env _ hc := h.conditional_succ env hc
  binary env level _ hc := h.binary_succ env hc level
  binaryTail env level _ _ hleft := h.binaryTail_succ env level hleft
  unary env _ hc := h.unary_succ hplain env hc
  operand env _ hc := h.operand_succ env hc
  accesses env calls _ _ hleft := h.accesses_succ hplain env calls hleft
  arguments env _ hc := h.arguments_succ hplain env hc
  argumentList env _ hc := h.argumentList_succ env hc
  newTerm env _ hc := h.newTerm_succ env hc
  primary env _ hc := h.primary_succ hplain env hc
  elements env _ hc := h.elements_succ env hc
  properties env _ hc := h.properties_succ hplain env hc
  functionRest _ hc := h.functionRest_succ hplain hc
  clauses env _ hc := h.clauses_succ env hc
  variableList env _ hc := h.variableList_succ hplain env hc
  condition env _ hc := h.condition_succ env hc
  optionalTerm env mark _ hc := h.optionalTerm_succ env hc mark
  forClause env _ hc := h.forClause_succ env hc
  forRest env start header _ hc := h.forRest_succ env hc start header
  forInRest env start _ hc := h.forInRest_succ env hc start
  cases env seen _ hc := h.cases_succ env hc seen
  caseBody env _ hc := h.caseBody_succ env hc
  block env _ hc := h.block_succ env hc
  tryClause env _ hc := h.tryClause_succ hplain env hc
  clause env _ hc := h.clause_succ hplain env hc
  termClause env _ hc := h.termClause_succ env hc

include hplain in
/-- Whatever the bound is, reading keeps to the tokens of a source. -/
theorem all (n : Nat) : EndReader source n := by
  induction n with
  | zero => exact zero
  | succ n ih => exact ih.succ hplain

end EndReader

/-- Every simple statement of a source that is plainly written ends before the token behind it. -/
theorem topClauses_end (hplain : PlainlyWritten source) (n : Nat) {c : Cursor} (hc : TokenOf source c) :
    Gives (topClauses n c) fun cs => c.is ")" = false ∧ Clause.AllEnd source (Clause.allSimple cs) := by
  induction n generalizing c with
  | zero => exact .error _
  | succ n ih =>
    refine .ite ?_ ?_
    · intro hend
      refine .ok ⟨?_, fun s hs => absurd hs List.not_mem_nil⟩
      exact is_close_of_kind (by simp [of_decide_eq_true hend])
    · intro _
      refine .bind ((EndReader.all hplain n).clause .top c hc) ?_
      rintro ⟨first, after⟩ ⟨hopens, hfirst⟩
      refine .bind (ih hfirst.token) ?_
      intro rest hrest
      exact .ok ⟨hopens, (hfirst.simple hrest.1).append hrest.2⟩

/-- Each simple statement of a source ends before some token. -/
theorem readSource_ends (hplain : PlainlyWritten source) :
    Gives (readSource source) fun clauses => Clause.AllEnd source (Clause.allSimple clauses) := by
  refine .bind_of_eq (P := fun _ => True) ⟨fun _ _ => trivial⟩ ?_
  intro _ hfirst _
  apply (topClauses_end hplain _ (.first hfirst)).imp
  intro _ h
  exact h.2

/-- That token is reached from the end of the statement. -/
theorem Clause.EndsBefore.reaches (hplain : PlainlyWritten source) {s : Clause} {after : Cursor}
    (h : s.EndsBefore source after) : Reaches source s.stop after ∧ after.is ")" = false := by
  cases h with
  | @term n env _ _ _ hc hread hafter =>
    exact ⟨(((EndReader.all hplain n).expression env _ hc).of_ok _ hread).reaches, hafter⟩
  | @var n env _ _ _ _ hc _ hnext hread hafter =>
    have hlist := ((EndReader.all hplain n).variableList env _ (hc.next hnext)).of_ok _ hread
    exact ⟨hlist.2 _, hafter⟩
  | returnNothing hc hreturn hnext hafter =>
    refine ⟨.here ?_, hafter⟩
    have hfollows := hc.follows hnext
    rw [hc.stop_of_is hplain hreturn] at hfollows
    exact hfollows
  | @returnValue n env _ _ _ _ hc _ hnext hread hafter =>
    exact ⟨(((EndReader.all hplain n).expression env _ (hc.next hnext)).of_ok _ hread).reaches, hafter⟩

end Primer.Source
