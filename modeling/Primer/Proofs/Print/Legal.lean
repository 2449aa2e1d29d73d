import Primer.Proofs.Print.Scan

/-!
# What a reader can give

Everything that was read is made of scanned tokens: the numbers, texts and names in it can be scanned again. Besides,
a `return` stands in a function only, and a declaration declares something. `Term.Legal` and `Clause.Legal` say so,
and all functions of the reader keep to it (`LegalReader.all`).
-/

set_option autoImplicit false

namespace Primer.Source

/-! ## Names -/

/-- A word that names a variable. -/
def IsIdentifier (name : String) : Prop := isPlainWord name.toList = true ∧ (wordKind name).1 = .identifier

/-- A word that can stand behind a point. -/
def IsMember (name : String) : Prop := isPlainWord name.toList = true ∧ isMemberName name = true

/-! ## Tokens -/

/-- A token that can be scanned again, if it is a number, a text, an identifier or a word behind a point. -/
structure Cursor.Legal (c : Cursor) : Prop where
  number : c.kind = .number → IsNumeral c.text.toList
  string : c.kind = .string → IsQuotation c.text.toList
  identifier : c.kind = .identifier → IsIdentifier c.text
  member : c.kind ≠ .string → isMemberName c.text = true → IsMember c.text

/-- Whatever is read has a property. -/
structure Gives {α : Type} (x : Except Mistake α) (P : α → Prop) : Prop where
  of_ok : ∀ a, x = .ok a → P a

namespace Gives

variable {α β : Type} {P : α → Prop} {Q : β → Prop}

/-- A value that meets the condition is given. -/
theorem ok {a : α} (h : P a) : Gives (.ok a) P := by
  constructor
  rintro _ ⟨⟩
  exact h

/-- A mistake gives nothing, so every condition holds of what it gives. -/
theorem error (m : Mistake) : Gives (.error m) P := ⟨nofun⟩

/-- What a sequence of steps gives meets the condition of its last step. -/
theorem bind {x : Except Mistake α} {f : α → Except Mistake β} (hx : Gives x P) (hf : ∀ a, P a → Gives (f a) Q) :
    Gives (x >>= f) Q := by
  constructor
  intro b h
  cases x with
  | error m => cases h
  | ok a => exact (hf a (hx.of_ok a rfl)).of_ok b h

/-- A weaker condition holds as well. -/
theorem imp {P' : α → Prop} {x : Except Mistake α} (hx : Gives x P) (h : ∀ a, P a → P' a) : Gives x P' :=
  ⟨fun a ha => h a (hx.of_ok a ha)⟩

/-- A choice meets a condition if each of its sides does under its own assumption. -/
theorem ite {b : Prop} [Decidable b] {x y : Except Mistake α} (hx : b → Gives x P) (hy : ¬ b → Gives y P) :
    Gives (if b then x else y) P := by
  split
  · exact hx ‹_›
  · exact hy ‹_›

end Gives

/-! Even what is not well formed as a number starts like one. -/

/-- The end of a numeral does not change its text. -/
theorem endNumber_text (text rest : List Char) : (endNumber text rest).text = text := rfl

/-- The text before an exponent stays at the front of the numeral. -/
theorem scanExponent_text (before cs : List Char) : before <+: (scanExponent before cs).text := by
  cases cs with
  | nil => exact List.prefix_rfl
  | cons c cs =>
    rw [scanExponent_cons]
    split
    · split
      · exact List.prefix_append ..
      · simp only [endNumber_text, List.append_assoc]
        exact List.prefix_append ..
    · exact List.prefix_rfl

/-- The text before a fraction stays at the front of the numeral. -/
theorem scanFraction_text (before cs : List Char) : before <+: (scanFraction before cs).text := by
  unfold scanFraction
  split
  · exact (List.prefix_append ..).trans (scanExponent_text ..)
  · exact scanExponent_text ..

/-- A text that starts like a number. -/
def StartsLikeNumber (text : List Char) : Prop := ∃ d tail, text = d :: tail ∧ (d.isDigit = true ∨ d = '.')

/-- A longer text starts like a number too. -/
theorem StartsLikeNumber.extended {start text : List Char} (hstart : StartsLikeNumber start) (h : start <+: text) :
    StartsLikeNumber text := by
  obtain ⟨d, tail, rfl, hd⟩ := hstart
  obtain ⟨rest, rfl⟩ := h
  exact ⟨d, tail ++ rest, rfl, hd⟩

/-- The text of an octal numeral is its zero and its digits. -/
theorem endOctal_text (ds rest : List Char) : (endOctal ds rest).text = '0' :: ds := by
  unfold endOctal
  split <;> rfl

/-- A numeral that begins with a zero keeps it. -/
theorem scanNumber_text (x : Char) (after : List Char) : ['0'] <+: (scanNumber ('0' :: x :: after)).text := by
  rw [scanNumber_zero]
  split
  · split
    · exact List.prefix_append ['0'] [x]
    · exact List.prefix_append ['0'] _
  · split
    · exact scanFraction_text ..
    · split
      · exact scanExponent_text ..
      · rw [endOctal_text]
        exact List.prefix_append ['0'] _

/-- Where a number starts, the scanned text starts like a number. -/
theorem scanNumeral_starts {cs : List Char} (h : startsNumber cs = true) :
    StartsLikeNumber (scanNumeral cs).text := by
  cases cs with
  | nil => cases h
  | cons c cs =>
    unfold scanNumeral
    split
    case isTrue hdot =>
      obtain rfl : c = '.' := Option.some.inj hdot
      exact .extended ⟨'.', _, rfl, .inr rfl⟩ (scanExponent_text ('.' :: cs.takeWhile Char.isDigit) _)
    case isFalse hdot =>
      have hc : c.isDigit = true := by
        simp only [startsNumber, Bool.or_eq_true, Bool.and_eq_true, decide_eq_true_eq] at h
        rcases h with h | ⟨rfl, -⟩
        · exact h
        · exact absurd rfl hdot
      by_cases hzero : ∃ x after, c :: cs = '0' :: x :: after
      · obtain ⟨x, after, heq⟩ := hzero
        rw [heq]
        exact .extended ⟨'0', [], rfl, .inl rfl⟩ (scanNumber_text x after)
      · rw [scanNumber_other fun x after heq => hzero ⟨x, after, heq⟩, List.takeWhile_cons_of_pos hc]
        exact .extended ⟨c, _, rfl, .inl hc⟩ (scanFraction_text ..)

/-- No number is a word that can stand behind a point. -/
theorem not_isMemberName_of_starts {text : List Char} (h : StartsLikeNumber text) :
    isMemberName (String.ofList text) = false := by
  obtain ⟨d, tail, rfl, hd | rfl⟩ := h
  · obtain ⟨hascii, halpha⟩ := isAscii_of_isDigit hd
    simp only [isMemberName, String.toList_ofList, Text.isLetter, hascii, halpha, if_true, Bool.or_false,
      Bool.and_eq_false_iff, Bool.or_eq_false_iff, beq_eq_false_iff_ne]
    exact .inl ⟨ne_of_isDigit hd (by decide), ne_of_isDigit hd (by decide)⟩
  · simp only [isMemberName, String.toList_ofList, show Text.isLetter '.' = false by decide]
    rfl

/-- No mark is a word that can stand behind a point. -/
theorem not_isMemberName_of_punctuation : ∀ p ∈ punctuation, isMemberName (String.ofList p) = false := by decide +kernel

/-- A token without a text has nothing to be scanned again. -/
theorem Cursor.Legal.of_empty {c : Cursor} (hkind : c.kind = .endOfInput ∨ c.kind = .illegal) (htext : c.text = "") :
    c.Legal where
  number h := by simp [h] at hkind
  string h := by simp [h] at hkind
  identifier h := by simp [h] at hkind
  member _ h := by
    rw [htext] at h
    cases h

/-- The kinds that a word can have. -/
theorem wordKind_mem (name : String) : (wordKind name).1 ∈ [Kind.boolean, .null, .reserved, .mark, .identifier] := by
  unfold wordKind
  repeat' split
  all_goals simp

/-- A word of its own kind can be scanned again. -/
theorem Cursor.Legal.of_word {c : Cursor} (hplain : isPlainWord c.text.toList = true)
    (hkind : c.kind = (wordKind c.text).1) : c.Legal where
  number h := absurd (wordKind_mem c.text) (by rw [← hkind, h]; decide)
  string h := absurd (wordKind_mem c.text) (by rw [← hkind, h]; decide)
  identifier h := ⟨hplain, hkind.symm.trans h⟩
  member _ h := ⟨hplain, h⟩

/-- A scanned token can be scanned again. -/
theorem scanToken_legal (gap : AfterGap) : Gives (scanToken gap) Cursor.Legal := by
  unfold scanToken
  simp only
  split
  case h_1 => exact .ok (.of_empty (.inl rfl) rfl)
  case h_2 c cs hrest =>
    refine .ite (fun hword => .ite (fun hlegal => .ok ?_) fun _ => .ok (.of_empty (.inr rfl) rfl)) fun hword =>
      .ite (fun hnumber => .ok ?_) fun _ => .ite (fun hquote => .ite (fun hlegal => .ok ?_) fun _ =>
        .ok (.of_empty (.inr rfl) rfl)) fun _ => ?_
    · refine .of_word ?_ rfl
      simp only [String.toList_ofList]
      exact scanWord_isPlain hword hlegal
    · have hstart : startsNumber (c :: cs) = true := hnumber
      have hstarts := scanNumeral_starts hstart
      have hscan : (if c = '.' then scanFraction [] (c :: cs) else scanNumber (c :: cs)) = scanNumeral (c :: cs) := by
        simp [scanNumeral]
      rw [hscan]
      cases hlegal : (scanNumeral (c :: cs)).legal with
      | false =>
        exact {
          number := nofun
          string := nofun
          identifier := nofun
          member := fun _ h => absurd h (by simp [not_isMemberName_of_starts hstarts]) }
      | true =>
        have hnumeral : IsNumeral (scanNumeral (c :: cs)).text :=
          scanNumeral_isNumeral hstart (by rw [← hlegal])
        exact {
          number := fun _ => by simpa using hnumeral
          string := nofun
          identifier := nofun
          member := fun _ h => absurd h (by simp [not_isMemberName_of_starts hstarts]) }
    · have hquotation : IsQuotation (c :: (scanText c cs).text) := scanText_isQuotation hquote (by rw [← hlegal])
      exact {
        number := nofun
        string := fun _ => by simpa using hquotation
        identifier := nofun
        member := (absurd rfl ·) }
    · split
      · exact .error _
      · next p hp =>
        have hp := not_isMemberName_of_punctuation p (List.mem_of_find?_eq_some hp)
        exact .ok {
          number := nofun
          string := nofun
          identifier := nofun
          member := fun _ h => absurd h (by simp [hp]) }

/-- The next token of a source can be scanned again. -/
theorem Cursor.next_legal (c : Cursor) : Gives c.next Cursor.Legal :=
  .bind (P := fun _ => True) ⟨fun _ _ => trivial⟩ fun gap _ => scanToken_legal gap

/-- The first token of a source can be scanned again. -/
theorem Cursor.first_legal (source : List Char) : Gives (Cursor.first source) Cursor.Legal :=
  .bind (P := fun _ => True) ⟨fun _ _ => trivial⟩ fun gap _ => scanToken_legal gap

/-- Whether a token stands on a new line does not matter for scanning it again. -/
theorem Cursor.Legal.sameLine {c : Cursor} (h : c.Legal) : { c with afterLine := false }.Legal := ⟨h.1, h.2, h.3, h.4⟩

/-- Behind an expected mark comes a token that can be scanned again. -/
theorem Cursor.expect_legal (c : Cursor) (text : String) : Gives (c.expect text) Cursor.Legal :=
  .ite (fun _ => c.next_legal) fun _ => .error _

/-- Behind the end of a statement comes a token that can be scanned again. -/
theorem Cursor.Legal.endStatement_legal {c : Cursor} (h : c.Legal) : Gives c.endStatement Cursor.Legal :=
  .ite (fun _ => .ok h) fun _ => .ite (fun _ => .ok h.sameLine) fun _ => c.expect_legal ";"

/-- Behind the end of an expression comes a token that can be scanned again. -/
theorem Cursor.Legal.endTerm_legal {c : Cursor} (h : c.Legal) : Gives c.endTerm Cursor.Legal := by
  refine .ite (fun _ => c.next_legal) ?_
  intro _
  refine .ite (fun _ => .ok h.sameLine) ?_
  intro _
  exact .ite (fun _ => .ok h) fun _ => .error _

/-- A name that was read is an identifier. -/
theorem Cursor.Legal.identifier_legal {c : Cursor} (h : c.Legal) :
    Gives c.identifier fun r => IsIdentifier r.1.name ∧ r.2.Legal := by
  refine .ite (fun hkind => .bind c.next_legal fun _ hnext => .ok ⟨h.3 hkind, hnext⟩) ?_
  intro _
  exact .error _

/-! ## Expressions and statements -/

mutual

/-- An expression in which all tokens can be scanned again. -/
def Term.Legal : Term → Prop
  | .number _ text value => IsNumeral text.toList ∧ value = numberValue text
  | .string _ text value => IsQuotation text.toList ∧ stringValue text = .ok value
  | .boolean .. | .null _ | .foreign .. => True
  | .name _ text => IsIdentifier text
  | .dot left _ text => left.Legal ∧ IsMember text
  | .bracket left position _ => left.Legal ∧ position.Legal
  | .call callee arguments _ => callee.Legal ∧ Term.AllLegal arguments
  | .array _ items _ => Term.AllLegal items
  | .binary left _ right | .assign left _ right => left.Legal ∧ right.Legal
  | .unary _ _ operand => operand.Legal
  | .bumped operand symbol => operand.Legal ∧ symbol ∈ ["++", "--"]

/-- The same for several expressions. -/
def Term.AllLegal : List Term → Prop
  | [] => True
  | t :: ts => t.Legal ∧ Term.AllLegal ts

end

/-- The same for an expression that may be absent. -/
def Term.LegalIn (t : Option Term) : Prop := ∀ e ∈ t, e.Legal

/-- A declared variable in which all tokens can be scanned again. -/
def Variable.Legal (v : Variable) : Prop := IsIdentifier v.name ∧ Term.LegalIn v.value

/-- The variables of a declaration; there is at least one. -/
def Variable.AllLegal (list : List Variable) : Prop := list ≠ [] ∧ ∀ v ∈ list, v.Legal

/-- The first part of the header of a `for` loop in which all tokens can be scanned again. -/
def Header.Legal : Header → Prop
  | .empty => True
  | .declared list => Variable.AllLegal list
  | .term t => t.Legal

mutual

/-- A statement, inside or outside of a function, in which all tokens can be scanned again. -/
def Clause.Legal (inFunction : Bool) : Clause → Prop
  | .empty _ | .foreign .. => True
  | .term t => t.Legal
  | .var _ list => Variable.AllLegal list
  | .cond _ test body branch => test.Legal ∧ body.Legal inFunction ∧ Clause.LegalIn inFunction branch
  | .while _ test body => test.Legal ∧ body.Legal inFunction
  | .for _ header test update body =>
    header.Legal ∧ Term.LegalIn test ∧ Term.LegalIn update ∧ body.Legal inFunction
  | .function _ name params body =>
    IsIdentifier name ∧ (∀ p ∈ params, IsIdentifier p.name) ∧ Clause.AllLegal true body
  | .return _ value => inFunction = true ∧ Term.LegalIn value
  | .block _ body => Clause.AllLegal inFunction body

/-- The same for a statement that may be absent. -/
def Clause.LegalIn (inFunction : Bool) : Option Clause → Prop
  | none => True
  | some c => c.Legal inFunction

/-- The same for several statements. -/
def Clause.AllLegal (inFunction : Bool) : List Clause → Prop
  | [] => True
  | c :: cs => c.Legal inFunction ∧ Clause.AllLegal inFunction cs

end

/-! ## Reading -/

/-- Reading with a bound on its depth gives legal parts and stops at a legal token. -/
structure LegalReader (n : Nat) : Prop where
  expression : ∀ env c, c.Legal → Gives (expression n env c) fun r => r.1.Legal ∧ r.2.Legal
  sequenceTail : ∀ env last c, last.Legal → c.Legal →
    Gives (sequenceTail n env last c) fun r => r.1.Legal ∧ r.2.Legal
  assignment : ∀ env c, c.Legal → Gives (assignment n env c) fun r => r.1.Legal ∧ r.2.Legal
  conditional : ∀ env c, c.Legal → Gives (conditional n env c) fun r => r.1.Legal ∧ r.2.Legal
  binary : ∀ env level c, c.Legal → Gives (binary n env level c) fun r => r.1.Legal ∧ r.2.Legal
  binaryTail : ∀ env level left c, left.Legal → c.Legal →
    Gives (binaryTail n env level left c) fun r => r.1.Legal ∧ r.2.Legal
  unary : ∀ env c, c.Legal → Gives (unary n env c) fun r => r.1.Legal ∧ r.2.Legal
  operand : ∀ env c, c.Legal → Gives (operand n env c) fun r => r.1.Legal ∧ r.2.Legal
  accesses : ∀ env calls left c, left.Legal → c.Legal →
    Gives (accesses n env calls left c) fun r => r.1.Legal ∧ r.2.Legal
  arguments : ∀ env c, Gives (arguments n env c) fun r => Term.AllLegal r.1 ∧ r.2.2.Legal
  argumentList : ∀ env c, c.Legal → Gives (argumentList n env c) fun r => Term.AllLegal r.1 ∧ r.2.Legal
  newTerm : ∀ env c, Gives (newTerm n env c) fun r => r.1.Legal ∧ r.2.Legal
  primary : ∀ env c, c.Legal → Gives (primary n env c) fun r => r.1.Legal ∧ r.2.Legal
  elements : ∀ env c, c.Legal → Gives (elements n env c) fun r => Term.AllLegal r.1 ∧ r.2.Legal
  properties : ∀ env c, Gives (properties n env c) fun r => r.2.Legal
  functionRest : ∀ c, Gives (functionRest n c) fun r =>
    (∀ p ∈ r.1, IsIdentifier p.name) ∧ Clause.AllLegal true r.2.1 ∧ r.2.2.2.Legal
  clauses : ∀ env c, c.Legal → Gives (clauses n env c) fun r => Clause.AllLegal env.inFunction r.1 ∧ r.2.Legal
  variableList : ∀ env c, c.Legal → Gives (variableList n env c) fun r => Variable.AllLegal r.1 ∧ r.2.Legal
  condition : ∀ env c, Gives (condition n env c) fun r => r.1.Legal ∧ r.2.Legal
  optionalTerm : ∀ env mark c, c.Legal → Gives (optionalTerm n env mark c) fun r => Term.LegalIn r.1 ∧ r.2.Legal
  forClause : ∀ env c, Gives (forClause n env c) fun r => r.1.Legal env.inFunction ∧ r.2.Legal
  forRest : ∀ env start header c, header.Legal →
    Gives (forRest n env start header c) fun r => r.1.Legal env.inFunction ∧ r.2.Legal
  forInRest : ∀ env start c, c.Legal →
    Gives (forInRest n env start c) fun r => r.1.Legal env.inFunction ∧ r.2.Legal
  cases : ∀ env seen c, c.Legal → Gives (cases n env seen c) Cursor.Legal
  caseBody : ∀ env c, c.Legal → Gives (caseBody n env c) Cursor.Legal
  block : ∀ env c, Gives (block n env c) fun r => Clause.AllLegal env.inFunction r.1 ∧ r.2.Legal
  tryClause : ∀ env c, Gives (tryClause n env c) fun r => r.1.Legal env.inFunction ∧ r.2.Legal
  clause : ∀ env c, c.Legal → Gives (clause n env c) fun r => r.1.Legal env.inFunction ∧ r.2.Legal
  termClause : ∀ env c, c.Legal → Gives (termClause n env c) fun r => r.1.Legal env.inFunction ∧ r.2.Legal

/-- Recovering from a broken name ends at a token that can be scanned again. -/
theorem skipToStatement_legal (n : Nat) {c : Cursor} (hc : c.Legal) : Gives (skipToStatement n c) Cursor.Legal := by
  induction n generalizing c with
  | zero => exact .ok hc
  | succ n ih =>
    refine .ite (fun _ => .ok hc) ?_
    intro _
    exact .bind c.next_legal fun next hnext => ih hnext

/-- A regular expression and the token behind it are made of scanned tokens. -/
theorem regularExpression_legal (c : Cursor) : Gives (regularExpression c) fun r => r.1.Legal ∧ r.2.Legal := by
  unfold regularExpression
  simp only
  split
  · exact .error _
  · next p hp =>
    refine .bind (Cursor.next_legal _) ?_
    intro after hafter
    refine .ite (fun _ => .bind after.next_legal fun last hlast => ?_) fun _ => ?_
    all_goals
      cases p.fault? with
      | some fault => exact .error _
      | none => exact .ok ⟨by trivial, by assumption⟩

/-- Behind the key of a property comes a token that can be scanned again. -/
theorem propertyKey_legal (c : Cursor) : Gives (propertyKey c) fun r => r.2.Legal := by
  refine .bind c.next_legal ?_
  intro next hnext
  split
  · split
    · exact .ok hnext
    · exact .error _
  · exact .ok hnext

/-- The parameters of a function are identifiers. -/
theorem parameters_legal (n : Nat) {c : Cursor} (hc : c.Legal) :
    Gives (parameters n c) fun r => (∀ p ∈ r.1, IsIdentifier p.name) ∧ r.2.Legal := by
  induction n generalizing c with
  | zero => exact .error _
  | succ n ih =>
    refine .ite (fun _ => .bind (c.expect_legal ")") fun c hc => .ok ⟨by simp, hc⟩) ?_
    intro _
    refine .bind hc.identifier_legal ?_
    rintro ⟨param, c⟩ ⟨hparam, hc⟩
    have hrest (after : Cursor) (hafter : after.Legal) : Gives (do
        let rest ← parameters n after
        .ok (param :: rest.1, rest.2) : Except Mistake (List Param × Cursor)) fun r =>
        (∀ p ∈ r.1, IsIdentifier p.name) ∧ r.2.Legal := by
      refine .bind (ih hafter) ?_
      intro r hr
      refine .ok ⟨?_, hr.2⟩
      rintro p (_ | ⟨_, hp⟩)
      · exact hparam
      · exact hr.1 p hp
    refine .ite (fun _ => hrest c hc) ?_
    intro _
    exact .bind (c.expect_legal ",") hrest

/-- A `break` or `continue` is made of scanned tokens. -/
theorem branchClause_legal (n : Nat) (env : Surroundings) (isBreak : Bool) (c : Cursor) :
    Gives (branchClause n env isBreak c) fun r => r.1.Legal env.inFunction ∧ r.2.Legal := by
  cases n with
  | zero => exact .error _
  | succ n =>
    rw [branchClause]
    refine .bind c.next_legal ?_
    intro c hc
    refine .ite ?_ ?_
    · intro _
      refine .bind c.next_legal ?_
      intro c hc
      refine .ite (fun _ => .ok ⟨by trivial, hc.sameLine⟩) ?_
      intro _
      exact .error _
    · intro _
      refine .ite ?_ ?_
      · intro _
        refine .ite (fun _ => .ok ⟨by trivial, hc.sameLine⟩) ?_
        intro _
        exact .error _
      · intro _
        refine .bind hc.identifier_legal ?_
        rintro ⟨label, c⟩ ⟨_, hc⟩
        refine .ite (fun _ => .error _) ?_
        intro _
        refine .ite (fun _ => .error _) ?_
        intro _
        refine .bind hc.endStatement_legal ?_
        intro c hc
        exact .ok ⟨by trivial, hc⟩

namespace LegalReader

/-- A reader without fuel gives nothing. -/
theorem zero : LegalReader 0 := by
  constructor
  all_goals
    intros
    simp only [Source.expression, Source.sequenceTail, Source.assignment, Source.conditional, Source.binary,
      Source.binaryTail, Source.unary, Source.operand, Source.accesses, Source.arguments, Source.argumentList,
      Source.newTerm, Source.primary, Source.elements, Source.properties, Source.functionRest, Source.clauses,
      Source.variableList, Source.condition, Source.optionalTerm, Source.forClause, Source.forRest, Source.forInRest,
      Source.cases, Source.caseBody, Source.block, Source.tryClause, Source.clause, Source.termClause]
    exact .error _

variable {n : Nat} (h : LegalReader n) (env : Surroundings) {c : Cursor} (hc : c.Legal)

section Expressions

include h hc

/-- A step of reading an expression keeps to scanned tokens. -/
theorem expression_succ : Gives (Source.expression (n + 1) env c) fun r => r.1.Legal ∧ r.2.Legal := by
  rw [Source.expression]
  refine .bind (h.assignment env c hc) ?_
  rintro ⟨first, c⟩ ⟨hfirst, hc⟩
  refine .ite ?_ fun _ => .ok ⟨hfirst, hc⟩
  intro _
  refine .bind (h.sequenceTail env first c hfirst hc) ?_
  intro r hr
  exact .ok ⟨by trivial, hr.2⟩

/-- A step of reading further expressions behind a comma keeps to scanned tokens. -/
theorem sequenceTail_succ {last : Term} (hlast : last.Legal) :
    Gives (Source.sequenceTail (n + 1) env last c) fun r => r.1.Legal ∧ r.2.Legal := by
  rw [Source.sequenceTail]
  refine .ite ?_ fun _ => .ok ⟨hlast, hc⟩
  intro _
  refine .bind c.next_legal ?_
  intro c hc
  refine .bind (h.assignment env c hc) ?_
  rintro ⟨e, c⟩ ⟨he, hc⟩
  exact h.sequenceTail env e c he hc

/-- A step of reading an assignment keeps to scanned tokens. -/
theorem assignment_succ : Gives (Source.assignment (n + 1) env c) fun r => r.1.Legal ∧ r.2.Legal := by
  rw [Source.assignment]
  refine .bind (h.conditional env c hc) ?_
  rintro ⟨left, c⟩ ⟨hleft, hc⟩
  refine .ite ?_ fun _ => .ok ⟨hleft, hc⟩
  intro _
  refine .bind c.next_legal ?_
  intro next hnext
  refine .ite ?_ fun _ => .error _
  intro _
  refine .bind (h.assignment env next hnext) ?_
  rintro ⟨right, c⟩ ⟨hright, hc⟩
  exact .ok ⟨⟨hleft, hright⟩, hc⟩

/-- A step of reading a conditional expression keeps to scanned tokens. -/
theorem conditional_succ : Gives (Source.conditional (n + 1) env c) fun r => r.1.Legal ∧ r.2.Legal := by
  rw [Source.conditional]
  refine .bind (h.binary env 1 c hc) ?_
  rintro ⟨test, c⟩ ⟨htest, hc⟩
  refine .ite ?_ fun _ => .ok ⟨htest, hc⟩
  intro _
  refine .bind c.next_legal ?_
  intro c hc
  refine .bind (h.assignment env c hc) ?_
  rintro ⟨_, c⟩ _
  refine .bind (c.expect_legal ":") fun c hc => .bind (h.assignment env c hc) fun r hr => .ok ⟨by trivial, hr.2⟩

/-- A step of reading the operators of a level keeps to scanned tokens. -/
theorem binary_succ (level : Nat) :
    Gives (Source.binary (n + 1) env level c) fun r => r.1.Legal ∧ r.2.Legal := by
  rw [Source.binary]
  refine .bind (h.unary env c hc) ?_
  rintro ⟨left, c⟩ ⟨hleft, hc⟩
  exact h.binaryTail env level left c hleft hc

/-- A step of reading further operands of a level keeps to scanned tokens. -/
theorem binaryTail_succ (level : Nat) {left : Term} (hleft : left.Legal) :
    Gives (Source.binaryTail (n + 1) env level left c) fun r => r.1.Legal ∧ r.2.Legal := by
  rw [Source.binaryTail]
  generalize (if c.kind = .mark then binaryLevel? env.allowIn c.text else none) = own
  cases own with
  | none => exact .ok ⟨hleft, hc⟩
  | some l =>
    refine .ite (fun _ => .ok ⟨hleft, hc⟩) ?_
    intro _
    refine .bind c.next_legal ?_
    intro next hnext
    have hrest (right : Term × Cursor) (hright : right.1.Legal ∧ right.2.Legal) :
        Gives (Source.binaryTail n env level (.binary left c.text right.1) right.2) fun r => r.1.Legal ∧ r.2.Legal :=
      h.binaryTail env level _ right.2 ⟨hleft, hright.1⟩ hright.2
    refine .ite (fun _ => .bind (h.binary _ l next hnext) hrest) ?_
    intro _
    exact .bind (h.binary env (l + 1) next hnext) hrest

/-- A step of reading a sign keeps to scanned tokens. -/
theorem unary_succ : Gives (Source.unary (n + 1) env c) fun r => r.1.Legal ∧ r.2.Legal := by
  rw [Source.unary]
  refine .ite ?_ ?_
  · intro _
    refine .bind c.next_legal ?_
    intro next hnext
    exact .bind (h.unary env next hnext) fun r hr => .ok hr
  · intro _
    refine .ite ?_ ?_
    · intro _
      refine .bind c.next_legal ?_
      intro next hnext
      refine .bind (h.unary env next hnext) ?_
      intro r hr
      exact .ite (fun _ => .ok hr) fun _ => .error _
    · intro _
      refine .bind (h.operand env c hc) ?_
      rintro ⟨operand, after⟩ ⟨hoperand, hafter⟩
      refine .ite ?_ fun _ => .ok ⟨hoperand, hafter⟩
      intro hmark
      have hsymbol : after.text ∈ ["++", "--"] := by
        simp only [Cursor.is, Bool.and_eq_true, Bool.or_eq_true, decide_eq_true_eq] at hmark
        rcases hmark.1 with h | h <;> simp [h.2]
      refine .bind after.next_legal ?_
      intro last hlast
      refine .ite (fun _ => .ok ⟨⟨hoperand, hsymbol⟩, hlast⟩) ?_
      intro _
      exact .error _

/-- A step of reading an operand keeps to scanned tokens. -/
theorem operand_succ : Gives (Source.operand (n + 1) env c) fun r => r.1.Legal ∧ r.2.Legal := by
  rw [Source.operand]
  refine .ite ?_ ?_
  · intro _
    refine .bind (h.newTerm _ c) ?_
    rintro ⟨first, c⟩ ⟨hfirst, hc⟩
    exact h.accesses _ true first c hfirst hc
  · intro _
    refine .bind (h.primary _ c hc) ?_
    rintro ⟨first, c⟩ ⟨hfirst, hc⟩
    exact h.accesses _ true first c hfirst hc

/-- A step of reading members, elements and calls keeps to scanned tokens. -/
theorem accesses_succ (calls : Bool) {left : Term} (hleft : left.Legal) :
    Gives (Source.accesses (n + 1) env calls left c) fun r => r.1.Legal ∧ r.2.Legal := by
  rw [Source.accesses]
  refine .ite (fun _ => ?_) fun _ => .ite (fun _ => ?_) fun _ => .ite (fun _ => ?_) fun _ => .ok ⟨hleft, hc⟩
  · refine .bind c.next_legal ?_
    intro word hword
    refine .ite ?_ ?_
    · intro hname
      simp only [Bool.and_eq_true, bne_iff_ne] at hname
      refine .bind word.next_legal ?_
      intro next hnext
      exact h.accesses env calls _ next ⟨hleft, hword.member hname.2 hname.1⟩ hnext
    · intro _
      refine .ite ?_ fun _ => .error _
      intro _
      refine .bind word.next_legal ?_
      intro next hnext
      refine .bind (skipToStatement_legal n hnext) ?_
      intro after hafter
      exact h.accesses env calls _ after (by trivial) hafter
  · refine .bind c.next_legal ?_
    intro next hnext
    refine .bind (h.expression env next hnext) ?_
    rintro ⟨position, close⟩ ⟨hposition, _⟩
    refine .bind (close.expect_legal "]") ?_
    intro after hafter
    exact h.accesses env calls _ after ⟨hleft, hposition⟩ hafter
  · refine .bind (h.arguments env c) ?_
    rintro ⟨args, stop, after⟩ ⟨hargs, hafter⟩
    exact h.accesses env calls _ after ⟨hleft, hargs⟩ hafter

/-- A step of reading a list of arguments keeps to scanned tokens. -/
theorem argumentList_succ : Gives (Source.argumentList (n + 1) env c) fun r => Term.AllLegal r.1 ∧ r.2.Legal := by
  rw [Source.argumentList]
  refine .ite (fun _ => .ok ⟨trivial, hc⟩) ?_
  intro _
  refine .bind (h.assignment env c hc) ?_
  rintro ⟨arg, c⟩ ⟨harg, hc⟩
  refine .ite ?_ fun _ => .ok ⟨⟨harg, trivial⟩, hc⟩
  intro _
  refine .bind c.next_legal ?_
  intro c hc
  refine .bind (h.argumentList env c hc) ?_
  rintro ⟨args, c⟩ ⟨hargs, hc⟩
  exact .ok ⟨⟨harg, hargs⟩, hc⟩

/-- A step of reading an atom keeps to scanned tokens. -/
theorem primary_succ : Gives (Source.primary (n + 1) env c) fun r => r.1.Legal ∧ r.2.Legal := by
  rw [Source.primary]
  split
  · refine .bind c.next_legal ?_
    intro next hnext
    exact .ok ⟨hc.identifier ‹_›, hnext⟩
  · refine .bind c.next_legal ?_
    intro next hnext
    exact .ok ⟨by trivial, hnext⟩
  · refine .bind c.next_legal ?_
    intro next hnext
    exact .ok ⟨by trivial, hnext⟩
  · refine .bind c.next_legal ?_
    intro next hnext
    exact .ok ⟨⟨hc.number ‹_›, rfl⟩, hnext⟩
  · refine .bind c.next_legal ?_
    intro next hnext
    split
    · exact .ok ⟨⟨hc.string ‹_›, ‹_›⟩, hnext⟩
    · exact .error _
  · refine .ite (fun _ => regularExpression_legal c) ?_
    intro _
    refine .ite (fun _ => ?_) fun _ => .ite (fun _ => ?_) fun _ => .ite (fun _ => ?_) fun _ => .ite (fun _ => ?_) fun _
      => .ite (fun _ => ?_) fun _ => .error _
    · refine .bind c.next_legal ?_
      intro next hnext
      refine .bind (h.properties env next) ?_
      intro r hr
      exact .ok ⟨by trivial, hr⟩
    · refine .bind c.next_legal ?_
      intro next hnext
      refine .bind (h.elements env next hnext) ?_
      rintro ⟨items, close⟩ ⟨hitems, _⟩
      refine .bind (close.expect_legal "]") ?_
      intro after hafter
      exact .ok ⟨hitems, hafter⟩
    · refine .bind c.next_legal ?_
      intro next hnext
      refine .bind (h.expression env next hnext) ?_
      rintro ⟨e, close⟩ ⟨he, _⟩
      refine .bind (close.expect_legal ")") ?_
      intro after hafter
      exact .ok ⟨he, hafter⟩
    · refine .bind c.next_legal ?_
      intro next hnext
      exact .ok ⟨by trivial, hnext⟩
    · have hrest (afterName : Cursor) : Gives (do
          let r ← Source.functionRest n afterName
          .ok (.foreign .function c.start r.2.2.1, r.2.2.2) : Except Mistake (Term × Cursor))
          fun r => r.1.Legal ∧ r.2.Legal :=
        .bind (h.functionRest afterName) fun r hr => .ok ⟨by trivial, hr.2.2⟩
      refine .bind c.next_legal ?_
      intro next hnext
      refine .ite (fun _ => .bind next.next_legal fun name _ => hrest name) ?_
      intro _
      exact hrest next
  · exact .error _

/-- A step of reading the items of an array keeps to scanned tokens. -/
theorem elements_succ : Gives (Source.elements (n + 1) env c) fun r => Term.AllLegal r.1 ∧ r.2.Legal := by
  rw [Source.elements]
  refine .ite (fun _ => .ok ⟨trivial, hc⟩) ?_
  intro _
  refine .ite ?_ ?_
  · intro _
    refine .bind c.next_legal ?_
    intro next hnext
    refine .bind (h.elements env next hnext) ?_
    rintro ⟨items, after⟩ ⟨hitems, hafter⟩
    exact .ok ⟨⟨by trivial, hitems⟩, hafter⟩
  · intro _
    refine .bind (h.assignment env c hc) ?_
    rintro ⟨item, c⟩ ⟨hitem, hc⟩
    have hrest (after : Cursor) (hafter : after.Legal) : Gives (do
        let rest ← Source.elements n env after
        .ok (item :: rest.1, rest.2) : Except Mistake (List Term × Cursor)) fun r => Term.AllLegal r.1 ∧ r.2.Legal :=
      .bind (h.elements env after hafter) fun r hr => .ok ⟨⟨hitem, hr.1⟩, hr.2⟩
    refine .ite (fun _ => hrest c hc) ?_
    intro _
    exact .bind (c.expect_legal ",") hrest

end Expressions

include h

/-- A step of reading the properties of an object keeps to scanned tokens. -/
theorem properties_succ : Gives (Source.properties (n + 1) env c) fun r => r.2.Legal := by
  rw [Source.properties]
  refine .ite (fun _ => .bind (c.expect_legal "\x7d") fun after hafter => .ok hafter) ?_
  intro _
  have hrest (c : Cursor) (hc : c.Legal) : Gives (do
      let c ← if c.is "," then c.next else .ok c
      Source.properties n env c) fun r => r.2.Legal :=
    .ite (fun _ => .bind c.next_legal fun next hnext => h.properties env next) fun _ => h.properties env c
  refine .bind (propertyKey_legal c) ?_
  rintro ⟨key, c⟩ hc
  refine .ite ?_ ?_
  · intro _
    refine .bind (propertyKey_legal c) ?_
    rintro ⟨_, c⟩ _
    exact .bind (h.functionRest c) fun r hr => hrest _ hr.2.2
  · intro _
    refine .bind (c.expect_legal ":") ?_
    intro c hc
    exact .bind (h.assignment env c hc) fun r hr => hrest _ hr.2

/-- A step of reading arguments in parentheses keeps to scanned tokens. -/
theorem arguments_succ : Gives (Source.arguments (n + 1) env c) fun r => Term.AllLegal r.1 ∧ r.2.2.Legal := by
  rw [Source.arguments]
  refine .bind (c.expect_legal "(") ?_
  intro c hc
  refine .bind (h.argumentList env c hc) ?_
  rintro ⟨args, close⟩ ⟨hargs, _⟩
  refine .bind (close.expect_legal ")") ?_
  intro after hafter
  exact .ok ⟨hargs, hafter⟩

/-- A step of reading a `new` expression keeps to scanned tokens. -/
theorem newTerm_succ : Gives (Source.newTerm (n + 1) env c) fun r => r.1.Legal ∧ r.2.Legal := by
  rw [Source.newTerm]
  have hrest (first : Term × Cursor) (hfirst : first.1.Legal ∧ first.2.Legal) : Gives (do
      let callee ← Source.accesses n env false first.1 first.2
      if callee.2.is "(" then do
        let args ← Source.arguments n env callee.2
        .ok (.foreign .new c.start args.2.1, args.2.2)
      else .ok (.foreign .new c.start callee.1.stop, callee.2) : Except Mistake (Term × Cursor))
      fun r => r.1.Legal ∧ r.2.Legal := by
    refine .bind (h.accesses env false first.1 first.2 hfirst.1 hfirst.2) ?_
    intro r hr
    refine .ite ?_ fun _ => .ok ⟨by trivial, hr.2⟩
    intro _
    refine .bind (h.arguments env r.2) ?_
    intro r hr
    exact .ok ⟨by trivial, hr.2⟩
  refine .bind (c.expect_legal "new") ?_
  intro c hc
  refine .ite (fun _ => .bind (h.newTerm _ c) hrest) ?_
  intro _
  exact .bind (h.primary _ c hc) hrest


/-- A step of reading the parameters and the body of a function keeps to scanned tokens. -/
theorem functionRest_succ : Gives (Source.functionRest (n + 1) c) fun r =>
    (∀ p ∈ r.1, IsIdentifier p.name) ∧ Clause.AllLegal true r.2.1 ∧ r.2.2.2.Legal := by
  rw [Source.functionRest]
  refine .bind (c.expect_legal "(") ?_
  intro c hc
  refine .bind (parameters_legal n hc) ?_
  rintro ⟨params, c⟩ ⟨hparams, hc⟩
  refine .bind (c.expect_legal "\x7b") ?_
  intro c hc
  refine .bind (h.clauses .function c hc) ?_
  rintro ⟨body, close⟩ ⟨hbody, _⟩
  refine .bind (close.expect_legal "\x7d") ?_
  intro after hafter
  exact .ok ⟨hparams, hbody, hafter⟩

/-- A step of reading a condition in parentheses keeps to scanned tokens. -/
theorem condition_succ : Gives (Source.condition (n + 1) env c) fun r => r.1.Legal ∧ r.2.Legal := by
  rw [Source.condition]
  refine .bind (c.expect_legal "(") ?_
  intro c hc
  refine .bind (h.expression env c hc) ?_
  rintro ⟨test, c⟩ ⟨htest, _⟩
  exact .bind (c.expect_legal ")") fun c hc => .ok ⟨htest, hc⟩

/-- A step of reading a block keeps to scanned tokens. -/
theorem block_succ : Gives (Source.block (n + 1) env c) fun r =>
    Clause.AllLegal env.inFunction r.1 ∧ r.2.Legal := by
  rw [Source.block]
  refine .bind (c.expect_legal "\x7b") ?_
  intro c hc
  refine .bind (h.clauses env c hc) ?_
  rintro ⟨body, c⟩ ⟨hbody, _⟩
  exact .bind (c.expect_legal "\x7d") fun c hc => .ok ⟨hbody, hc⟩

/-- A step of reading a `for` keeps to scanned tokens. -/
theorem forClause_succ : Gives (Source.forClause (n + 1) env c) fun r => r.1.Legal env.inFunction ∧ r.2.Legal := by
  rw [Source.forClause]
  refine .bind (c.expect_legal "for") ?_
  intro first _
  refine .bind (first.expect_legal "(") ?_
  intro c hc
  refine .ite (fun _ => h.forRest env _ .empty c trivial) ?_
  intro _
  refine .ite ?_ ?_
  · intro _
    refine .bind c.next_legal ?_
    intro c hc
    refine .bind (h.variableList _ c hc) ?_
    rintro ⟨list, c⟩ ⟨hlist, hc⟩
    refine .ite (fun _ => .bind c.next_legal fun c hc => h.forInRest env _ c hc) ?_
    intro _
    exact h.forRest env _ (.declared list) c hlist
  · intro _
    refine .bind (h.expression _ c hc) ?_
    rintro ⟨e, c⟩ ⟨he, hc⟩
    refine .ite ?_ fun _ => h.forRest env _ (.term e) c he
    intro _
    refine .bind c.next_legal ?_
    intro c hc
    exact .ite (fun _ => h.forInRest env _ c hc) fun _ => .error _

/-- A step of reading a `try` keeps to scanned tokens. -/
theorem tryClause_succ : Gives (Source.tryClause (n + 1) env c) fun r => r.1.Legal env.inFunction ∧ r.2.Legal := by
  rw [Source.tryClause]
  have hend (caught : Bool) (r : Bool × Cursor) (hr : r.2.Legal) :
      Gives (if (caught || r.1) = true then .ok (.foreign .exception c.start, r.2)
        else .error ⟨c.start, "Missing catch or finally after try"⟩) fun r : Clause × Cursor =>
        r.1.Legal env.inFunction ∧ r.2.Legal :=
    .ite (fun _ => .ok ⟨by trivial, hr⟩) fun _ => .error _
  have hfinally (caught : Bool) (after : Cursor) (hafter : after.Legal) : Gives (do
      let last ←
        if after.is "finally" then do
          let c ← after.next
          let block ← Source.block n env c
          .ok (true, block.2)
        else .ok (false, after)
      if caught || last.1 then .ok (.foreign .exception c.start, last.2)
      else .error ⟨c.start, "Missing catch or finally after try"⟩) fun r : Clause × Cursor =>
        r.1.Legal env.inFunction ∧ r.2.Legal :=
    .ite (fun _ => .bind after.next_legal fun c _ => .bind (h.block env c) fun r hr => hend caught (true, r.2) hr.2)
      fun _ => hend caught (false, after) hafter
  refine .bind (c.expect_legal "try") ?_
  intro c _
  refine .bind (h.block env c) ?_
  rintro ⟨_, c⟩ ⟨_, hc⟩
  refine .ite ?_ fun _ => hfinally false c hc
  intro _
  refine .bind c.next_legal ?_
  intro c _
  refine .bind (c.expect_legal "(") ?_
  intro c hc
  refine .bind hc.identifier_legal ?_
  rintro ⟨_, c⟩ _
  refine .bind (c.expect_legal ")") ?_
  intro c hc
  exact .bind (h.block env c) fun r hr => hfinally true r.2 hr.2

/-- A step of reading what follows the header of a `for` keeps to scanned tokens. -/
theorem forRest_succ (start : Nat) {header : Header} (hheader : header.Legal) :
    Gives (Source.forRest (n + 1) env start header c) fun r => r.1.Legal env.inFunction ∧ r.2.Legal := by
  rw [Source.forRest]
  refine .bind (c.expect_legal ";") ?_
  intro c hc
  refine .bind (h.optionalTerm env ";" c hc) ?_
  rintro ⟨test, c⟩ ⟨htest, _⟩
  refine .bind (c.expect_legal ";") ?_
  intro c hc
  refine .bind (h.optionalTerm env ")" c hc) ?_
  rintro ⟨update, c⟩ ⟨hupdate, _⟩
  refine .bind (c.expect_legal ")") ?_
  intro c hc
  refine .bind (h.clause env.loop c hc) ?_
  rintro ⟨body, c⟩ ⟨hbody, hc⟩
  exact .ok ⟨⟨hheader, htest, hupdate, hbody⟩, hc⟩

section Statements

include hc

/-- A step of reading several statements keeps to scanned tokens. -/
theorem clauses_succ : Gives (Source.clauses (n + 1) env c) fun r =>
    Clause.AllLegal env.inFunction r.1 ∧ r.2.Legal := by
  rw [Source.clauses]
  refine .ite (fun _ => .ok ⟨trivial, hc⟩) ?_
  intro _
  refine .bind (h.clause env c hc) ?_
  rintro ⟨first, c⟩ ⟨hfirst, hc⟩
  refine .bind (h.clauses env c hc) ?_
  rintro ⟨rest, c⟩ ⟨hrest, hc⟩
  exact .ok ⟨⟨hfirst, hrest⟩, hc⟩

/-- A step of reading the names of a declaration keeps to scanned tokens. -/
theorem variableList_succ : Gives (Source.variableList (n + 1) env c) fun r => Variable.AllLegal r.1 ∧ r.2.Legal := by
  rw [Source.variableList]
  refine .bind hc.identifier_legal ?_
  rintro ⟨name, c⟩ ⟨hname, hc⟩
  have hrest (value : Option Term × Cursor) (hvalue : Term.LegalIn value.1 ∧ value.2.Legal) : Gives (
      if value.2.is "," then do
        let c ← value.2.next
        let rest ← Source.variableList n env c
        .ok (⟨name.start, name.name, value.1⟩ :: rest.1, rest.2)
      else .ok ([⟨name.start, name.name, value.1⟩], value.2)) fun r : List Variable × Cursor =>
        Variable.AllLegal r.1 ∧ r.2.Legal := by
    have hfirst : Variable.Legal ⟨name.start, name.name, value.1⟩ := ⟨hname, hvalue.1⟩
    refine .ite (fun _ => ?_) fun _ => .ok ⟨⟨by simp, by simpa using hfirst⟩, hvalue.2⟩
    refine .bind value.2.next_legal ?_
    intro c hc
    refine .bind (h.variableList env c hc) ?_
    intro r hr
    refine .ok ⟨⟨by simp, ?_⟩, hr.2⟩
    rintro v (_ | ⟨_, hv⟩)
    · exact hfirst
    · exact hr.1.2 v hv
  refine .ite ?_ fun _ => hrest (none, c) ⟨by simp [Term.LegalIn], hc⟩
  intro _
  refine .bind c.next_legal ?_
  intro c hc
  refine .bind (h.assignment env c hc) ?_
  intro r hr
  refine hrest (some r.1, r.2) ⟨?_, hr.2⟩
  rintro _ ⟨⟩
  exact hr.1

/-- A step of reading an expression that may be missing keeps to scanned tokens. -/
theorem optionalTerm_succ (mark : String) :
    Gives (Source.optionalTerm (n + 1) env mark c) fun r => Term.LegalIn r.1 ∧ r.2.Legal := by
  rw [Source.optionalTerm]
  refine .ite (fun _ => .ok ⟨by simp [Term.LegalIn], hc⟩) ?_
  intro _
  refine .bind (h.expression env c hc) ?_
  intro r hr
  refine .ok ⟨?_, hr.2⟩
  rintro _ ⟨⟩
  exact hr.1

/-- A step of reading a `for` over the properties of an object keeps to scanned tokens. -/
theorem forInRest_succ (start : Nat) :
    Gives (Source.forInRest (n + 1) env start c) fun r => r.1.Legal env.inFunction ∧ r.2.Legal := by
  rw [Source.forInRest]
  refine .bind (h.expression env c hc) ?_
  rintro ⟨_, c⟩ _
  refine .bind (c.expect_legal ")") ?_
  intro c hc
  refine .bind (h.clause env.loop c hc) ?_
  intro r hr
  exact .ok ⟨by trivial, hr.2⟩

/-- A step of reading the body of a `case` keeps to scanned tokens. -/
theorem caseBody_succ : Gives (Source.caseBody (n + 1) env c) Cursor.Legal := by
  rw [Source.caseBody]
  refine .ite (fun _ => .ok hc) ?_
  intro _
  refine .bind (h.clause env c hc) ?_
  intro r hr
  exact h.caseBody env r.2 hr.2

/-- A step of reading the cases of a `switch` keeps to scanned tokens. -/
theorem cases_succ (seen : Bool) : Gives (Source.cases (n + 1) env seen c) Cursor.Legal := by
  rw [Source.cases]
  refine .ite (fun _ => .ok hc) ?_
  intro _
  refine .ite (fun _ => c.next_legal) ?_
  intro _
  have hrest (after : Cursor) : Gives (do
      let c' ← after.expect ":"
      let c' ← Source.caseBody n env c'
      if c.is "default" && seen then .error ⟨c.start, "Already saw a default in switch"⟩
      else Source.cases n env (seen || c.is "default") c') Cursor.Legal :=
    .bind (after.expect_legal ":") fun c hc => .bind (h.caseBody env c hc) fun c hc =>
      .ite (fun _ => .error _) fun _ => h.cases env _ c hc
  refine .ite (fun _ => .bind c.next_legal fun c _ => hrest c) ?_
  intro _
  refine .bind (c.expect_legal "case") ?_
  intro c hc
  exact .bind (h.expression env c hc) fun r _ => hrest r.2

/-- A step of reading a statement that begins with an expression keeps to scanned tokens. -/
theorem termClause_succ : Gives (Source.termClause (n + 1) env c) fun r => r.1.Legal env.inFunction ∧ r.2.Legal := by
  rw [Source.termClause]
  refine .bind (h.expression env c hc) ?_
  rintro ⟨e, c⟩ ⟨he, hc⟩
  have hend : Gives (do .ok (.term e, ← c.endTerm) : Except Mistake (Clause × Cursor)) fun r =>
      r.1.Legal env.inFunction ∧ r.2.Legal :=
    .bind hc.endTerm_legal fun c hc => .ok ⟨he, hc⟩
  cases e with
  | name start text =>
    refine .ite ?_ fun _ => hend
    intro _
    refine .bind c.next_legal ?_
    intro c hc
    refine .ite (fun _ => .error _) ?_
    intro _
    exact .bind (h.clause _ c hc) fun r hr => .ok ⟨by trivial, hr.2⟩
  | _ => exact hend

/-- A step of reading a statement keeps to scanned tokens. -/
theorem clause_succ : Gives (Source.clause (n + 1) env c) fun r => r.1.Legal env.inFunction ∧ r.2.Legal := by
  rw [Source.clause]
  refine .ite ?_ fun _ => h.termClause env c hc
  intro _
  split
  · -- The empty statement.
    exact .bind c.next_legal fun c hc => .ok ⟨by trivial, hc⟩
  · -- Blocks.
    refine .bind (h.block env c) ?_
    rintro ⟨body, c⟩ ⟨hbody, hc⟩
    exact .ok ⟨hbody, hc⟩
  · -- Conditionals.
    refine .bind c.next_legal ?_
    intro c _
    refine .bind (h.condition env c) ?_
    rintro ⟨test, c⟩ ⟨htest, hc⟩
    refine .bind (h.clause env c hc) ?_
    rintro ⟨body, c⟩ ⟨hbody, hc⟩
    refine .ite ?_ fun _ => .ok ⟨⟨htest, hbody, trivial⟩, hc⟩
    intro _
    refine .bind c.next_legal ?_
    intro c hc
    refine .bind (h.clause env c hc) ?_
    rintro ⟨other, c⟩ ⟨hother, hc⟩
    exact .ok ⟨⟨htest, hbody, hother⟩, hc⟩
  · -- `do` loops, which a semicolon on the same line may end.
    refine .bind c.next_legal ?_
    intro c hc
    refine .bind (h.clause env.loop c hc) ?_
    rintro ⟨_, c⟩ _
    refine .bind (c.expect_legal "while") ?_
    intro c _
    refine .bind (h.condition env c) ?_
    rintro ⟨_, c⟩ ⟨_, hc⟩
    refine .ite (fun _ => .bind c.next_legal fun c hc => .ok ⟨by trivial, hc⟩) ?_
    intro _
    exact .ok ⟨by trivial, hc.sameLine⟩
  · -- `while` loops.
    refine .bind c.next_legal ?_
    intro c _
    refine .bind (h.condition env c) ?_
    rintro ⟨test, c⟩ ⟨htest, hc⟩
    refine .bind (h.clause env.loop c hc) ?_
    rintro ⟨body, c⟩ ⟨hbody, hc⟩
    exact .ok ⟨⟨htest, hbody⟩, hc⟩
  · -- `for` loops.
    exact h.forClause env c
  · -- `break`.
    exact branchClause_legal n env true c
  · -- `continue`.
    exact branchClause_legal n env false c
  · -- `debugger`.
    refine .bind c.next_legal ?_
    intro c hc
    refine .bind hc.endStatement_legal ?_
    intro c hc
    exact .ok ⟨by trivial, hc⟩
  · -- `with`.
    refine .bind c.next_legal ?_
    intro c _
    refine .bind (h.condition env c) ?_
    rintro ⟨_, c⟩ ⟨_, hc⟩
    refine .bind (h.clause env c hc) ?_
    intro r hr
    exact .ok ⟨by trivial, hr.2⟩
  · -- Declarations.
    refine .bind c.next_legal ?_
    intro c hc
    refine .bind (h.variableList env c hc) ?_
    rintro ⟨list, c⟩ ⟨hlist, hc⟩
    exact .bind hc.endStatement_legal fun c hc => .ok ⟨hlist, hc⟩
  · -- Functions.
    refine .bind c.next_legal ?_
    intro c hc
    refine .bind hc.identifier_legal ?_
    rintro ⟨name, c⟩ ⟨hname, _⟩
    refine .bind (h.functionRest c) ?_
    intro r hr
    exact .ok ⟨⟨hname, hr.1, hr.2.1⟩, hr.2.2⟩
  · -- `switch`.
    refine .bind c.next_legal ?_
    intro c _
    refine .bind (h.condition env c) ?_
    rintro ⟨_, c⟩ _
    refine .bind (c.expect_legal "\x7b") ?_
    intro c hc
    refine .bind (h.cases _ false c hc) ?_
    intro c hc
    exact .ok ⟨by trivial, hc⟩
  · -- `return`, with a value and without.
    refine .bind c.next_legal ?_
    intro c hc
    refine .ite (fun _ => .error _) ?_
    intro hfunction
    refine .ite ?_ ?_
    · intro _
      exact .bind hc.endStatement_legal fun c hc => .ok ⟨⟨by simpa using hfunction, by simp [Term.LegalIn]⟩, hc⟩
    · intro _
      refine .bind (h.expression env c hc) ?_
      rintro ⟨value, c⟩ ⟨hvalue, hc⟩
      refine .bind hc.endStatement_legal ?_
      intro c hc
      refine .ok ⟨⟨by simpa using hfunction, ?_⟩, hc⟩
      rintro _ ⟨⟩
      exact hvalue
  · -- `throw`.
    refine .bind c.next_legal ?_
    intro c hc
    refine .ite (fun _ => .error _) ?_
    intro _
    refine .bind (h.expression env c hc) ?_
    rintro ⟨_, c⟩ ⟨_, hc⟩
    refine .bind hc.endStatement_legal ?_
    intro c hc
    exact .ok ⟨by trivial, hc⟩
  · -- `try`.
    exact h.tryClause env c
  · -- Anything else is an expression.
    exact h.termClause env c hc

end Statements

/-- All functions of the reader keep to scanned tokens with one more unit of fuel. -/
theorem succ : LegalReader (n + 1) where
  expression env _ hc := h.expression_succ env hc
  sequenceTail env _ _ hlast hc := h.sequenceTail_succ env hc hlast
  assignment env _ hc := h.assignment_succ env hc
  conditional env _ hc := h.conditional_succ env hc
  binary env level _ hc := h.binary_succ env hc level
  binaryTail env level _ _ hleft hc := h.binaryTail_succ env hc level hleft
  unary env _ hc := h.unary_succ env hc
  operand env _ hc := h.operand_succ env hc
  accesses env calls _ _ hleft hc := h.accesses_succ env hc calls hleft
  arguments env _ := h.arguments_succ env
  argumentList env _ hc := h.argumentList_succ env hc
  newTerm env _ := h.newTerm_succ env
  primary env _ hc := h.primary_succ env hc
  elements env _ hc := h.elements_succ env hc
  properties env _ := h.properties_succ env
  functionRest _ := h.functionRest_succ
  clauses env _ hc := h.clauses_succ env hc
  variableList env _ hc := h.variableList_succ env hc
  condition env _ := h.condition_succ env
  optionalTerm env mark _ hc := h.optionalTerm_succ env hc mark
  forClause env _ := h.forClause_succ env
  forRest env start _ _ hheader := h.forRest_succ env start hheader
  forInRest env start _ hc := h.forInRest_succ env hc start
  cases env seen _ hc := h.cases_succ env hc seen
  caseBody env _ hc := h.caseBody_succ env hc
  block env _ := h.block_succ env
  tryClause env _ := h.tryClause_succ env
  clause env _ hc := h.clause_succ env hc
  termClause env _ hc := h.termClause_succ env hc

omit h in
/-- Whatever the bound is, reading gives legal parts. -/
theorem all (n : Nat) : LegalReader n := by
  induction n with
  | zero => exact zero
  | succ n ih => exact ih.succ

end LegalReader

/-- The statements of a source are made of scanned tokens. -/
theorem topClauses_legal (n : Nat) {c : Cursor} (hc : c.Legal) : Gives (topClauses n c) (Clause.AllLegal false) := by
  induction n generalizing c with
  | zero => exact .error _
  | succ n ih =>
    refine .ite (fun _ => .ok trivial) ?_
    intro _
    refine .bind ((LegalReader.all n).clause .top c hc) ?_
    intro r hr
    exact .bind (ih hr.2) fun rest hrest => .ok ⟨hr.1, hrest⟩

/-- Reading a source gives legal statements. -/
theorem readSource_legal (source : List Char) : Gives (readSource source) (Clause.AllLegal false) :=
  .bind (Cursor.first_legal source) fun _ hc => topClauses_legal _ hc

end Primer.Source
