import Primer.Proofs.Print.Program
import Primer.Proofs.Counted.Tree

/-!
# Expressions that are put together from texts

A text is the code of an expression if its lexemes are those of the expression, perhaps with more parentheses than it
needs (`Expr.Written`). The parentheses around an expression are counted by the number of its node. Behind an operator
an operand is hung in at the right edge of the expression before it, as deep as the operator binds (`Expr.attach`).
-/

set_option autoImplicit false

namespace Primer

open Source (render)
open Layout

/-! ## Parentheses -/

/-- A node with one more pair of parentheses around it. -/
def Info.enclosed (i : Info) : Info := { i with id := i.id + 1 }

/-- An expression with one more pair of parentheses around it. -/
def Expr.wrap : Expr → Expr
  | .number i value literal => .number i.enclosed value literal
  | .string i value literal => .string i.enclosed value literal
  | .boolean i value => .boolean i.enclosed value
  | .null i => .null i.enclosed
  | .name i text => .name i.enclosed text
  | .member i object property => .member i.enclosed object property
  | .element i base position => .element i.enclosed base position
  | .call i callee arguments => .call i.enclosed callee arguments
  | .array i items => .array i.enclosed items
  | .binary i left symbol right => .binary i.enclosed left symbol right
  | .unary i symbol operand => .unary i.enclosed symbol operand

/-- How strongly an expression holds together with the parentheses around it. -/
def Expr.held (e : Expr) : Nat := e.strengthIn e.info.id

/-- Without parentheses an expression holds as much as its operator. -/
theorem Expr.held_of_bare {e : Expr} (h : e.info.id = 0) : e.held = e.strength := if_pos h

/-- In parentheses an expression holds as much as a member. -/
theorem Expr.held_of_enclosed {e : Expr} (h : e.info.id ≠ 0) : e.held = memberStrength := if_neg h

/-- Without need the parentheses are those of the place. -/
theorem Expr.pairs_false (e : Expr) (extra : Info → Nat) : e.pairs extra false = extra e.info :=
  Nat.max_eq_left (Nat.zero_le _)

/-- An expression that holds together strongly enough is in no other parentheses than its own. -/
theorem Expr.pairs_of_held {e : Expr} {needed : Bool} (h : needed = true → e.held ≠ e.strength) :
    e.pairs Info.id needed = e.pairs Info.id false := by
  cases needed with
  | false => rfl
  | true =>
    have hid : e.info.id ≠ 0 := fun hid => h rfl (e.held_of_bare hid)
    rw [e.pairs_false]
    exact Nat.max_eq_left (Nat.one_le_iff_ne_zero.mpr hid)

/-- A left operand that holds enough gets no parentheses of its own. -/
theorem Expr.whole_left {e : Expr} {n : Nat} (h : n ≤ e.held) :
    enclose (e.pairs Info.id (e.strength < n)) (e.layout Info.id) = e.whole Info.id := by
  rw [Expr.pairs_of_held]
  · rfl
  · intro hneeded
    have hlt := of_decide_eq_true hneeded
    omega

/-- A right operand that holds more gets no parentheses of its own. -/
theorem Expr.whole_right {e : Expr} {n : Nat} (h : n < e.held) :
    enclose (e.pairs Info.id (e.strength ≤ n)) (e.layout Info.id) = e.whole Info.id := by
  rw [Expr.pairs_of_held]
  · rfl
  · intro hneeded
    have hle := of_decide_eq_true hneeded
    omega

/-- A wrapped expression stands in one more pair of parentheses. -/
theorem Expr.wrap_info (e : Expr) : e.wrap.info = e.info.enclosed := by
  cases e <;> rfl

/-- A wrapped expression holds as much as a member. -/
theorem Expr.held_wrap (e : Expr) : e.wrap.held = memberStrength :=
  Expr.held_of_enclosed (by rw [e.wrap_info]; exact Nat.succ_ne_zero _)

/-- Wrapping does not change the layout inside. -/
theorem Expr.layout_wrap (e : Expr) (extra : Info → Nat) : e.wrap.layout extra = e.layout extra := by
  cases e <;> rfl

/-- A wrapped expression is written between parentheses. -/
theorem Expr.whole_wrap (e : Expr) (gap : List Char) :
    e.wrap.whole Info.id gap = .mark gap "(" :: (e.whole Info.id [] ++ [.mark [] ")"]) := by
  have hpairs : e.wrap.pairs Info.id false = e.pairs Info.id false + 1 := by
    rw [e.pairs_false, e.wrap.pairs_false, e.wrap_info]
    rfl
  rw [Expr.whole, hpairs, e.layout_wrap]
  rfl

/-! ## Operands behind operators -/

/-- An expression at whose right edge no parentheses are needed that are not there. -/
def Expr.Tidy : Expr → Prop
  | .binary i left symbol right => i.id = 0 →
    operatorStrength symbol ≤ left.held ∧ operatorStrength symbol < right.held ∧ right.Tidy
  | _ => True

/-- An expression in parentheses is tidy. -/
theorem Expr.Tidy.of_enclosed {e : Expr} (h : e.info.id ≠ 0) : e.Tidy := by
  cases e
  case binary => exact fun hid => absurd hid h
  all_goals exact trivial

/-- Hangs an operand behind an operator into an expression. -/
def Expr.attach (e : Expr) (symbol : String) (operand : Expr) : Expr :=
  match e with
  | .binary i left symbol' right =>
    if i.id = 0 ∧ operatorStrength symbol' < operatorStrength symbol then
      .binary i left symbol' (right.attach symbol operand)
    else .binary .blank (.binary i left symbol' right) symbol operand
  | e => .binary .blank e symbol operand

/-- An expression that can stand to the left of a comparison. -/
structure Expr.IsSum (e : Expr) : Prop where
  held : operatorStrength "+" ≤ e.held
  noRelation : e.isRelation = false

section Attach

variable {symbol : String} {operand : Expr}

/-- A binary operation without parentheses holds as much as its operator. -/
theorem Expr.held_binary {i : Info} {left right : Expr} {symbol' : String} (hid : i.id = 0) :
    (Expr.binary i left symbol' right).held = operatorStrength symbol' := Expr.held_of_bare hid

/-- Where an operand is hung in: below the operator of the expression if that binds less, and else above it. -/
theorem Expr.attach_cases (symbol : String) (operand : Expr) {motive : Expr → Prop}
    (below : ∀ i left symbol' right, i.id = 0 → operatorStrength symbol' < operatorStrength symbol → motive right →
      motive (.binary i left symbol' right))
    (above : ∀ e, e.attach symbol operand = .binary .blank e symbol operand →
      (∀ i left symbol' right, e = .binary i left symbol' right → i.id = 0 →
        operatorStrength symbol ≤ operatorStrength symbol') → motive e) (e : Expr) : motive e := by
  induction e using Expr.attach.induct symbol with
  | case1 i left symbol' right h ih => exact below i left symbol' right h.1 h.2 ih
  | case2 i left symbol' right h =>
    refine above _ (by rw [Expr.attach, if_neg h]) ?_
    rintro _ _ _ _ ⟨⟩ hid
    exact Nat.not_lt.mp fun hlt => h ⟨hid, hlt⟩
  | case3 e h =>
    refine above e ?_ fun i left symbol' right he => absurd he (h i left symbol' right)
    rw [Expr.attach]
    exact h

/-- Behind a weaker operator the new one goes to the right operand. -/
theorem Expr.attach_below {i : Info} {left right : Expr} {symbol' : String} (hid : i.id = 0)
    (hlt : operatorStrength symbol' < operatorStrength symbol) :
    (Expr.binary i left symbol' right).attach symbol operand = .binary i left symbol' (right.attach symbol operand) := by
  rw [Expr.attach, if_pos ⟨hid, hlt⟩]

/-- What is no weaker operation holds at least as much as the operator. -/
theorem Expr.held_above {e : Expr} (hsymbol : operatorStrength symbol < unaryStrength)
    (h : ∀ i left symbol' right, e = .binary i left symbol' right → i.id = 0 →
      operatorStrength symbol ≤ operatorStrength symbol') : operatorStrength symbol ≤ e.held := by
  have hmember : operatorStrength symbol ≤ memberStrength := Nat.le_of_lt (Nat.lt_trans hsymbol (by decide))
  by_cases hid : e.info.id = 0
  · rw [e.held_of_bare hid]
    cases e
    case binary i left symbol' right => exact h _ _ _ _ rfl hid
    case unary => exact Nat.le_of_lt hsymbol
    all_goals exact hmember
  · rw [e.held_of_enclosed hid]
    exact hmember

/-- After attaching an operator an expression holds the lesser of both. -/
theorem Expr.held_attach (e : Expr) : (e.attach symbol operand).held = min e.held (operatorStrength symbol) := by
  have hlt := operatorStrength_lt symbol
  induction e using Expr.attach_cases symbol operand with
  | below i left symbol' right hid hbelow _ =>
    rw [Expr.attach_below hid hbelow, Expr.held_binary hid, Expr.held_binary hid]
    exact (Nat.min_eq_left (Nat.le_of_lt hbelow)).symm
  | above e he h =>
    rw [he, Expr.held_binary rfl]
    exact (Nat.min_eq_right (Expr.held_above hlt h)).symm

/-- The lexemes of an operand stand behind those of the expression. -/
theorem Expr.whole_attach (hoperand : unaryStrength ≤ operand.held) {e : Expr} (he : e.Tidy) (gap : List Char) :
    (e.attach symbol operand).whole Info.id gap =
      e.whole Info.id gap ++ .mark [' '] symbol :: operand.whole Info.id [' '] := by
  have hlt := operatorStrength_lt symbol
  have hbare (i : Info) (hid : i.id = 0) (left : Expr) (symbol' : String) (right : Expr) (gap : List Char)
      (hleft : operatorStrength symbol' ≤ left.held) (hright : operatorStrength symbol' < right.held) :
      (Expr.binary i left symbol' right).whole Info.id gap =
        left.whole Info.id gap ++ .mark [' '] symbol' :: right.whole Info.id [' '] := by
    have hpairs : (Expr.binary i left symbol' right).pairs Info.id false = 0 := (Expr.pairs_false ..).trans hid
    rw [Expr.whole, hpairs, ← Expr.whole_left hleft, ← Expr.whole_right hright]
    rfl
  induction e using Expr.attach_cases symbol operand generalizing gap with
  | below i left symbol' right hid hbelow ih =>
    obtain ⟨hleft, hright, htidy⟩ := he hid
    have hattached : operatorStrength symbol' < (right.attach symbol operand).held := by
      rw [Expr.held_attach]
      omega
    rw [Expr.attach_below hid hbelow, hbare i hid _ _ _ gap hleft hattached, ih htidy, hbare i hid _ _ _ gap hleft hright]
    simp
  | above e heq h =>
    rw [heq, hbare .blank rfl _ _ _ gap (Expr.held_above hlt h) (Nat.lt_of_lt_of_le hlt hoperand)]

/-- Attaching an operator keeps an expression tidy. -/
theorem Expr.Tidy.attach (hoperand : unaryStrength ≤ operand.held) (htidy : operand.Tidy) {e : Expr} (he : e.Tidy) :
    (e.attach symbol operand).Tidy := by
  have hlt := operatorStrength_lt symbol
  induction e using Expr.attach_cases symbol operand with
  | below i left symbol' right hid hbelow ih =>
    obtain ⟨hleft, hright, htidy⟩ := he hid
    rw [Expr.attach_below hid hbelow]
    intro _
    refine ⟨hleft, ?_, ih htidy⟩
    rw [Expr.held_attach]
    omega
  | above e heq h =>
    rw [heq]
    exact fun _ => ⟨Expr.held_above hlt h, Nat.lt_of_lt_of_le hlt hoperand, htidy⟩

/-- Attaching an operator keeps an expression one that a reader can give. -/
theorem Expr.IsRead.attach (hsymbol : symbol ∈ Source.subsetBinary) (hoperand : operand.IsRead) {e : Expr}
    (he : e.IsRead) : (e.attach symbol operand).IsRead := by
  induction e using Expr.attach_cases symbol operand with
  | below i left symbol' right hid hbelow ih =>
    rw [Expr.attach_below hid hbelow]
    exact ⟨he.1, he.2.1, ih he.2.2⟩
  | above e heq =>
    rw [heq]
    exact ⟨hsymbol, he, hoperand⟩

/-- Attaching an operator keeps an expression clear. -/
theorem Expr.isClear_attach (hoperand : operand.isClear = true) {e : Expr} (he : e.isClear = true)
    (hrelation : isRelational symbol = true → e.IsSum) : (e.attach symbol operand).isClear = true := by
  induction e using Expr.attach_cases symbol operand with
  | below i left symbol' right hid hbelow ih =>
    rw [Expr.attach_below hid hbelow]
    simp only [Expr.isClear, Bool.and_eq_true] at he ⊢
    refine ⟨he.1, ih he.2 ?_⟩
    intro hsymbol
    -- A comparison binds less than what may stand to its left, so it is not hung in below.
    have hstrength : ∀ s ∈ ["<", ">", "<=", ">="], operatorStrength s < operatorStrength "+" := by decide
    have hsum := (hrelation hsymbol).held
    rw [Expr.held_binary hid] at hsum
    have hless := hstrength symbol (List.contains_iff_mem.mp hsymbol)
    exact absurd (Nat.lt_of_le_of_lt hsum hbelow) (Nat.lt_asymm hless)
  | above e heq =>
    rw [heq]
    have hnone : (isRelational symbol && e.isRelation) = false := by
      cases hsymbol : isRelational symbol with
      | false => rfl
      | true => exact (hrelation hsymbol).noRelation
    simp only [Expr.isClear, hnone, he, hoperand, Bool.not_false, Bool.and_true]

/-- Attaching an operator keeps an expression to its names. -/
theorem Expr.Within.attach {N : String → Prop} (hoperand : operand.Within N) {e : Expr} (he : e.Within N) :
    (e.attach symbol operand).Within N := by
  induction e using Expr.attach_cases symbol operand with
  | below i left symbol' right hid hbelow ih =>
    rw [Expr.attach_below hid hbelow]
    exact ⟨he.1, ih he.2⟩
  | above e heq =>
    rw [heq]
    exact ⟨he, hoperand⟩

/-- A sum is one still with an operand behind an arithmetic operator. -/
theorem Expr.IsSum.attach (hsymbol : operatorStrength "+" ≤ operatorStrength symbol) {e : Expr} (he : e.IsSum) :
    (e.attach symbol operand).IsSum := by
  have hheld := he.held
  refine ⟨?_, ?_⟩
  · rw [Expr.held_attach]
    omega
  · have hnone : isRelational symbol = false := by
      apply Bool.eq_false_iff.mpr
      intro hrelation
      have hstrength : ∀ s ∈ ["<", ">", "<=", ">="], operatorStrength s < operatorStrength "+" := by decide
      exact absurd (hstrength symbol (List.contains_iff_mem.mp hrelation)) (Nat.not_lt.mpr hsymbol)
    have hrelation := he.noRelation
    clear he hheld
    induction e using Expr.attach_cases symbol operand with
    | below i left symbol' right hid hbelow =>
      rw [Expr.attach_below hid hbelow]
      exact hrelation
    | above e heq =>
      rw [heq]
      exact hnone

end Attach

/-! ## Texts of expressions -/

/-- A text is the code of an expression, perhaps with more parentheses than it needs, and the names in it are of a
kind. -/
structure Expr.Written (N : String → Prop) (e : Expr) (text : String) : Prop where
  read : e.IsRead
  clear : e.isClear = true
  within : e.Within N
  tidy : e.Tidy
  renders : (e.whole Info.id).Renders text

/-- A text is the code of an expression that holds together as strongly as an operand has to. -/
structure Expr.Operand (N : String → Prop) (strength : Nat) (e : Expr) (text : String) : Prop extends
    Expr.Written N e text where
  held : strength ≤ e.held

section Written

variable {N : String → Prop} {e operand : Expr} {text text' symbol : String}

/-- An expression that stands in no parentheses and is no operator between two operands. -/
theorem Expr.Operand.of_layout {strength : Nat} (hread : e.IsRead) (hclear : e.isClear = true) (hwithin : e.Within N)
    (hid : e.info.id = 0) (hstrength : strength ≤ e.strength) (hunary : unaryStrength ≤ strength)
    (hrenders : (e.layout Info.id).Renders text) : e.Operand N strength text where
  read := hread
  clear := hclear
  within := hwithin
  tidy := by
    cases e
    case binary i left symbol right =>
      exact absurd (Nat.le_trans hunary hstrength) (Nat.not_le.mpr (operatorStrength_lt symbol))
    all_goals exact trivial
  renders := by
    have hpairs : e.pairs Info.id false = 0 := (e.pairs_false Info.id).trans hid
    rw [Expr.whole, hpairs]
    exact hrenders
  held := by
    rw [Expr.held_of_bare hid]
    exact hstrength

/-- An operand of some strength is one of each lesser strength. -/
theorem Expr.Operand.weaken {strength strength' : Nat} (h : e.Operand N strength text) (hle : strength' ≤ strength) :
    e.Operand N strength' text := { h with held := Nat.le_trans hle h.held }

/-- In parentheses, every expression is an operand. -/
theorem Expr.Written.wrap (h : e.Written N text) : e.wrap.Operand N memberStrength ("(" ++ text ++ ")") where
  read := by
    have hread := h.read
    cases e <;> exact hread
  clear := by
    have hclear := h.clear
    cases e <;> exact hclear
  within := by
    have hwithin := h.within
    cases e <;> exact hwithin
  tidy := .of_enclosed (by rw [e.wrap_info]; exact Nat.succ_ne_zero _)
  renders gap := by
    rw [e.whole_wrap]
    simp [h.renders []]
  held := Nat.le_of_eq e.held_wrap.symm

/-- An operator and an operand behind a written expression are written as the attached one. -/
theorem Expr.Written.attach (h : e.Written N text) (hsymbol : symbol ∈ Source.subsetBinary)
    (hrelation : isRelational symbol = true → e.IsSum) (hoperand : operand.Operand N unaryStrength text') :
    (e.attach symbol operand).Written N (text ++ " " ++ symbol ++ " " ++ text') where
  read := .attach hsymbol hoperand.read h.read
  clear := Expr.isClear_attach hoperand.clear h.clear hrelation
  within := .attach hoperand.within h.within
  tidy := .attach hoperand.held hoperand.tidy h.tidy
  renders gap := by
    rw [Expr.whole_attach hoperand.held h.tidy]
    simp [h.renders gap, hoperand.renders [' ']]

/-- A sign before an operand. -/
theorem Expr.Operand.sign (h : e.Operand N unaryStrength text) (hsymbol : symbol ∈ Source.subsetUnary)
    (hsigned : e.isSigned symbol = false) : (Expr.unary .blank symbol e).Operand N unaryStrength (symbol ++ text) := by
  refine .of_layout ⟨hsymbol, h.read⟩ ?_ h.within rfl (Nat.le_refl _) (Nat.le_refl _) ?_
  · simp only [Expr.isClear, hsigned, h.clear, Bool.not_false, Bool.and_true]
  · intro gap
    rw [Expr.layout, Expr.whole_left h.held]
    simp [h.renders []]

end Written

/-! ## Texts that stand behind operators -/

/-- A text is that of a sum. -/
def IsSumText (N : String → Prop) (text : String) : Prop := ∃ e : Expr, e.Written N text ∧ e.IsSum

/-- A text can stand behind an operator: an expression before it becomes a longer one. -/
def FollowsOperator (N : String → Prop) (text : String) : Prop :=
  ∀ ⦃e : Expr⦄ ⦃before symbol : String⦄, e.Written N before → symbol ∈ Source.subsetBinary →
    (isRelational symbol = true → e.IsSum) → ∃ e' : Expr, e'.Written N (before ++ " " ++ symbol ++ " " ++ text) ∧
      (operatorStrength "+" ≤ operatorStrength symbol → e.IsSum → e'.IsSum)

/-- A text that is a sum and can stand behind an operator, such as an operand. -/
structure IsTerm (N : String → Prop) (text : String) : Prop where
  sum : IsSumText N text
  follows : FollowsOperator N text

/-- A term is the text of an expression. -/
theorem IsTerm.written {N : String → Prop} {text : String} (h : IsTerm N text) : ∃ e : Expr, e.Written N text := by
  obtain ⟨e, he, -⟩ := h.sum
  exact ⟨e, he⟩

/-- An operand that is no comparison is a term. -/
theorem IsTerm.of_operand {N : String → Prop} {e : Expr} {text : String} (h : e.Operand N unaryStrength text)
    (hrelation : e.isRelation = false) : IsTerm N text where
  sum := ⟨e, h.toWritten, Nat.le_trans (by decide) h.held, hrelation⟩
  follows e' _ symbol he' hsymbol hsum := ⟨e'.attach symbol e, he'.attach hsymbol hsum h, fun hstrength hsum' =>
    hsum'.attach hstrength⟩

/-- Two terms with an arithmetic operator between them. -/
theorem IsTerm.operator {N : String → Prop} {text text' symbol : String} (h : IsTerm N text) (h' : IsTerm N text')
    (hsymbol : symbol ∈ ["+", "-", "*", "/", "%"]) : IsTerm N (text ++ " " ++ symbol ++ " " ++ text') := by
  have hall : ∀ s ∈ ["+", "-", "*", "/", "%"], s ∈ Source.subsetBinary ∧ isRelational s = false ∧
      operatorStrength "+" ≤ operatorStrength s := by decide
  obtain ⟨hbinary, hplain, hstrength⟩ := hall symbol hsymbol
  have hnone : ∀ e : Expr, isRelational symbol = true → e.IsSum := by
    intro e hrelation
    rw [hplain] at hrelation
    cases hrelation
  constructor
  · obtain ⟨e, he, hsum⟩ := h.sum
    obtain ⟨e', he', hsum'⟩ := h'.follows he hbinary (hnone e)
    exact ⟨e', he', hsum' hstrength hsum⟩
  · intro e before symbol' he hsymbol' hrelation
    obtain ⟨e₁, he₁, hsum₁⟩ := h.follows he hsymbol' hrelation
    obtain ⟨e₂, he₂, hsum₂⟩ := h'.follows he₁ hbinary (hnone e₁)
    refine ⟨e₂, ?_, fun hstrength' hsum => hsum₂ hstrength (hsum₁ hstrength' hsum)⟩
    simpa only [String.append_assoc] using he₂

/-- A term in parentheses is a term. -/
theorem IsTerm.wrap {N : String → Prop} {text : String} (h : IsTerm N text) : IsTerm N ("(" ++ text ++ ")") := by
  obtain ⟨e, he, hsum⟩ := h.sum
  refine .of_operand (he.wrap.weaken (by decide)) ?_
  have hnone := hsum.noRelation
  cases e <;> exact hnone

end Primer
