import Primer.Proofs.Sound.Tree

/-!
# Trees on which checked and unchecked runs can be compared

Without checks, `&&` and `||` leave out their right operand when the left one decides, while with checks
both operands are evaluated. The two can be compared as long as the right operands call nothing
(`Program.rightOperandsCallNothing`). They also differ in an assignment such as `&&=`, which a tree could
hold but no source can: `Program.assigns_plainly` says that everything `parse` accepts assigns plainly.
-/

set_option autoImplicit false

namespace Primer

/-! ## What a tree contains -/

mutual

/-- Whether an expression contains no call. -/
def Expr.callsNothing : Expr → Bool
  | .member _ object _ => object.callsNothing
  | .element _ base position => base.callsNothing && position.callsNothing
  | .call _ _ _ => false
  | .array _ items => Expr.allCallNothing items
  | .binary _ left _ right => left.callsNothing && right.callsNothing
  | .unary _ _ operand => operand.callsNothing
  | _ => true

/-- Whether none of several expressions contains a call. -/
def Expr.allCallNothing : List Expr → Bool
  | [] => true
  | e :: es => e.callsNothing && Expr.allCallNothing es

end

/-- Whether an operator leaves out its right operand when the left one decides, without checks. -/
def isLogical (symbol : String) : Bool := symbol = "&&" || symbol = "||"

mutual

/-- Whether the right operands of all `&&` and `||` in an expression call nothing. -/
def Expr.isTame : Expr → Bool
  | .member _ object _ => object.isTame
  | .element _ base position => base.isTame && position.isTame
  | .call _ callee args => callee.isTame && Expr.allTame args
  | .array _ items => Expr.allTame items
  | .binary _ left symbol right =>
    left.isTame && right.isTame && (!isLogical symbol || right.callsNothing)
  | .unary _ _ operand => operand.isTame
  | _ => true

/-- Whether the right operands of all `&&` and `||` in several expressions call nothing. -/
def Expr.allTame : List Expr → Bool
  | [] => true
  | e :: es => e.isTame && Expr.allTame es

end

section Everywhere

variable (p : Expr → Bool) (q : String → Bool)

/-- Whether both sides of an assignment have a property, and its symbol has another. -/
def Assignment.everywhere (a : Assignment) : Bool := q a.symbol && p a.target && p a.value

/-- Whether the first value of a declared name is assigned in such a way. -/
def Declared.everywhere (d : Declared) : Bool :=
  match d.first with
  | none => true
  | some a => a.everywhere p q

mutual

/-- Whether all expressions in a statement have a property, and the symbols of all assignments another. -/
def Stmt.everywhere : Stmt → Bool
  | .var _ names => names.all (Declared.everywhere p q)
  | .declared d => d.everywhere p q
  | .assign a => a.everywhere p q
  | .bump _ target _ => p target
  | .call _ c => p c.toExpr
  | .cond _ test body branch => p test && Stmt.everywhereAll body && Stmt.everywhereIn branch
  | .elseIf _ _ test body branch => p test && Stmt.everywhereAll body && Stmt.everywhereIn branch
  | .orElse _ body => Stmt.everywhereAll body
  | .while _ test body => p test && Stmt.everywhereAll body
  | .for _ first test update body =>
    Stmt.everywhereIn first && p test && Stmt.everywhereIn update && Stmt.everywhereAll body
  | .function _ _ _ body => Stmt.everywhereAll body
  | .return _ none => true
  | .return _ (some value) => p value

/-- The same for a statement that may be absent. -/
def Stmt.everywhereIn : Option Stmt → Bool
  | none => true
  | some s => s.everywhere

/-- The same for a statement list. -/
def Stmt.everywhereAll : List Stmt → Bool
  | [] => true
  | s :: rest => s.everywhere && Stmt.everywhereAll rest

end

end Everywhere

/-- Whether the right operands of all `&&` and `||` in a program call nothing. -/
def Program.rightOperandsCallNothing (p : Program) : Bool :=
  Stmt.everywhereAll Expr.isTame (fun _ => true) p.body

/-- Whether checked and unchecked runs of a statement list can be compared: no right operand of `&&` or `||`
calls anything, and no assignment is one of these. -/
def Stmt.allTame (body : List Stmt) : Bool := Stmt.everywhereAll Expr.isTame (fun s => !isLogical s) body

/-- Whether checked and unchecked calls of a function can be compared. -/
def UserFunction.isTame (f : UserFunction) : Bool := Stmt.allTame f.body

/-! ## Properties that hold together -/

section Together

variable {p : Expr → Bool} {q : String → Bool}

/-- Two conditions on an assignment hold together if each does on its own. -/
theorem Assignment.everywhere_of {a : Assignment} (hp : a.everywhere p (fun _ => true) = true)
    (hq : a.everywhere (fun _ => true) q = true) : a.everywhere p q = true := by
  simp only [Assignment.everywhere, Bool.and_eq_true] at *
  exact ⟨⟨hq.1.1, hp.1.2⟩, hp.2⟩

/-- Two conditions on a declared name hold together if each does on its own. -/
theorem Declared.everywhere_of {d : Declared} (hp : d.everywhere p (fun _ => true) = true)
    (hq : d.everywhere (fun _ => true) q = true) : d.everywhere p q = true := by
  unfold Declared.everywhere at *
  generalize d.first = first at *
  cases first with
  | none => rfl
  | some a => exact Assignment.everywhere_of hp hq

mutual

/-- Two conditions on a statement hold together if each does on its own. -/
theorem Stmt.everywhere_of : ∀ {s : Stmt}, s.everywhere p (fun _ => true) = true →
    s.everywhere (fun _ => true) q = true → s.everywhere p q = true
  | .var _ names, hp, hq => by
    simp only [Stmt.everywhere, List.all_eq_true] at *
    exact fun d hd => Declared.everywhere_of (hp d hd) (hq d hd)
  | .declared d, hp, hq => Declared.everywhere_of hp hq
  | .assign a, hp, hq => Assignment.everywhere_of hp hq
  | .bump _ _ _, hp, _ => hp
  | .call _ _, hp, _ => hp
  | .cond _ _ _ _, hp, hq => by
    simp only [Stmt.everywhere, Bool.and_eq_true] at *
    exact ⟨⟨hp.1.1, Stmt.everywhereAll_of hp.1.2 hq.1.2⟩, Stmt.everywhereIn_of hp.2 hq.2⟩
  | .elseIf _ _ _ _ _, hp, hq => by
    simp only [Stmt.everywhere, Bool.and_eq_true] at *
    exact ⟨⟨hp.1.1, Stmt.everywhereAll_of hp.1.2 hq.1.2⟩, Stmt.everywhereIn_of hp.2 hq.2⟩
  | .orElse _ _, hp, hq => Stmt.everywhereAll_of hp hq
  | .while _ _ _, hp, hq => by
    simp only [Stmt.everywhere, Bool.and_eq_true] at *
    exact ⟨hp.1, Stmt.everywhereAll_of hp.2 hq.2⟩
  | .for _ _ _ _ _, hp, hq => by
    simp only [Stmt.everywhere, Bool.and_eq_true] at *
    exact ⟨⟨⟨Stmt.everywhereIn_of hp.1.1.1 hq.1.1.1, hp.1.1.2⟩, Stmt.everywhereIn_of hp.1.2 hq.1.2⟩,
      Stmt.everywhereAll_of hp.2 hq.2⟩
  | .function _ _ _ _, hp, hq => Stmt.everywhereAll_of hp hq
  | .return _ none, _, _ => rfl
  | .return _ (some _), hp, _ => hp

/-- Two conditions on a part of a statement hold together if each does on its own. -/
theorem Stmt.everywhereIn_of : ∀ {s : Option Stmt}, Stmt.everywhereIn p (fun _ => true) s = true →
    Stmt.everywhereIn (fun _ => true) q s = true → Stmt.everywhereIn p q s = true
  | none, _, _ => rfl
  | some _, hp, hq => Stmt.everywhere_of hp hq

/-- Two conditions on a body hold together if each does on its own. -/
theorem Stmt.everywhereAll_of : ∀ {body : List Stmt}, Stmt.everywhereAll p (fun _ => true) body = true →
    Stmt.everywhereAll (fun _ => true) q body = true → Stmt.everywhereAll p q body = true
  | [], _, _ => rfl
  | _ :: _, hp, hq => by
    simp only [Stmt.everywhereAll, Bool.and_eq_true] at *
    exact ⟨Stmt.everywhere_of hp.1 hq.1, Stmt.everywhereAll_of hp.2 hq.2⟩

end

end Together

/-! ## What a source can hold -/

/-- A handled assignment has no logical operator. -/
theorem Assignment.everywhere_of_isHandled {a : Assignment} (h : a.isHandled = true) :
    a.everywhere (fun _ => true) (fun symbol => !isLogical symbol) = true := by
  have hall : ∀ s ∈ ["=", "+=", "-=", "*=", "/=", "%="], (!isLogical s) = true := by decide
  simp only [Assignment.isHandled, Bool.and_eq_true] at h
  simp only [Assignment.everywhere, Bool.and_true]
  exact hall a.symbol (List.contains_iff_mem.mp h.1.1)

/-- A handled declared name has no logical operator. -/
theorem Declared.everywhere_of_isHandled {d : Declared} (h : d.isHandled = true) :
    d.everywhere (fun _ => true) (fun symbol => !isLogical symbol) = true := by
  unfold Declared.isHandled at h
  unfold Declared.everywhere
  generalize d.first = first at h
  cases first with
  | none => rfl
  | some a => exact Assignment.everywhere_of_isHandled h

mutual

/-- No assignment of a handled statement has a logical operator. -/
theorem Stmt.everywhere_of_isHandled : ∀ {s : Stmt}, s.isHandled = true →
    s.everywhere (fun _ => true) (fun symbol => !isLogical symbol) = true
  | .var _ names, h => by
    simp only [Stmt.isHandled, Stmt.everywhere, List.all_eq_true] at *
    exact fun d hd => Declared.everywhere_of_isHandled (h d hd)
  | .assign a, h => Assignment.everywhere_of_isHandled h
  | .bump .., _ | .call .., _ | .return _ none, _ | .return _ (some _), _ => rfl
  | .cond .., h => by
    simp only [Stmt.isHandled, Stmt.everywhere, Bool.and_eq_true] at *
    exact ⟨⟨trivial, Stmt.everywhereAll_of_allHandled h.1.2⟩, Stmt.everywhereIn_of_isHandledBranch h.2⟩
  | .while .., h => by
    simp only [Stmt.isHandled, Stmt.everywhere, Bool.and_eq_true] at *
    exact ⟨trivial, Stmt.everywhereAll_of_allHandled h.2⟩
  | .for .., h => by
    simp only [Stmt.isHandled, Stmt.everywhere, Bool.and_eq_true] at *
    exact ⟨⟨⟨Stmt.everywhereIn_of_isHandledPart h.1.1.1, trivial⟩, Stmt.everywhereIn_of_isHandledPart h.1.2⟩,
      Stmt.everywhereAll_of_allHandled h.2⟩
  | .function .., h => Stmt.everywhereAll_of_allHandled h

/-- No assignment of a handled branch has a logical operator. -/
theorem Stmt.everywhereIn_of_isHandledBranch : ∀ {s : Option Stmt}, Stmt.isHandledBranch s = true →
    Stmt.everywhereIn (fun _ => true) (fun symbol => !isLogical symbol) s = true
  | none, _ => rfl
  | some (.elseIf ..), h => by
    simp only [Stmt.isHandledBranch, Stmt.everywhereIn, Stmt.everywhere, Bool.and_eq_true] at *
    exact ⟨⟨trivial, Stmt.everywhereAll_of_allHandled h.1.2⟩, Stmt.everywhereIn_of_isHandledBranch h.2⟩
  | some (.orElse ..), h => Stmt.everywhereAll_of_allHandled h

/-- No assignment of a handled part has a logical operator. -/
theorem Stmt.everywhereIn_of_isHandledPart : ∀ {s : Option Stmt}, Stmt.isHandledPart s = true →
    Stmt.everywhereIn (fun _ => true) (fun symbol => !isLogical symbol) s = true
  | none, _ => rfl
  | some _, h => Stmt.everywhere_of_isHandled h

/-- No assignment of a handled body has a logical operator. -/
theorem Stmt.everywhereAll_of_allHandled : ∀ {body : List Stmt}, Stmt.allHandled body = true →
    Stmt.everywhereAll (fun _ => true) (fun symbol => !isLogical symbol) body = true
  | [], _ => rfl
  | _ :: _, h => by
    simp only [Stmt.allHandled, Stmt.everywhereAll, Bool.and_eq_true] at *
    exact ⟨Stmt.everywhere_of_isHandled h.1, Stmt.everywhereAll_of_allHandled h.2⟩

end

/-- A program that comes from a source is fit for comparison if its right operands call nothing: it has no logical
assignments. -/
theorem Program.Accepted.allTame {program : Program} (h : program.Accepted)
    (hcalls : program.rightOperandsCallNothing = true) : Stmt.allTame program.body = true :=
  Stmt.everywhereAll_of hcalls (Stmt.everywhereAll_of_allHandled h.handled)

end Primer
