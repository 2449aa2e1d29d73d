import Primer.Tree.Basic

/-!
# The names in a tree

Which names an expression or a statement mentions or declares, where the body of a function that is declared counts
apart: it is run elsewhere, in a scope of its own.
-/

set_option autoImplicit false

namespace Primer

mutual

/-- All names in an expression are of a kind. -/
def Expr.Within (N : String → Prop) : Expr → Prop
  | .name _ x => N x
  | .member _ object _ => object.Within N
  | .element _ base position => base.Within N ∧ position.Within N
  | .call _ callee args => callee.Within N ∧ Expr.AllWithin N args
  | .array _ items => Expr.AllWithin N items
  | .binary _ left _ right => left.Within N ∧ right.Within N
  | .unary _ _ operand => operand.Within N
  | .number .. | .string .. | .boolean .. | .null .. => True

/-- All names in several expressions are of a kind. -/
def Expr.AllWithin (N : String → Prop) : List Expr → Prop
  | [] => True
  | e :: es => e.Within N ∧ Expr.AllWithin N es

end

/-- All names in an assignment are of a kind. -/
def Assignment.Within (N : String → Prop) (a : Assignment) : Prop := a.target.Within N ∧ a.value.Within N

/-- A declared name and all names in its first value are of a kind. -/
def Declared.Within (N : String → Prop) (d : Declared) : Prop := N d.name ∧ ∀ a ∈ d.first, a.Within N

mutual

/-- All names in a statement are of a kind, and so are the bodies of the functions that it declares. -/
def Stmt.Within (N : String → Prop) (B : List Stmt → Prop) : Stmt → Prop
  | .var _ names => ∀ d ∈ names, d.Within N
  | .declared d => d.Within N
  | .assign a => a.Within N
  | .bump _ target _ => target.Within N
  | .call _ c => c.toExpr.Within N
  | .cond _ test body branch => test.Within N ∧ Stmt.AllWithin N B body ∧ Stmt.PartWithin N B branch
  | .elseIf _ _ test body branch => test.Within N ∧ Stmt.AllWithin N B body ∧ Stmt.PartWithin N B branch
  | .orElse _ body => Stmt.AllWithin N B body
  | .while _ test body => test.Within N ∧ Stmt.AllWithin N B body
  | .for _ first test update body =>
    Stmt.PartWithin N B first ∧ test.Within N ∧ Stmt.PartWithin N B update ∧ Stmt.AllWithin N B body
  | .function _ name _ body => N name ∧ B body
  | .return _ value => ∀ e ∈ value, e.Within N

/-- All names in a statement that may be absent are of a kind. -/
def Stmt.PartWithin (N : String → Prop) (B : List Stmt → Prop) : Option Stmt → Prop
  | none => True
  | some s => s.Within N B

/-- All names in several statements are of a kind. -/
def Stmt.AllWithin (N : String → Prop) (B : List Stmt → Prop) : List Stmt → Prop
  | [] => True
  | s :: rest => s.Within N B ∧ Stmt.AllWithin N B rest

end

/-! ## All names and all bodies -/

variable {N : String → Prop} {B : List Stmt → Prop}

mutual

/-- Every expression keeps to all names. -/
theorem Expr.within_all (hN : ∀ x, N x) : (e : Expr) → e.Within N
  | .name _ x => hN x
  | .member _ object _ => object.within_all hN
  | .element _ base position => ⟨base.within_all hN, position.within_all hN⟩
  | .call _ callee args => ⟨callee.within_all hN, Expr.allWithin_all hN args⟩
  | .array _ items => Expr.allWithin_all hN items
  | .binary _ left _ right => ⟨left.within_all hN, right.within_all hN⟩
  | .unary _ _ operand => operand.within_all hN
  | .number .. | .string .. | .boolean .. | .null .. => trivial

/-- Several expressions keep to all names. -/
theorem Expr.allWithin_all (hN : ∀ x, N x) : (es : List Expr) → Expr.AllWithin N es
  | [] => trivial
  | e :: es => ⟨e.within_all hN, Expr.allWithin_all hN es⟩

end

/-- Every assignment keeps to all names. -/
theorem Assignment.within_all (hN : ∀ x, N x) (a : Assignment) : a.Within N :=
  ⟨a.target.within_all hN, a.value.within_all hN⟩

/-- Every declared name keeps to all names. -/
theorem Declared.within_all (hN : ∀ x, N x) (d : Declared) : d.Within N := ⟨hN d.name, fun a _ => a.within_all hN⟩

mutual

/-- Every statement keeps to all names and bodies. -/
theorem Stmt.within_all (hN : ∀ x, N x) (hB : ∀ body, B body) : (s : Stmt) → s.Within N B
  | .var _ _ => fun d _ => d.within_all hN
  | .declared d => d.within_all hN
  | .assign a => a.within_all hN
  | .bump _ target _ => target.within_all hN
  | .call _ c => c.toExpr.within_all hN
  | .cond _ test body branch =>
    ⟨test.within_all hN, Stmt.allWithin_all hN hB body, Stmt.partWithin_all hN hB branch⟩
  | .elseIf _ _ test body branch =>
    ⟨test.within_all hN, Stmt.allWithin_all hN hB body, Stmt.partWithin_all hN hB branch⟩
  | .orElse _ body => Stmt.allWithin_all hN hB body
  | .while _ test body => ⟨test.within_all hN, Stmt.allWithin_all hN hB body⟩
  | .for _ first test update body =>
    ⟨Stmt.partWithin_all hN hB first, test.within_all hN, Stmt.partWithin_all hN hB update,
      Stmt.allWithin_all hN hB body⟩
  | .function _ name _ body => ⟨hN name, hB body⟩
  | .return _ _ => fun e _ => e.within_all hN

/-- Every part of a statement keeps to all names and bodies. -/
theorem Stmt.partWithin_all (hN : ∀ x, N x) (hB : ∀ body, B body) :
    (part : Option Stmt) → Stmt.PartWithin N B part
  | none => trivial
  | some s => s.within_all hN hB

/-- Every body keeps to all names and bodies. -/
theorem Stmt.allWithin_all (hN : ∀ x, N x) (hB : ∀ body, B body) : (body : List Stmt) → Stmt.AllWithin N B body
  | [] => trivial
  | s :: rest => ⟨s.within_all hN hB, Stmt.allWithin_all hN hB rest⟩

end

/-! ## Names of two kinds at once -/

variable {N' M : String → Prop} {B' C : List Stmt → Prop}

mutual

/-- An expression that keeps to two sets of names keeps to what both have. -/
theorem Expr.within_join (hM : ∀ x, N x → N' x → M x) : (e : Expr) → e.Within N → e.Within N' → e.Within M
  | .name _ x, h, h' => hM x h h'
  | .member _ object _, h, h' => object.within_join hM h h'
  | .element _ base position, h, h' => ⟨base.within_join hM h.1 h'.1, position.within_join hM h.2 h'.2⟩
  | .call _ callee args, h, h' => ⟨callee.within_join hM h.1 h'.1, Expr.allWithin_join hM args h.2 h'.2⟩
  | .array _ items, h, h' => Expr.allWithin_join hM items h h'
  | .binary _ left _ right, h, h' => ⟨left.within_join hM h.1 h'.1, right.within_join hM h.2 h'.2⟩
  | .unary _ _ operand, h, h' => operand.within_join hM h h'
  | .number .., _, _ | .string .., _, _ | .boolean .., _, _ | .null .., _, _ => trivial

/-- Several expressions that keep to two sets of names keep to what both have. -/
theorem Expr.allWithin_join (hM : ∀ x, N x → N' x → M x) :
    (es : List Expr) → Expr.AllWithin N es → Expr.AllWithin N' es → Expr.AllWithin M es
  | [], _, _ => trivial
  | e :: es, h, h' => ⟨e.within_join hM h.1 h'.1, Expr.allWithin_join hM es h.2 h'.2⟩

end

/-- An assignment that keeps to two sets of names keeps to what both have. -/
theorem Assignment.within_join (hM : ∀ x, N x → N' x → M x) (a : Assignment) (h : a.Within N) (h' : a.Within N') :
    a.Within M := ⟨a.target.within_join hM h.1 h'.1, a.value.within_join hM h.2 h'.2⟩

/-- A declared name that keeps to two sets of names keeps to what both have. -/
theorem Declared.within_join (hM : ∀ x, N x → N' x → M x) (d : Declared) (h : d.Within N) (h' : d.Within N') :
    d.Within M := ⟨hM _ h.1 h'.1, fun a ha => a.within_join hM (h.2 a ha) (h'.2 a ha)⟩

mutual

/-- What is within two kinds of names, and has bodies of two kinds, is within both at once. -/
theorem Stmt.within_join (hM : ∀ x, N x → N' x → M x) (hC : ∀ b, B b → B' b → C b) :
    (s : Stmt) → s.Within N B → s.Within N' B' → s.Within M C
  | .var _ _, h, h' => fun d hd => d.within_join hM (h d hd) (h' d hd)
  | .declared d, h, h' => d.within_join hM h h'
  | .assign a, h, h' => a.within_join hM h h'
  | .bump _ target _, h, h' => target.within_join hM h h'
  | .call _ c, h, h' => c.toExpr.within_join hM h h'
  | .cond _ test body branch, h, h' | .elseIf _ _ test body branch, h, h' =>
    ⟨test.within_join hM h.1 h'.1, Stmt.allWithin_join hM hC body h.2.1 h'.2.1,
      Stmt.partWithin_join hM hC branch h.2.2 h'.2.2⟩
  | .orElse _ body, h, h' => Stmt.allWithin_join hM hC body h h'
  | .while _ test body, h, h' => ⟨test.within_join hM h.1 h'.1, Stmt.allWithin_join hM hC body h.2 h'.2⟩
  | .for _ first test update body, h, h' =>
    ⟨Stmt.partWithin_join hM hC first h.1 h'.1, test.within_join hM h.2.1 h'.2.1,
      Stmt.partWithin_join hM hC update h.2.2.1 h'.2.2.1, Stmt.allWithin_join hM hC body h.2.2.2 h'.2.2.2⟩
  | .function _ _ _ _, h, h' => ⟨hM _ h.1 h'.1, hC _ h.2 h'.2⟩
  | .return _ _, h, h' => fun e he => e.within_join hM (h e he) (h' e he)

/-- A part of a statement that keeps to two sets of names keeps to what both have. -/
theorem Stmt.partWithin_join (hM : ∀ x, N x → N' x → M x) (hC : ∀ b, B b → B' b → C b) :
    (part : Option Stmt) → Stmt.PartWithin N B part → Stmt.PartWithin N' B' part → Stmt.PartWithin M C part
  | none, _, _ => trivial
  | some s, h, h' => s.within_join hM hC h h'

/-- A body that keeps to two sets of names keeps to what both have. -/
theorem Stmt.allWithin_join (hM : ∀ x, N x → N' x → M x) (hC : ∀ b, B b → B' b → C b) :
    (body : List Stmt) → Stmt.AllWithin N B body → Stmt.AllWithin N' B' body → Stmt.AllWithin M C body
  | [], _, _ => trivial
  | s :: rest, h, h' => ⟨s.within_join hM hC h.1 h'.1, Stmt.allWithin_join hM hC rest h.2 h'.2⟩

end

end Primer
