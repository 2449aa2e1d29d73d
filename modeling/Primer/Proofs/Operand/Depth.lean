import Primer.Proofs.Run.Plan
import Primer.Proofs.Lenient.Tree

/-!
# How deeply expressions are nested

The only thing that an expression which calls nothing has from the depth that it stands at is that it must not go
beyond the limit. With checks all parts of an expression are evaluated, so one that is done at some depth fits there
with its whole height, and it does the same at any other depth that it fits at (`eval_at_depth`).
-/

set_option autoImplicit false

namespace Primer

open Run

variable {σ : Type}

mutual

/-- How many expressions are nested in each other in an expression. -/
def Expr.height : Expr → Nat
  | .member _ object _ => object.height + 1
  | .element _ base position => max base.height position.height + 1
  | .call _ callee args => max callee.height (Expr.heightAll args) + 1
  | .array _ items => Expr.heightAll items + 1
  | .binary _ left _ right => max left.height right.height + 1
  | .unary _ _ operand => operand.height + 1
  | _ => 1

/-- The height of the highest of several expressions. -/
def Expr.heightAll : List Expr → Nat
  | [] => 0
  | e :: es => max e.height (Expr.heightAll es)

end

/-- An expression that is done at a depth fits there, and is done alike at every depth that it fits at. -/
structure Relocates (cfg : Setting σ) (n : Nat) : Prop where
  eval {depth e v} {s s' : RunState σ} : Expr.callsNothing e = true → eval cfg n depth e s = .done v s' →
    depth + e.height ≤ maxEvalDepth ∧ ∀ d, d + e.height ≤ maxEvalDepth → eval cfg n d e s = .done v s'
  evalTaken {depth es vs} {s s' : RunState σ} : Expr.allCallNothing es = true →
    evalTaken cfg n depth es s = .done vs s' → depth ≤ maxEvalDepth →
      depth + Expr.heightAll es ≤ maxEvalDepth ∧
        ∀ d, d + Expr.heightAll es ≤ maxEvalDepth → evalTaken cfg n d es s = .done vs s'

namespace Relocates

variable {cfg : Setting σ} {n depth : Nat} {s s' : RunState σ}

/-- A step of evaluating an expression that calls nothing can be made at another depth. -/
theorem eval_succ (hchecked : cfg.isRaw = false) (ih : Relocates cfg n) {e : Expr} {v : Value}
    (he : e.callsNothing = true) (h : Primer.eval cfg (n + 1) depth e s = .done v s') :
    depth + e.height ≤ maxEvalDepth ∧
      ∀ d, d + e.height ≤ maxEvalDepth → Primer.eval cfg (n + 1) d e s = .done v s' := by
  by_cases hdeep : maxEvalDepth ≤ depth
  · simp only [Primer.eval, if_pos hdeep] at h
    cases h
  · cases e with
    | number | string | boolean | null | name =>
      simp only [Primer.eval, if_neg hdeep] at h
      constructor
      · simp only [Expr.height]
        omega
      · intro d hd
        simp only [Expr.height] at hd
        simp only [Primer.eval, if_neg (show ¬maxEvalDepth ≤ d by omega)]
        exact h
    | call => cases he
    | member info object property =>
      simp only [Expr.callsNothing] at he
      simp only [Primer.eval, if_neg hdeep] at h
      obtain ⟨o, s₁, ho, haction⟩ := Run.bind_eq_done h
      obtain ⟨hfits, hmoved⟩ := ih.eval he ho
      simp only [Expr.height]
      constructor
      · omega
      · intro d hd
        simp only [Primer.eval, if_neg (show ¬maxEvalDepth ≤ d by omega)]
        rw [Run.bind_of_done (hmoved (d + 1) (by omega))]
        exact haction
    | element info base position =>
      simp only [Expr.callsNothing, Bool.and_eq_true] at he
      simp only [Primer.eval, if_neg hdeep] at h
      obtain ⟨a, s₁, ha, hrest⟩ := Run.bind_eq_done h
      obtain ⟨i, s₂, hi, haction⟩ := Run.bind_eq_done hrest
      obtain ⟨hbase, hbaseMoved⟩ := ih.eval he.1 ha
      obtain ⟨hposition, hpositionMoved⟩ := ih.eval he.2 hi
      simp only [Expr.height]
      constructor
      · omega
      · intro d hd
        simp only [Primer.eval, if_neg (show ¬maxEvalDepth ≤ d by omega)]
        rw [Run.bind_of_done (hbaseMoved (d + 1) (by omega)), Run.bind_of_done (hpositionMoved (d + 1) (by omega))]
        exact haction
    | array info items =>
      simp only [Expr.callsNothing] at he
      simp only [Primer.eval, if_neg hdeep] at h
      split at h
      · cases h
      case isFalse hshort =>
        obtain ⟨vs, s₁, hvs, haction⟩ := Run.bind_eq_done h
        obtain ⟨hfits, hmoved⟩ := ih.evalTaken he hvs (by omega)
        simp only [Expr.height]
        constructor
        · omega
        · intro d hd
          simp only [Primer.eval, if_neg (show ¬maxEvalDepth ≤ d by omega), if_neg hshort]
          rw [Run.bind_of_done (hmoved (d + 1) (by omega))]
          exact haction
    | binary info left symbol right =>
      simp only [Expr.callsNothing, Bool.and_eq_true] at he
      simp only [Primer.eval, if_neg hdeep, hchecked, Bool.false_and, Bool.false_eq_true, if_false] at h
      obtain ⟨a, s₁, ha, hrest⟩ := Run.bind_eq_done h
      obtain ⟨b, s₂, hb, haction⟩ := Run.bind_eq_done hrest
      obtain ⟨hleft, hleftMoved⟩ := ih.eval he.1 ha
      obtain ⟨hright, hrightMoved⟩ := ih.eval he.2 hb
      simp only [Expr.height]
      constructor
      · omega
      · intro d hd
        simp only [Primer.eval, if_neg (show ¬maxEvalDepth ≤ d by omega), hchecked, Bool.false_and,
          Bool.false_eq_true, if_false]
        rw [Run.bind_of_done (hleftMoved (d + 1) (by omega)), Run.bind_of_done (hrightMoved (d + 1) (by omega))]
        exact haction
    | unary info symbol operand =>
      simp only [Expr.callsNothing] at he
      simp only [Primer.eval, if_neg hdeep] at h
      obtain ⟨a, s₁, ha, haction⟩ := Run.bind_eq_done h
      obtain ⟨hfits, hmoved⟩ := ih.eval he ha
      simp only [Expr.height]
      constructor
      · omega
      · intro d hd
        simp only [Primer.eval, if_neg (show ¬maxEvalDepth ≤ d by omega)]
        rw [Run.bind_of_done (hmoved (d + 1) (by omega))]
        exact haction

/-- A step of taking expressions that call nothing can be made at another depth. -/
theorem evalTaken_succ (ih : Relocates cfg n) {es : List Expr} {vs : List Value} (hes : Expr.allCallNothing es = true)
    (h : Primer.evalTaken cfg (n + 1) depth es s = .done vs s') (hdepth : depth ≤ maxEvalDepth) :
    depth + Expr.heightAll es ≤ maxEvalDepth ∧
      ∀ d, d + Expr.heightAll es ≤ maxEvalDepth → Primer.evalTaken cfg (n + 1) d es s = .done vs s' := by
  cases es with
  | nil => exact ⟨hdepth, fun d _ => h⟩
  | cons e es =>
    simp only [Expr.allCallNothing, Bool.and_eq_true] at hes
    simp only [Primer.evalTaken] at h
    obtain ⟨v, s₁, hv, hrest⟩ := Run.bind_eq_done h
    obtain ⟨w, s₂, hw, hlater⟩ := Run.bind_eq_done hrest
    obtain ⟨ws, s₃, hws, hlast⟩ := Run.bind_eq_done hlater
    obtain ⟨hfirst, hfirstMoved⟩ := ih.eval hes.1 hv
    obtain ⟨hothers, hothersMoved⟩ := ih.evalTaken hes.2 hws hdepth
    simp only [Expr.heightAll]
    constructor
    · omega
    · intro d hd
      simp only [Primer.evalTaken]
      rw [Run.bind_of_done (hfirstMoved d (by omega)), Run.bind_of_done hw,
        Run.bind_of_done (hothersMoved d (by omega))]
      exact hlast

/-- An expression that calls nothing is evaluated alike at every depth that leaves room for its height. -/
theorem all (hchecked : cfg.isRaw = false) (n : Nat) : Relocates cfg n := by
  induction n with
  | zero =>
    constructor
    · intro depth e v s s' _ h
      cases h
    · intro depth es vs s s' _ h
      cases h
  | succ n ih => exact ⟨ih.eval_succ hchecked, ih.evalTaken_succ⟩

end Relocates

/-- An expression that calls nothing and is done one expression deeper is done here, and the other way round if its
height leaves room for it. -/
theorem eval_at_depth {cfg : Setting σ} (hchecked : cfg.isRaw = false) {n depth : Nat} {e : Expr}
    (he : e.callsNothing = true) {v : Value} {s s' : RunState σ} :
    eval cfg n (depth + 1) e s = .done v s' ↔
      eval cfg n depth e s = .done v s' ∧ depth + 1 + e.height ≤ maxEvalDepth := by
  have hall : Relocates cfg n := .all hchecked n
  constructor
  · intro h
    obtain ⟨hfits, hmoved⟩ := hall.eval he h
    exact ⟨hmoved depth (by omega), hfits⟩
  · rintro ⟨h, hfits⟩
    exact (hall.eval he h).2 (depth + 1) hfits

end Primer
