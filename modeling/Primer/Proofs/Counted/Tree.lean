import Primer.Proofs.Locals.Tree
import Primer.Proofs.Print.Rebuild

/-!
# Loops that count

A loop counts if it has a variable of its own, a small number at first, that goes up to a bound or down to zero by one
in every round and that nothing else in its body mentions. A `for` loop starts its counter itself; that of a `while`
loop is started by the statement before the loop, and goes down at the end of the body.

Neither the places and numbers of nodes nor the way a number is written matter for this, so it can be decided on a
tree without them (`Stmt.counted_bare`).
-/

set_option autoImplicit false

namespace Primer

/-! ## Counters -/

/-- How far counters count. -/
def countLimit : Nat := 5

/-- A declaration of a variable that starts as a number. -/
def Stmt.StartsCounter (x : String) (k : Nat) : Stmt → Prop
  | .var _ [⟨_, y, some ⟨_, .name _ y', symbol, .number _ value _⟩⟩] =>
    y = x ∧ y' = x ∧ symbol = "=" ∧ value = Float.ofNat k
  | _ => False

/-- A comparison of a variable with a number. -/
def Expr.ComparesCounter (x symbol : String) (k : Nat) : Expr → Prop
  | .binary _ (.name _ y) symbol' (.number _ value _) => y = x ∧ symbol' = symbol ∧ value = Float.ofNat k
  | _ => False

/-- A step up or down of a variable. -/
def Stmt.MovesCounter (x symbol : String) : Stmt → Prop
  | .bump _ (.name _ y) symbol' => y = x ∧ symbol' = symbol
  | _ => False

/-- All names in a statement are other ones. -/
abbrev Stmt.Avoids (x : String) (s : Stmt) : Prop := s.Within (· ≠ x) fun _ => True

/-- All names in several statements are other ones. -/
abbrev Stmt.AllAvoid (x : String) (body : List Stmt) : Prop := Stmt.AllWithin (· ≠ x) (fun _ => True) body

/-- Statements of which the last one takes a variable down, while the others do not mention it. -/
def Stmt.LowersCounter (x : String) : List Stmt → Prop
  | [] => False
  | [s] => s.MovesCounter x "--"
  | s :: rest => s.Avoids x ∧ Stmt.LowersCounter x rest

/-! ## Counted loops -/

/-- The header of a loop that counts up. -/
def Stmt.CountsUp (own : String → Prop) (first : Option Stmt) (test : Expr) (update : Option Stmt)
    (body : List Stmt) : Prop :=
  ∃ x k, own x ∧ k ≤ countLimit ∧ (∃ s ∈ first, s.StartsCounter x 0) ∧ test.ComparesCounter x "<" k ∧
    (∃ s ∈ update, s.MovesCounter x "++") ∧ Stmt.AllAvoid x body

/-- A loop that counts down, behind the statement that starts its counter. -/
def Stmt.CountsDown (own : String → Prop) (last : Option Stmt) (test : Expr) (body : List Stmt) : Prop :=
  ∃ x k, own x ∧ k ≤ countLimit ∧ (∃ s ∈ last, s.StartsCounter x k) ∧ test.ComparesCounter x ">" 0 ∧
    Stmt.LowersCounter x body

mutual

/-- All loops in a statement count, with counters of a kind, if some statement stands before it. -/
def Stmt.Counted (own : String → Prop) (last : Option Stmt) : Stmt → Prop
  | .cond _ _ body branch => Stmt.AllCounted own none body ∧ Stmt.BranchCounted own branch
  | .elseIf _ _ _ body branch => Stmt.AllCounted own none body ∧ Stmt.BranchCounted own branch
  | .orElse _ body => Stmt.AllCounted own none body
  | .while _ test body => Stmt.CountsDown own last test body ∧ Stmt.AllCounted own none body
  | .for _ first test update body => Stmt.CountsUp own first test update body ∧ Stmt.AllCounted own none body
  | .var .. | .declared _ | .assign _ | .bump .. | .call .. | .function .. | .return .. => True

/-- All loops below a conditional count. -/
def Stmt.BranchCounted (own : String → Prop) : Option Stmt → Prop
  | none => True
  | some s => s.Counted own none

/-- All loops in several statements count. -/
def Stmt.AllCounted (own : String → Prop) (last : Option Stmt) : List Stmt → Prop
  | [] => True
  | s :: rest => s.Counted own last ∧ Stmt.AllCounted own (some s) rest

end

/-! ## Names in bare trees -/

section Within

variable {N : String → Prop}

mutual

/-- The names of an expression do not depend on its places. -/
@[simp]
theorem Expr.within_bare : (e : Expr) → e.bare.Within N = e.Within N
  | .number .. | .string .. | .boolean .. | .null .. | .name .. => rfl
  | .member _ object _ => by
    rw [Expr.bare, Expr.Within, Expr.Within, Expr.within_bare object]
  | .element _ base position => by
    rw [Expr.bare, Expr.Within, Expr.Within, Expr.within_bare base, Expr.within_bare position]
  | .call _ callee args => by
    rw [Expr.bare, Expr.Within, Expr.Within, Expr.within_bare callee, Expr.allWithin_allBare args]
  | .array _ items => by
    rw [Expr.bare, Expr.Within, Expr.Within, Expr.allWithin_allBare items]
  | .binary _ left _ right => by
    rw [Expr.bare, Expr.Within, Expr.Within, Expr.within_bare left, Expr.within_bare right]
  | .unary _ _ operand => by
    rw [Expr.bare, Expr.Within, Expr.Within, Expr.within_bare operand]

/-- The names of several expressions do not depend on their places. -/
@[simp]
theorem Expr.allWithin_allBare : (es : List Expr) → Expr.AllWithin N (Expr.allBare es) = Expr.AllWithin N es
  | [] => rfl
  | e :: es => by
    rw [Expr.allBare, Expr.AllWithin, Expr.AllWithin, Expr.within_bare e, Expr.allWithin_allBare es]

end

/-- The names of an assignment do not depend on its places. -/
@[simp]
theorem Assignment.within_bare (a : Assignment) : a.bare.Within N = a.Within N := by
  simp only [Assignment.bare, Assignment.Within, Expr.within_bare]

/-- A declared name does not depend on its places. -/
@[simp]
theorem Declared.within_bare (d : Declared) : d.bare.Within N = d.Within N := by
  rcases d with ⟨i, name, _ | a⟩ <;> simp [Declared.bare, Declared.Within]

variable {B B' : List Stmt → Prop}

mutual

/-- The names of a statement do not depend on its places. -/
theorem Stmt.within_bare (hB : ∀ body, B (Stmt.allBare body) = B' body) :
    (s : Stmt) → s.bare.Within N B = s.Within N B'
  | .var _ names => by simp [Stmt.bare, Stmt.Within]
  | .declared d => by simp [Stmt.bare, Stmt.Within]
  | .assign a => by simp [Stmt.bare, Stmt.Within]
  | .bump _ target _ => by simp [Stmt.bare, Stmt.Within]
  | .call _ c => by simp [Stmt.bare, Stmt.Within, Call.toExpr, Call.bare, Expr.Within]
  | .cond _ test body branch => by
    simp [Stmt.bare, Stmt.Within, Stmt.allWithin_allBare hB body, Stmt.partWithin_bareIn hB branch]
  | .elseIf _ _ test body branch => by
    simp [Stmt.bare, Stmt.Within, Stmt.allWithin_allBare hB body, Stmt.partWithin_bareIn hB branch]
  | .orElse _ body => by simp [Stmt.bare, Stmt.Within, Stmt.allWithin_allBare hB body]
  | .while _ test body => by simp [Stmt.bare, Stmt.Within, Stmt.allWithin_allBare hB body]
  | .for _ first test update body => by
    simp [Stmt.bare, Stmt.Within, Stmt.allWithin_allBare hB body, Stmt.partWithin_bareIn hB first,
      Stmt.partWithin_bareIn hB update]
  | .function _ name params body => by simp [Stmt.bare, Stmt.Within, hB]
  | .return _ value => by simp [Stmt.bare, Stmt.Within]

/-- The names of a part of a statement do not depend on its places. -/
theorem Stmt.partWithin_bareIn (hB : ∀ body, B (Stmt.allBare body) = B' body) :
    (part : Option Stmt) → Stmt.PartWithin N B (Stmt.bareIn part) = Stmt.PartWithin N B' part
  | none => rfl
  | some s => by rw [Stmt.bareIn, Stmt.PartWithin, Stmt.PartWithin, Stmt.within_bare hB s]

/-- The names of a body do not depend on its places. -/
theorem Stmt.allWithin_allBare (hB : ∀ body, B (Stmt.allBare body) = B' body) :
    (body : List Stmt) → Stmt.AllWithin N B (Stmt.allBare body) = Stmt.AllWithin N B' body
  | [] => rfl
  | s :: rest => by
    rw [Stmt.allBare, Stmt.AllWithin, Stmt.AllWithin, Stmt.within_bare hB s, Stmt.allWithin_allBare hB rest]

end

end Within

/-! ## Counters in bare trees -/

/-- Whether a statement starts a counter does not depend on its places. -/
theorem Stmt.startsCounter_bare (x : String) (k : Nat) (s : Stmt) :
    s.bare.StartsCounter x k = s.StartsCounter x k := by
  cases s
  case var i names =>
    rcases names with _ | ⟨⟨j, name, _ | ⟨l, target, symbol, value⟩⟩, _ | ⟨d, ds⟩⟩
    case cons.some.nil | cons.some.cons => cases target <;> cases value <;> rfl
    all_goals rfl
  all_goals rfl

/-- Whether an expression compares a counter does not depend on its places. -/
theorem Expr.comparesCounter_bare (x symbol : String) (k : Nat) (e : Expr) :
    e.bare.ComparesCounter x symbol k = e.ComparesCounter x symbol k := by
  cases e
  case binary i left symbol' right => cases left <;> cases right <;> rfl
  all_goals rfl

/-- Whether a statement moves a counter does not depend on its places. -/
theorem Stmt.movesCounter_bare (x symbol : String) (s : Stmt) :
    s.bare.MovesCounter x symbol = s.MovesCounter x symbol := by
  cases s
  case bump i target symbol' => cases target <;> rfl
  all_goals rfl

/-- Whether a body lowers a counter does not depend on its places. -/
theorem Stmt.lowersCounter_allBare (x : String) (body : List Stmt) :
    Stmt.LowersCounter x (Stmt.allBare body) = Stmt.LowersCounter x body := by
  induction body with
  | nil => rfl
  | cons s rest ih =>
    cases rest with
    | nil => exact s.movesCounter_bare x "--"
    | cons s' rest =>
      show (s.bare.Avoids x ∧ Stmt.LowersCounter x (Stmt.allBare (s' :: rest))) = _
      rw [ih, Stmt.Avoids, Stmt.within_bare (fun _ => rfl)]
      rfl

/-- Whether a part starts a counter does not depend on its places. -/
theorem Stmt.bareIn_startsCounter (x : String) (k : Nat) (part : Option Stmt) :
    (∃ s ∈ Stmt.bareIn part, s.StartsCounter x k) = ∃ s ∈ part, s.StartsCounter x k := by
  cases part with
  | none => rfl
  | some s => simp [Stmt.bareIn, Stmt.startsCounter_bare]

/-- Whether a part moves a counter does not depend on its places. -/
theorem Stmt.bareIn_movesCounter (x symbol : String) (part : Option Stmt) :
    (∃ s ∈ Stmt.bareIn part, s.MovesCounter x symbol) = ∃ s ∈ part, s.MovesCounter x symbol := by
  cases part with
  | none => rfl
  | some s => simp [Stmt.bareIn, Stmt.movesCounter_bare]

section Counted

variable {own : String → Prop}

mutual

/-- Whether the loops in a statement count can be decided without the numbers and places of its nodes. -/
theorem Stmt.counted_bare (last : Option Stmt) :
    (s : Stmt) → s.bare.Counted own (Stmt.bareIn last) = s.Counted own last
  | .var .. | .declared _ | .assign _ | .bump .. | .call .. | .function .. | .return .. => rfl
  | .cond _ _ body branch => by
    rw [Stmt.bare, Stmt.Counted, Stmt.Counted, Stmt.branchCounted_bareIn branch]
    exact congrArg (· ∧ _) (Stmt.allCounted_allBare none body)
  | .elseIf _ _ _ body branch => by
    rw [Stmt.bare, Stmt.Counted, Stmt.Counted, Stmt.branchCounted_bareIn branch]
    exact congrArg (· ∧ _) (Stmt.allCounted_allBare none body)
  | .orElse _ body => Stmt.allCounted_allBare none body
  | .while _ test body => by
    have hbody := Stmt.allCounted_allBare none body
    rw [Stmt.bareIn] at hbody
    rw [Stmt.bare, Stmt.Counted, Stmt.Counted, Stmt.CountsDown, Stmt.CountsDown, hbody]
    simp only [Stmt.bareIn_startsCounter, Expr.comparesCounter_bare, Stmt.lowersCounter_allBare]
  | .for _ first test update body => by
    have hbody := Stmt.allCounted_allBare none body
    rw [Stmt.bareIn] at hbody
    have havoid (x : String) : Stmt.AllAvoid x (Stmt.allBare body) = Stmt.AllAvoid x body :=
      Stmt.allWithin_allBare (fun _ => rfl) body
    rw [Stmt.bare, Stmt.Counted, Stmt.Counted, Stmt.CountsUp, Stmt.CountsUp, hbody]
    simp only [Stmt.bareIn_startsCounter, Stmt.bareIn_movesCounter, Expr.comparesCounter_bare, havoid]

/-- Whether the loops of a branch are counted does not depend on its places. -/
theorem Stmt.branchCounted_bareIn :
    (branch : Option Stmt) → Stmt.BranchCounted own (Stmt.bareIn branch) = Stmt.BranchCounted own branch
  | none => rfl
  | some s => Stmt.counted_bare none s

/-- Whether the loops of a body are counted does not depend on its places. -/
theorem Stmt.allCounted_allBare (last : Option Stmt) :
    (body : List Stmt) → Stmt.AllCounted own (Stmt.bareIn last) (Stmt.allBare body) = Stmt.AllCounted own last body
  | [] => rfl
  | s :: rest => by
    have hrest := Stmt.allCounted_allBare (some s) rest
    rw [Stmt.bareIn] at hrest
    rw [Stmt.allBare, Stmt.AllCounted, Stmt.AllCounted, Stmt.counted_bare last s, hrest]

end

end Counted

end Primer
