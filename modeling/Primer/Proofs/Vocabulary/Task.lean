import Primer.Proofs.Vocabulary.Plan

/-!
# Tasks and the tags that they record

A task on a tree that the engine handles asks for tasks on parts of that tree, and where it calls a function, for one
on the body of a function that is known. So whatever is begun in a task is accounted for, however long it runs
(`Task.speaks`).
-/

set_option autoImplicit false

namespace Primer

open Run
open Plan.Speaks (andThen act pure ite)

variable {σ α : Type} {H : HostFunction → Prop}

/-- No statement has returned anything yet. -/
theorem known_none : ∀ v ∈ (none : Option Value), (Value.Kind.known H).has v := nofun

/-- A returned value of the kind is of the kind. -/
theorem known_some {v : Value} (hv : (Value.Kind.known H).has v) : ∀ w ∈ some v, (Value.Kind.known H).has w := by
  rintro _ ⟨⟩
  exact hv

section Tasks

variable {cfg : Setting σ} {n : Nat} (hhosts : cfg.hosts.Give (.known H))
  (hasks : ∀ {α : Type} (t : Task σ α), t.Known H → (Plan.ask t).Speaks cfg n H (t.Finds H))

include hhosts hasks

/-- Evaluating a handled expression keeps to the vocabulary. -/
theorem Expr.plan_speaks (depth : Nat) {e : Expr} (he : e.isHandled = true) :
    (e.plan cfg depth).Speaks cfg n H (Value.Kind.known H).has := by
  cases e with
  | number | string | boolean | null => exact pure trivial
  | name i x => exact act (.nameAction i x)
  | member i object property =>
    refine andThen (hasks (.eval (depth + 1) object) he) ?_
    intro o ho
    exact act (.memberAction hhosts i object property ho)
  | element i base position =>
    simp only [Expr.isHandled, Bool.and_eq_true] at he
    refine andThen (hasks (.eval (depth + 1) base) he.1) ?_
    intro a ha
    refine andThen (hasks (.eval (depth + 1) position) he.2) ?_
    intro j hj
    exact act (.elementAction hhosts i base position ha hj)
  | call i callee args =>
    simp only [Expr.isHandled, Bool.and_eq_true] at he
    refine andThen (hasks (.eval (depth + 1) callee) he.1) ?_
    intro f hf
    refine andThen (hasks (.evalAll (depth + 1) args) he.2) ?_
    intro vs hvs
    exact hasks (.call (depth + 1) i callee args f vs) ⟨hf, hvs⟩
  | array i items =>
    refine ite (.raise ..) (andThen (hasks (.evalTaken (depth + 1) items) he) ?_)
    intro vs hvs
    exact act (.onMemory fun m hm => ⟨trivial, hm.allocAll hvs⟩)
  | binary i left symbol right =>
    simp only [Expr.isHandled, Bool.and_eq_true] at he
    obtain ⟨⟨hsymbol, hleft⟩, hright⟩ := he
    refine ite (hasks (.evalLogical (depth + 1) left symbol right) ⟨hleft, hright⟩) ?_
    refine andThen (hasks (.eval (depth + 1) left) hleft) ?_
    intro a ha
    refine andThen (hasks (.eval (depth + 1) right) hright) ?_
    intro b hb
    exact .binary hhosts i left hsymbol right ha hb
  | unary i symbol operand =>
    simp only [Expr.isHandled, Bool.and_eq_true] at he
    refine andThen (hasks (.eval (depth + 1) operand) he.2) ?_
    intro a ha
    exact .unary hhosts i symbol operand ha

/-- Executing a handled statement keeps to the vocabulary. -/
theorem Stmt.plan_speaks (depth : Nat) {stmt : Stmt} (hstmt : stmt.isHandled = true) :
    (stmt.plan cfg depth).Speaks cfg n H fun returned => ∀ v ∈ returned, (Value.Kind.known H).has v := by
  cases stmt with
  | var i names => exact andThen (hasks (.execDeclared depth names) hstmt) fun _ _ => pure known_none
  | assign a => exact andThen (hasks (.execAssign depth a) hstmt) fun _ _ => pure known_none
  | bump i target symbol =>
    apply andThen (hasks (.eval depth target) hstmt)
    intro p hp
    apply andThen (.bump hhosts i target symbol hp)
    intro v hv
    apply andThen (hasks (.store depth i target p v) hv)
    intro _ _
    exact andThen (.narrate ..) fun _ _ => pure known_none
  | call i c => exact andThen (hasks (.eval depth c.toExpr) hstmt) fun _ _ => pure known_none
  | cond i test body branch =>
    simp only [Stmt.isHandled, Bool.and_eq_true, and_assoc] at hstmt
    exact hasks (.execCond depth i test body branch) hstmt
  | «while» i test body =>
    simp only [Stmt.isHandled, Bool.and_eq_true] at hstmt
    exact hasks (.execLoop depth i "while" test none body) ⟨by decide, hstmt.1, rfl, hstmt.2⟩
  | «for» i first test update body =>
    simp only [Stmt.isHandled, Bool.and_eq_true, and_assoc] at hstmt
    obtain ⟨hfirst, hloop⟩ := hstmt
    have hrounds := hasks (.execLoop depth i "for" test update body) ⟨by decide, hloop⟩
    cases first with
    | none => exact hrounds
    | some s => exact andThen (hasks (.exec depth s) hfirst) fun _ _ => hrounds
  | function i name params body => exact andThen (.function i name params hstmt) fun _ _ => pure known_none
  | «return» i value =>
    apply hasks (.execReturn depth i value)
    intro e he
    cases he
    exact hstmt
  | declared | elseIf | orElse => cases hstmt

/-- A host that is called explains its tag, and any other call has a tag of the language. -/
theorem Plan.Speaks.callValue (depth : Nat) (i : Info) (callee : Expr) {f : Value} (hf : (Value.Kind.known H).has f)
    {args : List Value} (hargs : ∀ v ∈ args, (Value.Kind.known H).has v) :
    (Plan.callValue depth i callee f args).Speaks cfg n H (Value.Kind.known H).has := by
  cases f
  case function g =>
    apply andThen (.record i (by decide))
    intro _ _
    exact hasks (.callFunction depth i g args) ⟨hf, hargs⟩
  case hostFunction g => exact .callHost hhosts depth i callee hf args
  all_goals exact andThen (.record i (by decide)) fun _ _ => .raise ..

/-- The unchecked logical operators keep to the vocabulary. -/
theorem Task.evalLogical_speaks (depth : Nat) {left : Expr} {symbol : String} {right : Expr}
    (ht : (Task.evalLogical depth left symbol right : Task σ _).Known H) :
    ((Task.evalLogical depth left symbol right).plan cfg).Speaks cfg n H (Value.Kind.known H).has := by
  obtain ⟨hleft, hright⟩ := ht
  apply andThen (hasks (.eval depth left) hleft)
  intro a ha
  apply andThen (act (.takeUnchecked hhosts left ha))
  intro x hx
  apply andThen .asks
  intro decided _
  refine ite (pure hx) ?_
  apply andThen (hasks (.eval depth right) hright)
  intro b hb
  exact act (.takeUnchecked hhosts right hb)

/-- A call keeps to the vocabulary, whatever is called. -/
theorem Task.call_speaks (depth : Nat) {i : Info} {callee : Expr} {args : List Expr} {f : Value} {given : List Value}
    (ht : (Task.call depth i callee args f given : Task σ _).Known H) :
    ((Task.call depth i callee args f given).plan cfg).Speaks cfg n H (Value.Kind.known H).has := by
  apply andThen (.take hhosts callee ht.1)
  intro f hf
  apply andThen (act (.takeAll hhosts args ht.2))
  intro values hvalues
  apply andThen .asks
  intro label _
  apply andThen (.narrate ..)
  intro _ _
  apply andThen (act (.enterCall cfg i))
  intro _ _
  apply andThen (.callValue hhosts hasks depth i callee hf hvalues)
  intro result hresult
  exact andThen (act .leaveCall) fun _ _ => .callResult i label hresult

/-- A conditional keeps to the vocabulary in all its branches. -/
theorem Task.execCond_speaks (depth : Nat) {i : Info} {test : Expr} {body : List Stmt} {branch : Option Stmt}
    (ht : (Task.execCond depth i test body branch : Task σ _).Known H) :
    ((Task.execCond depth i test body branch).plan cfg).Speaks cfg n H
      fun returned => ∀ v ∈ returned, (Value.Kind.known H).has v := by
  obtain ⟨htest, hbody, hbranch⟩ := ht
  apply andThen (hasks (.eval depth test) htest)
  intro c hc
  apply andThen (.test hhosts i (by decide) test hc)
  intro holds _
  refine ite (hasks (.execAll depth body) hbody) ?_
  rcases branch with _ | branch
  · exact pure known_none
  · cases branch
    case elseIf outer inner test body branch =>
      simp only [Stmt.isHandledBranch, Bool.and_eq_true, and_assoc] at hbranch
      apply andThen (.record outer (by decide))
      intro _ _
      exact hasks (.execCond depth inner test body branch) hbranch
    case orElse outer body =>
      exact andThen (.record outer (by decide)) fun _ _ => hasks (.execAll depth body) hbranch
    all_goals exact pure known_none

/-- A loop keeps to the vocabulary, the rounds to come among the tasks in it. -/
theorem Task.execLoop_speaks (depth : Nat) {i : Info} {tag : String} {test : Expr} {update : Option Stmt}
    {body : List Stmt}
    (ht : (Task.execLoop depth i tag test update body : Task σ _).Known H) :
    ((Task.execLoop depth i tag test update body).plan cfg).Speaks cfg n H
      fun returned => ∀ v ∈ returned, (Value.Kind.known H).has v := by
  have hrounds := hasks (.execLoop depth i tag test update body) ht
  obtain ⟨htag, htest, hupdate, hbody⟩ := ht
  apply andThen (.tick i)
  intro _ _
  apply andThen (hasks (.eval depth test) htest)
  intro c hc
  apply andThen (.test hhosts i htag test hc)
  intro holds _
  refine ite ?_ (pure known_none)
  apply andThen (hasks (.execAll depth body) hbody)
  intro returned hreturned
  cases returned with
  | some v => exact pure hreturned
  | none =>
    cases update with
    | none => exact hrounds
    | some s => exact andThen (hasks (.exec depth s) hupdate) fun _ _ => hrounds

/-- A `return` keeps to the vocabulary. -/
theorem Task.execReturn_speaks (depth : Nat) {i : Info} {value : Option Expr}
    (ht : (Task.execReturn depth i value : Task σ _).Known H) :
    ((Task.execReturn depth i value).plan cfg).Speaks cfg n H
      fun returned => ∀ v ∈ returned, (Value.Kind.known H).has v := by
  apply andThen (.record i (by decide))
  intro _ _
  apply andThen .asks
  intro outside _
  refine ite (.raise ..) ?_
  cases value with
  | none => exact pure (known_some Value.Kind.undefined)
  | some e =>
    apply andThen (hasks (.eval depth e) (ht e rfl))
    intro v hv
    apply andThen (.take hhosts e hv)
    intro w hw
    exact andThen (.narrate ..) fun _ _ => pure (known_some hw)

/-- Every known task keeps to the vocabulary, if the tasks it asks for do. -/
theorem Task.plan_speaks (t : Task σ α) (ht : t.Known H) : (t.plan cfg).Speaks cfg n H (t.Finds H) := by
  cases t with
  | eval depth e => exact ite (.raise ..) (e.plan_speaks hhosts hasks depth ht)
  | evalAll depth es =>
    cases es with
    | nil => exact pure fun v hv => absurd hv List.not_mem_nil
    | cons e es =>
      simp only [Task.Known, Expr.allHandled, Bool.and_eq_true] at ht
      apply andThen (hasks (.eval depth e) ht.1)
      intro v hv
      apply andThen (hasks (.evalAll depth es) ht.2)
      intro vs hvs
      exact pure (List.forall_mem_cons.mpr ⟨hv, hvs⟩)
  | evalTaken depth es =>
    cases es with
    | nil => exact pure fun v hv => absurd hv List.not_mem_nil
    | cons e es =>
      simp only [Task.Known, Expr.allHandled, Bool.and_eq_true] at ht
      apply andThen (hasks (.eval depth e) ht.1)
      intro v hv
      apply andThen (.take hhosts e hv)
      intro w hw
      apply andThen (hasks (.evalTaken depth es) ht.2)
      intro ws hws
      exact pure (List.forall_mem_cons.mpr ⟨hw, hws⟩)
  | evalLogical depth left symbol right => exact Task.evalLogical_speaks hhosts hasks depth ht
  | call depth i callee args f given => exact Task.call_speaks hhosts hasks depth ht
  | callFunction depth i f args =>
    exact andThen (.enterFunction i f ht.2) fun _ _ => .inFrame (hasks (.execAll depth f.body) ht.1)
  | store depth i target place v =>
    cases place
    case hostVariable w => exact andThen (.hostSet hhosts depth i target w.key v) fun _ _ => pure trivial
    all_goals exact act (.assignPlace i target _ ht)
  | execAll depth body =>
    cases body with
    | nil => exact pure known_none
    | cons s rest =>
      simp only [Task.Known, Stmt.allHandled, Bool.and_eq_true] at ht
      apply andThen (hasks (.exec depth s) ht.1)
      intro returned hreturned
      cases returned with
      | some v => exact pure hreturned
      | none => exact hasks (.execAll depth rest) ht.2
  | exec depth stmt => exact andThen (.tick _) fun _ _ => stmt.plan_speaks hhosts hasks depth ht
  | execDeclared depth names =>
    cases names with
    | nil => exact pure trivial
    | cons d ds =>
      simp only [Task.Known, List.all_cons, Bool.and_eq_true] at ht
      obtain ⟨hfirst, hds⟩ := ht
      apply andThen (.declared d)
      intro _ _
      rcases d with ⟨i, name, _ | a⟩
      · exact hasks (.execDeclared depth ds) hds
      · apply andThen (hasks (.execAssign depth a) hfirst)
        intro _ _
        exact hasks (.execDeclared depth ds) hds
  | execAssign depth a =>
    simp only [Task.Known, Assignment.isHandled, Bool.and_eq_true] at ht
    obtain ⟨⟨hsymbol, htarget⟩, hvalue⟩ := ht
    apply andThen (hasks (.eval depth a.target) htarget)
    intro p hp
    apply andThen (hasks (.eval depth a.value) hvalue)
    intro given hgiven
    apply andThen (.assigned hhosts hsymbol hp hgiven)
    intro v hv
    exact andThen (hasks (.store depth a.info a.target p v) hv) fun _ _ => .narrate ..
  | execCond depth i test body branch => exact Task.execCond_speaks hhosts hasks depth ht
  | execLoop depth i tag test update body => exact Task.execLoop_speaks hhosts hasks depth ht
  | execReturn depth i value => exact Task.execReturn_speaks hhosts hasks depth ht
end Tasks

/-- A task on what is known accounts for all that is begun in it, whatever bound its recursion has. -/
theorem Task.speaks {cfg : Setting σ} (hhosts : cfg.hosts.Give (.known H)) (n : Nat) (t : Task σ α) (ht : t.Known H) :
    (Plan.ask t).Speaks cfg n H (t.Finds H) := by
  -- The tasks in a plan run with a bound that is smaller by one.
  induction n generalizing α t with
  | zero =>
    refine ⟨.never ?_, ?_⟩
    · intro s a u hdone
      have hzero : (Plan.ask t).run cfg 0 s = .exhausted := by cases t <;> rfl
      rw [hzero] at hdone
      cases hdone
    · intro s k γ q u hs h
      cases h with
      | here => exact ht
  | succ n ih =>
    have hplan := t.plan_speaks hhosts (fun t ht => ih t ht) ht
    have hrun : (Plan.ask t).run cfg (n + 1) = (t.plan cfg).run cfg n := t.run_succ cfg n
    constructor
    · rw [hrun]
      exact hplan.gives
    · intro s k γ q u hs h
      cases h with
      | here => exact ht
      | ask h => exact (hplan.begins s k γ q u hs h).imp fun _ => .ask

end Primer
