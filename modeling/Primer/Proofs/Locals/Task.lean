import Primer.Proofs.Locals.Plan

/-!
# Tasks beside a reserve

A task that mentions only names which may be mentioned, and works with places and values that are not set apart,
asks for tasks of that kind only. All of them keep the reserve, however long the run is (`Task.keeps`): a function that
is called runs one level above its caller, where only the names of its body count.
-/

set_option autoImplicit false

namespace Primer

open Run
open Plan.Keeps (andThen act pure ite)

variable {σ α : Type} {K : Reserve}

/-- No statement has returned anything yet. -/
theorem stored_none : ∀ v ∈ (none : Option Value), v.Stored K := nofun

/-- A returned value that may be stored is one. -/
theorem stored_some {v : Value} (hv : v.Stored K) : ∀ w ∈ some v, w.Stored K := by
  rintro _ ⟨⟩
  exact hv

section Tasks

variable {cfg : Setting σ} {n ℓ : Nat} (hhosts : cfg.hosts.Apart) (hK : K.checked = !cfg.isRaw)
  (hasks : ∀ {α : Type} (ℓ : Nat) (t : Task σ α), t.Within K ℓ → (Plan.ask t).KeepsAt cfg n K ℓ (t.Leaves K))

include hhosts hK hasks

/-- Evaluating an expression with names of its level guards the reserve. -/
theorem Expr.plan_keeps (depth : Nat) {e : Expr} (he : e.Within (K.names ℓ)) :
    (e.plan cfg depth).KeepsAt cfg n K ℓ (Value.Given K) := by
  cases e with
  | number | string | boolean | null => exact pure (.plain nofun nofun nofun nofun)
  | name i x => exact act (.nameAction i he)
  | member i object property =>
    refine andThen (hasks ℓ (.eval (depth + 1) object) he) ?_
    intro o ho
    exact act (.memberAction hhosts hK i object property ho)
  | element i base position =>
    refine andThen (hasks ℓ (.eval (depth + 1) base) he.1) ?_
    intro a ha
    refine andThen (hasks ℓ (.eval (depth + 1) position) he.2) ?_
    intro j hj
    exact act (.elementAction hhosts hK i base position ha hj)
  | call i callee args =>
    refine andThen (hasks ℓ (.eval (depth + 1) callee) he.1) ?_
    intro f hf
    refine andThen (hasks ℓ (.evalAll (depth + 1) args) he.2) ?_
    intro vs hvs
    exact hasks ℓ (.call (depth + 1) i callee args f vs) ⟨hf, hvs⟩
  | array i items =>
    refine ite (fun _ => .raise ..) ?_
    intro _
    refine andThen (hasks ℓ (.evalTaken (depth + 1) items) he) ?_
    intro vs hvs
    refine act ?_
    refine .onMemory (fun m => m.grown_newArray fun v hv => (hvs v hv).toStored) ?_
    intro s _
    exact (Value.Stored.array _).given
  | binary i left symbol right =>
    refine ite ?_ ?_
    · intro hlogical
      have hunchecked : K.checked = false := by
        rw [hK, (Bool.and_eq_true_iff.mp hlogical).1, Bool.not_true]
      exact hasks ℓ (.evalLogical (depth + 1) left symbol right) ⟨hunchecked, he⟩
    · intro _
      refine andThen (hasks ℓ (.eval (depth + 1) left) he.1) ?_
      intro a ha
      refine andThen (hasks ℓ (.eval (depth + 1) right) he.2) ?_
      intro b hb
      apply (Plan.Keeps.binary hhosts hK i left symbol right ha hb).imp
      intro _ hv
      exact hv.given
  | unary i symbol operand =>
    refine andThen (hasks ℓ (.eval (depth + 1) operand) he) ?_
    intro a ha
    apply (Plan.Keeps.unary hhosts hK i symbol operand ha).imp
    intro _ hv
    exact hv.given

/-- Executing a statement with names of its level guards the reserve. -/
theorem Stmt.plan_keeps (depth : Nat) {stmt : Stmt} (hstmt : stmt.Within (K.names ℓ) K.body) :
    (stmt.plan cfg depth).KeepsAt cfg n K ℓ fun returned => ∀ v ∈ returned, v.Stored K := by
  cases stmt with
  | var i names => exact andThen (hasks ℓ (.execDeclared depth names) hstmt) fun _ _ => pure stored_none
  | assign a => exact andThen (hasks ℓ (.execAssign depth a) hstmt) fun _ _ => pure stored_none
  | bump i target symbol =>
    apply andThen (hasks ℓ (.eval depth target) hstmt)
    intro p hp
    apply andThen (.bump hhosts hK i target symbol hp)
    intro v hv
    apply andThen (hasks ℓ (.store depth i target p v) ⟨hp, hv⟩)
    intro _ _
    exact andThen (.narrate ..) fun _ _ => pure stored_none
  | call i c => exact andThen (hasks ℓ (.eval depth c.toExpr) hstmt) fun _ _ => pure stored_none
  | cond i test body branch => exact hasks ℓ (.execCond depth i test body branch) hstmt
  | «while» i test body => exact hasks ℓ (.execLoop depth i "while" test none body) ⟨hstmt.1, trivial, hstmt.2⟩
  | «for» i first test update body =>
    obtain ⟨hfirst, hloop⟩ := hstmt
    have hrounds := hasks ℓ (.execLoop depth i "for" test update body) hloop
    cases first with
    | none => exact hrounds
    | some s => exact andThen (hasks ℓ (.exec depth s) hfirst) fun _ _ => hrounds
  | function i name params body =>
    exact andThen (.function i hstmt.1 params hstmt.2) fun _ _ => pure stored_none
  | «return» i value =>
    apply (hasks ℓ (.execReturn depth i value) hstmt).imp
    intro returned hreturned
    cases value with
    | none => exact hreturned
    | some e => exact fun v hv => (hreturned v hv).toStored
  | declared | elseIf | orElse => exact act .fails

omit hK in
/-- A host that is called answers at once, and a function that is called runs one level above. -/
theorem Plan.Keeps.callValue (depth : Nat) (i : Info) (callee : Expr) {f : Value}
    (hf : f.Stored K) {args : List Value} (hargs : ∀ v ∈ args, v.Taken K) :
    (Plan.callValue depth i callee f args).KeepsAt cfg n K ℓ fun v => v = .absent ∨ v.Stored K := by
  cases f
  case function g =>
    apply andThen (.record ..)
    intro _ _
    apply (hasks ℓ (.callFunction depth i g args) ⟨hf.only, hargs⟩).imp
    intro v hv
    exact .inr hv
  case hostFunction g => exact andThen (.record ..) fun _ _ => .hostCall hhosts depth i callee g.key hargs
  all_goals exact andThen (.record ..) fun _ _ => .raise ..

/-- The unchecked logical operators guard the reserve. -/
theorem Task.evalLogical_keeps (depth : Nat) {left : Expr} {symbol : String} {right : Expr}
    (ht : (Task.evalLogical depth left symbol right : Task σ _).Within K ℓ) :
    ((Task.evalLogical depth left symbol right).plan cfg).KeepsAt cfg n K ℓ (Value.Given K) := by
  obtain ⟨hunchecked, hleft, hright⟩ := ht
  have hraw : cfg.isRaw = true := by
    rw [hK, Bool.not_eq_false'] at hunchecked
    exact hunchecked
  apply andThen (hasks ℓ (.eval depth left) hleft)
  intro a ha
  apply andThen (act (.takeUnchecked hhosts hK hraw left ha))
  intro x hx
  apply andThen .asks
  intro decided _
  refine ite (fun _ => pure hx.given) ?_
  intro _
  apply andThen (hasks ℓ (.eval depth right) hright)
  intro b hb
  apply (act (.takeUnchecked hhosts hK hraw right hb)).imp
  intro v hv
  exact hv.given

/-- A call guards the reserve, whatever is called. -/
theorem Task.call_keeps (depth : Nat) {i : Info} {callee : Expr} {args : List Expr} {f : Value} {given : List Value}
    (ht : (Task.call depth i callee args f given : Task σ _).Within K ℓ) :
    ((Task.call depth i callee args f given).plan cfg).KeepsAt cfg n K ℓ (Value.Given K) := by
  apply andThen (.take hhosts hK callee ht.1)
  intro f hf
  apply andThen (act (.takeAll hhosts hK args ht.2))
  intro values hvalues
  apply andThen .asks
  intro label _
  apply andThen (.narrate ..)
  intro _ _
  apply andThen (act (.enterCall cfg i))
  intro _ _
  apply andThen (.callValue hhosts hasks depth i callee hf.toStored hvalues)
  intro result hresult
  apply andThen (act .leaveCall)
  intro _ _
  apply (Plan.Keeps.callResult i label hresult).imp
  intro _ hv
  exact hv.given

/-- A conditional guards the reserve in all its branches. -/
theorem Task.execCond_keeps (depth : Nat) {i : Info} {test : Expr} {body : List Stmt} {branch : Option Stmt}
    (ht : (Task.execCond depth i test body branch : Task σ _).Within K ℓ) :
    ((Task.execCond depth i test body branch).plan cfg).KeepsAt cfg n K ℓ
      fun returned => ∀ v ∈ returned, v.Stored K := by
  obtain ⟨htest, hbody, hbranch⟩ := ht
  apply andThen (hasks ℓ (.eval depth test) htest)
  intro c hc
  apply andThen (.test hhosts hK i "if" test hc)
  intro holds _
  refine ite (fun _ => hasks ℓ (.execAll depth body) hbody) ?_
  intro _
  rcases branch with _ | branch
  · exact pure stored_none
  · cases branch
    case elseIf outer inner test body branch =>
      exact andThen (.record ..) fun _ _ => hasks ℓ (.execCond depth inner test body branch) hbranch
    case orElse outer body => exact andThen (.record ..) fun _ _ => hasks ℓ (.execAll depth body) hbranch
    all_goals exact pure stored_none

/-- A loop guards the reserve, the rounds to come among the tasks in it. -/
theorem Task.execLoop_keeps (depth : Nat) {i : Info} {tag : String} {test : Expr} {update : Option Stmt}
    {body : List Stmt}
    (ht : (Task.execLoop depth i tag test update body : Task σ _).Within K ℓ) :
    ((Task.execLoop depth i tag test update body).plan cfg).KeepsAt cfg n K ℓ
      fun returned => ∀ v ∈ returned, v.Stored K := by
  have hrounds := hasks ℓ (.execLoop depth i tag test update body) ht
  obtain ⟨htest, hupdate, hbody⟩ := ht
  apply andThen (.tick i)
  intro _ _
  apply andThen (hasks ℓ (.eval depth test) htest)
  intro c hc
  apply andThen (.test hhosts hK i tag test hc)
  intro holds _
  refine ite ?_ fun _ => pure stored_none
  intro _
  apply andThen (hasks ℓ (.execAll depth body) hbody)
  intro returned hreturned
  cases returned with
  | some v => exact pure hreturned
  | none =>
    cases update with
    | none => exact hrounds
    | some s => exact andThen (hasks ℓ (.exec depth s) hupdate) fun _ _ => hrounds

/-- A `return` guards the reserve. -/
theorem Task.execReturn_keeps (depth : Nat) {i : Info} {value : Option Expr}
    (ht : (Task.execReturn depth i value : Task σ _).Within K ℓ) :
    ((Task.execReturn depth i value).plan cfg).KeepsAt cfg n K ℓ
      ((Task.execReturn depth i value : Task σ _).Leaves K) := by
  apply andThen (.record ..)
  intro _ _
  apply andThen .asks
  intro outside _
  refine ite (fun _ => .raise ..) ?_
  intro _
  cases value with
  | none => exact pure (stored_some .undefined)
  | some e =>
    apply andThen (hasks ℓ (.eval depth e) (ht e rfl))
    intro v hv
    apply andThen (.take hhosts hK e hv)
    intro w hw
    apply andThen (.narrate ..)
    intro _ _
    refine pure ?_
    rintro _ ⟨⟩
    exact hw

/-- Every task at or above the level guards the reserve, if the tasks it asks for do. -/
theorem Task.plan_keeps (t : Task σ α) (hℓ : K.level ≤ ℓ) (ht : t.Within K ℓ) :
    (t.plan cfg).KeepsAt cfg n K ℓ (t.Leaves K) := by
  cases t with
  | eval depth e =>
    refine ite (fun _ => .raise ..) ?_
    intro _
    exact e.plan_keeps hhosts hK hasks depth ht
  | evalAll depth es =>
    cases es with
    | nil => exact pure fun v hv => absurd hv List.not_mem_nil
    | cons e es =>
      apply andThen (hasks ℓ (.eval depth e) ht.1)
      intro v hv
      apply andThen (hasks ℓ (.evalAll depth es) ht.2)
      intro vs hvs
      exact pure (List.forall_mem_cons.mpr ⟨hv, hvs⟩)
  | evalTaken depth es =>
    cases es with
    | nil => exact pure fun v hv => absurd hv List.not_mem_nil
    | cons e es =>
      apply andThen (hasks ℓ (.eval depth e) ht.1)
      intro v hv
      apply andThen (.take hhosts hK e hv)
      intro w hw
      apply andThen (hasks ℓ (.evalTaken depth es) ht.2)
      intro ws hws
      exact pure (List.forall_mem_cons.mpr ⟨hw, hws⟩)
  | evalLogical depth left symbol right => exact Task.evalLogical_keeps hhosts hK hasks depth ht
  | call depth i callee args f given => exact Task.call_keeps hhosts hK hasks depth ht
  | callFunction depth i f args =>
    have hbody : Stmt.AllWithin (K.names (ℓ + 1)) K.body f.body := by
      rw [Reserve.names_of_lt (Nat.lt_succ_of_le hℓ)]
      exact K.closed f.body ht.1
    apply andThen (.enterFunction i f ht.2)
    intro _ _
    exact .inFrame hℓ (hasks (ℓ + 1) (.execAll depth f.body) hbody)
  | store depth i target place v =>
    cases place
    case hostVariable w => exact andThen (.hostSet hhosts depth i target w.key v) fun _ _ => pure trivial
    all_goals exact act (.assignPlace i target ht.1 ht.2)
  | execAll depth body =>
    cases body with
    | nil => exact pure stored_none
    | cons s rest =>
      apply andThen (hasks ℓ (.exec depth s) ht.1)
      intro returned hreturned
      cases returned with
      | some v => exact pure hreturned
      | none => exact hasks ℓ (.execAll depth rest) ht.2
  | exec depth stmt => exact andThen (.tick _) fun _ _ => stmt.plan_keeps hhosts hK hasks depth ht
  | execDeclared depth names =>
    cases names with
    | nil => exact pure trivial
    | cons d ds =>
      obtain ⟨⟨hname, hfirst⟩, hds⟩ := List.forall_mem_cons.mp ht
      apply andThen (.declared hname)
      intro _ _
      rcases d with ⟨i, name, _ | a⟩
      · exact hasks ℓ (.execDeclared depth ds) hds
      · apply andThen (hasks ℓ (.execAssign depth a) (hfirst a rfl))
        intro _ _
        exact hasks ℓ (.execDeclared depth ds) hds
  | execAssign depth a =>
    apply andThen (hasks ℓ (.eval depth a.target) ht.1)
    intro p hp
    apply andThen (hasks ℓ (.eval depth a.value) ht.2)
    intro given hgiven
    apply andThen (.assigned hhosts hK a hp hgiven)
    intro v hv
    exact andThen (hasks ℓ (.store depth a.info a.target p v) ⟨hp, hv⟩) fun _ _ => .narrate ..
  | execCond depth i test body branch => exact Task.execCond_keeps hhosts hK hasks depth ht
  | execLoop depth i tag test update body => exact Task.execLoop_keeps hhosts hK hasks depth ht
  | execReturn depth i value => exact Task.execReturn_keeps hhosts hK hasks depth ht
end Tasks

/-- A task that uses nothing that is set apart keeps the reserve, whatever bound its recursion has. -/
theorem Task.keeps {cfg : Setting σ} (hhosts : cfg.hosts.Apart) (hK : K.checked = !cfg.isRaw) (n ℓ : Nat)
    (t : Task σ α) (ht : t.Within K ℓ) : (Plan.ask t).KeepsAt cfg n K ℓ (t.Leaves K) := by
  -- The level is generalized, since the body of a function that is called runs one level above.
  induction n generalizing α ℓ t with
  | zero =>
    have hrun (s : RunState σ) : ((Plan.ask t).run cfg 0 s).Keeps K ℓ ℓ (t.Leaves K) := by
      have hzero : (Plan.ask t).run cfg 0 s = .exhausted := by cases t <;> rfl
      rw [hzero]
      exact .exhausted
    refine ⟨fun s _ => hrun s, ?_⟩
    intro s k γ q u hs h
    cases h with
    | here => exact Plan.Keeps.bears hs (hrun s) ht
  | succ n ih =>
    have hplan (hℓ : K.level ≤ ℓ) := t.plan_keeps hhosts hK (fun ℓ t ht => ih ℓ t ht) hℓ ht
    have hrun (s : RunState σ) (hs : s.Guards K ℓ) : ((Plan.ask t).run cfg (n + 1) s).Keeps K ℓ ℓ (t.Leaves K) := by
      show (t.run cfg (n + 1) s).Keeps K ℓ ℓ _
      rw [t.run_succ]
      exact (hplan hs.level).run s hs
    refine ⟨hrun, ?_⟩
    intro s k γ q u hs h
    cases h with
    | here => exact Plan.Keeps.bears hs (hrun s hs) ht
    | ask h => exact (hplan hs.level).begins s k γ q u hs h

end Primer
