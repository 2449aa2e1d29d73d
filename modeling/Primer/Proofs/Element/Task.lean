import Primer.Proofs.Element.Plan

/-!
# Tasks that leave elements in their cells

Every task of the evaluator carries along what is watched, as long as the array of the element that is watched is long
enough wherever the run comes by (`Task.carries`). The one task that could do harm is the one that stores a value in a
pending element. It is asked for by the statement that found the place, right before, and no statement finds a pending
place for an element that has a cell.
-/

set_option autoImplicit false

namespace Primer

open Run
open Plan.Carries (andThen act pure ite)

variable {σ α : Type} {W : Watch σ} {C : RunState σ → Prop}

/-- A task that is given settled values, and no place that leads to a new cell for the element that is watched. -/
def Task.Spares (W : Watch σ) : {α : Type} → Task σ α → Prop
  | _, .callFunction _ _ _ args => ∀ v ∈ args, v.Settled W.arrays
  | _, .store _ _ _ place v => place.Spares W ∧ v.Settled W.arrays
  | _, .call _ _ _ _ f given => f.Spares W ∧ ∀ v ∈ given, v.Spares W
  | _, _ => True

/-- What such a task gives, for the number of arrays that are there at its end. Only expressions that are evaluated
give places. -/
def Task.Answers (W : Watch σ) : {α : Type} → Task σ α → Nat → α → Prop
  | _, .eval .. => fun k => Value.Spares (W.upTo k)
  | _, .evalAll .. => fun k vs => ∀ v ∈ vs, v.Spares (W.upTo k)
  | _, .evalTaken .. => fun k vs => ∀ v ∈ vs, v.Settled k
  | _, .evalLogical .. | _, .call .. | _, .callFunction .. => Value.Settled
  | _, .store .. | _, .execDeclared .. | _, .execAssign .. => fun _ => Anything
  | _, .execAll .. | _, .exec .. | _, .execCond .. | _, .execLoop .. | _, .execReturn .. =>
    fun k returned => ∀ v ∈ returned, v.Settled k

/-- No statement has returned anything yet. -/
theorem settled_none {k : Nat} : ∀ v ∈ (none : Option Value), v.Settled k := nofun

/-- A returned value that is settled is one. -/
theorem settled_some {k : Nat} {v : Value} (hv : v.Settled k) : ∀ w ∈ some v, w.Settled k := by
  rintro _ ⟨⟩
  exact hv

section Tasks

variable {cfg : Setting σ} {n : Nat} (hhosts : cfg.hosts.Orderly W.hosts) (hinside : W.Inside C)
  (hasks : ∀ m ≤ n, ∀ k {α : Type} (t : Task σ α), t.Spares (W.upTo k) →
    (Plan.ask t).Carries cfg m (W.upTo k) C (t.Answers (W.upTo k)))

omit hhosts hinside hasks in
/-- No statement has returned anything yet. -/
theorem Plan.Carries.nothing : (Pure.pure none : Plan σ (Option Value)).Carries cfg n W C
    fun k returned => ∀ v ∈ returned, v.Settled k := pure fun _ _ => settled_none

omit hhosts hinside hasks in
/-- A value that is settled may be returned, however many arrays are made before it is used. -/
theorem Plan.Carries.returned {v : Value} (hv : ∀ w ∈ some v, w.Settled W.arrays) :
    (Pure.pure (some v) : Plan σ (Option Value)).Carries cfg n W C fun k returned => ∀ v ∈ returned, v.Settled k :=
  pure fun _ hk w hw => (hv w hw).mono hk

include hhosts hasks

/-- Evaluating an expression keeps to the watch. -/
theorem Expr.plan_carries (depth : Nat) (e : Expr) :
    (e.plan cfg depth).Carries cfg n W C fun k => Value.Spares (W.upTo k) := by
  have hask (k : Nat) {α : Type} (t : Task σ α) (ht : t.Spares (W.upTo k)) := hasks n (Nat.le_refl n) k t ht
  have hsettled {k : Nat} {p : Plan σ Value} (hp : p.Carries cfg n (W.upTo k) C Value.Settled) :
      p.Carries cfg n (W.upTo k) C fun k => Value.Spares (W.upTo k) := hp.imp fun _ _ hv => hv.spares
  cases e with
  | number | string | boolean | null => exact pure fun _ _ => trivial
  | name i x => exact hsettled (act (.nameAction i x))
  | member i object property =>
    refine andThen (hask _ (.eval (depth + 1) object) trivial) ?_
    intro k _ o ho
    exact hsettled (act (.memberAction (W := W.upTo k) hhosts i object property ho))
  | element i base position =>
    refine andThen (hask _ (.eval (depth + 1) base) trivial) ?_
    intro k _ a ha
    refine andThen (hask k (.eval (depth + 1) position) trivial) ?_
    intro k' hk' j hj
    exact act (.elementAction (W := W.upTo k') hhosts i base position (ha.mono hk') hj)
  | call i callee args =>
    refine andThen (hask _ (.eval (depth + 1) callee) trivial) ?_
    intro k _ f hf
    refine andThen (hask k (.evalAll (depth + 1) args) trivial) ?_
    intro k' hk' vs hvs
    exact hsettled (hask k' (.call (depth + 1) i callee args f vs) ⟨hf.mono hk', hvs⟩)
  | array i items =>
    refine ite (.raise ..) ?_
    refine andThen (hask _ (.evalTaken (depth + 1) items) trivial) ?_
    intro k _ vs hvs
    exact hsettled (act (.arrayAction hvs))
  | binary i left symbol right =>
    refine ite (hsettled (hask _ (.evalLogical (depth + 1) left symbol right) trivial)) ?_
    refine andThen (hask _ (.eval (depth + 1) left) trivial) ?_
    intro k _ a ha
    refine andThen (hask k (.eval (depth + 1) right) trivial) ?_
    intro k' hk' b hb
    exact hsettled (.binary (W := W.upTo k') hhosts i left symbol right (ha.mono hk') hb)
  | unary i symbol operand =>
    refine andThen (hask _ (.eval (depth + 1) operand) trivial) ?_
    intro k _ a ha
    exact hsettled (.unary (W := W.upTo k) hhosts i symbol operand ha)

/-- Executing a statement keeps to the watch. -/
theorem Stmt.plan_carries (depth : Nat) (stmt : Stmt) :
    (stmt.plan cfg depth).Carries cfg n W C fun k returned => ∀ v ∈ returned, v.Settled k := by
  have hask (k : Nat) {α : Type} (t : Task σ α) (ht : t.Spares (W.upTo k)) := hasks n (Nat.le_refl n) k t ht
  cases stmt with
  | var i names => exact andThen (hask _ (.execDeclared depth names) trivial) fun _ _ _ _ => .nothing
  | assign a => exact andThen (hask _ (.execAssign depth a) trivial) fun _ _ _ _ => .nothing
  | bump i target symbol =>
    apply andThen (hask _ (.eval depth target) trivial)
    intro k _ p hp
    apply andThen (.bump (W := W.upTo k) hhosts i target symbol hp)
    intro k' hk' v hv
    apply andThen (hask k' (.store depth i target p v) ⟨hp.mono hk', hv⟩)
    intro _ _ _ _
    exact andThen (.narrate ..) fun _ _ _ _ => .nothing
  | call i c => exact andThen (hask _ (.eval depth c.toExpr) trivial) fun _ _ _ _ => .nothing
  | cond i test body branch => exact hask _ (.execCond depth i test body branch) trivial
  | «while» i test body => exact hask _ (.execLoop depth i "while" test none body) trivial
  | «for» i first test update body =>
    cases first with
    | none => exact hask _ (.execLoop depth i "for" test update body) trivial
    | some s =>
      apply andThen (hask _ (.exec depth s) trivial)
      intro k _ _ _
      exact hask k (.execLoop depth i "for" test update body) trivial
  | function i name params body => exact andThen (.function i name params body) fun _ _ _ _ => .nothing
  | «return» i value => exact hask _ (.execReturn depth i value) trivial
  | declared | elseIf | orElse => exact act .fails

/-- The unchecked logical operators keep to the watch. -/
theorem Task.evalLogical_carries (depth : Nat) {left : Expr} {symbol : String} {right : Expr} :
    ((Task.evalLogical depth left symbol right).plan cfg).Carries cfg n W C Value.Settled := by
  have hask (k : Nat) {α : Type} (t : Task σ α) (ht : t.Spares (W.upTo k)) := hasks n (Nat.le_refl n) k t ht
  apply andThen (hask _ (.eval depth left) trivial)
  intro k _ a ha
  apply andThen (act (.takeUnchecked (W := W.upTo k) hhosts left ha))
  intro k' _ x hx
  apply andThen .asks
  intro k'' hk'' decided _
  refine ite (pure fun _ hl => hx.mono (Nat.le_trans hk'' hl)) ?_
  apply andThen (hask k'' (.eval depth right) trivial)
  intro l _ b hb
  exact act (.takeUnchecked (W := W.upTo l) hhosts right hb)

/-- A conditional keeps to the watch in all its branches. -/
theorem Task.execCond_carries (depth : Nat) {i : Info} {test : Expr} {body : List Stmt} {branch : Option Stmt} :
    ((Task.execCond depth i test body branch).plan cfg).Carries cfg n W C
      fun k returned => ∀ v ∈ returned, v.Settled k := by
  have hask (k : Nat) {α : Type} (t : Task σ α) (ht : t.Spares (W.upTo k)) := hasks n (Nat.le_refl n) k t ht
  apply andThen (hask _ (.eval depth test) trivial)
  intro k _ c hc
  apply andThen (.test (W := W.upTo k) hhosts i "if" test hc)
  intro k' _ holds _
  refine ite (hask k' (.execAll depth body) trivial) ?_
  rcases branch with _ | branch
  · exact .nothing
  · cases branch
    case elseIf outer inner test body branch =>
      apply andThen (.record ..)
      intro k'' _ _ _
      exact hask k'' (.execCond depth inner test body branch) trivial
    case orElse outer body =>
      apply andThen (.record ..)
      intro k'' _ _ _
      exact hask k'' (.execAll depth body) trivial
    all_goals exact .nothing

/-- A loop keeps to the watch, the rounds to come among the tasks in it. -/
theorem Task.execLoop_carries (depth : Nat) {i : Info} {tag : String} {test : Expr} {update : Option Stmt}
    {body : List Stmt} :
    ((Task.execLoop depth i tag test update body).plan cfg).Carries cfg n W C
      fun k returned => ∀ v ∈ returned, v.Settled k := by
  have hask (k : Nat) {α : Type} (t : Task σ α) (ht : t.Spares (W.upTo k)) := hasks n (Nat.le_refl n) k t ht
  have hrounds (k : Nat) := hask k (.execLoop depth i tag test update body) trivial
  apply andThen (.tick i)
  intro k _ _ _
  apply andThen (hask k (.eval depth test) trivial)
  intro k' _ c hc
  apply andThen (.test (W := W.upTo k') hhosts i tag test hc)
  intro k'' _ holds _
  refine ite ?_ .nothing
  apply andThen (hask k'' (.execAll depth body) trivial)
  intro l _ returned hv
  cases returned with
  | some v => exact .returned hv
  | none =>
    cases update with
    | none => exact hrounds l
    | some s =>
      apply andThen (hask l (.exec depth s) trivial)
      intro l' _ _ _
      exact hrounds l'

/-- A `return` keeps to the watch. -/
theorem Task.execReturn_carries (depth : Nat) {i : Info} {value : Option Expr} :
    ((Task.execReturn depth i value).plan cfg).Carries cfg n W C fun k returned => ∀ v ∈ returned, v.Settled k := by
  have hask (k : Nat) {α : Type} (t : Task σ α) (ht : t.Spares (W.upTo k)) := hasks n (Nat.le_refl n) k t ht
  apply andThen (.record ..)
  intro k _ _ _
  apply andThen .asks
  intro k' _ outside _
  refine ite (.raise ..) ?_
  cases value with
  | none => exact .returned (settled_some trivial)
  | some e =>
    apply andThen (hask k' (.eval depth e) trivial)
    intro k'' _ v hv
    apply andThen (.take (W := W.upTo k'') hhosts e hv)
    intro l _ w hw
    apply andThen (.narrate ..)
    intro l' hl' _ _
    exact .returned (settled_some (hw.mono hl'))

omit hhosts in
/-- The functions that hosts call back are tasks, too. -/
theorem Plan.Carries.callBacks (depth : Nat) : Plan.Carries.CallBacks cfg W C depth n :=
  fun m hm k f args hargs => hasks m (Nat.le_of_lt hm) k (.callFunction depth f.info f args) hargs

include hinside

/-- A function is called with what was taken for its arguments, and a host may call functions back. -/
theorem Plan.Carries.callValue (depth : Nat) (i : Info) (callee : Expr) (f : Value) {args : List Value}
    (hargs : ∀ v ∈ args, v.Settled W.arrays) :
    (Plan.callValue depth i callee f args).Carries cfg n W C Value.Settled := by
  have hlater {k : Nat} (hk : W.arrays ≤ k) : ∀ v ∈ args, v.Settled k := fun v hv => (hargs v hv).mono hk
  cases f
  case function g =>
    apply andThen (.record ..)
    intro k hk _ _
    exact hasks n (Nat.le_refl n) k (.callFunction depth i g args) (hlater hk)
  case hostFunction g =>
    apply andThen (.record ..)
    intro k hk _ _
    exact .hostCall (W := W.upTo k) hinside hhosts (callBacks hasks depth) i callee g.key (hlater hk)
  all_goals exact andThen (.record ..) fun _ _ _ _ => .raise ..

/-- A call keeps to the watch, whatever is called. -/
theorem Task.call_carries (depth : Nat) {i : Info} {callee : Expr} {args : List Expr} {f : Value} {given : List Value}
    (hf : f.Spares W) (hgiven : ∀ v ∈ given, v.Spares W) :
    ((Task.call depth i callee args f given).plan cfg).Carries cfg n W C Value.Settled := by
  apply andThen (.take hhosts callee hf)
  intro k hk f _
  apply andThen (act (.takeAll (W := W.upTo k) hhosts args given fun v hv => (hgiven v hv).mono hk))
  intro k₁ _ values hvalues
  apply andThen .asks
  intro k₂ hk₂ label _
  apply andThen (.narrate ..)
  intro k₃ hk₃ _ _
  apply andThen (act (.enterCall cfg i))
  intro k₄ hk₄ _ _
  have hlater : ∀ v ∈ values, v.Settled k₄ := fun v hv =>
    (hvalues v hv).mono (Nat.le_trans hk₂ (Nat.le_trans hk₃ hk₄))
  apply andThen (.callValue (W := W.upTo k₄) hhosts hinside hasks depth i callee f hlater)
  intro k₅ _ result hresult
  apply andThen (act .leaveCall)
  intro k₆ hk₆ _ _
  exact .callResult (W := W.upTo k₆) i label (hresult.mono hk₆)

/-- Every task that spares the watched element keeps to the watch, if the tasks it asks for do. -/
theorem Task.plan_carries (t : Task σ α) (ht : t.Spares W) : (t.plan cfg).Carries cfg n W C (t.Answers W) := by
  have hask (k : Nat) {α : Type} (t : Task σ α) (ht : t.Spares (W.upTo k)) := hasks n (Nat.le_refl n) k t ht
  cases t with
  | eval depth e => exact ite (.raise ..) (e.plan_carries hhosts hasks depth)
  | evalAll depth es =>
    cases es with
    | nil => exact pure fun _ _ v hv => absurd hv List.not_mem_nil
    | cons e es =>
      apply andThen (hask _ (.eval depth e) trivial)
      intro k _ v hv
      apply andThen (hask k (.evalAll depth es) trivial)
      intro k' hk' vs hvs
      refine pure ?_
      intro k'' hk''
      exact List.forall_mem_cons.mpr ⟨hv.mono (Nat.le_trans hk' hk''), fun v hv => (hvs v hv).mono hk''⟩
  | evalTaken depth es =>
    cases es with
    | nil => exact pure fun _ _ v hv => absurd hv List.not_mem_nil
    | cons e es =>
      apply andThen (hask _ (.eval depth e) trivial)
      intro k _ v hv
      apply andThen (.take (W := W.upTo k) hhosts e hv)
      intro k' _ w hw
      apply andThen (hask k' (.evalTaken depth es) trivial)
      intro k'' hk'' ws hws
      refine pure ?_
      intro l hl
      exact List.forall_mem_cons.mpr ⟨hw.mono (Nat.le_trans hk'' hl), fun w hw => (hws w hw).mono hl⟩
  | evalLogical depth left symbol right => exact Task.evalLogical_carries hhosts hasks depth
  | call depth i callee args f given => exact Task.call_carries hhosts hinside hasks depth ht.1 ht.2
  | callFunction depth i f args =>
    apply andThen (.enterFunction i f ht)
    intro k _ _ _
    exact .inFrame (hask k (.execAll depth f.body) trivial)
  | store depth i target place v =>
    obtain ⟨hplace, hv⟩ := ht
    cases place
    case hostVariable h =>
      apply andThen (.hostSet hinside hhosts (.callBacks hasks depth) i target h.key hv)
      intro _ _ _ _
      exact pure fun _ _ => trivial
    all_goals exact .assignPlace hinside i target hplace hv
  | execAll depth body =>
    cases body with
    | nil => exact pure fun _ _ => settled_none
    | cons s rest =>
      apply andThen (hask _ (.exec depth s) trivial)
      intro k _ returned hv
      cases returned with
      | some v => exact .returned hv
      | none => exact hask k (.execAll depth rest) trivial
  | exec depth stmt =>
    apply andThen (.tick stmt.info)
    intro k _ _ _
    exact stmt.plan_carries (W := W.upTo k) hhosts hasks depth
  | execDeclared depth names =>
    cases names with
    | nil => exact pure fun _ _ => trivial
    | cons d ds =>
      apply andThen (.declared d)
      intro k _ _ _
      cases d.first with
      | none => exact hask k (.execDeclared depth ds) trivial
      | some a =>
        apply andThen (hask k (.execAssign depth a) trivial)
        intro k' _ _ _
        exact hask k' (.execDeclared depth ds) trivial
  | execAssign depth a =>
    apply andThen (hask _ (.eval depth a.target) trivial)
    intro k _ p hp
    apply andThen (hask k (.eval depth a.value) trivial)
    intro k' hk' given hgiven
    apply andThen (.assigned (W := W.upTo k') hhosts a (hp.mono hk') hgiven)
    intro k'' hk'' v hv
    have hplace := hp.mono (Nat.le_trans hk' hk'')
    exact andThen (hask k'' (.store depth a.info a.target p v) ⟨hplace, hv⟩) fun _ _ _ _ => .narrate ..
  | execCond depth i test body branch => exact Task.execCond_carries hhosts hasks depth
  | execLoop depth i tag test update body => exact Task.execLoop_carries hhosts hasks depth
  | execReturn depth i value => exact Task.execReturn_carries hhosts hasks depth
end Tasks

/-- A task carries along what is watched, whatever bound its recursion has. -/
theorem Task.carries {cfg : Setting σ} (hhosts : cfg.hosts.Orderly W.hosts) (hinside : W.Inside C) (n : Nat)
    (t : Task σ α) (ht : t.Spares W) : (Plan.ask t).Carries cfg n W C (t.Answers W) := by
  -- A host may call back with any smaller bound, so the bound before this one is not enough.
  induction n using Nat.strongRecOn generalizing α t W with
  | _ n ih =>
    cases n with
    | zero =>
      have hrun (s : RunState σ) : ((Plan.ask t).run cfg 0 s).Carries W (t.Answers W) := by
        have hzero : (Plan.ask t).run cfg 0 s = .exhausted := by cases t <;> rfl
        rw [hzero]
        exact .exhausted
      refine ⟨fun s _ _ => hrun s, ?_⟩
      intro s e u hs _ h
      cases h with
      | border h => exact h.carries hs (hrun s)
    | succ n =>
      have hasks : ∀ m ≤ n, ∀ k {α : Type} (t : Task σ α), t.Spares (W.upTo k) →
          (Plan.ask t).Carries cfg m (W.upTo k) C (t.Answers (W.upTo k)) :=
        fun m hm k _ t ht => ih m (Nat.lt_succ_of_le hm) (W := W.upTo k) hhosts hinside t ht
      have hplan := t.plan_carries hhosts hinside hasks ht
      have hparts {s : RunState σ} (hmeets : (Plan.ask t).Meets cfg (n + 1) C s) : (t.plan cfg).Meets cfg n C s :=
        fun e u h => hmeets e u (.ask h)
      have hrun (s : RunState σ) (hs : s.Carries W) (hmeets : (Plan.ask t).Meets cfg (n + 1) C s) :
          ((Plan.ask t).run cfg (n + 1) s).Carries W (t.Answers W) := by
        show (t.run cfg (n + 1) s).Carries W _
        rw [t.run_succ]
        exact hplan.run s hs (hparts hmeets)
      refine ⟨hrun, ?_⟩
      intro s e u hs hmeets h
      cases h with
      | border h => exact h.carries hs (hrun s hs hmeets)
      | ask h => exact hplan.reaches s e u hs (hparts hmeets) h

end Primer
