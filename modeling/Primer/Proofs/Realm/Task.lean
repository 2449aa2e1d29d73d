import Primer.Proofs.Realm.Plan

/-!
# Tasks in a realm

A tree lies in a realm if its nodes do, and then so do its parts: a walk comes by every node that the evaluator
works on. A task that works on parts of the realm therefore asks for tasks of that kind only, and all of them
stay at their level, however long the run is (`Task.stays`).
-/

set_option autoImplicit false

namespace Primer

open Run

variable {σ α : Type} {R : Realm σ}

/-! ## Parts of trees -/

namespace Realm

/-- A node in front is in the realm if it and the rest are. -/
theorem part_cons {n : Node} {nodes : List Node} {known : Bool} :
    R.part (n :: nodes) known ↔ R.node n ∧ R.part nodes known := by
  unfold part covers
  rw [List.forall_mem_cons, and_assoc]

/-- Nodes in a row are in the realm if both parts are. -/
theorem part_append {nodes nodes' : List Node} {known known' : Bool} :
    R.part (nodes ++ nodes') (known && known') ↔ R.part nodes known ∧ R.part nodes' known' := by
  unfold part covers
  rw [List.forall_mem_append, Bool.and_eq_true, or_and_left, and_and_and_comm]

/-- What has to be known besides the parts. -/
theorem part_and {nodes : List Node} {known known' : Bool} :
    R.part nodes (known && known') ↔ (R.loose ∨ known = true) ∧ R.part nodes known' := by
  unfold part
  rw [Bool.and_eq_true, or_and_left, and_left_comm]

/-- A node of the realm has a place of the realm. -/
theorem info_of_node {n : Node} (h : R.node n) : R.info n.info := ⟨n, h, rfl⟩

/-- An expression of the realm has a place of the realm. -/
theorem expr_info {e : Expr} (h : R.expr e) : R.info e.info := by
  have hnode : R.node e.node := by
    refine h.1 e.node ?_
    cases e <;> exact List.mem_cons_self
  exact info_of_node hnode

/-- Several expressions of the realm have places of the realm. -/
theorem exprs_info {es : List Expr} (h : R.exprs es) : ∀ e ∈ es, R.info e.info := by
  induction es with
  | nil => exact fun e he => absurd he List.not_mem_nil
  | cons e es ih =>
    obtain ⟨he, hes⟩ := part_append.mp h
    intro e' he'
    rcases List.mem_cons.mp he' with rfl | he'
    · exact expr_info he
    · exact ih hes e' he'

/-- The parts of a member of the realm. -/
theorem expr_member {i : Info} {object : Expr} {property : String} (h : R.expr (.member i object property)) :
    R.info i ∧ R.expr object := by
  obtain ⟨hnode, hobject⟩ := part_cons.mp h
  exact ⟨info_of_node hnode, hobject⟩

/-- The parts of an element of the realm. -/
theorem expr_element {i : Info} {base position : Expr} (h : R.expr (.element i base position)) :
    R.info i ∧ R.expr base ∧ R.expr position := by
  obtain ⟨hnode, hparts⟩ := part_cons.mp h
  exact ⟨info_of_node hnode, part_append.mp hparts⟩

/-- The parts of a call of the realm. -/
theorem expr_call {i : Info} {callee : Expr} {args : List Expr} (h : R.expr (.call i callee args)) :
    R.info i ∧ R.site i.token ∧ R.expr callee ∧ R.exprs args := by
  obtain ⟨hnode, hparts⟩ := part_cons.mp h
  exact ⟨info_of_node hnode, ⟨_, hnode, rfl, rfl⟩, part_append.mp hparts⟩

/-- The parts of an array of the realm. -/
theorem expr_array {i : Info} {items : List Expr} (h : R.expr (.array i items)) : R.info i ∧ R.exprs items := by
  obtain ⟨hnode, hitems⟩ := part_cons.mp h
  exact ⟨info_of_node hnode, hitems⟩

/-- The parts of a binary operation of the realm. -/
theorem expr_binary {i : Info} {left right : Expr} {symbol : String} (h : R.expr (.binary i left symbol right)) :
    R.info i ∧ (R.loose ∨ isOperator symbol = true) ∧ R.expr left ∧ R.expr right := by
  obtain ⟨hnode, hparts⟩ := part_cons.mp h
  simp only [Expr.isHandled, Bool.and_assoc] at hparts
  obtain ⟨hsymbol, hparts⟩ := part_and.mp hparts
  exact ⟨info_of_node hnode, hsymbol, part_append.mp hparts⟩

/-- The parts of a sign of the realm. -/
theorem expr_unary {i : Info} {symbol : String} {operand : Expr} (h : R.expr (.unary i symbol operand)) :
    R.info i ∧ R.expr operand := by
  obtain ⟨hnode, hoperand⟩ := part_cons.mp h
  exact ⟨info_of_node hnode, (part_and.mp hoperand).2⟩

/-- The parts of an assignment of the realm. -/
theorem assignment_parts {a : Assignment} (h : R.assignment a) :
    R.info a.info ∧ (R.loose ∨ isAssignment a.symbol = true) ∧ R.expr a.target ∧ R.expr a.value := by
  obtain ⟨hnode, hparts⟩ := part_cons.mp h
  simp only [Assignment.isHandled, Bool.and_assoc] at hparts
  obtain ⟨hsymbol, hparts⟩ := part_and.mp hparts
  exact ⟨info_of_node hnode, hsymbol, part_append.mp hparts⟩

/-- The parts of declared names of the realm. -/
theorem names_cons {d : Declared} {ds : List Declared} (h : R.names (d :: ds)) :
    R.info d.info ∧ (∀ a ∈ d.first, R.assignment a) ∧ R.names ds := by
  simp only [names, List.flatMap_cons, List.all_cons] at h
  obtain ⟨hd, hds⟩ := part_append.mp h
  obtain ⟨hnode, hfirst⟩ := part_cons.mp hd
  refine ⟨info_of_node hnode, ?_, hds⟩
  intro a ha
  rcases d with ⟨i, name, _ | first⟩
  · cases ha
  · cases ha
    exact hfirst

/-- A statement of the realm has a place of the realm. -/
theorem stmt_info {s : Stmt} (h : R.stmt s) : R.info s.info := by
  cases s with
  | «return» i value => cases value <;> exact info_of_node (part_cons.mp h).1
  | _ => exact info_of_node (part_cons.mp h).1

/-- The parts of an increment or decrement of the realm. -/
theorem stmt_bump {i : Info} {target : Expr} {symbol : String} (h : R.stmt (.bump i target symbol)) :
    R.info i ∧ R.expr target := by
  obtain ⟨hnode, htarget⟩ := part_cons.mp h
  exact ⟨info_of_node hnode, htarget⟩

/-- The parts of an `if` of the realm. -/
theorem stmt_cond {i : Info} {test : Expr} {body : List Stmt} {branch : Option Stmt}
    (h : R.stmt (.cond i test body branch)) : R.info i ∧ R.expr test ∧ R.stmts body ∧ R.branch branch := by
  obtain ⟨hnode, hparts⟩ := part_cons.mp h
  obtain ⟨hparts, hbranch⟩ := part_append.mp hparts
  obtain ⟨htest, hbody⟩ := part_append.mp hparts
  exact ⟨info_of_node hnode, htest, hbody, hbranch⟩

/-- The parts of a `while` of the realm. -/
theorem stmt_while {i : Info} {test : Expr} {body : List Stmt} (h : R.stmt (.while i test body)) :
    R.info i ∧ R.expr test ∧ R.stmts body := by
  obtain ⟨hnode, hparts⟩ := part_cons.mp h
  exact ⟨info_of_node hnode, part_append.mp hparts⟩

/-- The parts of a `for` of the realm. -/
theorem stmt_for {i : Info} {first update : Option Stmt} {test : Expr} {body : List Stmt}
    (h : R.stmt (.for i first test update body)) :
    R.info i ∧ R.header first ∧ R.expr test ∧ R.header update ∧ R.stmts body := by
  obtain ⟨hnode, hparts⟩ := part_cons.mp h
  obtain ⟨hparts, hbody⟩ := part_append.mp hparts
  obtain ⟨hparts, hupdate⟩ := part_append.mp hparts
  obtain ⟨hfirst, htest⟩ := part_append.mp hparts
  exact ⟨info_of_node hnode, hfirst, htest, hupdate, hbody⟩

/-- The parts of a function of the realm. -/
theorem stmt_function {i : Info} {name : String} {params : List String} {body : List Stmt}
    (h : R.stmt (.function i name params body)) : R.info i ∧ R.stmts body := by
  obtain ⟨hnode, hbody⟩ := part_cons.mp h
  exact ⟨info_of_node hnode, hbody⟩

/-- The parts of a `return` of the realm. -/
theorem stmt_return {i : Info} {value : Option Expr} (h : R.stmt (.return i value)) :
    R.info i ∧ ∀ e ∈ value, R.expr e := by
  cases value with
  | none => exact ⟨info_of_node (part_cons.mp h).1, by simp⟩
  | some e =>
    obtain ⟨hnode, hvalue⟩ := part_cons.mp h
    refine ⟨info_of_node hnode, ?_⟩
    rintro _ ⟨⟩
    exact hvalue

/-- The parts of an `else if` of the realm. -/
theorem branch_elseIf {outer inner : Info} {test : Expr} {body : List Stmt} {branch : Option Stmt}
    (h : R.branch (some (.elseIf outer inner test body branch))) :
    R.info outer ∧ R.info inner ∧ R.expr test ∧ R.stmts body ∧ R.branch branch := by
  obtain ⟨houter, hparts⟩ := part_cons.mp h
  obtain ⟨hinner, hparts⟩ := part_cons.mp hparts
  obtain ⟨hparts, hbranch⟩ := part_append.mp hparts
  obtain ⟨htest, hbody⟩ := part_append.mp hparts
  exact ⟨info_of_node houter, ⟨_, hinner, rfl⟩, htest, hbody, hbranch⟩

/-- The parts of an `else` of the realm. -/
theorem branch_orElse {outer : Info} {body : List Stmt} (h : R.branch (some (.orElse outer body))) :
    R.info outer ∧ R.stmts body := by
  obtain ⟨hnode, hbody⟩ := part_cons.mp h
  exact ⟨info_of_node hnode, hbody⟩

end Realm

/-! ## Tasks -/

/-- What a task works on lies in a realm. A function can only be entered where a call has no frame yet. -/
def Task.LiesIn (R : Realm σ) (ℓ : Level) : {α : Type} → Task σ α → Prop
  | _, .eval _ e => R.expr e
  | _, .evalAll _ es | _, .evalTaken _ es => R.exprs es
  | _, .evalLogical _ left _ right => R.expr left ∧ R.expr right
  | _, .call _ i callee args f given =>
    (R.info i ∧ R.site i.token ∧ R.expr callee ∧ R.exprs args) ∧ f.Only R.function ∧ Values.Only R.function given
  | _, .callFunction _ i f args =>
    R.info i ∧ R.function f ∧ Values.Only R.function args ∧ ℓ.frames < ℓ.calls
  | _, .store _ i _ _ v => R.info i ∧ v.Only R.function
  | _, .execAll _ body => R.stmts body
  | _, .exec _ stmt => R.stmt stmt
  | _, .execDeclared _ names => R.names names
  | _, .execAssign _ a => R.assignment a
  | _, .execCond _ i test body branch => R.info i ∧ R.expr test ∧ R.stmts body ∧ R.branch branch
  | _, .execLoop _ i _ test update body => R.info i ∧ R.expr test ∧ R.header update ∧ R.stmts body
  | _, .execReturn _ i value => R.info i ∧ ∀ e ∈ value, R.expr e

/-- What a task gives has functions of the realm only. -/
def Task.Gives (R : Realm σ) : {α : Type} → Task σ α → α → Prop
  | _, .eval .. | _, .evalLogical .. | _, .call .. | _, .callFunction .. => Value.Only R.function
  | _, .evalAll .. | _, .evalTaken .. => Values.Only R.function
  | _, .store .. | _, .execDeclared .. | _, .execAssign .. => Anything
  | _, .execAll .. | _, .exec .. | _, .execCond .. | _, .execLoop .. | _, .execReturn .. => Returned.Only R.function

open Plan.Leads (andThen act pure ite)
open Returned (only_none only_some)

section Tasks

variable {cfg : Setting σ} {n : Nat} (hhosts : cfg.hosts.Fit R) (hdepth : cfg.limits.callDepth ≤ R.depth)
  (hasks : ∀ k ≤ n, ∀ {α : Type} (ℓ : Level) (t : Task σ α), t.LiesIn R ℓ →
    (Plan.ask t).Stays cfg k R ℓ (t.Gives R))

section Trees

variable {ℓ : Level}

include hhosts hasks

/-- The plan of an expression in a realm stays there. -/
theorem Expr.plan_stays (depth : Nat) {e : Expr} (he : R.expr e) :
    (e.plan cfg depth).Stays cfg n R ℓ (Value.Only R.function) := by
  have hask {α : Type} (t : Task σ α) (ht : t.LiesIn R ℓ) := hasks n (Nat.le_refl n) ℓ t ht
  cases e with
  | number | string | boolean | null => exact pure trivial
  | name i x => exact act (.nameAction (Realm.expr_info he) x)
  | member i object property =>
    obtain ⟨hi, hobject⟩ := Realm.expr_member he
    refine andThen (hask (.eval (depth + 1) object) hobject) ?_
    intro o ho
    exact act (.memberAction hhosts hi (Realm.expr_info hobject) property ho)
  | element i base position =>
    obtain ⟨hi, hbase, hposition⟩ := Realm.expr_element he
    refine andThen (hask (.eval (depth + 1) base) hbase) ?_
    intro a ha
    refine andThen (hask (.eval (depth + 1) position) hposition) ?_
    intro j hj
    exact act (.elementAction hhosts hi (Realm.expr_info hbase) (Realm.expr_info hposition) ha hj)
  | call i callee args =>
    have hparts := Realm.expr_call he
    have hcallee := hparts.2.2.1
    have hargs := hparts.2.2.2
    refine andThen (hask (.eval (depth + 1) callee) hcallee) ?_
    intro f hf
    refine andThen (hask (.evalAll (depth + 1) args) hargs) ?_
    intro vs hvs
    exact hask (.call (depth + 1) i callee args f vs) ⟨hparts, hf, hvs⟩
  | array i items =>
    obtain ⟨hi, hitems⟩ := Realm.expr_array he
    refine ite (fun _ => .raise (by decide) hi _) ?_
    intro _
    refine andThen (hask (.evalTaken (depth + 1) items) hitems) ?_
    intro vs hvs
    exact act (.onMemory fun m hm => ⟨hm.newArray hvs, trivial⟩)
  | binary i left symbol right =>
    obtain ⟨hi, hsymbol, hleft, hright⟩ := Realm.expr_binary he
    refine ite (fun _ => hask (.evalLogical (depth + 1) left symbol right) ⟨hleft, hright⟩) ?_
    intro _
    refine andThen (hask (.eval (depth + 1) left) hleft) ?_
    intro a ha
    refine andThen (hask (.eval (depth + 1) right) hright) ?_
    intro b hb
    exact .binary hhosts hi (Realm.expr_info hleft) hsymbol (Realm.expr_info hright) ha hb
  | unary i symbol operand =>
    obtain ⟨hi, hoperand⟩ := Realm.expr_unary he
    refine andThen (hask (.eval (depth + 1) operand) hoperand) ?_
    intro a ha
    exact .unary hhosts hi symbol (Realm.expr_info hoperand) ha

/-- The plan of a statement in a realm stays there. -/
theorem Stmt.plan_stays (depth : Nat) {stmt : Stmt} (hstmt : R.stmt stmt) :
    (stmt.plan cfg depth).Stays cfg n R ℓ (Returned.Only R.function) := by
  have hask {α : Type} (t : Task σ α) (ht : t.LiesIn R ℓ) := hasks n (Nat.le_refl n) ℓ t ht
  have hunknown (message : String) (h : R.loose) {quiet : (failText message : Run σ (Option Value)).Quiet} :
      (Plan.act (failText message) quiet).Stays cfg n R ℓ (Returned.Only R.function) := act (.failText h message)
  cases stmt with
  | var i names =>
    obtain ⟨-, hnames⟩ := Realm.part_cons.mp hstmt
    exact andThen (hask (.execDeclared depth names) hnames) fun _ _ => pure only_none
  | assign a => exact andThen (hask (.execAssign depth a) hstmt) fun _ _ => pure only_none
  | bump i target symbol =>
    obtain ⟨hi, htarget⟩ := Realm.stmt_bump hstmt
    apply andThen (hask (.eval depth target) htarget)
    intro p hp
    apply andThen (.bump hhosts hi (Realm.expr_info htarget) symbol hp)
    intro v hv
    apply andThen (hask (.store depth i target p v) ⟨hi, hv⟩)
    intro _ _
    exact andThen (.narrate _ hi ..) fun _ _ => pure only_none
  | call i c =>
    obtain ⟨-, hc⟩ := Realm.part_cons.mp hstmt
    exact andThen (hask (.eval depth c.toExpr) hc) fun _ _ => pure only_none
  | cond i test body branch => exact hask (.execCond depth i test body branch) (Realm.stmt_cond hstmt)
  | «while» i test body =>
    obtain ⟨hi, htest, hbody⟩ := Realm.stmt_while hstmt
    have hnone : R.header none := ⟨fun _ hn => absurd hn List.not_mem_nil, .inr rfl⟩
    exact hask (.execLoop depth i "while" test none body) ⟨hi, htest, hnone, hbody⟩
  | «for» i first test update body =>
    obtain ⟨hi, hfirst, hloop⟩ := Realm.stmt_for hstmt
    have hrounds := hask (.execLoop depth i "for" test update body) ⟨hi, hloop⟩
    cases first with
    | none => exact hrounds
    | some s => exact andThen (hask (.exec depth s) hfirst) fun _ _ => hrounds
  | function i name params body =>
    obtain ⟨hi, hbody⟩ := Realm.stmt_function hstmt
    exact andThen (.function hi name params hbody) fun _ _ => pure only_none
  | «return» i value => exact hask (.execReturn depth i value) (Realm.stmt_return hstmt)
  | declared | elseIf | orElse => exact hunknown _ (hstmt.2.resolve_right nofun)

/-- The plan of a loop stays in its realm, the rounds to come among the tasks in it. -/
theorem Task.execLoop_stays (depth : Nat) {i : Info} (tag : String) {test : Expr} {update : Option Stmt}
    {body : List Stmt} (h : (Task.execLoop depth i tag test update body : Task σ _).LiesIn R ℓ) :
    ((Task.execLoop depth i tag test update body).plan cfg).Stays cfg n R ℓ (Returned.Only R.function) := by
  have hask {α : Type} (t : Task σ α) (ht : t.LiesIn R ℓ) := hasks n (Nat.le_refl n) ℓ t ht
  have hrounds := hask (.execLoop depth i tag test update body) h
  obtain ⟨hi, htest, hupdate, hbody⟩ := h
  apply andThen (.tick hi)
  intro _ _
  apply andThen (hask (.eval depth test) htest)
  intro c hc
  apply andThen (.test hhosts hi tag (Realm.expr_info htest) hc)
  intro holds _
  refine ite ?_ fun _ => pure only_none
  intro _
  apply andThen (hask (.execAll depth body) hbody)
  intro returned hreturned
  cases returned with
  | some v => exact pure hreturned
  | none =>
    cases update with
    | none => exact hrounds
    | some s => exact andThen (hask (.exec depth s) hupdate) fun _ _ => hrounds

/-- The plan of a conditional stays in its realm, with all branches below it. -/
theorem Task.execCond_stays (depth : Nat) {i : Info} {test : Expr} {body : List Stmt} {branch : Option Stmt}
    (h : (Task.execCond depth i test body branch : Task σ _).LiesIn R ℓ) :
    ((Task.execCond depth i test body branch).plan cfg).Stays cfg n R ℓ (Returned.Only R.function) := by
  have hask {α : Type} (t : Task σ α) (ht : t.LiesIn R ℓ) := hasks n (Nat.le_refl n) ℓ t ht
  obtain ⟨hi, htest, hbody, hbranch⟩ := h
  apply andThen (hask (.eval depth test) htest)
  intro c hc
  apply andThen (.test hhosts hi "if" (Realm.expr_info htest) hc)
  intro holds _
  refine ite (fun _ => hask (.execAll depth body) hbody) ?_
  intro _
  rcases branch with _ | branch
  · exact pure only_none
  · cases branch
    case elseIf outer inner test body branch =>
      obtain ⟨houter, hinner⟩ := Realm.branch_elseIf hbranch
      exact andThen (.record houter _) fun _ _ => hask (.execCond depth inner test body branch) hinner
    case orElse outer body =>
      obtain ⟨houter, hbody⟩ := Realm.branch_orElse hbranch
      exact andThen (.record houter _) fun _ _ => hask (.execAll depth body) hbody
    all_goals exact pure only_none

end Trees

include hhosts hdepth hasks

/-- A call goes up to a level with one more active call and comes back. The function that is called may push a
frame there, and a host may call back as often as it likes. -/
theorem Task.call_stays (depth : Nat) {i : Info} {callee : Expr} {args : List Expr} {f : Value} {given : List Value}
    {ℓ : Level} (h : (Task.call depth i callee args f given : Task σ _).LiesIn R ℓ) (hℓ : ℓ.frames ≤ ℓ.calls) :
    ((Task.call depth i callee args f given).plan cfg).Stays cfg n R ℓ (Value.Only R.function) := by
  obtain ⟨⟨hi, hsite, hcallee, hargs⟩, hf, hgiven⟩ := h
  obtain ⟨frames, calls⟩ := ℓ
  have hfree : frames < calls + 1 := Nat.lt_succ_of_le hℓ
  have hentered (g : Value) (hg : g.Only R.function) (values : List Value) (hvalues : Values.Only R.function values) :
      (Plan.callValue depth i callee g values).Stays cfg n R ⟨frames, calls + 1⟩ (Value.Only R.function) := by
    cases g
    case function g =>
      apply andThen (.record hi _)
      intro _ _
      exact hasks n (Nat.le_refl n) _ (.callFunction depth i g values) ⟨hi, hg, hvalues, hfree⟩
    case hostFunction g =>
      have hcallBacks : Plan.Leads.CallBacks cfg R ⟨frames, calls + 1⟩ depth n := fun k hk f args hf hargs =>
        hasks k (Nat.le_of_lt hk) _ (.callFunction depth f.info f args) ⟨hf.1, hf, hargs, hfree⟩
      exact andThen (.record hi _) fun _ _ => .hostCall hhosts hcallBacks hi callee g.key hvalues
    all_goals exact andThen (.record hi _) fun _ _ => .raise (by decide) hi _
  -- A failure anywhere between the two levels is one at the lower level, since calls that failed may stay.
  have hlower {α : Type} {p : Plan σ α} {Q : α → Prop} (hp : p.Stays cfg n R ⟨frames, calls + 1⟩ Q) :
      p.Leads cfg n R ⟨frames, calls + 1⟩ ⟨frames, calls + 1⟩ ⟨frames, calls⟩ Q := by
    refine ⟨?_, hp.reaches⟩
    intro s hs
    have hrun := hp.run s hs
    generalize p.run cfg n s = o at hrun
    cases hrun with
    | done hu ha => exact .done hu ha
    | failed hu he =>
      refine .failed ⟨hu.only, hu.host, ?_, hu.reported⟩ he
      exact { hu.stands with frames_le := hℓ, calls_le := Nat.le_of_succ_le hu.stands.calls_le }
    | exhausted => exact .exhausted
  apply andThen (.take hhosts (Realm.expr_info hcallee) hf)
  intro g hg
  apply andThen (act (.takeAll hhosts (Realm.exprs_info hargs) hgiven))
  intro values hvalues
  apply andThen .asks
  intro label _
  apply andThen (.narrate _ hi ..)
  intro _ _
  apply andThen (.enterCall hdepth hi hsite)
  intro _ _
  apply andThen (hlower (hentered g hg values hvalues))
  intro result hresult
  exact andThen (.leaveCall hℓ) fun _ _ => .callResult hi label hresult

/-- The plan of a task that works in a realm stays there. -/
theorem Task.plan_stays {ℓ : Level} (hℓ : ℓ.frames ≤ ℓ.calls) (t : Task σ α) (ht : t.LiesIn R ℓ) :
    (t.plan cfg).Stays cfg n R ℓ (t.Gives R) := by
  have hask {α : Type} (t : Task σ α) (ht : t.LiesIn R ℓ) := hasks n (Nat.le_refl n) ℓ t ht
  cases t with
  | eval depth e =>
    refine ite (fun _ => .raise (by decide) (Realm.expr_info ht) _) ?_
    intro _
    exact e.plan_stays hhosts hasks depth ht
  | evalAll depth es =>
    cases es with
    | nil => exact pure Values.only_nil
    | cons e es =>
      obtain ⟨he, hes⟩ := Realm.part_append.mp ht
      apply andThen (hask (.eval depth e) he)
      intro v hv
      apply andThen (hask (.evalAll depth es) hes)
      intro vs hvs
      exact pure (Values.only_cons hv hvs)
  | evalTaken depth es =>
    cases es with
    | nil => exact pure Values.only_nil
    | cons e es =>
      obtain ⟨he, hes⟩ := Realm.part_append.mp ht
      apply andThen (hask (.eval depth e) he)
      intro v hv
      apply andThen (.take hhosts (Realm.expr_info he) hv)
      intro w hw
      apply andThen (hask (.evalTaken depth es) hes)
      intro ws hws
      exact pure (Values.only_cons hw hws)
  | evalLogical depth left symbol right =>
    obtain ⟨hleft, hright⟩ := ht
    apply andThen (hask (.eval depth left) hleft)
    intro a ha
    apply andThen (act (.takeUnchecked hhosts (Realm.expr_info hleft) ha))
    intro x hx
    apply andThen .asks
    intro decided _
    refine ite (fun _ => pure hx) ?_
    intro _
    apply andThen (hask (.eval depth right) hright)
    intro b hb
    exact act (.takeUnchecked hhosts (Realm.expr_info hright) hb)
  | call depth i callee args f given => exact call_stays hhosts hdepth hasks depth ht hℓ
  | callFunction depth i f args =>
    obtain ⟨hi, hf, hargs, hfree⟩ := ht
    obtain ⟨frames, calls⟩ := ℓ
    apply andThen (.enterFunction hi hf hargs hfree)
    intro _ _
    exact .inFrame (hasks n (Nat.le_refl n) _ (.execAll depth f.body) hf.2)
  | store depth i target place v =>
    obtain ⟨hi, hv⟩ := ht
    cases place
    case hostVariable h => exact andThen (.hostSet hhosts depth hi target h.key hv) fun _ _ => pure trivial
    all_goals exact act (.assignPlace hi target _ hv)
  | execAll depth body =>
    cases body with
    | nil => exact pure only_none
    | cons s rest =>
      obtain ⟨hs, hrest⟩ := Realm.part_append.mp ht
      apply andThen (hask (.exec depth s) hs)
      intro returned hreturned
      cases returned with
      | some v => exact pure hreturned
      | none => exact hask (.execAll depth rest) hrest
  | exec depth stmt =>
    exact andThen (.tick (Realm.stmt_info ht)) fun _ _ => stmt.plan_stays hhosts hasks depth ht
  | execDeclared depth names =>
    cases names with
    | nil => exact pure trivial
    | cons d ds =>
      obtain ⟨hi, hfirst, hds⟩ := Realm.names_cons ht
      apply andThen (.declared hi)
      intro _ _
      rcases d with ⟨i, name, _ | a⟩
      · exact hask (.execDeclared depth ds) hds
      · exact andThen (hask (.execAssign depth a) (hfirst a rfl)) fun _ _ => hask (.execDeclared depth ds) hds
  | execAssign depth a =>
    obtain ⟨hi, hsymbol, htarget, hvalue⟩ := Realm.assignment_parts ht
    apply andThen (hask (.eval depth a.target) htarget)
    intro p hp
    apply andThen (hask (.eval depth a.value) hvalue)
    intro given hgiven
    apply andThen (.assigned hhosts hi (Realm.expr_info htarget) (Realm.expr_info hvalue) hsymbol hp hgiven)
    intro v hv
    exact andThen (hask (.store depth a.info a.target p v) ⟨hi, hv⟩) fun _ _ => .narrate _ hi ..
  | execCond depth i test body branch => exact execCond_stays hhosts hasks depth ht
  | execLoop depth i tag test update body => exact execLoop_stays hhosts hasks depth tag ht
  | execReturn depth i value =>
    obtain ⟨hi, hvalue⟩ := ht
    apply andThen (.record hi _)
    intro _ _
    apply andThen .asks
    intro outside _
    refine ite (fun _ => .raise (by decide) hi _) ?_
    intro _
    cases value with
    | none => exact pure (only_some trivial)
    | some e =>
      have he := hvalue e rfl
      apply andThen (hask (.eval depth e) he)
      intro v hv
      apply andThen (.take hhosts (Realm.expr_info he) hv)
      intro w hw
      exact andThen (.narrate _ hi ..) fun _ _ => pure (only_some hw)

end Tasks

/-- A task that works in a realm stays there, whatever bound its recursion has. -/
theorem Task.stays {cfg : Setting σ} (hhosts : cfg.hosts.Fit R) (hdepth : cfg.limits.callDepth ≤ R.depth) (n : Nat)
    (ℓ : Level) (t : Task σ α) (ht : t.LiesIn R ℓ) : (Plan.ask t).Stays cfg n R ℓ (t.Gives R) := by
  -- A host may call back with any smaller bound, so the bound before this one is not enough.
  induction n using Nat.strongRecOn generalizing α ℓ t with
  | _ n ih =>
    cases n with
    | zero =>
      have hrun (s : RunState σ) : ((Plan.ask t).run cfg 0 s).Confined R ℓ ℓ (t.Gives R) := by
        have hzero : (Plan.ask t).run cfg 0 s = .exhausted := by cases t <;> rfl
        rw [hzero]
        exact .exhausted
      refine ⟨fun s _ => hrun s, ?_⟩
      intro s e u hs h
      cases h with
      | border h => exact h.point hs (hrun s)
    | succ n =>
      by_cases hℓ : ℓ.frames ≤ ℓ.calls
      · have hplan := t.plan_stays hhosts hdepth (fun k hk _ ℓ t ht => ih k (Nat.lt_succ_of_le hk) ℓ t ht) hℓ ht
        have hrun (s : RunState σ) (hs : s.Confined R ℓ) :
            ((Plan.ask t).run cfg (n + 1) s).Confined R ℓ ℓ (t.Gives R) := by
          show (t.run cfg (n + 1) s).Confined R ℓ ℓ _
          rw [t.run_succ]
          exact hplan.run s hs
        refine ⟨hrun, ?_⟩
        intro s e u hs h
        cases h with
        | border h => exact h.point hs (hrun s hs)
        | ask h => exact hplan.reaches s e u hs h
      · exact ⟨fun s hs => absurd hs.stands.frames_le hℓ, fun s e u hs => absurd hs.stands.frames_le hℓ⟩

end Primer
