import Primer.Proofs.Record.Trail

/-!
# One command for every construct

A declared name, an assignment, a step by one, an operator, a test, a taken `else`, a function declaration, a
`return` and a call are constructs: each records one command when it is evaluated, and whether it succeeds or
fails makes no difference to that. `Task.constructs` lists the constructs that a task evaluates itself, which
it does once their parts have been evaluated, and `one_command_per_construct` says that these are the nodes of
the commands that it records.

There is one exception. A call whose function or arguments cannot be used, or for which there is no room, ends
before its command: an evaluated call is in the list only if it was entered.
-/

set_option autoImplicit false

namespace Primer

open Run

variable {σ α β : Type}

/-! ## Constructs -/

/-- The node of a branch that is taken if a test does not hold. -/
def Stmt.elseNodes : Option Stmt → List NodeId
  | some (.elseIf outer ..) | some (.orElse outer _) => [outer.id]
  | _ => []

/-- The constructs that a task evaluates itself from a state on: their parts have been evaluated, those that
come after a tick were ticked, and calls were entered. -/
def Task.constructs (cfg : Setting σ) (n : Nat) : {α : Type} → Task σ α → RunState σ → List NodeId
  | _, .eval depth (.binary info left _ right), s =>
    if maxEvalDepth ≤ depth then []
    else
      ((Task.eval (depth + 1) left).run cfg n s).after fun _ s =>
        ((Task.eval (depth + 1) right).run cfg n s).after fun _ _ => [info.id]
  | _, .eval depth (.unary info _ operand), s =>
    if maxEvalDepth ≤ depth then []
    else ((Task.eval (depth + 1) operand).run cfg n s).after fun _ _ => [info.id]
  | _, .call _ info callee args f given, s =>
    (callParts cfg info callee args f given s).after fun _ s =>
      if s.calls.length < cfg.limits.callDepth then [info.id] else []
  | _, .exec depth (.bump info target _), s =>
    (tick cfg info s).after fun _ s =>
      ((Task.eval depth target).run cfg n s).after fun _ _ => [info.id]
  | _, .exec _ (.function info ..), s => (tick cfg info s).after fun _ _ => [info.id]
  | _, .execDeclared _ (d :: _), _ => [d.info.id]
  | _, .execAssign depth a, s =>
    ((Task.eval depth a.target).run cfg n s).after fun _ s =>
      ((Task.eval depth a.value).run cfg n s).after fun _ _ => [a.info.id]
  | _, .execCond depth info test _ branch, s =>
    ((Task.eval depth test).run cfg n s).after fun c s =>
      info.id :: (testAction cfg info "if" test c s).after fun holds _ =>
        if holds then [] else Stmt.elseNodes branch
  | _, .execLoop depth info _ test _ _, s =>
    (tick cfg info s).after fun _ s =>
      ((Task.eval depth test).run cfg n s).after fun _ _ => [info.id]
  | _, .execReturn _ info _, _ => [info.id]
  | _, _, _ => []

/-! ## Plans that record nothing, and plans that record once -/

variable {cfg : Setting σ} {n : Nat}

namespace Plan

/-- The commands of a sequence are those of its steps in a row. -/
theorem own_bind (x : Plan σ α) (f : α → Plan σ β) (s : RunState σ) :
    (x >>= f).own cfg n s = x.own cfg n s ++ (x.run cfg n s).after fun a u => (f a).own cfg n u := by
  show List.filterMap _ (x.trail cfg n s ++ _) = _
  rw [List.filterMap_append, Outcome.filterMap_after]
  rfl

/-- How a sequence of plans is grouped does not matter for its commands. -/
theorem own_assoc {γ : Type} (x : Plan σ α) (f : α → Plan σ β) (g : β → Plan σ γ) (s : RunState σ) :
    ((x >>= f) >>= g).own cfg n s = (x >>= fun a => f a >>= g).own cfg n s := by
  rw [own_bind (x >>= f), own_bind x f, own_bind x fun a => f a >>= g]
  show _ ++ (((x.run cfg n >>= fun a => (f a).run cfg n) s).after fun b u => (g b).own cfg n u) = _
  rw [Run.after_bind, List.append_assoc]
  cases x.run cfg n s with
  | done a u => exact congrArg (x.own cfg n s ++ ·) (own_bind (f a) g u).symm
  | failed e u => rfl
  | exhausted => rfl

/-- A plan that records no command itself. -/
def Silent (cfg : Setting σ) (n : Nat) (p : Plan σ α) : Prop := ∀ s, p.own cfg n s = []

/-- A plan that records exactly one command itself, at a given node. -/
def Once (cfg : Setting σ) (n : Nat) (node : NodeId) (p : Plan σ α) : Prop :=
  ∀ s, (p.own cfg n s).map Command.node = [node]

namespace Silent

/-- An action records nothing of its own. -/
theorem act {x : Run σ α} {quiet : x.Quiet} : Silent cfg n (.act x quiet) := fun _ => rfl

/-- A plan that gives a value records nothing of its own. -/
theorem pure (a : α) : Silent cfg n (Pure.pure a : Plan σ α) := fun _ => rfl

/-- What a task records is the task's own. -/
theorem ask (t : Task σ α) : Silent cfg n (.ask t) := fun _ => rfl

/-- Counting a statement records nothing of its own. -/
theorem tick (info : Info) : Silent cfg n (.tick info : Plan σ Unit) := fun _ => rfl

/-- Narrating a step records nothing of its own. -/
theorem narrate {category : Category} {node : NodeId} {message : Memory → String} {changes : Unit → List Change} :
    Silent cfg n (.narrate category node message changes : Plan σ Unit) := fun _ => rfl

/-- A sequence of silent plans is silent. -/
theorem bind {x : Plan σ α} {f : α → Plan σ β} (hx : Silent cfg n x) (hf : ∀ a, Silent cfg n (f a)) :
    Silent cfg n (x >>= f) := by
  intro s
  rw [own_bind, hx s, List.nil_append]
  simp only [hf _ _, Outcome.after_nil]

/-- A choice between silent plans is silent. -/
theorem ite {c : Prop} [Decidable c] {x y : Plan σ α} (hx : Silent cfg n x) (hy : Silent cfg n y) :
    Silent cfg n (if c then x else y) := by
  split
  · exact hx
  · exact hy

/-- What is recorded after a silent plan. -/
theorem own_bind {x : Plan σ α} (hx : Silent cfg n x) (f : α → Plan σ β) (s : RunState σ) :
    (x >>= f).own cfg n s = (x.run cfg n s).after fun a u => (f a).own cfg n u := by
  rw [Plan.own_bind, hx s, List.nil_append]

end Silent

namespace Once

variable {node : NodeId}

/-- Recording a command records it once. -/
theorem record (info : Info) (tag : String) : Once cfg n info.id (.record info tag : Plan σ Unit) := fun _ => rfl

/-- What comes after the command may fail or not, as long as it records nothing. -/
theorem bind {x : Plan σ α} {f : α → Plan σ β} (hx : Once cfg n node x) (hf : ∀ a, Silent cfg n (f a)) :
    Once cfg n node (x >>= f) := by
  intro s
  rw [own_bind, List.map_append, hx s]
  simp only [hf _ _, Outcome.after_nil, List.map_nil, List.append_nil]

/-- An operand is taken without a record, or recorded instead of all that would have come after it. -/
theorem recorded {x : Run σ α} (hx : x.Steady fun _ => True) (quiet : x.Quiet) (info : Info) (tag : String)
    {f : α → Plan σ β} (hf : ∀ a, Once cfg n info.id (f a)) :
    Once cfg n info.id (Plan.recorded x quiet info tag >>= f) := by
  intro s
  have hs := hx.run s
  rw [own_bind]
  simp only [own, trail, Plan.run, Run.onFailure]
  generalize x s = o at hs
  cases hs with
  | @done a u => exact hf a u
  | @failed e u =>
    simp only
    generalize Mark.run cfg (Mark.record info tag) u = o
    cases o <;> rfl

/-- Two operands are taken, or one of them cannot be: this is one command in any case, if what comes after
them records one. -/
theorem operands (info : Info) (symbol : String) (left right : Expr) (a b : Value)
    {f : Value × Value → Plan σ β} (hf : ∀ v, Once cfg n info.id (f v)) :
    Once cfg n info.id (Plan.operands cfg info symbol left right a b >>= f) := by
  have htake (e : Expr) (v : Value) : (Primer.take cfg e v).Steady fun _ => True := .take (.all cfg) e v
  intro s
  unfold Plan.operands
  rw [own_assoc]
  refine recorded (htake left a) _ info _ ?_ s
  intro x u
  rw [own_assoc]
  refine recorded (htake right b) _ info _ ?_ u
  intro y t
  exact hf (x, y) t

/-- An operation records its command once, whether it succeeds or fails. -/
theorem operator (info : Info) (symbol : String) (a b : Value) :
    Once cfg n info.id (Plan.operator cfg info symbol a b) :=
  bind (record info _) fun _ => .act

/-- A binary operation records its command once. -/
theorem binary (info : Info) (left : Expr) (symbol : String) (right : Expr) (a b : Value) :
    Once cfg n info.id (Plan.binary cfg info left symbol right a b) := by
  apply operands info symbol left right a b
  intro _
  apply bind (operator info symbol _ _)
  intro _
  exact .bind .narrate fun _ => .pure _

/-- A sign records its command once. -/
theorem unary (info : Info) (symbol : String) (operand : Expr) (a : Value) :
    Once cfg n info.id (Plan.unary cfg info symbol operand a) := by
  apply bind (record info _)
  intro _
  refine .bind .act ?_
  intro _
  exact .bind .act fun _ => .bind .narrate fun _ => .pure _

/-- An assignment records its command once. -/
theorem assigned (a : Assignment) (place given : Value) :
    Once cfg n a.info.id (Plan.assigned cfg a place given) := by
  unfold Plan.assigned
  split
  · exact bind (record a.info "=") fun _ => .act
  · exact operands a.info a.symbol a.target a.value place given fun _ => operator a.info a.symbol _ _

/-- An increment or decrement records its command once. -/
theorem bump (info : Info) (target : Expr) (symbol : String) (place : Value) :
    Once cfg n info.id (Plan.bump cfg info target symbol place) :=
  bind (record info "++") fun _ => .bind .act fun _ => .act

/-- A test records its command once. -/
theorem test (info : Info) (tag : String) (e : Expr) (c : Value) :
    Once cfg n info.id (Plan.test cfg info tag e c) :=
  bind (record info tag) fun _ => .bind .act fun _ => .act

/-- A declaration records its command once. -/
theorem declared (d : Declared) : Once cfg n d.info.id (Plan.declared cfg d : Plan σ Unit) := by
  apply bind (record d.info "var")
  intro _
  refine .bind .act ?_
  intro _
  exact .ite (.pure _) (.bind .act fun _ => .ite .narrate (.pure _))

/-- The declaration of a function records its command once. -/
theorem function (info : Info) (name : String) (params : List String) (body : List Stmt) :
    Once cfg n info.id (Plan.function cfg info name params body : Plan σ Unit) := by
  have hbind : Silent cfg n (Plan.bindFunction info name params body : Plan σ Unit) :=
    .bind .act fun _ => .bind .act fun _ => .narrate
  apply bind (record info "function")
  intro _
  refine .bind .act ?_
  intro existing?
  cases existing? with
  | none => exact hbind
  | some existing => exact .ite hbind .act

/-- An entered call is recorded, whatever is called. -/
theorem callValue (depth : Nat) (info : Info) (callee : Expr) (f : Value) (args : List Value) :
    Once cfg n info.id (Plan.callValue depth info callee f args : Plan σ Value) := by
  cases f
  case function g => exact bind (record info "call") fun _ => .ask _
  case hostFunction g => exact bind (record info g.tag) fun _ _ => rfl
  all_goals exact bind (record info "call") fun _ => .act

end Once

/-- The result of a call records nothing more. -/
theorem callResult_silent (info : Info) (label : String) (result : Value) :
    Silent cfg n (Plan.callResult info label result : Plan σ Value) := by
  cases result
  case absent | undefined | null => exact .pure _
  all_goals exact .bind .narrate fun _ => .pure _

end Plan

/-! ## The constructs of a task -/

open Plan (Silent Once)

/-- Behind a silent plan, the nodes of the commands are those of what follows, in the state at the end of the plan. -/
theorem Plan.Silent.nodes_bind {x : Plan σ α} (hx : Silent cfg n x) {f : α → Plan σ β}
    {nodes : α → RunState σ → List NodeId}
    (h : ∀ a u, ((f a).own cfg n u).map Command.node = nodes a u) (s : RunState σ) :
    ((x >>= f).own cfg n s).map Command.node = (x.run cfg n s).after nodes := by
  rw [hx.own_bind, Outcome.map_after]
  congr 1
  funext a u
  exact h a u

/-- Expressions record themselves, once their operands have been evaluated. -/
theorem Expr.own_plan (hchecked : cfg.strategy ≠ .raw) (depth : Nat) (hdepth : ¬ maxEvalDepth ≤ depth) (e : Expr)
    (s : RunState σ) :
    ((e.plan cfg depth).own cfg n s).map Command.node = (Task.eval depth e).constructs cfg n s := by
  have hraw : cfg.isRaw = false := by simpa [Setting.isRaw] using hchecked
  cases e with
  | number | string | boolean | null | name => rfl
  | member info object property => exact congrArg _ (Silent.bind (.ask _) (fun _ => .act) s)
  | element info base position =>
    exact congrArg _ (Silent.bind (.ask _) (fun _ => .bind (.ask _) fun _ => .act) s)
  | call info callee args =>
    exact congrArg _ (Silent.bind (.ask _) (fun _ => .bind (.ask _) fun _ => .ask _) s)
  | array info items => exact congrArg _ (Silent.ite .act (.bind (.ask _) fun _ => .act) s)
  | binary info left symbol right =>
    simp only [Expr.plan, hraw, Bool.false_and, Bool.false_eq_true, if_false, Task.constructs, if_neg hdepth]
    refine Silent.nodes_bind (.ask _) ?_ s
    intro a u
    refine Silent.nodes_bind (.ask _) ?_ u
    intro b t
    exact Once.binary info left symbol right a b t
  | unary info symbol operand =>
    simp only [Expr.plan, Task.constructs, if_neg hdepth]
    refine Silent.nodes_bind (.ask _) ?_ s
    intro a u
    exact Once.unary info symbol operand a u

/-- Of the statements, steps by one and function declarations record themselves. -/
theorem Stmt.own_plan (depth : Nat) (stmt : Stmt) (s : RunState σ) :
    ((Task.exec depth stmt).own cfg n s).map Command.node = (Task.exec depth stmt).constructs cfg n s := by
  have hsilent (h : (stmt.plan cfg depth).Silent cfg n) :
      ((Task.exec depth stmt).own cfg n s).map Command.node = [] :=
    congrArg _ (Silent.bind (.tick stmt.info) (fun _ => h) s)
  cases stmt with
  | bump info target symbol =>
    refine Silent.nodes_bind (.tick info) ?_ s
    intro _ u
    refine Silent.nodes_bind (.ask _) ?_ u
    intro p t
    refine Once.bind (.bump info target symbol p) ?_ t
    intro v
    exact .bind (.ask _) fun _ => .bind .narrate fun _ => .pure _
  | function info name params body =>
    refine Silent.nodes_bind (.tick info) ?_ s
    intro _ u
    exact Once.bind (.function info name params body) (fun _ => .pure _) u
  | «for» info first test update body =>
    cases first with
    | none => exact hsilent (.ask _)
    | some stmt => exact hsilent (.bind (.ask _) fun _ => .ask _)
  | var | assign | call => exact hsilent (.bind (.ask _) fun _ => .pure _)
  | cond | «while» | «return» => exact hsilent (.ask _)
  | declared | elseIf | orElse => exact hsilent .act

/-- A call records itself if it is entered. -/
theorem Task.own_call (depth : Nat) (info : Info) (callee : Expr) (args : List Expr) (f : Value)
    (given : List Value) (s : RunState σ) :
    ((Task.call depth info callee args f given).own cfg n s).map Command.node =
      (Task.call depth info callee args f given).constructs cfg n s := by
  simp only [Task.constructs, callParts, Run.after_bind]
  refine Silent.nodes_bind .act ?_ s
  intro f s
  refine Silent.nodes_bind .act ?_ s
  intro values s
  refine Silent.nodes_bind .act ?_ s
  intro label s
  refine Silent.nodes_bind .narrate ?_ s
  intro _ s
  refine (Silent.nodes_bind .act (fun _ _ => rfl) s).trans ?_
  show (enterCall cfg info s).after _ = if s.calls.length < cfg.limits.callDepth then [info.id] else []
  by_cases hroom : s.calls.length < cfg.limits.callDepth
  · rw [enterCall_of_lt hroom, if_pos hroom]
    refine Once.bind (.callValue depth info callee f values) ?_ _
    intro result
    exact .bind .act fun _ => Plan.callResult_silent info label result
  · rw [enterCall_of_le (Nat.le_of_not_lt hroom), if_neg hroom]
    rfl

/-- A branch that is taken if a test does not hold records itself. -/
theorem Stmt.own_elseNodes (depth : Nat) (branch : Option Stmt) (s : RunState σ) :
    (Plan.own cfg n (match branch with
      | some (.elseIf outer inner test body branch) => do
        .record outer "else"
        .ask (.execCond depth inner test body branch)
      | some (.orElse outer body) => do
        .record outer "else"
        .ask (.execAll depth body)
      | _ => pure none) s).map Command.node = Stmt.elseNodes branch := by
  rcases branch with _ | branch
  · rfl
  · cases branch
    case elseIf outer inner test body branch => exact Once.bind (.record outer "else") (fun _ => .ask _) s
    case orElse outer body => exact Once.bind (.record outer "else") (fun _ => .ask _) s
    all_goals rfl

/-- A task records one command itself for every construct that it evaluates, and no other. -/
theorem Task.own_constructs (hchecked : cfg.strategy ≠ .raw) (t : Task σ α) (s : RunState σ) :
    (t.own cfg n s).map Command.node = t.constructs cfg n s := by
  cases t with
  | eval depth e =>
    by_cases hdepth : maxEvalDepth ≤ depth
    · have hplan : (Task.eval depth e).plan cfg = .raise .limit e.info "Expression is nested too deeply" := if_pos hdepth
      rw [own, hplan]
      cases e <;> first | rfl | exact (if_pos hdepth).symm
    · have hplan : (Task.eval depth e).plan cfg = e.plan cfg depth := if_neg hdepth
      rw [own, hplan]
      exact e.own_plan hchecked depth hdepth s
  | evalAll depth es =>
    cases es with
    | nil => rfl
    | cons e es => exact congrArg _ (Silent.bind (.ask _) (fun _ => .bind (.ask _) fun _ => .pure _) s)
  | evalTaken depth es =>
    cases es with
    | nil => rfl
    | cons e es =>
      exact congrArg _ (Silent.bind (.ask _) (fun _ => .bind .act fun _ => .bind (.ask _) fun _ => .pure _) s)
  | evalLogical depth left symbol right =>
    have hsilent : Silent cfg n ((Task.evalLogical depth left symbol right).plan cfg) := by
      refine .bind (.ask _) ?_
      intro _
      refine .bind .act ?_
      intro _
      refine .bind .act ?_
      intro _
      exact .ite (.pure _) (.bind (.ask _) fun _ => .act)
    exact congrArg _ (hsilent s)
  | call depth info callee args f given => exact own_call depth info callee args f given s
  | callFunction depth info f args =>
    have henter : Silent cfg n (Plan.enterFunction cfg info f args) :=
      .ite .act (.bind .act fun _ => .bind .act fun _ => .bind .narrate fun _ => .act)
    exact congrArg _ (Silent.bind henter (fun _ _ => rfl) s)
  | store depth info target place v =>
    cases place
    case hostVariable h => exact congrArg _ (Silent.bind (fun _ => rfl) (fun _ => .pure _) s)
    all_goals rfl
  | execAll depth body =>
    cases body with
    | nil => rfl
    | cons stmt rest =>
      refine congrArg _ (Silent.bind (.ask _) ?_ s)
      intro returned
      cases returned with
      | some v => exact .pure _
      | none => exact .ask _
  | exec depth stmt => exact stmt.own_plan depth s
  | execDeclared depth names =>
    cases names with
    | nil => rfl
    | cons d ds =>
      refine Once.bind (.declared d) ?_ s
      intro _
      cases d.first with
      | none => exact .ask _
      | some a => exact .bind (.ask _) fun _ => .ask _
  | execAssign depth a =>
    refine Silent.nodes_bind (.ask _) ?_ s
    intro p u
    refine Silent.nodes_bind (.ask _) ?_ u
    intro given t
    exact Once.bind (.assigned a p given) (fun v => .bind (.ask _) fun _ => .narrate) t
  | execCond depth info test body branch =>
    refine Silent.nodes_bind (.ask _) ?_ s
    intro c u
    rw [Plan.own_bind, List.map_append, Once.test info "if" test c u, Outcome.map_after, Plan.run_test]
    apply congrArg (info.id :: ·)
    apply congrArg (Outcome.after _)
    funext holds t
    cases holds with
    | true => rfl
    | false => exact Stmt.own_elseNodes depth branch t
  | execLoop depth info tag test update body =>
    refine Silent.nodes_bind (.tick info) ?_ s
    intro _ u
    refine Silent.nodes_bind (.ask _) ?_ u
    intro c t
    refine Once.bind (.test info tag test c) ?_ t
    intro holds
    refine .ite ?_ (.pure _)
    refine .bind (.ask _) ?_
    intro returned
    cases returned with
    | some v => exact .pure _
    | none =>
      cases update with
      | none => exact .ask _
      | some stmt => exact .bind (.ask _) fun _ => .ask _
  | execReturn depth info value =>
    refine Once.bind (.record info "return") ?_ s
    intro _
    refine .bind .act ?_
    intro outside
    refine .ite .act ?_
    cases value with
    | none => exact .pure _
    | some e =>
      refine .bind (.ask _) ?_
      intro _
      exact .bind .act fun _ => .bind .narrate fun _ => .pure _

/-- What a checked run records: the commands that it adds are those that its tasks record themselves, in the
order in which these are carried out, and every task, in any state, records one command for each construct that
it evaluates, succeed or fail, and no other. -/
theorem one_command_per_construct (cfg : Setting σ) (hchecked : cfg.strategy ≠ .raw) (hstill : cfg.hosts.Still)
    (n : Nat) (t : Task σ α) (s : RunState σ) :
    (t.run cfg (n + 1) s).Leaves (fun u => u.commands = (t.records cfg (n + 1) s).reverse ++ s.commands) ∧
      (t.own cfg n s).map Command.node = t.constructs cfg n s :=
  ⟨Task.run_recorded hchecked hstill (n + 1) t s, t.own_constructs hchecked s⟩

/-- The quotient `1 / 0` records its operator although it fails. -/
theorem failing_quotient_recorded_once :
    let quotient : Expr := .binary ⟨1, ⟨"/", 1, 3⟩⟩ (.number ⟨2, ⟨"1", 1, 1⟩⟩ 1.0 "1") "/" (.number ⟨3, ⟨"0", 1, 5⟩⟩ 0.0 "0")
    ((Task.eval 0 quotient).run (.plain .safe none .none) 3 .plain).Leaves (fun u => u.commands = [⟨1, "+"⟩]) ∧
      ((Task.eval 0 quotient).own (.plain .safe none .none) 2 .plain).map Command.node = [1] := by
  intro quotient
  obtain ⟨hrun, hown⟩ := one_command_per_construct (.plain .safe none .none) (by decide) Hosts.still_standard 2
    (Task.eval 0 quotient) .plain
  exact ⟨hrun, hown⟩

/-- The call `g(x)` of a function with a variable that is undefined evaluates its function and its argument, and
fails without a command. -/
theorem call_of_undefined_unrecorded :
    let info : Info := ⟨0, ⟨"", 1, 1⟩⟩
    let s := initialState (σ := HostState Unit) ⟨Console.empty, ()⟩ Memory.empty
      [("g", .function ⟨0, info, "g", ["a"], []⟩), ("x", .undefined)]
    let cfg := Setting.plain .safe none .none
    ∃ f vs e u, (Task.eval 1 (.name info "g")).run cfg 1 s = .done f s ∧
      (Task.evalAll 1 [.name info "x"]).run cfg 2 s = .done vs s ∧
      (Task.eval 0 (.call info (.name info "g") [.name info "x"])).run cfg 3 s = .failed e u ∧ u.commands = [] :=
  ⟨_, _, _, _, rfl, rfl, rfl, rfl⟩

end Primer
