import Primer.Proofs.Run.Quiet

/-!
# What the evaluator does, piece by piece

The functions of the evaluator hand work to each other. A `Task` is one such piece of work: a function of
the evaluator with its arguments. A `Plan` is what a task consists of, as data: quiet computations, the
marks where a command or a tick is recorded and the run may be stopped, narration, further tasks, and the
uses of hosts. `Task.run_succ` says that carrying out the plan of a task is running the function. What holds
of all plans therefore holds of the evaluator, and the modules that build on this one argue about plans
only.

A plan has no piece that breaks down, and what tidies up in it does so after every failure. That the evaluator
does as much is part of the same induction: with one more step of recursion a task carries out its plan if no
task in it breaks down (`Task.run_succ_of`), and so no task does (`Task.unbroken`).
-/

set_option autoImplicit false

namespace Primer

open Run

variable {σ α β : Type}

/-! ## Tasks and plans -/

/-- A place in a run where something is counted or recorded and where the run may be stopped. -/
inductive Mark where
  | record (info : Info) (tag : String)
  | tick (info : Info)

/-- What happens at a mark. -/
def Mark.run (cfg : Setting σ) : Mark → Run σ Unit
  | .record info tag => Primer.record cfg info tag
  | .tick info => Primer.tick cfg info

/-- A piece of work for the evaluator. -/
inductive Task (σ : Type) : Type → Type where
  | eval (depth : Nat) (e : Expr) : Task σ Value
  | evalAll (depth : Nat) (es : List Expr) : Task σ (List Value)
  | evalTaken (depth : Nat) (es : List Expr) : Task σ (List Value)
  | evalLogical (depth : Nat) (left : Expr) (symbol : String) (right : Expr) : Task σ Value
  | call (depth : Nat) (info : Info) (callee : Expr) (args : List Expr) (f : Value)
      (given : List Value) : Task σ Value
  | callFunction (depth : Nat) (info : Info) (f : UserFunction) (args : List Value) : Task σ Value
  | store (depth : Nat) (info : Info) (target : Expr) (place v : Value) : Task σ Unit
  | execAll (depth : Nat) (body : List Stmt) : Task σ (Option Value)
  | exec (depth : Nat) (stmt : Stmt) : Task σ (Option Value)
  | execDeclared (depth : Nat) (names : List Declared) : Task σ Unit
  | execAssign (depth : Nat) (a : Assignment) : Task σ Unit
  | execCond (depth : Nat) (info : Info) (test : Expr) (body : List Stmt) (branch : Option Stmt) :
      Task σ (Option Value)
  | execLoop (depth : Nat) (info : Info) (tag : String) (test : Expr) (update : Option Stmt)
      (body : List Stmt) : Task σ (Option Value)
  | execReturn (depth : Nat) (info : Info) (value : Option Expr) : Task σ (Option Value)

/-- Runs the function of the evaluator that a task names. -/
def Task.run (cfg : Setting σ) (n : Nat) : Task σ α → Run σ α
  | .eval depth e => Primer.eval cfg n depth e
  | .evalAll depth es => Primer.evalAll cfg n depth es
  | .evalTaken depth es => Primer.evalTaken cfg n depth es
  | .evalLogical depth left symbol right => Primer.evalLogical cfg n depth left symbol right
  | .call depth info callee args f given => Primer.call cfg n depth info callee args f given
  | .callFunction depth info f args => Primer.callFunction cfg n depth info f args
  | .store depth info target place v => Primer.store cfg n depth info target place v
  | .execAll depth body => Primer.execAll cfg n depth body
  | .exec depth stmt => Primer.exec cfg n depth stmt
  | .execDeclared depth names => Primer.execDeclared cfg n depth names
  | .execAssign depth a => Primer.execAssign cfg n depth a
  | .execCond depth info test body branch => Primer.execCond cfg n depth info test body branch
  | .execLoop depth info tag test update body =>
    Primer.execLoop cfg n depth info tag test update body
  | .execReturn depth info value => Primer.execReturn cfg n depth info value

/-- What a task consists of. -/
inductive Plan (σ : Type) : Type → Type 1 where
  | act {α : Type} (x : Run σ α) (quiet : x.Quiet) : Plan σ α
  | mark (place : Mark) : Plan σ Unit
  | narrate (category : Category) (node : NodeId) (message : Memory → String)
      (changes : Unit → List Change) : Plan σ Unit
  | ask {α : Type} (t : Task σ α) : Plan σ α
  /-- The call of a host function. -/
  | hostCall (depth : Nat) (info : Info) (callee : Expr) (key : FunctionKey) (args : List Value) :
      Plan σ Value
  /-- The assignment to a host variable. -/
  | hostSet (depth : Nat) (info : Info) (target : Expr) (key : VariableKey) (v : Value) : Plan σ Value
  | bind {α β : Type} (x : Plan σ α) (f : α → Plan σ β) : Plan σ β
  /-- A computation whose construct is recorded when it fails, before the failure goes on. -/
  | recorded {α : Type} (x : Run σ α) (quiet : x.Quiet) (info : Info) (tag : String) : Plan σ α
  /-- The body of a function, whose frame is gone afterwards however it ends. -/
  | inFrame (x : Plan σ (Option Value)) : Plan σ Value

namespace Plan

instance : Monad (Plan σ) where
  pure a := .act (Run.value a) (.value a)
  bind := .bind

/-- Records that a node used a construct. -/
def record (info : Info) (tag : String) : Plan σ Unit := .mark (.record info tag)

/-- Counts a tick at a node. -/
def tick (info : Info) : Plan σ Unit := .mark (.tick info)

/-- Raises a fault at a node. -/
def raise (kind : FaultClass) (info : Info) (message : String) : Plan σ α :=
  .act (Run.raise kind info message) (.raise kind info message)

/-- Runs the body of a function and takes its frame away. -/
def framed (x : Run σ (Option Value)) : Run σ Value := fun s =>
  match x s with
  | .done result s => .done (result.getD .undefined) (leaveFunction s)
  | .failed e s => .failed e (leaveFunction s)
  | .exhausted => .exhausted

/-- Carries out a plan, with a bound on the recursion of the tasks in it. -/
def run (cfg : Setting σ) (n : Nat) {α : Type} : Plan σ α → Run σ α
  | .act x _ => x
  | .mark place => place.run cfg
  | .narrate category node message changes => Primer.narrate cfg category node message changes
  | .ask t => t.run cfg n
  | .hostCall depth info callee key args => fun s =>
    runHost cfg n depth info (.call callee)
      (cfg.hosts.call key (s.view cfg.strategy) s.host s.memory args) s
  | .hostSet depth info target key v => fun s =>
    match cfg.hosts.set key (s.view cfg.strategy) s.host s.memory v with
    | none => cannotAssign info target v s
    | some action => runHost cfg n depth info (.assign target) action s
  | .bind x f => x.run cfg n >>= fun a => (f a).run cfg n
  | .recorded x _ info tag => Run.onFailure x ((Mark.record info tag).run cfg)
  | .inFrame x => framed (x.run cfg n)

/-! ## The plans of the actions that leave a record -/

/-- Takes the value out of a place. -/
def take (cfg : Setting σ) (e : Expr) (v : Value) : Plan σ Value :=
  .act (Primer.take cfg e v) (.take cfg e v)

/-- The plan of `takeOperands`. -/
def operands (cfg : Setting σ) (info : Info) (symbol : String) (left right : Expr) (a b : Value) :
    Plan σ (Value × Value) := do
  let x ← .recorded (Primer.take cfg left a) (.take cfg left a) info (operatorTag symbol .absent .absent)
  let y ← .recorded (Primer.take cfg right b) (.take cfg right b) info (operatorTag symbol x .absent)
  pure (x, y)

/-- The plan of `applyBinary`. -/
def operator (cfg : Setting σ) (info : Info) (symbol : String) (a b : Value) : Plan σ Value := do
  .record info (operatorTag symbol a b)
  .act (binaryValue cfg info symbol a b) (.binaryValue ..)

/-- The plan of `binaryAction`. -/
def binary (cfg : Setting σ) (info : Info) (left : Expr) (symbol : String) (right : Expr)
    (a b : Value) : Plan σ Value := do
  let (x, y) ← operands cfg info symbol left right a b
  let v ← operator cfg info symbol x y
  .narrate .inline info.id
    (fun m => "<var>" ++ m.describe x ++ "</var> " ++ symbol ++ " <var>" ++ m.describe y ++
      "</var> = <var>" ++ m.describe v ++ "</var>")
    (fun _ => [])
  pure v

/-- The plan of `unaryAction`. -/
def unary (cfg : Setting σ) (info : Info) (symbol : String) (operand : Expr) (a : Value) :
    Plan σ Value := do
  .record info (if symbol = "!" then "!" else "+")
  let x ← take cfg operand a
  let v ← .act (unaryValue cfg info symbol x) (.unaryValue ..)
  .narrate .inline info.id
    (fun m => "<var>" ++ symbol ++ m.describe x ++ "</var> = <var>" ++ m.describe v ++ "</var>")
    (fun _ => [])
  pure v

/-- The plan of `assignedAction`. -/
def assigned (cfg : Setting σ) (a : Assignment) (place given : Value) : Plan σ Value :=
  if a.symbol = "=" then do
    .record a.info "="
    take cfg a.value given
  else do
    let (x, y) ← operands cfg a.info a.symbol a.target a.value place given
    operator cfg a.info a.symbol x y

/-- The plan of `bumpAction`. -/
def bump (cfg : Setting σ) (info : Info) (target : Expr) (symbol : String) (place : Value) :
    Plan σ Value := do
  .record info "++"
  let x ← take cfg target place
  .act (bumped cfg info symbol x) (.bumped ..)

/-- The plan of `narrateAssigned`. -/
def narrateAssigned (info : Info) (target : Expr) (v : Value) : Plan σ Unit :=
  .narrate .inline info.id
    (fun m => "<var>" ++ target.code ++ "</var> = <var>" ++ m.describe v ++ "</var>")
    (fun _ => [⟨info.id, target.code⟩])

/-- The plan of `testAction`. -/
def test (cfg : Setting σ) (info : Info) (tag : String) (e : Expr) (cond : Value) : Plan σ Bool := do
  .record info tag
  let v ← take cfg e cond
  .act (testValue cfg info tag v) (.testValue ..)

/-- The plan of `declaredAction`. -/
def declared (cfg : Setting σ) (d : Declared) : Plan σ Unit := do
  .record d.info "var"
  let exists? ← .act (asks fun s => (s.scope.find? d.name).isSome) (.asks fun _ _ => rfl)
  if cfg.isRaw && exists? then pure ()
  else
    .act (declareName d.name .undefined) (.declareName ..)
    if d.first.isNone then
      .narrate .inline d.info.id
        (fun _ => "<var>" ++ d.name ++ "</var> = <var>undefined</var>")
        (fun _ => [⟨d.info.id, d.name⟩])
    else pure ()

/-- The plan of binding a name to a new function. -/
def bindFunction (info : Info) (name : String) (params : List String) (body : List Stmt) :
    Plan σ Unit := do
  let ref ← .act (onMemory fun m => (m.functions, { m with functions := m.functions + 1 })) (.onMemory _)
  .act (declareName name (.function ⟨ref, info, name, params, body⟩)) (.declareName ..)
  .narrate .block info.id
    (fun _ => "declaring <var>" ++ name ++ paramList params ++ "</var>")
    (fun _ => [⟨info.id, name⟩])

/-- The plan of `functionAction`. -/
def function (cfg : Setting σ) (info : Info) (name : String) (params : List String)
    (body : List Stmt) : Plan σ Unit := do
  .record info "function"
  let existing? ← .act (asks fun s => (s.scope.find? name).map (opened s.memory)) (.asks fun _ _ => rfl)
  match existing? with
  | some existing =>
    if cfg.isRaw then bindFunction info name params body
    else raise .assignment info ("Function <var>" ++ name ++
      "</var> cannot be declared since there already is a " ++
      (if existing.isCallable then "function" else "variable") ++ " with that name")
  | none => bindFunction info name params body

/-- The plan of `enterFunction`. -/
def enterFunction (cfg : Setting σ) (info : Info) (f : UserFunction) (args : List Value) :
    Plan σ Unit :=
  if !cfg.isRaw && args.length < f.params.length then
    raise .arity info ("Function <var>" ++ f.name ++ "</var> expects <var>" ++
      toString f.params.length ++ "</var> arguments, but got only <var>" ++ toString args.length ++ "</var>")
  else do
    let bound ← .act (bindParams cfg info f.params args) (.bindParams ..)
    let label ← .act (asks fun s => callLabel s.memory f.name args) (.asks fun _ _ => rfl)
    .narrate .block f.info.id (fun _ => "entering <var>" ++ label ++ "</var>") (fun _ => [])
    .act (update (pushFrame f bound label)) (.pushFrame ..)

end Plan

/-! ## The plans of the tasks -/

/-- The plan of an expression that is not nested too deeply. -/
def Expr.plan (cfg : Setting σ) (depth : Nat) : Expr → Plan σ Value
  | .number _ x _ => pure (.number x)
  | .string _ t _ => pure (.string t)
  | .boolean _ b => pure (.boolean b)
  | .null _ => pure .null
  | .name info x => .act (nameAction info x) (.nameAction ..)
  | .member info object property => do
    let o ← .ask (.eval (depth + 1) object)
    .act (memberAction cfg info object property o) (.memberAction ..)
  | .element info base position => do
    let a ← .ask (.eval (depth + 1) base)
    let i ← .ask (.eval (depth + 1) position)
    .act (elementAction cfg info base position a i) (.elementAction ..)
  | .call info callee args => do
    let f ← .ask (.eval (depth + 1) callee)
    let vs ← .ask (.evalAll (depth + 1) args)
    .ask (.call (depth + 1) info callee args f vs)
  | .array info items =>
    if maxArrayLength < items.length then .raise .limit info arrayTooLong
    else do
      let vs ← .ask (.evalTaken (depth + 1) items)
      .act (arrayAction vs) (.arrayAction ..)
  | .binary info left symbol right =>
    if cfg.isRaw && (symbol = "&&" || symbol = "||") then
      .ask (.evalLogical (depth + 1) left symbol right)
    else do
      let a ← .ask (.eval (depth + 1) left)
      let b ← .ask (.eval (depth + 1) right)
      .binary cfg info left symbol right a b
  | .unary info symbol operand => do
    let a ← .ask (.eval (depth + 1) operand)
    .unary cfg info symbol operand a

/-- The plan of a statement, once it is ticked. -/
def Stmt.plan (cfg : Setting σ) (depth : Nat) : Stmt → Plan σ (Option Value)
  | .var _ names => do
    .ask (.execDeclared depth names)
    pure none
  | .assign a => do
    .ask (.execAssign depth a)
    pure none
  | .bump info target symbol => do
    let p ← .ask (.eval depth target)
    let v ← .bump cfg info target symbol p
    .ask (.store depth info target p v)
    .narrateAssigned info target v
    pure none
  | .call _ c => do
    let _ ← .ask (.eval depth c.toExpr)
    pure none
  | .cond info test body branch => .ask (.execCond depth info test body branch)
  | .while info test body => .ask (.execLoop depth info "while" test none body)
  | .for info none test update body => .ask (.execLoop depth info "for" test update body)
  | .for info (some s) test update body => do
    let _ ← .ask (.exec depth s)
    .ask (.execLoop depth info "for" test update body)
  | .function info name params body => do
    .function cfg info name params body
    pure none
  | .return info value => .ask (.execReturn depth info value)
  | .declared d => .act (failText (unknownStatement (Stmt.declared d).kind)) (.failText _)
  | .elseIf i inner test body branch =>
    .act (failText (unknownStatement (Stmt.elseIf i inner test body branch).kind)) (.failText _)
  | .orElse i body => .act (failText (unknownStatement (Stmt.orElse i body).kind)) (.failText _)

/-- The plan of a call whose parts have been taken. -/
def Plan.callValue (depth : Nat) (info : Info) (callee : Expr) (f : Value)
    (args : List Value) : Plan σ Value :=
  match f with
  | .function g => do
    .record info "call"
    .ask (.callFunction depth info g args)
  | .hostFunction g => do
    .record info g.tag
    .hostCall depth info callee g.key args
  | _ => do
    .record info "call"
    .raise .reference info ("Variable <var>" ++ callee.code ++ "</var> is not a function")

/-- The plan of what comes after a call. -/
def Plan.callResult (info : Info) (label : String) (result : Value) : Plan σ Value :=
  match result with
  | .absent | .null | .undefined => pure .undefined
  | v => do
    .narrate .inline info.id
      (fun m => "<var>" ++ label ++ "</var> = <var>" ++ m.describe v ++ "</var>") (fun _ => [])
    pure v

/-- The plan of a task. -/
def Task.plan (cfg : Setting σ) : {α : Type} → Task σ α → Plan σ α
  | _, .eval depth e =>
    if maxEvalDepth ≤ depth then .raise .limit e.info "Expression is nested too deeply"
    else e.plan cfg depth
  | _, .evalAll _ [] => pure []
  | _, .evalAll depth (e :: es) => do
    let v ← .ask (.eval depth e)
    let vs ← .ask (.evalAll depth es)
    pure (v :: vs)
  | _, .evalTaken _ [] => pure []
  | _, .evalTaken depth (e :: es) => do
    let v ← .ask (.eval depth e)
    let w ← .take cfg e v
    let ws ← .ask (.evalTaken depth es)
    pure (w :: ws)
  | _, .evalLogical depth left symbol right => do
    let a ← .ask (.eval depth left)
    let x ← .act (takeUnchecked cfg left a) (.takeUnchecked ..)
    let decided ← .act (asks fun s => s.memory.isTruthy x) (.asks fun _ _ => rfl)
    if decided = (symbol == "||") then pure x
    else
      let b ← .ask (.eval depth right)
      .act (takeUnchecked cfg right b) (.takeUnchecked ..)
  | _, .call depth info callee args f given => do
    let f ← .take cfg callee f
    let values ← .act (takeAll cfg args given) (.takeAll ..)
    let label ← .act (asks fun s => callLabel s.memory callee.code values) (.asks fun _ _ => rfl)
    .narrate .inline info.id (fun _ => "calling <var>" ++ label ++ "</var>") (fun _ => [])
    .act (enterCall cfg info) (.enterCall ..)
    let result ← .callValue depth info callee f values
    .act leaveCall .leaveCall
    .callResult info label result
  | _, .callFunction depth info f args => do
    .enterFunction cfg info f args
    .inFrame (.ask (.execAll depth f.body))
  | _, .store depth info target place v =>
    match place with
    | .hostVariable h => do
      let _ ← .hostSet depth info target h.key v
      pure ()
    | place => .act (assignPlace info target place v) (.assignPlace ..)
  | _, .execAll _ [] => pure none
  | _, .execAll depth (s :: rest) => do
    match ← .ask (.exec depth s) with
    | some v => pure (some v)
    | none => .ask (.execAll depth rest)
  | _, .exec depth stmt => do
    .tick stmt.info
    stmt.plan cfg depth
  | _, .execDeclared _ [] => pure ()
  | _, .execDeclared depth (d :: ds) => do
    .declared cfg d
    match d.first with
    | none => .ask (.execDeclared depth ds)
    | some a =>
      .ask (.execAssign depth a)
      .ask (.execDeclared depth ds)
  | _, .execAssign depth a => do
    let p ← .ask (.eval depth a.target)
    let given ← .ask (.eval depth a.value)
    let v ← .assigned cfg a p given
    .ask (.store depth a.info a.target p v)
    .narrateAssigned a.info a.target v
  | _, .execCond depth info test body branch => do
    let c ← .ask (.eval depth test)
    let holds ← .test cfg info "if" test c
    if holds then .ask (.execAll depth body)
    else
      match branch with
      | some (.elseIf outer inner test body branch) =>
        .record outer "else"
        .ask (.execCond depth inner test body branch)
      | some (.orElse outer body) =>
        .record outer "else"
        .ask (.execAll depth body)
      | _ => pure none
  | _, .execLoop depth info tag test update body => do
    .tick info
    let c ← .ask (.eval depth test)
    let holds ← .test cfg info tag test c
    if holds then
      match ← .ask (.execAll depth body) with
      | some v => pure (some v)
      | none =>
        match update with
        | none => .ask (.execLoop depth info tag test update body)
        | some s =>
          let _ ← .ask (.exec depth s)
          .ask (.execLoop depth info tag test update body)
    else pure none
  | _, .execReturn depth info value => do
    .record info "return"
    let outside ← .act (asks fun s => s.frames.isEmpty) (.asks fun _ _ => rfl)
    if outside then .raise .control info "Cannot return if not inside a function"
    else
      match value with
      | none => pure (some .undefined)
      | some e =>
        let v ← .ask (.eval depth e)
        let w ← .take cfg e v
        .narrate .inline info.id
          (fun m => "returning <var>" ++ m.describe w ++ "</var>") (fun _ => [])
        pure (some w)

/-! ## Plans do what the evaluator does -/

/-- Sequences are equal if their second steps are. -/
theorem Run.bind_congr {x : Run σ α} {f g : α → Run σ β} (h : ∀ a, f a = g a) :
    x >>= f = x >>= g := by
  rw [show f = g from funext h]

/-- How a sequence is grouped does not matter. -/
theorem Run.bind_assoc {γ : Type} (x : Run σ α) (f : α → Run σ β) (g : β → Run σ γ) :
    (x >>= f) >>= g = x >>= fun a => f a >>= g := by
  funext s
  change Run.andThen (Run.andThen x f) g s = Run.andThen x (fun a => f a >>= g) s
  unfold Run.andThen
  cases x s <;> rfl

/-- Behind a step that is done the next one begins. -/
theorem Run.bind_of_done {x : Run σ α} {s s' : RunState σ} {a : α} (h : x s = .done a s') (f : α → Run σ β) :
    (x >>= f) s = f a s' := by
  show Run.andThen x f s = f a s'
  simp only [Run.andThen, h]

/-- Behind a step that fails nothing begins. -/
theorem Run.bind_of_failed {x : Run σ α} {s s' : RunState σ} {e : Failure} (h : x s = .failed e s')
    (f : α → Run σ β) : (x >>= f) s = .failed e s' := by
  show Run.andThen x f s = .failed e s'
  simp only [Run.andThen, h]

/-- A sequence that is done has done both steps. -/
theorem Run.bind_eq_done {x : Run σ α} {f : α → Run σ β} {s s'' : RunState σ} {b : β}
    (h : (x >>= f) s = .done b s'') : ∃ a s', x s = .done a s' ∧ f a s' = .done b s'' := by
  change Run.andThen x f s = .done b s'' at h
  unfold Run.andThen at h
  generalize x s = o at h
  cases o with
  | done a s' => exact ⟨a, s', rfl, h⟩
  | failed e s' => cases h
  | exhausted => cases h

section Actions

variable (cfg : Setting σ) (n : Nat)

/-- Carrying out the plan of an operator between operands is applying it. -/
theorem Plan.run_operator (info : Info) (symbol : String) (a b : Value) :
    (Plan.operator cfg info symbol a b).run cfg n = applyBinary cfg info symbol a b := by
  rw [applyBinary_eq]
  rfl

/-- Carrying out the plan of two evaluated operands is taking them and applying the operator. -/
theorem Plan.run_binary (info : Info) (left : Expr) (symbol : String) (right : Expr) (a b : Value) :
    (Plan.binary cfg info left symbol right a b).run cfg n = binaryAction cfg info left symbol right a b := by
  rw [binaryAction_eq]
  apply Run.bind_congr
  intro operands
  show (Plan.operator cfg info symbol operands.1 operands.2).run cfg n >>= _ = _
  rw [Plan.run_operator]
  rfl

/-- Carrying out the plan of an evaluated operand is taking it and applying the operator. -/
theorem Plan.run_unary (info : Info) (symbol : String) (operand : Expr) (a : Value) :
    (Plan.unary cfg info symbol operand a).run cfg n = unaryAction cfg info symbol operand a := by
  rw [unaryAction_eq]
  rfl

/-- Carrying out the plan of counting up or down is doing so. -/
theorem Plan.run_bump (info : Info) (target : Expr) (symbol : String) (place : Value) :
    (Plan.bump cfg info target symbol place).run cfg n = bumpAction cfg info target symbol place := by
  rw [bumpAction_eq]
  rfl

/-- Carrying out the plan of a test is testing. -/
theorem Plan.run_test (info : Info) (tag : String) (e : Expr) (cond : Value) :
    (Plan.test cfg info tag e cond).run cfg n = testAction cfg info tag e cond := by
  rw [testAction_eq]
  rfl

/-- Carrying out the plan of narrating an assignment is narrating it. -/
theorem Plan.run_narrateAssigned (info : Info) (target : Expr) (v : Value) :
    (Plan.narrateAssigned info target v).run cfg n = Primer.narrateAssigned cfg info target v := by
  rw [narrateAssigned_eq]
  rfl

/-- Carrying out the plan of an assignment is working out what it assigns. -/
theorem Plan.run_assigned (a : Assignment) (place given : Value) :
    (Plan.assigned cfg a place given).run cfg n = assignedAction cfg a place given := by
  unfold Plan.assigned assignedAction
  split
  · rfl
  · apply Run.bind_congr
    intro operands
    exact Plan.run_operator cfg n a.info a.symbol operands.1 operands.2

/-- Carrying out the plan of a declared name is declaring it. -/
theorem Plan.run_declared (d : Declared) : (Plan.declared cfg d).run cfg n = declaredAction cfg d := by
  apply Run.bind_congr
  intro _
  apply Run.bind_congr
  intro exists?
  show Plan.run cfg n (if (cfg.isRaw && exists?) = true then _ else _) = _
  split
  · rfl
  · apply Run.bind_congr
    intro _
    show Plan.run cfg n (if d.first.isNone = true then _ else _) = _
    split <;> rfl

/-- Carrying out the plan of a declared function is declaring it. -/
theorem Plan.run_function (info : Info) (name : String) (params : List String) (body : List Stmt) :
    (Plan.function cfg info name params body).run cfg n =
      functionAction cfg info name params body := by
  apply Run.bind_congr
  intro _
  apply Run.bind_congr
  intro existing?
  cases existing? with
  | none => rfl
  | some existing =>
    show Plan.run cfg n (if cfg.isRaw = true then _ else _) = (if cfg.isRaw = true then _ else _)
    split <;> rfl

/-- Carrying out the plan of starting a function is starting it. -/
theorem Plan.run_enterFunction (info : Info) (f : UserFunction) (args : List Value) :
    (Plan.enterFunction cfg info f args).run cfg n = Primer.enterFunction cfg info f args := by
  rw [enterFunction_eq]
  unfold Plan.enterFunction
  split <;> rfl

/-- Carrying out the plan of what comes after a call is narrating its result. -/
theorem Plan.run_callResult (info : Info) (label : String) (result : Value) :
    (Plan.callResult info label result).run cfg n = (match result with
      | .absent | .null | .undefined => pure .undefined
      | v => do
        narrating cfg .inline info.id
          (fun m => do
            let shown ← m.describe? v
            .ok ("<var>" ++ label ++ "</var> = <var>" ++ shown ++ "</var>"))
          (fun _ => [])
        pure v : Run σ Value) := by
  simp only [narrating_described]
  cases result <;> rfl

end Actions

/-- Running the plan of an expression evaluates it. -/
theorem Expr.run_plan (cfg : Setting σ) (n depth : Nat) (e : Expr) (h : ¬ maxEvalDepth ≤ depth) :
    (e.plan cfg depth).run cfg n = Primer.eval cfg (n + 1) depth e := by
  cases e <;> simp only [Primer.eval, if_neg h, Expr.plan]
  case array info items => split <;> rfl
  case binary info left symbol right =>
    split
    · rfl
    · apply Run.bind_congr
      intro a
      apply Run.bind_congr
      intro b
      exact Plan.run_binary cfg n info left symbol right a b
  case unary info symbol operand =>
    apply Run.bind_congr
    intro a
    exact Plan.run_unary cfg n info symbol operand a
  all_goals rfl

/-- Running the plan of a counted statement executes it. -/
theorem Stmt.run_plan (cfg : Setting σ) (n depth : Nat) (stmt : Stmt) :
    (Plan.tick stmt.info >>= fun _ => stmt.plan cfg depth).run cfg n =
      Primer.exec cfg (n + 1) depth stmt := by
  cases stmt
  case function info name params body =>
    apply Run.bind_congr
    intro _
    show (Plan.function cfg info name params body).run cfg n >>= _ = _
    rw [Plan.run_function]
    rfl
  case «for» info first test update body => cases first <;> rfl
  case bump info target symbol =>
    apply Run.bind_congr
    intro _
    apply Run.bind_congr
    intro p
    show (Plan.bump cfg info target symbol p).run cfg n >>= (fun v => Primer.store cfg n depth info target p v >>=
      fun _ => (Plan.narrateAssigned info target v).run cfg n >>= fun _ => _) = _
    simp only [Plan.run_bump, Plan.run_narrateAssigned]
    rfl
  all_goals rfl

/-- A body that does not break down takes its frame away however it ends. -/
theorem Plan.framed_eq {x : Run σ (Option Value)} (hx : x.Unbroken) (s : RunState σ) :
    (match x s with
      | .done result s => .done (result.getD .undefined) (leaveFunction s)
      | .failed (.breakdown b) s => .failed (.breakdown b) s
      | .failed e s => .failed e (leaveFunction s)
      | .exhausted => .exhausted) = Plan.framed x s := by
  unfold Plan.framed
  cases hrun : x s with
  | done a t => rfl
  | failed e t =>
    cases e with
    | breakdown b => exact absurd hrun (hx s b t)
    | _ => rfl
  | exhausted => rfl

/-- Running an unchecked logical operator is carrying out its plan. -/
theorem Task.run_succ_evalLogical (cfg : Setting σ) (n depth : Nat) (left : Expr) (symbol : String) (right : Expr) :
    (Task.evalLogical depth left symbol right).run cfg (n + 1) =
      ((Task.evalLogical depth left symbol right).plan cfg).run cfg n := by
  apply Run.bind_congr
  intro a
  apply Run.bind_congr
  intro x
  apply Run.bind_congr
  intro decided
  simp only
  split <;> rfl

/-- Running a call is carrying out its plan. -/
theorem Task.run_succ_call (cfg : Setting σ) (n depth : Nat) (info : Info) (callee : Expr) (args : List Expr)
    (f : Value) (given : List Value) :
    (Task.call depth info callee args f given).run cfg (n + 1) =
      ((Task.call depth info callee args f given).plan cfg).run cfg n := by
  apply Run.bind_congr
  intro f
  apply Run.bind_congr
  intro values
  show (written fun m => callLabel? m callee.code values) >>= _ = _
  rw [written_callLabel]
  apply Run.bind_congr
  intro label
  apply Run.bind_congr
  intro _
  apply Run.bind_congr
  intro _
  show _ = (Plan.callValue depth info callee f values).run cfg n >>= fun result =>
    leaveCall >>= fun _ => (Plan.callResult info label result).run cfg n
  simp only [Plan.run_callResult]
  cases f <;> rfl

/-- Running a conditional is carrying out its plan. -/
theorem Task.run_succ_execCond (cfg : Setting σ) (n depth : Nat) (info : Info) (test : Expr) (body : List Stmt)
    (branch : Option Stmt) :
    (Task.execCond depth info test body branch).run cfg (n + 1) =
      ((Task.execCond depth info test body branch).plan cfg).run cfg n := by
  apply Run.bind_congr
  intro c
  show _ = (Plan.test cfg info "if" test c).run cfg n >>= fun _ => _
  rw [Plan.run_test]
  apply Run.bind_congr
  intro holds
  cases holds with
  | true => rfl
  | false =>
    rcases branch with _ | branch
    · rfl
    · cases branch <;> rfl

/-- Running a loop is carrying out its plan. -/
theorem Task.run_succ_execLoop (cfg : Setting σ) (n depth : Nat) (info : Info) (tag : String) (test : Expr)
    (update : Option Stmt) (body : List Stmt) :
    (Task.execLoop depth info tag test update body).run cfg (n + 1) =
      ((Task.execLoop depth info tag test update body).plan cfg).run cfg n := by
  apply Run.bind_congr
  intro _
  apply Run.bind_congr
  intro c
  show _ = (Plan.test cfg info tag test c).run cfg n >>= fun _ => _
  rw [Plan.run_test]
  apply Run.bind_congr
  intro holds
  cases holds with
  | false => rfl
  | true =>
    apply Run.bind_congr
    intro returned
    cases returned <;> cases update <;> rfl

/-- Running a `return` is carrying out its plan. -/
theorem Task.run_succ_execReturn (cfg : Setting σ) (n depth : Nat) (info : Info) (value : Option Expr) :
    (Task.execReturn depth info value).run cfg (n + 1) =
      ((Task.execReturn depth info value).plan cfg).run cfg n := by
  apply Run.bind_congr
  intro _
  apply Run.bind_congr
  intro outside
  cases outside with
  | true => rfl
  | false =>
    cases value with
    | none => rfl
    | some e =>
      apply Run.bind_congr
      intro v
      apply Run.bind_congr
      intro w
      rw [narrating_described]
      rfl

/-- Running a task is carrying out its plan, with what is left of the bound for the tasks in it, if the bodies of
functions do not break down with what is left. -/
theorem Task.run_succ_of {cfg : Setting σ} {n : Nat}
    (hbody : ∀ depth body, (Primer.execAll cfg n depth body).Unbroken) (t : Task σ α) :
    t.run cfg (n + 1) = (t.plan cfg).run cfg n := by
  cases t with
  | eval depth e =>
    by_cases h : maxEvalDepth ≤ depth
    · simp only [Task.run, Task.plan, Primer.eval, if_pos h]
      rfl
    · simp only [Task.run, Task.plan, if_neg h]
      exact (e.run_plan cfg n depth h).symm
  | evalAll depth es => cases es <;> rfl
  | evalTaken depth es => cases es <;> rfl
  | evalLogical depth left symbol right => exact run_succ_evalLogical cfg n depth left symbol right
  | call depth info callee args f given => exact run_succ_call cfg n depth info callee args f given
  | callFunction depth info f args =>
    show _ = (Plan.enterFunction cfg info f args).run cfg n >>= fun _ => Plan.framed (Primer.execAll cfg n depth f.body)
    rw [Plan.run_enterFunction]
    apply Run.bind_congr
    intro _
    exact funext fun s => Plan.framed_eq (hbody depth f.body) s
  | store depth info target place v =>
    cases place
    case hostVariable h =>
      funext s
      simp only [Task.run, Primer.store, Task.plan, Plan.run, bind, Run.andThen, Run.asks]
      cases cfg.hosts.set h.key (s.view cfg.strategy) s.host s.memory v with
      | none =>
        simp only [cannotAssign_eq]
        rfl
      | some action => rfl
    all_goals rfl
  | execAll depth body =>
    cases body with
    | nil => rfl
    | cons s rest =>
      apply Run.bind_congr
      intro returned
      cases returned <;> rfl
  | exec depth stmt => exact (stmt.run_plan cfg n depth).symm
  | execDeclared depth names =>
    cases names with
    | nil => rfl
    | cons d ds =>
      show _ = (Plan.declared cfg d).run cfg n >>= fun _ => _
      rw [Plan.run_declared]
      apply Run.bind_congr
      intro _
      cases d.first <;> rfl
  | execAssign depth a =>
    apply Run.bind_congr
    intro p
    apply Run.bind_congr
    intro given
    show _ = (Plan.assigned cfg a p given).run cfg n >>= fun v => Primer.store cfg n depth a.info a.target p v >>=
      fun _ => (Plan.narrateAssigned a.info a.target v).run cfg n
    simp only [Plan.run_assigned, Plan.run_narrateAssigned]
  | execCond depth info test body branch => exact run_succ_execCond cfg n depth info test body branch
  | execLoop depth info tag test update body => exact run_succ_execLoop cfg n depth info tag test update body
  | execReturn depth info value => exact run_succ_execReturn cfg n depth info value

/-! ## Nothing breaks down -/

/-- The fault of a host that breaks down is no breakdown. -/
theorem HostUse.unbroken_broken (info : Info) (use : HostUse) (text : String) :
    (use.broken info text : Run σ α).Unbroken := by
  cases use with
  | call callee => exact fun _ _ _ => nofun
  | assign target => exact fun _ _ _ => nofun

/-- What a host does never breaks down: where the engine breaks down in it, it is recovered from. -/
theorem runHost_unbroken (cfg : Setting σ) (n depth : Nat) (info : Info) (use : HostUse) (action : HostAction σ) :
    (runHost cfg n depth info use action).Unbroken := by
  induction n generalizing action with
  | zero => exact fun _ _ _ => nofun
  | succ n ih =>
    intro s b t
    cases action with
    | finish answer host memory =>
      cases answer with
      | ok v => exact nofun
      | error f =>
        cases f with
        | message text => exact nofun
        | breakdown text => exact use.unbroken_broken info text _ b t
        | passedOn f =>
          cases f with
          | fault f => exact nofun
          | text text => exact nofun
          | breakdown b' => exact use.unbroken_broken info b'.text _ b t
    | callBack f args host memory next =>
      simp only [runHost]
      rcases callFunction cfg n depth f.info f args { s with host := host, memory := memory } with
        ⟨v, u⟩ | ⟨e, u⟩ | _
      · exact ih _ u b t
      · cases e with
        | fault f => exact ih _ u b t
        | text text => exact ih _ u b t
        | breakdown b' => exact use.unbroken_broken info b'.text u b t
      · exact nofun

/-- A mark does not break down. -/
theorem Mark.unbroken (cfg : Setting σ) (place : Mark) : (place.run cfg).Unbroken := by
  intro s b t
  cases place with
  | record info tag =>
    show Primer.record cfg info tag s ≠ _
    unfold Primer.record
    split
    · exact nofun
    · by_cases hallowed : CommandFilter.allowsTag cfg.filter tag = true
      · simp only [if_pos hallowed]
        exact nofun
      · simp only [if_neg hallowed]
        exact nofun
  | tick info =>
    show Primer.tick cfg info s ≠ _
    unfold Primer.tick
    cases cfg.limits.stopped s.ticks with
    | some reason => exact nofun
    | none =>
      dsimp only
      split
      · exact nofun
      · cases cfg.limits.limiter with
        | none => exact nofun
        | some limiter =>
          dsimp only
          cases limiter s.asked info.id <;> exact nofun

/-- A plan does not break down if the tasks in it do not. -/
theorem Plan.unbroken {cfg : Setting σ} {n : Nat} (htasks : ∀ {β : Type} (t : Task σ β), (t.run cfg n).Unbroken)
    (p : Plan σ α) : (p.run cfg n).Unbroken := by
  induction p with
  | act x quiet => exact quiet.unbroken
  | mark place => exact place.unbroken cfg
  | narrate category node message changes =>
    intro s b t
    show Primer.narrate cfg category node message changes s ≠ _
    unfold Primer.narrate
    split <;> exact nofun
  | ask t => exact htasks t
  | hostCall depth info callee key args => exact fun s => runHost_unbroken cfg n depth info _ _ s
  | hostSet depth info target key v =>
    intro s b t
    simp only [Plan.run]
    cases cfg.hosts.set key (s.view cfg.strategy) s.host s.memory v with
    | none => exact (Quiet.cannotAssign info target v).unbroken s b t
    | some action => exact runHost_unbroken cfg n depth info _ _ s b t
  | bind x f hx hf => exact hx.bind hf
  | recorded x quiet info tag =>
    intro s b t
    have hunbroken := quiet.unbroken s b
    have hmark := (Mark.record info tag).unbroken cfg
    simp only [Plan.run, Run.onFailure]
    cases hrun : x s with
    | done a u => exact nofun
    | failed e u =>
      dsimp only
      cases hnote : (Mark.record info tag).run cfg u with
      | done _ v =>
        intro h
        cases h
        exact quiet.unbroken s b u hrun
      | failed e' v =>
        intro h
        cases h
        exact hmark u b t hnote
      | exhausted => exact nofun
    | exhausted => exact nofun
  | inFrame x hx =>
    intro s b t
    simp only [Plan.run, Plan.framed]
    cases hrun : x.run cfg n s with
    | done a u => exact nofun
    | failed e u =>
      intro h
      cases h
      exact hx s b u hrun
    | exhausted => exact nofun

/-- No task breaks down. -/
theorem Task.unbroken (cfg : Setting σ) (n : Nat) (t : Task σ α) : (t.run cfg n).Unbroken := by
  induction n generalizing α t with
  | zero => cases t <;> exact fun _ _ _ => nofun
  | succ n ih =>
    rw [Task.run_succ_of fun depth body => ih (.execAll depth body)]
    exact Plan.unbroken ih (t.plan cfg)

/-- Running a task is carrying out its plan, with what is left of the bound for the tasks in it. -/
theorem Task.run_succ (cfg : Setting σ) (n : Nat) (t : Task σ α) :
    t.run cfg (n + 1) = (t.plan cfg).run cfg n :=
  Task.run_succ_of (fun depth body => Task.unbroken cfg n (.execAll depth body)) t

/-- The body of a function runs once the function is entered, and its frame is gone afterwards. -/
theorem callFunction_succ_eq (cfg : Setting σ) (n depth : Nat) (info : Info) (f : UserFunction) (args : List Value) :
    callFunction cfg (n + 1) depth info f args = (do
      enterFunction cfg info f args
      Plan.framed (Primer.execAll cfg n depth f.body)) := by
  show (Task.callFunction depth info f args).run cfg (n + 1) = _
  rw [Task.run_succ]
  show (Plan.enterFunction cfg info f args).run cfg n >>= _ = _
  rw [Plan.run_enterFunction]
  rfl

/-- When a host calls a function of the program, it goes on with what the call gave. -/
theorem runHost_callBack (cfg : Setting σ) (n depth : Nat) (info : Info) (use : HostUse) (f : UserFunction)
    (args : List Value) (host : σ) (memory : Memory)
    (next : Except Failure Value → View → σ → Memory → HostAction σ) (s : RunState σ) :
    runHost cfg (n + 1) depth info use (.callBack f args host memory next) s =
      match callFunction cfg n depth f.info f args { s with host := host, memory := memory } with
      | .done v s => runHost cfg n depth info use (next (.ok v) (s.view cfg.strategy) s.host s.memory) s
      | .failed e s => runHost cfg n depth info use (next (.error e) (s.view cfg.strategy) s.host s.memory) s
      | .exhausted => .exhausted := by
  have hunbroken := Task.unbroken cfg n (.callFunction depth f.info f args) { s with host := host, memory := memory }
  simp only [Task.run] at hunbroken
  simp only [runHost]
  generalize callFunction cfg n depth f.info f args { s with host := host, memory := memory } = o at hunbroken ⊢
  rcases o with _ | ⟨_ | _ | b, u⟩ | _
  case failed.breakdown => exact absurd rfl (hunbroken b u)
  all_goals rfl

end Primer
