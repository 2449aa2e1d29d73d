import Primer.Run.Action
import Primer.Tree.Walk

/-!
# The evaluator

Runs a program tree. Every function takes a bound on its recursion, so that all of them are total; the
bound has no meaning for the program, and `Outcome.exhausted` is kept apart from every result. `depth` is
the number of expressions that are just being evaluated around the current one.

An expression gives a value or a place; the actions take values out of places when they need them, which
is after all parts of a node have been evaluated.

A breakdown passes everything: no frame is taken away and no call is ended on its way. It is recovered from where
the engine uses a host, and else at the end of the run, which makes an internal fault of it.
-/

set_option autoImplicit false

namespace Primer

open Run

variable {σ : Type}

mutual

/-- Evaluates an expression. -/
def eval (cfg : Setting σ) : Nat → Nat → Expr → Run σ Value
  | 0, _, _ => exhausted
  | n + 1, depth, e =>
    if maxEvalDepth ≤ depth then raise .limit e.info "Expression is nested too deeply"
    else
      match e with
      | .number _ x _ => pure (.number x)
      | .string _ t _ => pure (.string t)
      | .boolean _ b => pure (.boolean b)
      | .null _ => pure .null
      | .name info x => nameAction info x
      | .member info object property => do
        let o ← eval cfg n (depth + 1) object
        memberAction cfg info object property o
      | .element info array position => do
        let a ← eval cfg n (depth + 1) array
        let i ← eval cfg n (depth + 1) position
        elementAction cfg info array position a i
      | .call info callee args => do
        let f ← eval cfg n (depth + 1) callee
        let vs ← evalAll cfg n (depth + 1) args
        call cfg n (depth + 1) info callee args f vs
      | .array info items =>
        if maxArrayLength < items.length then raise .limit info arrayTooLong
        else do
          let vs ← evalTaken cfg n (depth + 1) items
          arrayAction vs
      | .binary info left symbol right =>
        if cfg.isRaw && (symbol = "&&" || symbol = "||") then
          evalLogical cfg n (depth + 1) left symbol right
        else do
          let a ← eval cfg n (depth + 1) left
          let b ← eval cfg n (depth + 1) right
          binaryAction cfg info left symbol right a b
      | .unary info symbol operand => do
        let a ← eval cfg n (depth + 1) operand
        unaryAction cfg info symbol operand a
termination_by structural n => n

/-- Evaluates several expressions in order. -/
def evalAll (cfg : Setting σ) : Nat → Nat → List Expr → Run σ (List Value)
  | 0, _, _ => exhausted
  | _ + 1, _, [] => pure []
  | n + 1, depth, e :: es => do
    let v ← eval cfg n depth e
    let vs ← evalAll cfg n depth es
    pure (v :: vs)
termination_by structural n => n

/-- Evaluates several expressions in order and takes the value of each before the next. -/
def evalTaken (cfg : Setting σ) : Nat → Nat → List Expr → Run σ (List Value)
  | 0, _, _ => exhausted
  | _ + 1, _, [] => pure []
  | n + 1, depth, e :: es => do
    let v ← eval cfg n depth e
    let w ← take cfg e v
    let ws ← evalTaken cfg n depth es
    pure (w :: ws)
termination_by structural n => n

/-- The lenient `&&` and `||`: the right operand is only evaluated if it decides, and the result is one of
the operands. -/
def evalLogical (cfg : Setting σ) : Nat → Nat → Expr → String → Expr → Run σ Value
  | 0, _, _, _, _ => exhausted
  | n + 1, depth, left, symbol, right => do
    let a ← eval cfg n depth left
    let x ← takeUnchecked cfg left a
    if (← asks fun s => s.memory.isTruthy x) = (symbol == "||") then pure x
    else
      let b ← eval cfg n depth right
      takeUnchecked cfg right b
termination_by structural n => n

/-- Calls an evaluated function with evaluated arguments. -/
def call (cfg : Setting σ) : Nat → Nat → Info → Expr → List Expr → Value → List Value → Run σ Value
  | 0, _, _, _, _, _, _ => exhausted
  | n + 1, depth, info, callee, args, f, given => do
    let f ← take cfg callee f
    let values ← takeAll cfg args given
    let label ← written fun m => callLabel? m callee.code values
    narrate cfg .inline info.id (fun _ => "calling <var>" ++ label ++ "</var>") (fun _ => [])
    enterCall cfg info
    let result ← (match f with
      | .function g => do
        record cfg info "call"
        callFunction cfg n depth info g values
      | .hostFunction g => do
        record cfg info g.tag
        let action ← asks fun s =>
          cfg.hosts.call g.key (s.view cfg.strategy) s.host s.memory values
        runHost cfg n depth info (.call callee) action
      | _ => do
        record cfg info "call"
        raise .reference info ("Variable <var>" ++ callee.code ++ "</var> is not a function"))
    leaveCall
    match result with
    | .absent | .null | .undefined => pure .undefined
    | v => do
      narrating cfg .inline info.id
        (fun m => do
          let shown ← m.describe? v
          .ok ("<var>" ++ label ++ "</var> = <var>" ++ shown ++ "</var>"))
        (fun _ => [])
      pure v
termination_by structural n => n

/-- Runs the body of a function in a frame of its own, which is gone afterwards however the body ends, unless
it breaks down. -/
def callFunction (cfg : Setting σ) : Nat → Nat → Info → UserFunction → List Value → Run σ Value
  | 0, _, _, _, _ => exhausted
  | n + 1, depth, info, f, args => do
    enterFunction cfg info f args
    fun s =>
      match execAll cfg n depth f.body s with
      | .done result s => .done (result.getD .undefined) (leaveFunction s)
      | .failed (.breakdown b) s => .failed (.breakdown b) s
      | .failed e s => .failed e (leaveFunction s)
      | .exhausted => .exhausted
termination_by structural n => n

/-- Carries out what a host does, with the calls that it makes. A function of the program that breaks down breaks
its host down. -/
def runHost (cfg : Setting σ) : Nat → Nat → Info → HostUse → HostAction σ → Run σ Value
  | 0, _, _, _, _ => exhausted
  | n + 1, depth, info, use, action =>
    match action with
    | .finish answer host memory => fun s =>
      let s := { s with host := host, memory := memory }
      match answer with
      | .ok v => .done v s
      | .error f => hostFailed info (use.broken info) f s
    | .callBack f args host memory next => fun s =>
      match callFunction cfg n depth f.info f args { s with host := host, memory := memory } with
      | .done v s => runHost cfg n depth info use (next (.ok v) (s.view cfg.strategy) s.host s.memory) s
      | .failed (.breakdown b) s => use.broken info b.text s
      | .failed e s =>
        runHost cfg n depth info use (next (.error e) (s.view cfg.strategy) s.host s.memory) s
      | .exhausted => .exhausted
termination_by structural n => n

/-- Writes a value to a place. -/
def store (cfg : Setting σ) : Nat → Nat → Info → Expr → Value → Value → Run σ Unit
  | 0, _, _, _, _, _ => exhausted
  | n + 1, depth, info, target, place, v =>
    match place with
    | .hostVariable h => do
      match ← asks fun s => cfg.hosts.set h.key (s.view cfg.strategy) s.host s.memory v with
      | none => cannotAssign info target v
      | some action =>
        let _ ← runHost cfg n depth info (.assign target) action
        pure ()
    | place => assignPlace info target place v
termination_by structural n => n

/-- Runs statements in order until one returns. -/
def execAll (cfg : Setting σ) : Nat → Nat → List Stmt → Run σ (Option Value)
  | 0, _, _ => exhausted
  | _ + 1, _, [] => pure none
  | n + 1, depth, s :: rest => do
    match ← exec cfg n depth s with
    | some v => pure (some v)
    | none => execAll cfg n depth rest
termination_by structural n => n

/-- Runs a statement; gives the returned value if it returns. -/
def exec (cfg : Setting σ) : Nat → Nat → Stmt → Run σ (Option Value)
  | 0, _, _ => exhausted
  | n + 1, depth, stmt => do
    tick cfg stmt.info
    match stmt with
    | .var _ names => do
      execDeclared cfg n depth names
      pure none
    | .assign a => do
      execAssign cfg n depth a
      pure none
    | .bump info target symbol => do
      let p ← eval cfg n depth target
      let v ← bumpAction cfg info target symbol p
      store cfg n depth info target p v
      narrateAssigned cfg info target v
      pure none
    | .call _ c => do
      let _ ← eval cfg n depth c.toExpr
      pure none
    | .cond info test body branch => execCond cfg n depth info test body branch
    | .while info test body => execLoop cfg n depth info "while" test none body
    | .for info first test update body => do
      match first with
      | none => pure ()
      | some s =>
        let _ ← exec cfg n depth s
        pure ()
      execLoop cfg n depth info "for" test update body
    | .function info name params body => do
      functionAction cfg info name params body
      pure none
    | .return info value => execReturn cfg n depth info value
    | .declared _ | .elseIf .. | .orElse .. => failText (unknownStatement stmt.kind)
termination_by structural n => n

/-- Declares names in order, each with its first value. -/
def execDeclared (cfg : Setting σ) : Nat → Nat → List Declared → Run σ Unit
  | 0, _, _ => exhausted
  | _ + 1, _, [] => pure ()
  | n + 1, depth, d :: ds => do
    declaredAction cfg d
    match d.first with
    | none => pure ()
    | some a => execAssign cfg n depth a
    execDeclared cfg n depth ds
termination_by structural n => n

/-- Evaluates target and value of an assignment, in this order, and assigns. -/
def execAssign (cfg : Setting σ) : Nat → Nat → Assignment → Run σ Unit
  | 0, _, _ => exhausted
  | n + 1, depth, a => do
    let p ← eval cfg n depth a.target
    let given ← eval cfg n depth a.value
    let v ← assignedAction cfg a p given
    store cfg n depth a.info a.target p v
    narrateAssigned cfg a.info a.target v
termination_by structural n => n

/-- Runs a conditional with the branches below it. -/
def execCond (cfg : Setting σ) :
    Nat → Nat → Info → Expr → List Stmt → Option Stmt → Run σ (Option Value)
  | 0, _, _, _, _, _ => exhausted
  | n + 1, depth, info, test, body, branch => do
    let c ← eval cfg n depth test
    if ← testAction cfg info "if" test c then execAll cfg n depth body
    else
      match branch with
      | some (.elseIf outer inner test body branch) => do
        record cfg outer "else"
        execCond cfg n depth inner test body branch
      | some (.orElse outer body) => do
        record cfg outer "else"
        execAll cfg n depth body
      | _ => pure none
termination_by structural n => n

/-- Runs the rounds of a loop: a tick, the test, the body and the update. -/
def execLoop (cfg : Setting σ) :
    Nat → Nat → Info → String → Expr → Option Stmt → List Stmt → Run σ (Option Value)
  | 0, _, _, _, _, _, _ => exhausted
  | n + 1, depth, info, tag, test, update, body => do
    tick cfg info
    let c ← eval cfg n depth test
    if ← testAction cfg info tag test c then
      match ← execAll cfg n depth body with
      | some v => pure (some v)
      | none =>
        match update with
        | none => pure ()
        | some s =>
          let _ ← exec cfg n depth s
          pure ()
        execLoop cfg n depth info tag test update body
    else pure none
termination_by structural n => n

/-- Returns from a function. -/
def execReturn (cfg : Setting σ) : Nat → Nat → Info → Option Expr → Run σ (Option Value)
  | 0, _, _, _ => exhausted
  | n + 1, depth, info, value => do
    record cfg info "return"
    if ← asks fun s => s.frames.isEmpty then
      raise .control info "Cannot return if not inside a function"
    else
      match value with
      | none => pure (some .undefined)
      | some e => do
        let v ← eval cfg n depth e
        let w ← take cfg e v
        narrating cfg .inline info.id
          (fun m => do
            let shown ← m.describe? w
            .ok ("returning <var>" ++ shown ++ "</var>"))
          (fun _ => [])
        pure (some w)
termination_by structural n => n

end

/-- What a run leaves behind. -/
structure RunResult where
  strategy : Strategy
  fault : Option Fault
  commands : List Command
  steps : List Step
  statements : Nat
  deriving Repr, Inhabited

/-- A run that ended: its result, and the state of its hosts. -/
structure Finished (σ : Type) where
  result : RunResult
  state : RunState σ

/-- The fault that a failed run ends with. A text that nobody placed is an internal error, and so is a breakdown
that nobody recovered from. -/
def Failure.toFault : Failure → Fault
  | .fault f => f
  | .text t => ⟨.internal, 0, 0, 0, t, [], none, false⟩
  | .breakdown b =>
    ⟨.internal, 0, 0, 0, "Internal error: <var>" ++ b.text ++ "</var>", [], none, false⟩

/-- The state before the first statement: the given names are bound globally. -/
def initialState (host : σ) (memory : Memory) (globals : List (String × Value)) : RunState σ :=
  let (scope, memory) := Scope.empty.declareAll memory globals
  ⟨memory, host, scope, [], [], [], [], 0, []⟩

/-- What an outcome leaves behind, if it is one. -/
def Finished.of? (strategy : Strategy) : Outcome σ (Option Value) → Option (Finished σ)
  | .done _ s => some (make none s)
  | .failed e s => some (make (some e.toFault) s)
  | .exhausted => none
where
  /-- The records of a state. -/
  make (fault : Option Fault) (s : RunState σ) : Finished σ :=
    ⟨⟨strategy, fault, s.commands.reverse, s.steps.reverse, s.ticks⟩, s⟩

/-- Runs statements with a bound on the recursion; `none` if the bound is used up. -/
def runBounded (cfg : Setting σ) (bound : Nat) (body : List Stmt) (s : RunState σ) :
    Option (Finished σ) :=
  Finished.of? cfg.strategy (execAll cfg bound 0 body s)

/-- A bound on the recursion that no run reaches in any time that can be waited for. -/
def runBound : Nat := Nat.pow 2 62

/-- Runs statements to their end. -/
def runProgram (cfg : Setting σ) (body : List Stmt) (s : RunState σ) : Finished σ :=
  match runBounded cfg runBound body s with
  | some f => f
  | none => ⟨⟨cfg.strategy, none, [], [], 0⟩, s⟩

end Primer
