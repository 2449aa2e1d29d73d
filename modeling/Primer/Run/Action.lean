import Primer.Run.Operator
import Primer.Run.State
import Primer.Tree.Code

/-!
# What the nodes of a program do

The single actions of a run, each once the parts of its node have been evaluated: recording a command,
narrating a step, reading a place, writing one, applying an operator, testing a condition, declaring a
name. A command is recorded before the action has any effect, and a forbidden one stops the run there.

Texts of values are worked out where the engine works them out, whether or not anybody reads them, and elements
are found by their index: these are the places where a run can break down.
-/

set_option autoImplicit false

namespace Primer

open Run

variable {σ : Type}

/-- Records that a node used a construct, and stops the run if the construct is forbidden. Nothing is
recorded without checks. -/
def record (cfg : Setting σ) (info : Info) (tag : String) : Run σ Unit :=
  if cfg.isRaw then pure ()
  else do
    update fun s => { s with commands := ⟨info.id, tag⟩ :: s.commands }
    if CommandFilter.allowsTag cfg.filter tag then pure ()
    else raise .policy info ("<var>" ++ tag ++ "</var> cannot be used in this exercise")

/-- Narrates a step, if steps are kept. -/
@[inline]
def narrate (cfg : Setting σ) (category : Category) (node : NodeId) (message : Memory → String)
    (changes : Unit → List Change) : Run σ Unit :=
  if cfg.strategy = .stepped then
    update fun s =>
      { s with steps := ⟨[⟨node, category, message s.memory⟩], changes (), s.stack⟩ :: s.steps }
  else pure ()

/-- Narrates a step. Its text is worked out first, also where no steps are kept. -/
def narrating (cfg : Setting σ) (category : Category) (node : NodeId)
    (message : Memory → Except Breakdown String) (changes : Unit → List Change) : Run σ Unit := do
  let text ← written message
  narrate cfg category node (fun _ => text) changes

/-- Counts a tick at a node: one for each statement and each test of a loop. A run that was stopped from
outside ends here, then one that used up its statements, then one that a limiter stops. -/
def tick (cfg : Setting σ) (info : Info) : Run σ Unit := fun s =>
  match cfg.limits.stopped s.ticks with
  | some reason => raise .limit info ("Program was stopped: <var>" ++ reason ++ "</var>") s
  | none =>
    let s := { s with ticks := s.ticks + 1 }
    if cfg.limits.isSpent s.ticks then raise .limit info cfg.limits.spentMessage s
    else
      match cfg.limits.limiter with
      | none => .done () s
      | some limiter =>
        let before := s.asked
        let s := { s with asked := info.id :: before }
        match limiter before info.id with
        | none => .done () s
        | some text => raiseFrom .limit info text text s

/-- Places a failure of a host at a node. `broken` is the fault for a host that breaks down, or in which the
engine broke down. -/
def hostFailed {α : Type} (info : Info) (broken : String → Run σ α) : HostFailure → Run σ α
  | .message text => raiseFrom .host info text text
  | .passedOn (.fault f) => fun s => .failed (.fault f) s
  | .passedOn (.text text) => raiseFrom .host info text text
  | .passedOn (.breakdown b) => broken b.text
  | .breakdown text => broken text

/-- An absent value is undefined. -/
def present : Value → Value
  | .absent => .undefined
  | v => v

/-- Reads a variable of the hosts. -/
def readHost (cfg : Setting σ) (e : Expr) (v : HostVariable) : Run σ Value := fun s =>
  let (answer, host, memory) := cfg.hosts.get v.key s.host s.memory
  let s := { s with host := host, memory := memory }
  match answer with
  | .ok w => .done (present w) s
  | .error f => hostFailed e.info
      (fun text => raise .host e.info ("Reading <var>" ++ e.code ++ "</var> failed: " ++ text)) f s

/-- Takes the value out of a place without any check. -/
def takeUnchecked (cfg : Setting σ) (e : Expr) : Value → Run σ Value
  | .absent | .pending _ _ => pure .undefined
  | .cell r => asks fun s => present (s.memory.read r)
  | .hostVariable v => readHost cfg e v
  | .arrayLength a => asks fun s => .number (Number.ofLength (s.memory.size a))
  | .textLength t => pure (.number (Number.ofLength t.length))
  | v => pure v

/-- The fault of an expression whose value cannot take part in an operation. -/
def unusable (e : Expr) (reason : String) : Run σ Value :=
  raise .value e.info ("<var>" ++ e.code ++ "</var> is " ++ reason)

/-- Refuses plain values that cannot take part in an operation: undefined, null and numbers that are not
finite. Variables of the hosts are read and taken as they are. -/
def takeChecked (cfg : Setting σ) (e : Expr) : Value → Run σ Value
  | .absent | .undefined | .pending _ _ => unusable e "<var>undefined</var>"
  | .null => unusable e "<var>null</var>"
  | .number x => if Number.isFinite x then pure (.number x) else unusable e "not a valid number"
  | .hostVariable v => readHost cfg e v
  | .arrayLength a => asks fun s => .number (Number.ofLength (s.memory.size a))
  | .textLength t => pure (.number (Number.ofLength t.length))
  | v => pure v

/-- The content of a cell; anything else as it is. -/
def opened (m : Memory) : Value → Value
  | .cell r => m.read r
  | v => v

/-- The value that an expression contributes to an operation. -/
def take (cfg : Setting σ) (e : Expr) (v : Value) : Run σ Value :=
  if cfg.isRaw then takeUnchecked cfg e v
  else fun s => takeChecked cfg e (opened s.memory v) s

/-- Takes the values of several expressions, in order. -/
def takeAll (cfg : Setting σ) : List Expr → List Value → Run σ (List Value)
  | e :: es, v :: vs => do
    let w ← take cfg e v
    let ws ← takeAll cfg es vs
    pure (w :: ws)
  | _, _ => pure []

/-- The fault of a target that cannot be assigned to. -/
def cannotAssign {α : Type} (info : Info) (target : Expr) (v : Value) : Run σ α := do
  let shown ← written fun m => m.describe? v
  raise .assignment info
    ("Cannot assign <var>" ++ shown ++ "</var> to <var>" ++ target.code ++ "</var>")

/-- What a host is used for: its function is called, or its variable is assigned to. -/
inductive HostUse where
  | call (callee : Expr)
  | assign (target : Expr)

/-- The fault of a host that breaks down. -/
def HostUse.broken {α : Type} (info : Info) : HostUse → String → Run σ α
  | .call callee, text =>
    raiseFrom .host info ("<var>" ++ callee.code ++ "</var> failed: " ++ text) text
  | .assign target, text =>
    raise .host info ("Assigning <var>" ++ target.code ++ "</var> failed: " ++ text)

/-- The class of the fault for a length that was refused. -/
def Memory.LengthFault.kind : Memory.LengthFault → FaultClass
  | .tooLong => .limit
  | .invalid => .value

/-- Writes the length of an array. The length is a variable of the engine's own, so a breakdown is one of
assigning to it. -/
def assignLength (info : Info) (target : Expr) (a : ArrayRef) (v : Value) : Run σ Unit := fun s =>
  match s.memory.setLength? a v with
  | .ok (.ok m) => .done () { s with memory := m }
  | .ok (.error fault) =>
    match s.memory.lengthRefusal? v fault with
    | .ok text => raise fault.kind info text s
    | .error b => (HostUse.assign target).broken info b.text s
  | .error b => (HostUse.assign target).broken info b.text s

/-- Writes an element that is made by it. -/
def assignElement (info : Info) (a : ArrayRef) (i : Int) (v : Value) : Run σ Unit := fun s =>
  match s.memory.setSlot? a i v with
  | .ok (some m) => .done () { s with memory := m }
  | .ok none => raise .limit info arrayTooLong s
  | .error b => .failed (.breakdown b) s

/-- Writes a value to a place that does not belong to the hosts. -/
def assignPlace (info : Info) (target : Expr) (place v : Value) : Run σ Unit :=
  match place with
  | .cell r => update fun s => { s with memory := s.memory.write r v }
  | .pending a i => assignElement info a i v
  | .arrayLength a => assignLength info target a v
  | _ => cannotAssign info target v

/-- Narrates that a target has a new value. -/
def narrateAssigned (cfg : Setting σ) (info : Info) (target : Expr) (v : Value) : Run σ Unit :=
  narrating cfg .inline info.id
    (fun m => do
      let shown ← m.describe? v
      .ok ("<var>" ++ target.code ++ "</var> = <var>" ++ shown ++ "</var>"))
    (fun _ => [⟨info.id, target.code⟩])

/-- Raises a refusal at a node. -/
def raiseRefusal {α : Type} (info : Info) (r : Refusal) : Run σ α := raise r.1 info r.2

/-- The value of an operator between two operands. -/
def binaryValue (cfg : Setting σ) (info : Info) (symbol : String) (a b : Value) : Run σ Value :=
  if cfg.isRaw then asks fun s => s.memory.unchecked symbol a b
  else do
    match ← asks fun s => s.memory.checked symbol a b with
    | .ok v => pure v
    | .error r => raiseRefusal info r

/-- Applies an operator between two operands, or the one in a compound assignment. -/
def applyBinary (cfg : Setting σ) (info : Info) (symbol : String) (a b : Value) : Run σ Value := do
  record cfg info (operatorTag symbol a b)
  written fun m => m.writeOut? [a, b]
  binaryValue cfg info symbol a b

/-- Takes both operands of an operator. If one cannot be taken, the operator is recorded all the same. -/
def takeOperands (cfg : Setting σ) (info : Info) (symbol : String) (left right : Expr) (a b : Value) :
    Run σ (Value × Value) := do
  let x ← onFailure (take cfg left a) (record cfg info (operatorTag symbol .absent .absent))
  let y ← onFailure (take cfg right b) (record cfg info (operatorTag symbol x .absent))
  pure (x, y)

/-- The value of an operator between two evaluated operands. -/
def binaryAction (cfg : Setting σ) (info : Info) (left : Expr) (symbol : String) (right : Expr)
    (a b : Value) : Run σ Value := do
  let (x, y) ← takeOperands cfg info symbol left right a b
  let v ← applyBinary cfg info symbol x y
  narrating cfg .inline info.id
    (fun m => do
      let left ← m.describe? x
      let right ← m.describe? y
      let result ← m.describe? v
      .ok ("<var>" ++ left ++ "</var> " ++ symbol ++ " <var>" ++ right ++ "</var> = <var>" ++ result ++
        "</var>"))
    (fun _ => [])
  pure v

/-- The value of an operator before an operand. -/
def unaryValue (cfg : Setting σ) (info : Info) (symbol : String) (x : Value) : Run σ Value :=
  if cfg.isRaw then asks fun s => s.memory.uncheckedUnary symbol x
  else do
    match ← asks fun s => s.memory.checkedUnary symbol x with
    | .ok v => pure v
    | .error r => raiseRefusal info r

/-- The value of an operator before an evaluated operand. -/
def unaryAction (cfg : Setting σ) (info : Info) (symbol : String) (operand : Expr) (a : Value) :
    Run σ Value := do
  record cfg info (if symbol = "!" then "!" else "+")
  let x ← take cfg operand a
  written fun m => m.writeOut? [x]
  let v ← unaryValue cfg info symbol x
  narrating cfg .inline info.id
    (fun m => do
      let operand ← m.describe? x
      let result ← m.describe? v
      .ok ("<var>" ++ symbol ++ operand ++ "</var> = <var>" ++ result ++ "</var>"))
    (fun _ => [])
  pure v

/-- What an assignment whose target and value have been evaluated assigns. -/
def assignedAction (cfg : Setting σ) (a : Assignment) (place given : Value) : Run σ Value :=
  if a.symbol = "=" then do
    record cfg a.info "="
    take cfg a.value given
  else do
    let (x, y) ← takeOperands cfg a.info a.symbol a.target a.value place given
    applyBinary cfg a.info a.symbol x y

/-- The number that `++` or `--` makes of a value. -/
def bumped (cfg : Setting σ) (info : Info) (symbol : String) (v : Value) : Run σ Value :=
  let delta : Float := if symbol = "--" then -1.0 else 1.0
  if cfg.isRaw then asks fun s => .number (s.memory.toNumber v + delta)
  else
    match v with
    | .number x => pure (.number (x + delta))
    | v => fun s => raiseRefusal info (s.memory.notA symbol v "a number") s

/-- What `++` or `--` on an evaluated target assigns to it. -/
def bumpAction (cfg : Setting σ) (info : Info) (target : Expr) (symbol : String) (place : Value) :
    Run σ Value := do
  record cfg info "++"
  let x ← take cfg target place
  written fun m => m.writeOut? [x]
  bumped cfg info symbol x

/-- Whether a condition holds that has a value. -/
def testValue (cfg : Setting σ) (info : Info) (tag : String) (v : Value) : Run σ Bool :=
  if cfg.isRaw then asks fun s => s.memory.isTruthy v
  else
    match v with
    | .boolean b => pure b
    | v => do
      let shown ← asks fun s => s.memory.describe v
      raise .type info ("<var>" ++ tag ++ "</var> is not possible since <var>" ++ shown ++
        "</var> is not a boolean")

/-- Tests an evaluated condition of a conditional or loop. -/
def testAction (cfg : Setting σ) (info : Info) (tag : String) (e : Expr) (cond : Value) :
    Run σ Bool := do
  record cfg info tag
  let v ← take cfg e cond
  written fun m => m.writeOut? [v]
  testValue cfg info tag v

/-- What a name is bound to. -/
def nameAction (info : Info) (name : String) : Run σ Value := fun s =>
  match s.find? name with
  | some v => .done v s
  | none => raise .reference info ("Variable <var>" ++ name ++ "</var> could not be found") s

/-- What a value has under a member name: `none` if it has no members at all. -/
def memberOf? (cfg : Setting σ) (s : RunState σ) (property : String) : Value → Option (Option Value)
  | .object o => some (cfg.hosts.member s.host o property)
  | .array a => some (if property = "length" then some (.arrayLength a) else none)
  | .string t => some (if property = "length" then some (.textLength t) else none)
  | _ => none

/-- A member of an evaluated object. -/
def memberAction (cfg : Setting σ) (info : Info) (object : Expr) (property : String) (o : Value) :
    Run σ Value := do
  let v ← take cfg object o
  match ← asks fun s => memberOf? cfg s property v with
  | none => raise .type info ("Variable <var>" ++ object.code ++ "</var> is not an object")
  | some (some m) => pure m
  | some none =>
    if cfg.isRaw then pure .undefined
    else raise .reference info ("Variable <var>" ++ object.code ++ "</var> does not have property <var>" ++
      property ++ "</var>")

/-- The index that a number that is not negative stands for; beyond the largest array all indices are alike. -/
def indexOf (x : Float) : Nat :=
  if x < Float.ofNat maxArrayLength then Number.wholePart x else maxArrayLength

/-- The index that a number stands for, as the integer that is left of it. -/
def integerIndex (x : Float) : Int :=
  if x < Float.ofNat maxArrayLength then Number.integerPart x else maxArrayLength

/-- The place of an element of an array. -/
def elementAt (a : ArrayRef) (i : Int) : Run σ Value := fun s =>
  match s.memory.slot? a i with
  | .ok (place, m) => .done place { s with memory := m }
  | .error b => .failed (.breakdown b) s

/-- The place of an element of an evaluated array. -/
def elementAction (cfg : Setting σ) (info : Info) (array position : Expr) (a i : Value) :
    Run σ Value := do
  let v ← take cfg array a
  let p ← take cfg position i
  let notWhole : Run σ Value :=
    if cfg.isRaw then pure .undefined
    else raise .type info ("Index <var>" ++ position.code ++ "</var> is not an integer")
  match p with
  | .number x =>
    if !Number.isWhole x then notWhole
    else if x < 0.0 then
      if cfg.isRaw then pure .undefined
      else raise .type info ("Index <var>" ++ position.code ++ "</var> is negative")
    else
      match v with
      | .array ref => elementAt ref (integerIndex x)
      | _ => raise .type info ("Variable <var>" ++ array.code ++ "</var> is not an array")
  | _ => notWhole

/-- Makes an array of values. -/
def arrayAction (values : List Value) : Run σ Value :=
  onMemory fun m =>
    let (a, m) := m.newArray values
    (.array a, m)

/-- Binds a name in the active scope. -/
def declareName (name : String) (v : Value) : Run σ Unit :=
  update fun s =>
    let (scope, memory) := s.scope.declare s.memory name v
    { s with memory := memory }.withScope scope

/-- Declares a variable. Without checks a variable that exists stays as it is. -/
def declaredAction (cfg : Setting σ) (d : Declared) : Run σ Unit := do
  record cfg d.info "var"
  if cfg.isRaw && (← asks fun s => (s.scope.find? d.name).isSome) then pure ()
  else
    declareName d.name .undefined
    if d.first.isNone then
      narrate cfg .inline d.info.id
        (fun _ => "<var>" ++ d.name ++ "</var> = <var>undefined</var>")
        (fun _ => [⟨d.info.id, d.name⟩])
    else pure ()

/-- Declares a function. With checks, its name must be new in the active scope. -/
def functionAction (cfg : Setting σ) (info : Info) (name : String) (params : List String)
    (body : List Stmt) : Run σ Unit := do
  record cfg info "function"
  match ← asks fun s => (s.scope.find? name).map (opened s.memory) with
  | some existing =>
    if cfg.isRaw then bindFunction
    else raise .assignment info ("Function <var>" ++ name ++
      "</var> cannot be declared since there already is a " ++
      (if existing.isCallable then "function" else "variable") ++ " with that name")
  | none => bindFunction
where
  /-- Binds the name to a new function. -/
  bindFunction : Run σ Unit := do
    let ref ← onMemory fun m => (m.functions, { m with functions := m.functions + 1 })
    declareName name (.function ⟨ref, info, name, params, body⟩)
    narrate cfg .block info.id
      (fun _ => "declaring <var>" ++ name ++ paramList params ++ "</var>")
      (fun _ => [⟨info.id, name⟩])

/-- A call with its arguments, as steps and frames show it. -/
def callLabel (m : Memory) (name : String) (args : List Value) : String :=
  name ++ "(" ++ String.intercalate ", " (args.map m.describe) ++ ")"

/-- A call with its arguments, or the breakdown of writing one of them. -/
def callLabel? (m : Memory) (name : String) (args : List Value) : Except Breakdown String := do
  let shown ← args.mapM m.describe?
  .ok (name ++ "(" ++ String.intercalate ", " shown ++ ")")

/-- Starts a call, unless too many calls are active. -/
def enterCall (cfg : Setting σ) (info : Info) : Run σ Unit := fun s =>
  if cfg.limits.callDepth ≤ s.calls.length then
    raise .limit info ("Too many nested function calls (more than <var>" ++
      toString cfg.limits.callDepth ++ "</var>)") s
  else .done () { s with calls := info.token :: s.calls }

/-- Ends a call. A call that failed is not ended. -/
def leaveCall : Run σ Unit := update fun s => { s with calls := s.calls.tail }

/-- The argument for a parameter. With checks, an undefined or null one is a fault at the given node. -/
def bindParam (cfg : Setting σ) (info : Info) (p : String) (v : Value) : Run σ Value :=
  if cfg.isRaw then pure v
  else
    match v with
    | .absent | .undefined =>
      raise .value info ("Variable <var>" ++ p ++ "</var> is <var>undefined</var>")
    | .null => raise .value info ("Variable <var>" ++ p ++ "</var> is <var>null</var>")
    | v => pure v

/-- The arguments of a function by parameter; one that was not given is undefined. -/
def bindParams (cfg : Setting σ) (info : Info) : List String → List Value → Run σ (List (String × Value))
  | [], _ => pure []
  | p :: ps, args => do
    let v ← bindParam cfg info p (args.headD .undefined)
    let rest ← bindParams cfg info ps args.tail
    pure ((p, v) :: rest)

/-- Pushes a frame for the body of a function. Each parameter gets a cell of its own. -/
def pushFrame (f : UserFunction) (bound : List (String × Value)) (label : String) (s : RunState σ) :
    RunState σ :=
  let (refs, memory) := s.memory.allocAll (bound.map Prod.snd)
  let scope := (bound.map Prod.fst).zip refs |>.foldl (fun sc e => sc.bind e.1 (.cell e.2)) Scope.empty
  let call := s.calls.headD f.info.token
  { s with memory := memory, frames := ⟨scope, label, call⟩ :: s.frames }

/-- Starts the body of a function: checks and binds its arguments and pushes a frame. With checks, too few
arguments are a fault. -/
def enterFunction (cfg : Setting σ) (info : Info) (f : UserFunction) (args : List Value) :
    Run σ Unit := do
  if !cfg.isRaw && args.length < f.params.length then
    raise .arity info ("Function <var>" ++ f.name ++ "</var> expects <var>" ++
      toString f.params.length ++ "</var> arguments, but got only <var>" ++ toString args.length ++ "</var>")
  else
    let bound ← bindParams cfg info f.params args
    let label ← written fun m => callLabel? m f.name args
    narrate cfg .block f.info.id (fun _ => "entering <var>" ++ label ++ "</var>") (fun _ => [])
    update (pushFrame f bound label)

/-- Ends the body of a function. -/
def leaveFunction (s : RunState σ) : RunState σ := { s with frames := s.frames.tail }

/-- The node of a statement list as a program names it when it cannot stand there. -/
def unknownStatement (kind : String) : String := "unknown statement *ast." ++ kind

end Primer
