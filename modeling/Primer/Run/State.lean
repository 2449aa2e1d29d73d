import Primer.Run.Filter
import Primer.Run.Host
import Primer.Run.Scope

/-!
# The state of a run

What a run carries along: memory and hosts, scopes and active calls, and the records that it leaves
behind. `Run` is a computation on that state. It ends with a result, with a failure, or because the bound
on its recursion was used up; the last of these says nothing about the program.
-/

set_option autoImplicit false

namespace Primer

/-- An active call of a function of the program: its variables, its label and the token of the call. -/
structure Frame where
  scope : Scope
  label : String
  call : Token
  deriving Inhabited

/-- The limits of a run. Zero or less means no limit on statements and the usual one on calls. -/
structure Limits where
  maxStatements : Int
  maxCallDepth : Int
  /-- Asked once per tick for a reason to stop at a node. What it answers may depend on all nodes that it was asked
  about before, newest first. -/
  limiter : Option (List NodeId → NodeId → Option String)
  /-- Why the run has been stopped from outside after a number of ticks, if it has. -/
  stopped : Nat → Option String

/-- No limits but the usual one on calls. -/
def Limits.none : Limits := ⟨0, 0, Option.none, fun _ => Option.none⟩

/-- The number of nested calls that is allowed when nothing else is said. -/
def defaultCallDepth : Nat := 100

/-- The number of nested calls that is allowed. -/
def Limits.callDepth (l : Limits) : Nat :=
  if l.maxCallDepth ≤ 0 then defaultCallDepth else l.maxCallDepth.toNat

/-- Whether a number of ticks is beyond the limit on statements. -/
def Limits.isSpent (l : Limits) (ticks : Nat) : Bool := 0 < l.maxStatements && l.maxStatements < ticks

/-- The message for a program that used up its statements. -/
def Limits.spentMessage (l : Limits) : String :=
  "Program stopped after <var>" ++ toString l.maxStatements ++
    "</var> steps, it may contain an infinite loop"

/-- How deeply expressions may be nested. -/
def maxEvalDepth : Nat := 10000

/-- What stays fixed during a run. -/
structure Setting (σ : Type) where
  strategy : Strategy
  filter : Option CommandFilter
  limits : Limits
  hosts : Hosts σ

/-- Whether a run goes without checks. -/
def Setting.isRaw {σ : Type} (cfg : Setting σ) : Bool := cfg.strategy = .raw

/-- What a run carries along. Frames and calls are listed innermost first, records newest first. -/
structure RunState (σ : Type) where
  memory : Memory
  host : σ
  globals : Scope
  frames : List Frame
  calls : List Token
  commands : List Command
  steps : List Step
  ticks : Nat
  /-- The nodes that the limiter was asked about, newest first. -/
  asked : List NodeId

namespace RunState

variable {σ : Type}

/-- The scope in which names are declared: that of the innermost function, or the global one. -/
def scope (s : RunState σ) : Scope :=
  match s.frames with
  | [] => s.globals
  | f :: _ => f.scope

/-- Puts a scope in place of the active one. -/
def withScope (s : RunState σ) (scope : Scope) : RunState σ :=
  match s.frames with
  | [] => { s with globals := scope }
  | f :: rest => { s with frames := { f with scope := scope } :: rest }

/-- What a name is bound to, in the active scope or globally. -/
def find? (s : RunState σ) (name : String) : Option Value :=
  Scope.findIn? [s.scope, s.globals] name

/-- The labels of the active function calls, outermost first. -/
def stack (s : RunState σ) : List String := s.frames.reverse.map Frame.label

/-- The active function calls as a fault shows them, outermost first. -/
def activeCalls (s : RunState σ) : List ActiveCall :=
  s.frames.reverse.map fun f => ⟨f.label, f.call.line, f.call.column⟩

/-- What a host can see. -/
def view (s : RunState σ) (strategy : Strategy) : View :=
  ⟨strategy, !s.frames.isEmpty, s.commands, s.steps, s.stack, [s.scope, s.globals]⟩

/-- The fault that arises at a node now. -/
def faultAt (s : RunState σ) (kind : FaultClass) (info : Info) (message : String)
    (cause : Option String) : Fault :=
  ⟨kind, info.id, info.token.line, info.token.column, message, s.activeCalls, cause, true⟩

end RunState

/-- How a computation ends. -/
inductive Outcome (σ α : Type) where
  | done (value : α) (state : RunState σ)
  | failed (failure : Failure) (state : RunState σ)
  /-- The bound on the recursion was used up. -/
  | exhausted

/-- A computation on the state of a run. -/
def Run (σ α : Type) := RunState σ → Outcome σ α

namespace Run

variable {σ α β : Type}

/-- Gives a value and changes nothing. -/
@[always_inline, inline]
def value (a : α) : Run σ α := fun s => .done a s

/-- One computation after another; a failure of the first is one of both. -/
@[always_inline, inline]
def andThen (x : Run σ α) (f : α → Run σ β) : Run σ β := fun s =>
  match x s with
  | .done a s => f a s
  | .failed e s => .failed e s
  | .exhausted => .exhausted

@[always_inline]
instance : Monad (Run σ) where
  pure := value
  bind := andThen

/-- Ends because the bound was used up. -/
def exhausted : Run σ α := fun _ => .exhausted

/-- Fails with a text that nobody has placed. -/
def failText (message : String) : Run σ α := fun s => .failed (.text message) s

/-- Works something out from the memory, which can break down. -/
def written (f : Memory → Except Breakdown α) : Run σ α := fun s =>
  match f s.memory with
  | .ok a => .done a s
  | .error b => .failed (.breakdown b) s

/-- Raises a fault at a node. -/
def raise (kind : FaultClass) (info : Info) (message : String) : Run σ α := fun s =>
  .failed (.fault (s.faultAt kind info message none)) s

/-- Raises a fault at a node with what caused it. -/
def raiseFrom (kind : FaultClass) (info : Info) (message cause : String) : Run σ α := fun s =>
  .failed (.fault (s.faultAt kind info message (some cause))) s

/-- Reads something off the state. -/
@[always_inline, inline]
def asks (f : RunState σ → α) : Run σ α := fun s => .done (f s) s

/-- Changes the state. -/
@[always_inline, inline]
def update (f : RunState σ → RunState σ) : Run σ Unit := fun s => .done () (f s)

/-- Computes something on the memory. -/
@[always_inline, inline]
def onMemory (f : Memory → α × Memory) : Run σ α := fun s =>
  let (a, m) := f s.memory
  .done a { s with memory := m }

/-- Does something more when a computation fails, before the failure goes on. -/
@[always_inline, inline]
def onFailure (x : Run σ α) (note : Run σ Unit) : Run σ α := fun s =>
  match x s with
  | .failed e s =>
    match note s with
    | .done _ s => .failed e s
    | .failed e' s => .failed e' s
    | .exhausted => .exhausted
  | r => r

end Run

end Primer
