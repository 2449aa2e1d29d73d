import Primer.Host.Standard
import Primer.Run.Evaluator
import Primer.Source.Program

/-!
# Executing a source

A source passes through two stages, reading and running. Each stage sees what the one before left; the
second does nothing when there is no program or a problem was found. `execute` sets up the hosts of a
request and lets its source pass through both stages.
-/

set_option autoImplicit false

namespace Primer

/-- A source on its way through the stages. -/
structure Passage (σ : Type) where
  source : String
  path : String
  program : Option Program
  diagnostics : List Diagnostic
  finished : Option (Finished σ)

/-- A run, or a reason why there was none. -/
abbrev Engine (σ : Type) := Passage σ → Except String (Finished σ)

/-- The diagnostic of a fault: its message in plain text with the active calls, innermost first. -/
def Fault.diagnostic (f : Fault) (file : String) : Diagnostic :=
  let calls :=
    if f.calls.isEmpty then ""
    else "\nStack trace:" ++ String.join (f.calls.reverse.map fun c =>
      "\n  at " ++ file ++ ":" ++ toString c.line ++ " (called " ++ c.label ++ ")")
  ⟨"R001", ⟨"", f.line, f.column⟩, file, f.kind.name ++ ": " ++ Markup.plain f.message ++ calls⟩

namespace Passage

variable {σ : Type}

/-- A source that has passed no stage yet. -/
def start (source path : String) : Passage σ := ⟨source, path, none, [], none⟩

/-- Whether a stage found a problem. -/
def hasFailed (p : Passage σ) : Bool := !p.diagnostics.isEmpty

/-- The first stage: reads the program. -/
def read (p : Passage σ) : Passage σ :=
  match parse p.path p.source with
  | .ok program => { p with program := some program }
  | .error d => { p with diagnostics := p.diagnostics ++ [d] }

/-- The second stage: runs the program with an engine. -/
def run (engine : Engine σ) (p : Passage σ) : Passage σ :=
  if p.program.isNone || p.hasFailed then p
  else
    match engine p with
    | .error text =>
      { p with diagnostics := p.diagnostics ++ [⟨"R001", ⟨"", 0, 0⟩, "", text⟩] }
    | .ok f =>
      let found := match f.result.fault with
        | none => []
        | some fault => [fault.diagnostic p.path]
      { p with finished := some f, diagnostics := p.diagnostics ++ found }

end Passage

/-- The engine that walks the tree. It refuses to run without a program or after a problem. -/
def treeEngine {σ : Type} (cfg : Setting σ) (s : RunState σ) : Engine σ := fun p =>
  match p.program, p.diagnostics with
  | none, _ => .error "no program to execute"
  | some _, d :: _ => .error d.text
  | some program, [] => .ok (runProgram cfg program.body s)

/-- A program to be executed, with its filter, limits and hosts. -/
structure Request (τ : Type) where
  path : String
  source : String
  filter : Option CommandFilter
  limits : Limits
  /-- The names of the hosts; without a choice the standard ones. -/
  hosts : Option (List String)
  /-- Further names, which may not be those of hosts. -/
  globals : List (String × Value)
  /-- The memory that the values of the further names refer to. -/
  memory : Memory
  extras : Extras τ
  extra : τ

/-- A request with the standard hosts and nothing else. -/
def Request.plain (path source : String) (filter : Option CommandFilter) (limits : Limits) :
    Request Unit :=
  ⟨path, source, filter, limits, none, [], Memory.empty, Extras.none, ()⟩

/-- What an execution left behind. -/
structure Execution where
  program : Option Program
  result : Option RunResult
  console : Console
  diagnostics : List Diagnostic
  deriving Inhabited

namespace Execution

/-- The problem that kept the program from running. -/
def syntaxProblem? (e : Execution) : Option Diagnostic := e.diagnostics.find? Diagnostic.isBeforeRun

/-- The fault that the program ended with. -/
def fault? (e : Execution) : Option Fault := e.result.bind RunResult.fault

/-- The output with what ended the execution after it: the problem that kept the program from running, or
the fault and the node it arose at. -/
def transcript (e : Execution) : String :=
  e.console.output ++ match e.syntaxProblem?, e.fault? with
    | some d, _ => d.text
    | none, some f => f.text ++ " #" ++ toString f.node
    | none, none => ""

end Execution

/-- All names that a request binds, or why it is refused. -/
def Request.names {τ : Type} (r : Request τ) : Except String (List (String × Value)) := do
  let hosts ← hostNames r.hosts
  match r.globals.find? fun g => standardHosts.contains g.1 with
  | some g => .error ("global " ++ Text.quoteShown g.1 ++ " shadows a host")
  | none => .ok (hosts ++ r.globals)

/-- What stays fixed when a request runs. -/
def Request.setting {τ : Type} (r : Request τ) (strategy : Strategy) : Setting (HostState τ) :=
  ⟨strategy, r.filter, r.limits, Hosts.standard r.extras⟩

/-- The state in which a request starts. -/
def Request.start {τ : Type} (r : Request τ) : Except String (RunState (HostState τ)) := do
  let names ← r.names
  .ok (initialState ⟨Console.empty, r.extra⟩ r.memory names)

/-- Runs a tree that was not read from a source, with the filter, limits and hosts of a request. -/
def runTree {τ : Type} (strategy : Strategy) (r : Request τ) (body : List Stmt) :
    Except String (Finished (HostState τ)) := do
  let s ← r.start
  .ok (runProgram (r.setting strategy) body s)

/-- Lets a request pass through both stages. -/
def Request.pass {τ : Type} (r : Request τ) (strategy : Strategy) :
    Except String (Passage (HostState τ)) := do
  let s ← r.start
  .ok (((Passage.start r.source r.path).read).run (treeEngine (r.setting strategy) s))

/-- What a source that has passed the stages left behind. -/
def Passage.execution {τ : Type} (p : Passage (HostState τ)) : Execution :=
  let console := match p.finished with
    | some f => f.state.host.console
    | none => Console.empty
  ⟨p.program, p.finished.map Finished.result, console, p.diagnostics⟩

/-- Executes a request with a strategy. -/
def execute {τ : Type} (strategy : Strategy) (r : Request τ) : Except String Execution := do
  let p ← r.pass strategy
  .ok p.execution

end Primer
