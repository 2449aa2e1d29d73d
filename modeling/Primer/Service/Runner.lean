import Primer.History
import Primer.Service.Message
import Primer.Time.Calendar

/-!
# The runner service

A service that runs programs for callers, checks whether they can be read, and lists what was run. The
unchecked strategy enforces no restrictions, so its name is refused unless the service allows it.
-/

set_option autoImplicit false

namespace Primer

/-- The kinds of refusals. -/
inductive ServiceCode where
  | invalidArgument
  | internal
  | unimplemented
  deriving Repr, DecidableEq, Inhabited

/-- The name of a kind of refusal. -/
def ServiceCode.name : ServiceCode → String
  | .invalidArgument => "InvalidArgument"
  | .internal => "Internal"
  | .unimplemented => "Unimplemented"

/-- Why a call was refused. -/
structure ServiceRefusal where
  code : ServiceCode
  message : String
  deriving Repr, DecidableEq, Inhabited

/-- A service with its history, if it keeps one. -/
structure RunnerService where
  history : Option History
  allowRaw : Bool
  deriving Inhabited

/-- The id and the time for what a call records. -/
structure RecordStamp where
  id : String
  time : Int
  deriving Repr, DecidableEq, Inhabited

/-- What a call for a run asks for. -/
structure RunCall where
  code : String
  strategy : String
  commands : List String
  deny : List String
  steps : Nat
  deriving Repr, DecidableEq, Inhabited

namespace RunnerService

/-- Refuses an argument. -/
def invalid {α : Type} : Except String α → Except ServiceRefusal α
  | .ok a => .ok a
  | .error text => .error ⟨.invalidArgument, text⟩

/-- Reads a call for a run. -/
def readRunCall (fields : List (String × Message)) : Except String RunCall := do
  let code ← Message.stringField fields "code"
  let strategy ← Message.stringField fields "strategy"
  let commands ← Message.stringsField fields "commands"
  let deny ← Message.stringsField fields "deny"
  let steps ← Message.natField fields "steps"
  .ok ⟨code, strategy, commands, deny, steps⟩

/-- The settings of a call for a run, or why it is refused. -/
def exerciseOf (s : RunnerService) (call : RunCall) : Except ServiceRefusal Exercise :=
  match Exercise.ofSettings "request" call.strategy call.commands call.deny with
  | .error f => .error ⟨.invalidArgument, f.message "request"⟩
  | .ok e =>
    if e.strategyName = Strategy.raw.name && !s.allowRaw then
      .error ⟨.invalidArgument, "the raw strategy is disabled on this server"⟩
    else .ok (if 0 < call.steps then { e with steps := call.steps } else e)

/-- The request that runs a source as an exercise. -/
def requestOf (path source : String) (e : Exercise) : Request Unit :=
  { Request.plain path source e.filter e.limits with hosts := some e.hosts }

/-- A problem found before a run, as fields. -/
def problemMessage (d : Diagnostic) : Message :=
  .fields [("class", .string syntaxClass), ("message", .string (Markup.plain d.message)),
    ("line", .int d.token.line), ("column", .int d.token.column)]

/-- How an execution failed, as fields. -/
def errorMessage (e : Execution) : Message :=
  match e.syntaxProblem?, e.fault? with
  | some d, _ => problemMessage d
  | none, some f => .fields [("class", .string f.kind.name), ("message", .string (Markup.plain f.message)),
      ("html", .string f.html), ("node", .int f.node), ("line", .int f.line), ("column", .int f.column)]
  | none, none => .null

/-- Narrated steps as fields. -/
def stepsMessage (steps : List Step) : Message :=
  .list (steps.map fun s => .fields [
    ("fragments", .list (s.fragments.map fun f => .fields [("node", .int f.node),
      ("category", .string f.category.name), ("message", .string (Markup.plain f.message))])),
    ("stack", .list (s.stack.map .string))])

/-- Recorded commands as fields. -/
def commandsMessage (commands : List Command) : Message :=
  .list (commands.map fun c => .fields [("node", .int c.node), ("tag", .string c.tag)])

/-- The answer to a call for a run. -/
def runAnswer (e : Execution) (id : Option String) : Message :=
  let result := match e.result with
    | some r => [("steps", stepsMessage r.steps), ("commands", commandsMessage r.commands),
        ("statements", .int r.statements)]
    | none => [("steps", .list []), ("commands", .list [])]
  .fields ([("output", .string e.console.output), ("error", errorMessage e)] ++ result ++
    (id.map fun id => ("run_id", Message.string id)).toList)

/-- Executes a call for a run. -/
def executeCall (s : RunnerService) (call : RunCall) : Except ServiceRefusal (Strategy × Execution) := do
  let e ← s.exerciseOf call
  let execution ← invalid (execute e.strategy (requestOf "request.js" call.code e))
  .ok (e.strategy, execution)

/-- Runs a program and records the run. -/
def run (s : RunnerService) (stamp : RecordStamp) (fields : List (String × Message)) :
    Except ServiceRefusal (Message × RunnerService) := do
  let call ← invalid (readRunCall fields)
  let (strategy, e) ← s.executeCall call
  match s.history with
  | none => .ok (runAnswer e none, s)
  | some h =>
    match h.serve (.save (e.record strategy call.code) stamp.id stamp.time e.steps) with
    | (.failed f, _) => .error ⟨.internal, f.message⟩
    | (_, h) => .ok (runAnswer e (some stamp.id), { s with history := some h })

/-- Checks whether a program can be read. -/
def check (fields : List (String × Message)) : Except ServiceRefusal Message := do
  let code ← invalid (Message.stringField fields "code")
  match parse "request.js" code with
  | .ok _ => .ok (.fields [("ok", .boolean true)])
  | .error d => .ok (.fields [("ok", .boolean false), ("error", problemMessage d)])

/-- A recorded run as fields. -/
def recordMessage (r : RunRecord) : Message :=
  .fields [("id", .string r.id), ("strategy", .string r.strategy), ("source", .string r.source),
    ("output", .string r.output), ("error_class", .string r.errorClass),
    ("error_message", .string r.errorMessage), ("statements", .int r.statements),
    ("created_at", .string (Calendar.stamp r.createdAt))]

/-- Lists what was run, newest first. -/
def listRuns (s : RunnerService) (fields : List (String × Message)) : Except ServiceRefusal Message :=
  match s.history with
  | none => .error ⟨.unimplemented, "run history is disabled"⟩
  | some h => do
    let limit ← invalid (Message.natField fields "limit")
    match h.list limit with
    | .error f => .error ⟨.internal, f.message⟩
    | .ok runs => .ok (.fields [("runs", .list (runs.map recordMessage))])

/-- Answers a call of a method. -/
def call (s : RunnerService) (stamp : RecordStamp) (method : String) (fields : List (String × Message)) :
    Except ServiceRefusal (Message × RunnerService) :=
  match method with
  | "Run" => s.run stamp fields
  | "Check" => (check fields).map fun m => (m, s)
  | "History" => (s.listRuns fields).map fun m => (m, s)
  | name => .error ⟨.unimplemented, "unknown method " ++ name ++ " for service jsmm.Runner"⟩

end RunnerService

end Primer
