import Primer.Agreement.Generator
import Primer.Agreement.Standing
import Primer.CommandLine.Invocation
import Primer.CommandLine.Log
import Primer.CommandLine.Workplace
import Primer.Exercise.File
import Primer.Service.Runner
import Primer.Time.Calendar

/-!
# Commands

What the commands do: run a program and grade it, check programs, compare the strategies, and show what was
recorded. A command leaves a report and perhaps a changed workplace.
-/

set_option autoImplicit false

namespace Primer

/-- How a command ended. -/
inductive CommandEnding where
  | success
  /-- It failed and has said why. -/
  | failed
  | error (text : String)
  deriving Repr, DecidableEq, Inhabited

/-- What a command wrote and how it ended. -/
structure CommandReport where
  output : String
  errors : String
  ending : CommandEnding
  deriving Repr, DecidableEq, Inhabited

namespace CommandReport

/-- A report of a command that wrote nothing yet. -/
def blank : CommandReport := ⟨"", "", .success⟩

/-- Adds output. -/
def write (r : CommandReport) (text : String) : CommandReport := { r with output := r.output ++ text }

/-- Adds a line of output. -/
def writeLine (r : CommandReport) (text : String) : CommandReport := r.write (text ++ "\n")

/-- Adds a line to what went wrong. -/
def complain (r : CommandReport) (text : String) : CommandReport := { r with errors := r.errors ++ text ++ "\n" }

/-- Adds a log line. Details are logged only on request. -/
def log (r : CommandReport) (verbose : Bool) (level : LogLevel) (message : String)
    (values : List (String × String)) : CommandReport :=
  if level = .debug && !verbose then r
  else { r with errors := r.errors ++ (LogLine.mk level message values).text }

/-- Ends with an error. -/
def endWith (r : CommandReport) (text : String) : CommandReport := { r with ending := .error text }

/-- Ends with a failure that was reported. -/
def failing (r : CommandReport) (failed : Bool) : CommandReport := if failed then { r with ending := .failed } else r

end CommandReport

namespace CommandLine

open CommandReport

/-- A text filled up with blanks on the right. -/
def padRight (width : Nat) (s : String) : String :=
  s ++ String.ofList (List.replicate (width - s.length) ' ')

/-- A number filled up with blanks on the left. -/
def padLeft (width n : Nat) : String :=
  let s := toString n
  String.ofList (List.replicate (width - s.length) ' ') ++ s

/-- The exercise file for a program: the nearest one in its directory or above. -/
def findExercise (w : Workplace) (path : String) : Option String :=
  let directories := Path.ancestors (Path.resolve w.current (Path.directory path))
  (directories.flatMap fun d => ExerciseFile.names.map (Path.join d)).find? w.has

/-- The exercise for a program, and whether there is one to grade by. -/
def loadExercise (w : Workplace) (chosen path : String) : Except String (Exercise × Bool) :=
  match if chosen = "" then findExercise w path else some chosen with
  | none => .ok (Exercise.usual, false)
  | some file =>
    match w.readFile file with
    | .error e => .error ("reading exercise " ++ file ++ ": " ++ e)
    | .ok text =>
      match ExerciseFile.read file text with
      | .error f => .error (f.message file)
      | .ok e => .ok (e, true)

/-- The lines for the narration of a run. -/
def traceLines (steps : List Step) : List String :=
  steps.zipIdx.map fun (s, i) =>
    padLeft 4 (i + 1) ++ " " ++ String.join (s.stack.map fun label => label ++ " > ") ++
      String.intercalate "; " (s.fragments.map fun f => Markup.plain f.message)

/-- The lines for the commands that a run used, in order of their first use, with their counts. -/
def commandLines (commands : List Command) : List String :=
  let tags := commands.map Command.tag
  "commands:" :: tags.eraseDups.map fun tag => "  " ++ padRight 12 tag ++ " " ++ toString (tags.count tag)

/-- The lines for the failure of an execution. -/
def failureLines (e : Execution) : List String :=
  match e.syntaxProblem?, e.fault? with
  | some d, _ => [d.file ++ ":" ++ toString d.token.line ++ ":" ++ toString d.token.column ++ ": " ++
      Markup.plain d.message]
  | none, some f =>
    (f.kind.name ++ " at line " ++ toString f.line ++ ": " ++ Markup.plain f.message) ::
      f.calls.reverse.map fun c => "  at line " ++ toString c.line ++ " (called " ++ c.label ++ ")"
  | none, none => []

/-- Opens the history of a command. -/
def openHistory (w : Workplace) (common : CommonOptions) (r : CommandReport) : CommandReport × Except String History :=
  (r.log common.verbose .debug "opening history" [("path", common.database)], w.openHistory common.database)

/-- Records a run in the history. -/
def record (w : Workplace) (common : CommonOptions) (strategy : Strategy) (source : String) (e : Execution)
    (r : CommandReport) : CommandReport × Workplace :=
  match openHistory w common r with
  | (r, .error text) => (r.log common.verbose .warning "run not recorded" [("error", text)], w)
  | (r, .ok h) =>
    match h.serve (.save (e.record strategy source) w.nextId w.now e.steps) with
    | (.failed f, _) => (r.log common.verbose .warning "run not recorded" [("error", f.message)], w)
    | (_, h) => (r.log common.verbose .debug "run recorded" [("id", w.nextId)], w.keepHistory common.database h)

/-- Grades an execution by an exercise. -/
def grade (exercise : Exercise) (e : Execution) (r : CommandReport) : CommandReport :=
  match exercise.verdict e.console.output (e.syntaxProblem?.map Diagnostic.text) e.fault? with
  | some why => (r.writeLine ("Exercise not passed: " ++ why)).failing true
  | none => r.writeLine "Exercise passed!"

/-- The strategy that a program is run with. -/
def chooseStrategy (options : RunOptions) (exercise : Exercise) : Except String Strategy :=
  let name :=
    if options.trace then Strategy.stepped.name
    else if options.strategy ≠ "" then options.strategy
    else exercise.strategyName
  match Strategy.ofName? name with
  | some s => .ok s
  | none => .error ("backend: " ++ Strategy.unknown name)

/-- What a program wrote and how it failed. -/
def reportRun (options : RunOptions) (e : Execution) (r : CommandReport) : CommandReport :=
  let r := e.console.lines.foldl (fun r l => r.writeLine l.text) r
  let extra := match e.result with
    | some result =>
      (if options.trace then traceLines result.steps else []) ++
        (if options.commands then commandLines result.commands else [])
    | none => []
  let r := extra.foldl writeLine r
  (failureLines e).foldl complain r

/-- Runs a program. -/
def run (w : Workplace) (common : CommonOptions) (options : RunOptions) (path : String) :
    CommandReport × Workplace :=
  match w.readFile path with
  | .error text => (blank.endWith text, w)
  | .ok source =>
    match loadExercise w options.exercise path with
    | .error text => (blank.endWith text, w)
    | .ok (exercise, graded) =>
      let r := if graded then blank.log common.verbose .debug "exercise loaded"
          [("name", exercise.name), ("strategy", exercise.strategyName)] else blank
      match chooseStrategy options exercise with
      | .error text => (r.endWith text, w)
      | .ok strategy =>
        match execute strategy (RunnerService.requestOf path source exercise) with
        | .error text => (r.endWith text, w)
        | .ok e =>
          let failed := e.syntaxProblem?.isSome || e.fault?.isSome
          let r := r.log common.verbose .debug "program finished"
            [("strategy", strategy.name), ("failed", toString failed)]
          let r := reportRun options e r
          let (r, w) := if options.noHistory then (r, w) else record w common strategy source e r
          (if graded then grade exercise e r else r.failing failed, w)

/-- Checks whether programs can be read, up to the first file that is not there. -/
def check (w : Workplace) (common : CommonOptions) (paths : List String) : CommandReport :=
  let rec visit (r : CommandReport) (failed : Bool) : List String → CommandReport
    | [] => (r.log common.verbose .debug "checked"
        [("files", toString paths.length), ("failed", toString failed)]).failing failed
    | path :: rest =>
      match w.readFile path with
      | .error text => r.endWith text
      | .ok source =>
        match parse path source with
        | .ok _ => visit (r.writeLine ("ok " ++ path)) failed rest
        | .error d =>
          visit (r.writeLine ("error " ++ path ++ ":" ++ toString d.token.line ++ ":" ++ toString d.token.column ++
            ": " ++ Markup.plain d.message)) true rest
  visit blank false paths

/-- Compares the strategies on the standing cases and on generated ones. -/
def test (common : CommonOptions) (all : Bool) (random seed : Int) : CommandReport :=
  let r := if 0 < random then blank.log common.verbose .debug "generating programs"
      [("count", toString random), ("seed", toString seed)] else blank
  let cases := AgreementCase.standing ++ Generator.cases seed random.toNat
  let reports := cases.map AgreementCase.check
  let shown := reports.filter fun c => !c.passed || all || common.verbose
  let r := shown.foldl (fun r c => r.writeLine c.text) r
  (r.writeLine (AgreementReport.summary reports)).failing (reports.any fun c => !c.passed)

/-- Why nobody can listen at an address, if that is so. -/
def addressProblem? (address : String) : Option String :=
  let refused (what why : String) : Option String := some ("listen tcp: address " ++ what ++ ": " ++ why)
  match address.splitOn ":" with
  | [_] => refused address "missing port in address"
  | [_, port] =>
    let (negative, digits) := Number.splitSign port.toList
    if !digits.all Char.isDigit then some ("listen tcp: lookup tcp/" ++ port ++ ": unknown port")
    else
      let n := Number.signed negative (Number.decimalValue digits)
      if n < 0 || 65535 < n then refused port "invalid port" else none
  | _ => if address.toList.head? = some '[' then none else refused address "too many colons in address"

/-- Serves programs. There is nobody to listen for calls, so only what goes wrong before is of interest. -/
def serve (w : Workplace) (common : CommonOptions) (address : String) (noHistory : Bool) : CommandReport :=
  let (r, opened) := if noHistory then (blank, .ok History.empty) else openHistory w common blank
  match opened with
  | .error text => r.endWith text
  | .ok _ => r.endWith ((addressProblem? address).getD ("listen tcp: address " ++ address ++ ": cannot listen"))

/-- The first line of a source, with a mark if there are more. -/
def firstLine (source : String) : String :=
  let cs := Text.trimChars source.toList
  let first := cs.takeWhile (· ≠ '\n')
  String.ofList first ++ (if first.length < cs.length then " ..." else "")

/-- The line for a run in the list of all. -/
def listLine (r : RunRecord) : String :=
  r.id ++ "  " ++ Calendar.shown r.createdAt ++ "  " ++ padRight 4 r.strategy ++ "  " ++
    (if r.failed then r.errorClass else "ok") ++ "  " ++ firstLine r.source

/-- Everything about a run. -/
def showRun (run : RunRecord) (rows : List NarrationRow) : CommandReport :=
  let r := blank.writeLine ("run " ++ run.id ++ " (" ++ run.strategy ++ ", " ++ Calendar.shown run.createdAt ++ ", " ++
    toString run.statements ++ " statements)")
  let r := (r.writeLine "source:").writeLine run.source
  let r := if run.output = "" then r else (r.writeLine "output:").write run.output
  let r := if run.failed then r.writeLine (run.errorClass ++ " at " ++ toString run.errorLine ++ ":" ++
      toString run.errorColumn ++ ": " ++ run.errorMessage) else r
  if rows.isEmpty then r
  else rows.foldl (fun r row => r.writeLine (padLeft 4 (row.step + 1) ++ "  " ++ Markup.plain row.message))
    (r.writeLine "steps:")

/-- Shows what was recorded: the newest runs, or one run. -/
def history (w : Workplace) (common : CommonOptions) (limit : Int) (id : Option String) :
    CommandReport × Workplace :=
  match openHistory w common blank with
  | (r, .error text) => (r.endWith text, w)
  | (r, .ok h) =>
    let w := w.keepHistory common.database h
    match id with
    | some id =>
      match h.get id, h.steps id with
      | .ok run, .ok rows => ({ showRun run rows with errors := r.errors }, w)
      | .error f, _ => (r.endWith (id ++ ": " ++ f.message), w)
      | _, .error f => (r.endWith f.message, w)
    | none =>
      match h.list limit with
      | .error f => (r.endWith f.message, w)
      | .ok [] => (r.writeLine "no runs recorded", w)
      | .ok runs => (runs.foldl (fun r run => r.writeLine (listLine run)) r, w)

/-- How the program is used. -/
def usage : String :=
  "Usage:\n  jsmm [command]\n\nAvailable Commands:\n" ++
    String.join (Invocation.commands.map fun c => "  " ++ c.name ++ "\n")

/-- Does what an invocation asks for. -/
def perform (w : Workplace) (i : Invocation) : CommandReport × Workplace :=
  match i.job with
  | .help => (blank.write usage, w)
  | .run options path => run w i.common options path
  | .check paths => (check w i.common paths, w)
  | .test all random seed => (test i.common all random seed, w)
  | .serve address noHistory => (serve w i.common address noHistory, w)
  | .history limit id => history w i.common limit id

/-- The files that an invocation may read. -/
def filesToRead (current : String) (i : Invocation) : List String :=
  match i.job with
  | .run options path =>
    let directories := Path.ancestors (Path.resolve current (Path.directory path))
    path :: options.exercise :: directories.flatMap fun d => ExerciseFile.names.map (Path.join d)
  | .check paths => paths
  | _ => []

/-- Answers a command line. -/
def answer (w : Workplace) (usualDatabase : String) (args : List String) : CommandReport × Workplace :=
  match Invocation.ofArguments usualDatabase args with
  | .error text => (blank.endWith text, w)
  | .ok i => perform w i

end CommandLine

end Primer
