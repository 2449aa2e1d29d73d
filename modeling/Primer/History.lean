import Primer.Exercise.Basic
import Primer.Execution

/-!
# The history of runs

Every execution can be recorded: what was run, how it ended and, for stepped runs, what was narrated. The
history is a database of two tables, one for runs and one for pieces of narration, each with a primary key.
A run is saved with its narration in one transaction, so a save that fails leaves nothing behind; a run without an id
or a moment gets them when it is saved. Runs are listed newest first, and those of the same
moment in order of their ids. Once the history is closed it answers no more.
-/

set_option autoImplicit false

namespace Primer

/-- The record of an execution. -/
structure RunRecord where
  id : String
  strategy : String
  source : String
  output : String
  /-- The class of the fault that it ended with, if any. -/
  errorClass : String
  errorMessage : String
  errorLine : Int
  errorColumn : Int
  statements : Int
  /-- When it was recorded, in nanoseconds. -/
  createdAt : Int
  deriving Repr, DecidableEq, Inhabited

/-- The moment of a record for which none was set: the first one of the first year. -/
def unsetMoment : Int := -62135596800000000000

/-- A run as it is saved: it gets a fresh id if it has none, and the present moment if none was set. -/
def RunRecord.completed (r : RunRecord) (fresh : String) (now : Int) : RunRecord :=
  { r with
    id := if r.id = "" then fresh else r.id
    createdAt := if r.createdAt = unsetMoment then now else r.createdAt }

/-- Whether a recorded execution failed. -/
def RunRecord.failed (r : RunRecord) : Bool := r.errorClass ≠ ""

/-- A piece of narration of a recorded run, known by the id of the run and its number there. Pieces of one
step share the number of the step. -/
structure NarrationRow where
  run : String
  seq : Nat
  step : Nat
  node : NodeId
  category : Category
  message : String
  deriving Repr, DecidableEq, Inhabited

/-- What tells the pieces of narration apart. -/
def NarrationRow.key (r : NarrationRow) : Nat × String := (r.seq, r.run)

/-- Inserts a row into a table with a primary key; `none` if the key is taken. The newest row comes first. -/
def insertRow {ρ κ : Type} [DecidableEq κ] (key : ρ → κ) (table : List ρ) (row : ρ) : Option (List ρ) :=
  if table.any fun other => key other = key row then none else some (row :: table)

/-- The database of a history. -/
structure History where
  runs : List RunRecord
  rows : List NarrationRow
  closed : Bool
  deriving Repr, DecidableEq, Inhabited

/-- Why the history does not do what it was asked for. -/
inductive HistoryFault where
  | notFound
  /-- A run of that id was recorded before. -/
  | duplicate
  /-- A piece of narration of a step has the number of another one of the same run. -/
  | duplicatePiece (step : Nat)
  /-- The history was closed before this was asked. -/
  | closed (asked : String)
  deriving Repr, DecidableEq, Inhabited

/-- The message for a fault. -/
def HistoryFault.message : HistoryFault → String
  | .notFound => "run not found"
  | .duplicate => "failed to save run: constraint failed: UNIQUE constraint failed: runs.id (1555)"
  | .duplicatePiece step =>
    "failed to save step " ++ toString step ++
      ": constraint failed: UNIQUE constraint failed: steps.run_id, steps.seq (1555)"
  | .closed asked => "failed to " ++ asked ++ ": sql: database is closed"

/-- The record of an execution, with no id and no moment yet. -/
def Execution.record (e : Execution) (strategy : Strategy) (source : String) : RunRecord :=
  let statements := ((e.result.map fun r => (r.statements : Int)).getD 0)
  let made (errorClass message : String) (line column : Int) : RunRecord :=
    ⟨"", strategy.name, source, e.console.output, errorClass, message, line, column, statements, unsetMoment⟩
  match e.syntaxProblem?, e.fault? with
  | some d, _ => made syntaxClass (Markup.plain d.message) d.token.line d.token.column
  | none, some f => made f.kind.name (Markup.plain f.message) f.line f.column
  | none, none => made "" "" 0 0

/-- What an execution narrated. -/
def Execution.steps (e : Execution) : List Step := (e.result.map RunResult.steps).getD []

namespace History

/-- A history without records. -/
def empty : History := ⟨[], [], false⟩

/-- Inserts a run. -/
def insertRun (h : History) (run : RunRecord) : Except HistoryFault History :=
  match insertRow RunRecord.id h.runs run with
  | some runs => .ok { h with runs := runs }
  | none => .error .duplicate

/-- Inserts a piece of narration. -/
def insertPiece (h : History) (row : NarrationRow) : Except HistoryFault History :=
  match insertRow NarrationRow.key h.rows row with
  | some rows => .ok { h with rows := rows }
  | none => .error (.duplicatePiece row.step)

/-- Inserts the pieces of a step with the numbers from `seq` on. Gives the number that is free afterwards. -/
def insertStep (run : String) (step : Nat) : History → Nat → List Fragment → Except HistoryFault (History × Nat)
  | h, seq, [] => .ok (h, seq)
  | h, seq, f :: rest => do
    let h ← h.insertPiece ⟨run, seq, step, f.node, f.category, f.message⟩
    insertStep run step h (seq + 1) rest

/-- Inserts steps, numbered from `step` on, and their pieces, numbered throughout from `seq` on. -/
def insertSteps (run : String) : History → Nat → Nat → List Step → Except HistoryFault History
  | h, _, _, [] => .ok h
  | h, step, seq, s :: rest => do
    let (h, seq) ← insertStep run step h seq s.fragments
    insertSteps run h (step + 1) seq rest

/-- Records a run with its narration. If something fails on the way, nothing is kept of what was inserted. -/
def save (h : History) (run : RunRecord) (steps : List Step) : Except HistoryFault History :=
  if h.closed then .error (.closed "begin transaction")
  else do
    let h ← h.insertRun run
    insertSteps run.id h 0 0 steps

/-- The run of an id. -/
def get (h : History) (id : String) : Except HistoryFault RunRecord :=
  if h.closed then .error (.closed "get run")
  else
    match h.runs.find? fun r => r.id = id with
    | some r => .ok r
    | none => .error .notFound

/-- Whether a run is listed before another: it is newer, or as old with an id that comes no later. -/
def listedBefore (a b : RunRecord) : Bool :=
  b.createdAt < a.createdAt || (a.createdAt = b.createdAt && a.id ≤ b.id)

/-- All runs in the order in which they are listed. -/
def sorted (h : History) : List RunRecord := h.runs.mergeSort listedBefore

/-- The newest runs, up to a limit if it is positive. -/
def list (h : History) (limit : Int) : Except HistoryFault (List RunRecord) :=
  if h.closed then .error (.closed "list runs")
  else .ok (if 0 < limit then h.sorted.take limit.toNat else h.sorted)

/-- The narration of the run of an id in order; there is none if the id is not known. -/
def steps (h : History) (id : String) : Except HistoryFault (List NarrationRow) :=
  if h.closed then .error (.closed "get steps")
  else .ok ((h.rows.filter fun r => r.run = id).mergeSort fun a b => a.seq ≤ b.seq)

/-- Closes a history. -/
def close (h : History) : History := { h with closed := true }

end History

/-! ## Calls and their answers -/

/-- What can be asked of a history. A save comes with a fresh id and the present moment. -/
inductive HistoryCall where
  | save (run : RunRecord) (fresh : String) (now : Int) (steps : List Step)
  | get (id : String)
  | list (limit : Int)
  | steps (id : String)

/-- What a history answers. -/
inductive HistoryAnswer where
  | saved
  | run (run : RunRecord)
  | runs (runs : List RunRecord)
  | rows (rows : List NarrationRow)
  | failed (fault : HistoryFault)
  deriving DecidableEq

/-- What is answered when something is looked up. -/
def HistoryAnswer.of {α : Type} (found : α → HistoryAnswer) : Except HistoryFault α → HistoryAnswer
  | .ok a => found a
  | .error f => .failed f

namespace History

/-- Answers a call. After a save that failed the history is what it was before. -/
def serve (h : History) : HistoryCall → HistoryAnswer × History
  | .save run fresh now steps =>
    match h.save (run.completed fresh now) steps with
    | .ok saved => (.saved, saved)
    | .error f => (.failed f, h)
  | .get id => (.of .run (h.get id), h)
  | .list limit => (.of .runs (h.list limit), h)
  | .steps id => (.of .rows (h.steps id), h)

/-- Answers calls in order. -/
def serveAll (h : History) : List HistoryCall → List HistoryAnswer × History
  | [] => ([], h)
  | c :: calls =>
    let first := h.serve c
    let rest := first.2.serveAll calls
    (first.1 :: rest.1, rest.2)

end History

end Primer
