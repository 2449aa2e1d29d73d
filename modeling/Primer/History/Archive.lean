import Primer.History
import Primer.Number.Reading

/-!
# Archives

A history as one text, so that it can be kept in a file: a sequence of fields, each with its length in
front. `read` takes back what `write` gives.
-/

set_option autoImplicit false

namespace Primer.Archive

/-- A field with its length in front. -/
def writeField (s : String) : String := toString s.length ++ ":" ++ s

/-- The fields of a text, at most `fuel` of them. -/
def readFields : Nat → List Char → Option (List String)
  | _, [] => some []
  | 0, _ :: _ => none
  | fuel + 1, cs =>
    let digits := cs.takeWhile Char.isDigit
    match cs.dropWhile Char.isDigit with
    | ':' :: rest =>
      let n := Number.decimalValue digits
      if digits.isEmpty || rest.length < n then none
      else (readFields fuel (rest.drop n)).map (String.ofList (rest.take n) :: ·)
    | _ => none

/-- The fields of a run. -/
def runFields (r : RunRecord) : List String :=
  [r.id, r.strategy, r.source, r.output, r.errorClass, r.errorMessage, toString r.errorLine,
    toString r.errorColumn, toString r.statements, toString r.createdAt]

/-- The fields of a piece of narration. -/
def rowFields (r : NarrationRow) : List String :=
  [r.run, toString r.seq, toString r.step, toString r.node, r.category.name, r.message]

/-- A history as a text: the number of its runs, the runs, and then the pieces of narration. -/
def write (h : History) : String :=
  String.join ((toString h.runs.length :: (h.runs.flatMap runFields ++ h.rows.flatMap rowFields)).map writeField)

/-- Takes runs off a sequence of fields. -/
def readRuns : Nat → List String → Option (List RunRecord × List String)
  | 0, fields => some ([], fields)
  | n + 1, id :: strategy :: source :: output :: errorClass :: message :: line :: column :: statements ::
      created :: fields => do
    let run : RunRecord := ⟨id, strategy, source, output, errorClass, message, ← line.toInt?, ← column.toInt?,
      ← statements.toInt?, ← created.toInt?⟩
    let (runs, fields) ← readRuns n fields
    some (run :: runs, fields)
  | _, _ => none

/-- The pieces of narration in a sequence of fields. -/
def readRows : List String → Option (List NarrationRow)
  | [] => some []
  | run :: seq :: step :: node :: category :: message :: fields => do
    let row : NarrationRow := ⟨run, ← seq.toNat?, ← step.toNat?, ← node.toNat?,
      if category = "block" then .block else .inline, message⟩
    let rows ← readRows fields
    some (row :: rows)
  | _ => none

/-- The history in a text; an empty text holds an empty one. -/
def read (text : String) : Option History := do
  match ← readFields text.length text.toList with
  | [] => some History.empty
  | count :: fields =>
    let (runs, fields) ← readRuns (← count.toNat?) fields
    let rows ← readRows fields
    some ⟨runs, rows, false⟩

end Primer.Archive
