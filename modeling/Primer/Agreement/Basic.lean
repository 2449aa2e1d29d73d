import Primer.Execution

/-!
# Agreement of the strategies

The strategies are checked against each other on whole programs. A case runs under `safe` and `stepped`, and
also under `raw` when it promises not to rely on checks that `raw` leaves out. All runs must end with the
same problem and the same console output.
-/

set_option autoImplicit false

namespace Primer

/-- A program on which strategies are compared. -/
structure AgreementCase where
  name : String
  source : String
  /-- Whether the unchecked run has to agree too. -/
  raw : Bool
  deriving Repr, DecidableEq, Inhabited

/-- The verdict on a case: what was found to differ, if anything. -/
structure AgreementReport where
  case : AgreementCase
  failure : Option String
  deriving Repr, DecidableEq, Inhabited

namespace AgreementReport

/-- Whether all strategies agreed. -/
def passed (r : AgreementReport) : Bool := r.failure.isNone

/-- The verdict in a sentence. -/
def text (r : AgreementReport) : String :=
  let name := Text.quoteShown (r.case.name.map fun c => if c = '_' then ' ' else c)
  match r.failure with
  | none => "Test " ++ name ++ " completed successfully!"
  | some failure => "In test " ++ name ++ " " ++ failure

/-- The closing line for a list of verdicts. -/
def summary (reports : List AgreementReport) : String :=
  match (reports.filter fun r => !r.passed).length with
  | 0 => "All tests completed successfully!"
  | 1 => "Unfortunately 1 test failed..."
  | n => "Unfortunately " ++ toString n ++ " tests failed..."

end AgreementReport

namespace AgreementCase

/-- How a run of a strategy ended. -/
structure Ending where
  strategy : Strategy
  problem : Option Diagnostic
  fault : Option Fault
  output : String
  deriving Repr, Inhabited

namespace Ending

/-- The problem that a run ended with, for a report. -/
def problemText (e : Ending) : String :=
  match e.problem, e.fault with
  | some d, _ => Markup.plain d.message
  | none, some f => f.inspect
  | none, none => "null"

/-- Whether two runs ended with the same problem. Problems found before a run are compared by their
message. -/
def sameProblem (a b : Ending) : Bool :=
  match a.problem, b.problem with
  | none, none => Fault.sameOutcome a.fault b.fault
  | some d, some e => d.message = e.message
  | _, _ => false

/-- A report on what differs between two runs. -/
def mismatch (what : String) (a b : Ending) (left right source : String) : String :=
  let name (e : Ending) := what ++ " " ++ e.strategy.name
  name a ++ " and " ++ name b ++ " were incorrect.\n" ++ name a ++ ":\n" ++ left ++ "\n" ++
    name b ++ ":\n" ++ right ++ "\ncode:\n" ++ source

/-- What differs between two runs of a source, the problem before the output. -/
def difference? (source : String) (a b : Ending) : Option String :=
  if !a.sameProblem b then some (mismatch "error" a b a.problemText b.problemText source)
  else if a.output ≠ b.output then some (mismatch "console" a b a.output b.output source)
  else none

/-- The first difference between neighbours in a list of runs. -/
def firstDifference? (source : String) : List Ending → Option String
  | a :: b :: rest => (a.difference? source b).or (firstDifference? source (b :: rest))
  | _ => none

end Ending

/-- The strategies that a case runs under. -/
def strategies (c : AgreementCase) : List Strategy :=
  if c.raw then [.raw, .safe, .stepped] else [.safe, .stepped]

/-- Runs a case under one strategy, with hosts of its own. -/
def ending (c : AgreementCase) (s : Strategy) : Except String Ending :=
  match execute s (Request.plain (c.name ++ ".js") c.source none Limits.none) with
  | .error text => .error ("could not run under " ++ s.name ++ ": " ++ text)
  | .ok e => .ok ⟨s, e.syntaxProblem?, e.fault?, e.console.output⟩

/-- Compares the strategies on a case. -/
def check (c : AgreementCase) : AgreementReport :=
  match c.strategies.mapM c.ending with
  | .error text => ⟨c, some text⟩
  | .ok endings => ⟨c, Ending.firstDifference? c.source endings⟩

end AgreementCase

end Primer
