import Primer.Host.Standard
import Primer.Run.Filter
import Primer.Run.State
import Primer.Text.Blank
import Primer.Time.Duration

/-!
# Exercises

An exercise says how a program is to be run and what it should do: the strategy, the constructs that may be
used, the hosts, the limits and the expected outcome. A draft holds the settings as they were written; it
becomes an exercise once it has been checked and what was left out has been filled in.
-/

set_option autoImplicit false

namespace Primer

/-- The settings of an exercise as they were written. Zero and the empty text stand for what was left
out. -/
structure ExerciseDraft where
  name : String := ""
  description : String := ""
  strategy : String := ""
  commands : List String := []
  deny : List String := []
  hosts : Option (List String) := none
  steps : Int := 0
  timeout : String := ""
  callDepth : Int := 0
  expectedOutput : Option String := none
  expectedClass : String := ""
  deriving Repr, DecidableEq, Inhabited

/-- What is wrong with a draft. -/
inductive ExerciseFault where
  | strategy (name : String)
  | emptyCommand (list : String) (index : Nat)
  | unknownHost (index : Nat) (name : String)
  | negative (setting : String)
  | timeout (text : String) (refusal : Duration.Refusal)
  | timeoutNotPositive
  | unknownClass (name : String)
  deriving Repr, DecidableEq, Inhabited

/-- The message for a fault in settings from a given source. -/
def ExerciseFault.message (source : String) (f : ExerciseFault) : String :=
  source ++ ": " ++ match f with
  | .strategy name => Strategy.unknown name
  | .emptyCommand list index => list ++ "[" ++ toString index ++ "]: empty command"
  | .unknownHost index name => "hosts[" ++ toString index ++ "]: unknown host " ++ Text.quoteShown name
  | .negative setting => setting ++ " must not be negative"
  | .timeout text refusal => "limits.timeout: " ++ refusal.message text
  | .timeoutNotPositive => "limits.timeout must be positive"
  | .unknownClass name => "expect.error: unknown error class " ++ Text.quoteShown name

/-- An exercise with all settings filled in. -/
structure Exercise where
  name : String
  description : String
  /-- The strategy as it was written. -/
  strategyName : String
  commands : List String
  deny : List String
  hosts : List String
  steps : Int
  timeout : String
  /-- The time limit in nanoseconds, zero for none. -/
  timeoutNanos : Int
  callDepth : Int
  expectedOutput : Option String
  expectedClass : String
  deriving Repr, DecidableEq, Inhabited

/-- The class that stands for a program that could not be read. -/
def syntaxClass : String := "SyntaxError"

/-- The classes that an exercise may expect. -/
def expectableClasses : List String :=
  [FaultClass.type, .reference, .value, .arity, .assignment, .host, .limit, .control, .policy].map
    FaultClass.name ++ [syntaxClass]

namespace ExerciseDraft

/-- The statements that a program may execute unless the exercise says otherwise. -/
def usualSteps : Int := 10000

/-- The depth of calls unless the exercise says otherwise. -/
def usualCallDepth : Int := 100

/-- The first blank entry of a list of commands. -/
def blankCommand? (commands : List String) : Option Nat :=
  commands.findIdx? fun tag => (Text.trimChars tag.toList).isEmpty

/-- The first name that is no host. -/
def unknownHost? (hosts : List String) : Option (Nat × String) :=
  (hosts.zipIdx.find? fun h => !standardHosts.contains h.1).map fun h => (h.2, h.1)

/-- The time limit in nanoseconds. -/
def timeoutNanos (d : ExerciseDraft) : Except ExerciseFault Int :=
  if d.timeout = "" then .ok 0
  else
    match Duration.parse d.timeout with
    | .error e => .error (.timeout d.timeout e)
    | .ok n => if n ≤ 0 then .error .timeoutNotPositive else .ok n

/-- Refuses a draft when a check found something. -/
def refuse {α : Type} (found : Option α) (fault : α → ExerciseFault) : Except ExerciseFault Unit :=
  match found with
  | some a => .error (fault a)
  | none => .ok ()

/-- Refuses a draft unless a condition holds. -/
def require (condition : Bool) (fault : ExerciseFault) : Except ExerciseFault Unit :=
  if condition then .ok () else .error fault

/-- Checks a draft, one setting after the other, and gives its time limit. -/
def check (d : ExerciseDraft) : Except ExerciseFault Int := do
  require (Strategy.ofName? d.strategy).isSome (.strategy d.strategy)
  refuse (blankCommand? d.commands) (.emptyCommand "commands")
  refuse (blankCommand? d.deny) (.emptyCommand "deny")
  refuse (unknownHost? (d.hosts.getD [])) fun h => .unknownHost h.1 h.2
  require (0 ≤ d.steps) (.negative "limits.steps")
  require (0 ≤ d.callDepth) (.negative "limits.call_depth")
  let nanos ← d.timeoutNanos
  require (d.expectedClass = "" || expectableClasses.contains d.expectedClass) (.unknownClass d.expectedClass)
  .ok nanos

/-- A draft with what was left out filled in. -/
def complete (d : ExerciseDraft) (timeoutNanos : Int) : Exercise where
  name := d.name
  description := d.description
  strategyName := if d.strategy = "" then Strategy.safe.name else d.strategy
  commands := d.commands
  deny := d.deny
  hosts := d.hosts.getD standardHosts
  steps := if d.steps = 0 then usualSteps else d.steps
  timeout := d.timeout
  timeoutNanos := timeoutNanos
  callDepth := if d.callDepth = 0 then usualCallDepth else d.callDepth
  expectedOutput := d.expectedOutput
  expectedClass := d.expectedClass

/-- The exercise of a draft. -/
def toExercise (d : ExerciseDraft) : Except ExerciseFault Exercise := do
  let nanos ← d.check
  .ok (d.complete nanos)

end ExerciseDraft

namespace Exercise

/-- The exercise when none was given. -/
def usual : Exercise := ({} : ExerciseDraft).complete 0

/-- An exercise made of a strategy and commands. -/
def ofSettings (name strategy : String) (commands deny : List String) : Except ExerciseFault Exercise :=
  ({ name, strategy, commands, deny } : ExerciseDraft).toExercise

/-- The strategy of an exercise. -/
def strategy (e : Exercise) : Strategy := (Strategy.ofName? e.strategyName).getD .safe

/-- The filter of an exercise; there is none when nothing is restricted. -/
def filter (e : Exercise) : Option CommandFilter :=
  if e.commands.isEmpty && e.deny.isEmpty then none else some (CommandFilter.of e.commands e.deny)

/-- The limits of an exercise. -/
def limits (e : Exercise) : Limits := { Limits.none with maxStatements := e.steps, maxCallDepth := e.callDepth }

/-- Why a program does not pass an exercise, from its output, the text of the problem that kept it from
running, and its fault. -/
def verdict (e : Exercise) (output : String) (problem : Option String) (fault : Option Fault) :
    Option String :=
  let got := match problem, fault with
    | some _, _ => syntaxClass
    | none, some f => f.kind.name
    | none, none => ""
  if got ≠ e.expectedClass then
    if e.expectedClass = "" then
      match fault, problem with
      | some f, _ => some ("the program failed: " ++ Markup.plain f.message)
      | none, some text => some ("the program does not parse: " ++ text)
      | none, none => none
    else if got = "" then some ("expected a " ++ e.expectedClass ++ ", but the program succeeded")
    else some ("expected a " ++ e.expectedClass ++ ", got a " ++ got)
  else
    match e.expectedOutput with
    | some wanted =>
      if output = wanted then none
      else some ("output " ++ Text.quoteShown output ++ " does not match the expected " ++ Text.quoteShown wanted)
    | none => none

end Exercise

end Primer
