import Primer.Run.Fault
import Primer.Run.Record
import Primer.Run.Scope
import Primer.Run.Strategy

/-!
# Hosts

A program meets the world through hosts: objects with members, functions and variables. A host keeps a
state of its own. A host that is called or written to may call functions of the program before it answers,
which is why it is described step by step: it is finished, or it makes a call and goes on with what the
call gave.

A host is shown the run through a `View`, and it has the memory of the run to work in. It does not write
into the records of the run: commands, steps, declarations and calls come from the constructs of the program
alone.
-/

set_option autoImplicit false

namespace Primer

/-- What a host can see of the run that uses it. -/
structure View where
  strategy : Strategy
  inFunction : Bool
  /-- The commands so far, newest first. -/
  recorded : List Command
  /-- The steps so far, newest first. -/
  narrated : List Step
  /-- The labels of the active function calls, outermost first. -/
  stack : List String
  /-- The active scope and the global one. -/
  scopes : List Scope
  deriving Inhabited

/-- The number of commands so far. -/
def View.commands (v : View) : Nat := v.recorded.length

/-- The number of steps so far. -/
def View.steps (v : View) : Nat := v.narrated.length

/-- How a host fails: with a message, with a failure of the program that it passes on, or by breaking
down. -/
inductive HostFailure where
  | message (text : String)
  | passedOn (f : Failure)
  | breakdown (text : String)
  deriving Repr, Inhabited

/-- What a host does when it is called or written to. -/
inductive HostAction (σ : Type) where
  /-- It is finished, with an answer. -/
  | finish (answer : Except HostFailure Value) (host : σ) (memory : Memory)
  /-- It calls a function of the program and goes on. -/
  | callBack (f : UserFunction) (args : List Value) (host : σ) (memory : Memory)
      (next : Except Failure Value → View → σ → Memory → HostAction σ)

/-- The hosts of a run, with a state `σ`. -/
structure Hosts (σ : Type) where
  /-- A member of an object, if it has one of that name. -/
  member : σ → ObjectKey → String → Option Value
  /-- Calls a function. -/
  call : FunctionKey → View → σ → Memory → List Value → HostAction σ
  /-- Reads a variable. -/
  get : VariableKey → σ → Memory → Except HostFailure Value × σ × Memory
  /-- Writes a variable; `none` if it can only be read. What a finished write answers is not used. -/
  set : VariableKey → View → σ → Memory → Value → Option (HostAction σ)

end Primer
