import Primer.Breakdown
import Primer.Markup
import Primer.Tree.Basic

/-!
# Faults

What can go wrong while a program runs: a fault has a class, the node where it arose, a message in markup
and the calls that were active. A fault that the engine did not raise itself is uncontrolled.
-/

set_option autoImplicit false

namespace Primer

/-- The classes of faults. Other names have no meaning of their own. -/
inductive FaultClass where
  | type
  | reference
  | value
  | arity
  | assignment
  | host
  | limit
  | control
  | policy
  | internal
  | other (name : String)
  deriving Repr, DecidableEq, Inhabited

namespace FaultClass

/-- The name of a class. -/
def name : FaultClass → String
  | .type => "TypeError"
  | .reference => "ReferenceError"
  | .value => "ValueError"
  | .arity => "ArityError"
  | .assignment => "AssignmentError"
  | .host => "HostError"
  | .limit => "LimitError"
  | .control => "ControlError"
  | .policy => "PolicyError"
  | .internal => "InternalError"
  | .other n => n

/-- The class of a name. -/
def ofName (text : String) : FaultClass :=
  match text with
  | "TypeError" => .type
  | "ReferenceError" => .reference
  | "ValueError" => .value
  | "ArityError" => .arity
  | "AssignmentError" => .assignment
  | "HostError" => .host
  | "LimitError" => .limit
  | "ControlError" => .control
  | "PolicyError" => .policy
  | "InternalError" => .internal
  | n => .other n

/-- What a class means, in words. -/
def meaning? : FaultClass → Option String
  | .type => some "type error"
  | .reference => some "reference error"
  | .value => some "value error"
  | .arity => some "arity error"
  | .assignment => some "assignment error"
  | .host => some "host error"
  | .limit => some "limit exceeded"
  | .control => some "control error"
  | .policy => some "command not allowed"
  | .internal => some "internal error"
  | .other _ => none

end FaultClass

/-- A call that was active when a fault arose: its label and where it was made. -/
structure ActiveCall where
  label : String
  line : Int
  column : Int
  deriving Repr, DecidableEq, Inhabited

/-- A fault. The active calls are given outermost first. -/
structure Fault where
  kind : FaultClass
  node : NodeId
  line : Int
  column : Int
  message : String
  calls : List ActiveCall
  /-- What a host or limiter reported, if the fault comes from one. -/
  cause : Option String
  /-- Whether the engine raised the fault itself. -/
  controlled : Bool
  deriving Repr, DecidableEq, Inhabited

namespace Fault

/-- The fault in one line of plain text. -/
def text (f : Fault) : String :=
  let place := if 0 < f.line then " at " ++ toString f.line ++ ":" ++ toString f.column else ""
  f.kind.name ++ place ++ ": " ++ Markup.plain f.message

/-- The fault with the active calls, innermost first. -/
def inspect (f : Fault) : String :=
  if f.calls.isEmpty then f.text
  else f.text ++ "\nStack trace:" ++ String.join (f.calls.reverse.map fun c =>
    "\n  at " ++ toString c.line ++ ":" ++ toString c.column ++ " (called " ++ c.label ++ ")")

/-- The message for a web page. -/
def html (f : Fault) : String := Markup.html f.message

/-- Whether two runs ended alike: both well, or both with a controlled fault of the same class and
message at the same node. -/
def sameOutcome : Option Fault → Option Fault → Bool
  | none, none => true
  | some a, some b =>
    a.controlled && b.controlled && a.kind = b.kind && a.node = b.node && a.message = b.message
  | _, _ => false

end Fault

/-- How a part of a run fails: with a fault, with a text that nobody has placed yet, or with a breakdown that
nobody has recovered from yet. -/
inductive Failure where
  | fault (f : Fault)
  | text (message : String)
  | breakdown (why : Breakdown)
  deriving Repr, DecidableEq, Inhabited

/-- The failure as plain text. -/
def Failure.message : Failure → String
  | .fault f => f.text
  | .text t => t
  | .breakdown b => b.text

end Primer
