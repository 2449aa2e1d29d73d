import Primer.Document.Toml
import Primer.Document.Yaml
import Primer.Exercise.Basic

/-!
# Exercise files

An exercise is written in a file, in TOML if its name says so and in YAML otherwise. Settings that are not
known are ignored; a setting of the wrong shape makes the file unreadable.
-/

set_option autoImplicit false

namespace Primer

/-- Why a file gives no exercise. -/
inductive ExerciseFileFault where
  /-- It cannot be read as a document with settings. -/
  | unreadable
  | settings (f : ExerciseFault)
  deriving Repr, DecidableEq, Inhabited

/-- The message for a fault in the file at a path. -/
def ExerciseFileFault.message (path : String) : ExerciseFileFault → String
  | .unreadable => "parsing " ++ path
  | .settings f => f.message path

namespace ExerciseFile

/-- The names of exercise files, those that win first. -/
def names : List String := ["jsmm.yaml", "jsmm.yml", "jsmm.toml"]

/-- The ending of the last part of a path, from its last point on. -/
def ending (path : String) : String :=
  let last := (path.toList.reverse.takeWhile (· ≠ '/')).reverse
  match last.reverse.dropWhile (· ≠ '.') with
  | [] => ""
  | _ => "." ++ String.ofList (last.reverse.takeWhile (· ≠ '.')).reverse

/-- Whether a file is written in TOML. -/
def isToml (path : String) : Bool := (ending path).map Char.toLower = ".toml"

/-- How the keys of a table are found: as they are written, or otherwise in any case. -/
structure Keys where
  anyCase : Bool

/-- The setting of a key. -/
def Keys.find (k : Keys) (entries : List (String × Document)) (key : String) : Document :=
  match entries.lookup key with
  | some d => d
  | none =>
    if k.anyCase then
      ((entries.find? fun e => e.1.map Char.toLower = key).map Prod.snd).getD .missing
    else .missing

/-- The expected output: set unless it is missing. -/
def output? (d : Document) : Option (Option String) :=
  if d.isMissing then some none else d.text?.map some

/-- The draft of a document, if its settings have the right shapes. -/
def draft? (k : Keys) (d : Document) : Option ExerciseDraft := do
  let top ← d.entries?
  let limits ← (k.find top "limits").entries?
  let expect ← (k.find top "expect").entries?
  let commands ← (k.find top "commands").texts?
  let deny ← (k.find top "deny").texts?
  some {
    name := ← (k.find top "name").text?
    description := ← (k.find top "description").text?
    strategy := ← (k.find top "strategy").text?
    commands := commands.getD []
    deny := deny.getD []
    hosts := ← (k.find top "hosts").texts?
    steps := ← (k.find limits "steps").integer?
    timeout := ← (k.find limits "timeout").text?
    callDepth := ← (k.find limits "call_depth").integer?
    expectedOutput := ← output? (k.find expect "output")
    expectedClass := ← (k.find expect "error").text? }

/-- Reads the draft in a file. -/
def readDraft (path content : String) : Option ExerciseDraft :=
  if isToml path then (Toml.parse content).bind (draft? ⟨true⟩)
  else (Yaml.parse content).bind (draft? ⟨false⟩)

/-- Reads the exercise in a file. -/
def read (path content : String) : Except ExerciseFileFault Exercise :=
  match readDraft path content with
  | none => .error .unreadable
  | some draft =>
    match draft.toExercise with
    | .error f => .error (.settings f)
    | .ok e => .ok e

end ExerciseFile

end Primer
