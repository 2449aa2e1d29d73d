import Primer.Embedding.Native
import Primer.Number.Single
import Primer.Value.Conversion

/-!
# From values to native values

A value that a program passes on is turned into what the receiver takes. An integer loses its upper bits
when it is too wide. An array that contains itself cannot be turned into a list; this shows when more arrays
are entered one inside the other than there are.
-/

set_option autoImplicit false

namespace Primer

/-- Why a value is not passed on. -/
inductive TakeFailure where
  | refused (message : String)
  /-- The value contains itself, so turning it into a native one never ends. -/
  | endless
  deriving Repr, DecidableEq, Inhabited

/-- The message of a failure. -/
def TakeFailure.message : TakeFailure → String
  | .refused text => text
  | .endless => "the value contains itself"

namespace Memory

/-- Refuses a value that is not what is wanted. -/
def mismatch (m : Memory) (v : Value) (wanted : String) : Except TakeFailure Native :=
  .error (.refused ("<var>" ++ m.describe v ++ "</var> is not " ++ wanted))

/-- Refuses a value that cannot be turned into something of a type. -/
def cannotBe (m : Memory) (v : Value) (name : String) : Except TakeFailure Native :=
  .error (.refused ("<var>" ++ m.describe v ++ "</var> cannot be passed as " ++ name))

/-- The native counterpart of a value, with at most `depth` arrays entered one inside the other. -/
def takePlain (m : Memory) : Nat → Value → Except TakeFailure Native
  | _, .number x => .ok (.double x)
  | _, .string s => .ok (.string s)
  | _, .boolean b => .ok (.boolean b)
  | _, .null | _, .undefined => .ok .nothing
  | 0, .array _ => .error .endless
  | depth + 1, .array a => do
    let items ← (m.values a).mapM (takePlain m depth)
    .ok (.list items)
  | _, v => .error (.refused ("<var>" ++ m.describe v ++ "</var> cannot be passed to Go"))

/-- The native counterpart of a value, whatever it is. -/
def takeAny (m : Memory) (v : Value) : Except TakeFailure Native := m.takePlain (m.arrays.size + 1) v

/-- The integer of a format that a value becomes. -/
def takeInteger (m : Memory) (f : IntegerFormat) (v : Value) : Except TakeFailure Native :=
  let wanted := if f.signed then "an integer" else "a non-negative integer"
  match v with
  | .number x =>
    match Number.toInt? x with
    | none => m.mismatch v wanted
    | some n =>
      if f.signed then .ok (.integer (Number.wrapSigned f.bits n))
      else if n < 0 then m.mismatch v wanted
      else .ok (.integer (Number.wrapUnsigned f.bits n.toNat))
  | v => m.mismatch v wanted

/-- Turns a value into what a receiver takes. -/
def take (m : Memory) : NativeType → Value → Except TakeFailure Native
  | .any, v => m.takeAny v
  | .boolean, v =>
    match v with
    | .boolean b => .ok (.boolean b)
    | v => m.mismatch v "a boolean"
  | .string, v =>
    match v with
    | .string s => .ok (.string s)
    | v => m.mismatch v "a string"
  | .double, v =>
    match v with
    | .number x => .ok (.double x)
    | v => m.mismatch v "a number"
  | .single, v =>
    match v with
    | .number x => .ok (.double (Number.toSingle x))
    | v => m.mismatch v "a number"
  | .integer f, v => m.takeInteger f v
  | .list t, v =>
    match v with
    | .array a => do
      let items ← (m.values a).mapM (take m t)
      .ok (.list items)
    | v => m.mismatch v "an array"
  | .optional name, v =>
    match v with
    | .null | .undefined => .ok .nothing
    | v => m.cannotBe v name
  | .foreign name, v => m.cannotBe v name

end Memory

end Primer
