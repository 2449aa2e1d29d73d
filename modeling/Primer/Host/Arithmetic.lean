import Primer.Number.Power
import Primer.Run.Host
import Primer.Value.Conversion

/-!
# `Math`

The functions and constants of `Math`. With checks, a function wants exactly its number of arguments, all
of them numbers; without checks it leaves out what is too much and converts the rest.
-/

set_option autoImplicit false

namespace Primer

namespace MathFunction

/-- All functions. -/
def all : List MathFunction := [.floor, .ceil, .round, .abs, .sqrt, .pow, .min, .max]

/-- The name of a function. -/
def name : MathFunction → String
  | .floor => "floor"
  | .ceil => "ceil"
  | .round => "round"
  | .abs => "abs"
  | .sqrt => "sqrt"
  | .pow => "pow"
  | .min => "min"
  | .max => "max"

/-- The name with its object. -/
def qualified (f : MathFunction) : String := "Math." ++ f.name

/-- How many arguments a function wants; `none` means any number. -/
def arity? : MathFunction → Option Nat
  | .min | .max => none
  | .pow => some 2
  | _ => some 1

/-- The smallest of several numbers; NaN if one of them is. -/
def smallest (r : Float) : List Float → Float
  | [] => r
  | x :: xs => if Number.isNaN x then x else smallest (Number.least r x) xs

/-- The largest of several numbers; NaN if one of them is. -/
def largest (r : Float) : List Float → Float
  | [] => r
  | x :: xs => if Number.isNaN x then x else largest (Number.greatest r x) xs

/-- The result of a function for the right number of arguments. -/
def apply : MathFunction → List Float → Float
  | .floor, [x] => Number.floor x
  | .ceil, [x] => Number.ceil x
  | .round, [x] => Number.round x
  | .abs, [x] => Number.abs x
  | .sqrt, [x] => Float.sqrt x
  | .pow, [x, y] => Number.power x y
  | .min, xs => smallest (Number.infinity false) xs
  | .max, xs => largest (Number.infinity true) xs
  | _, _ => Number.nan

/-- The arguments that a function uses, or why they are refused. -/
def arguments (f : MathFunction) (strict : Bool) (args : List Value) : Except String (List Value) :=
  match f.arity? with
  | none => .ok args
  | some n =>
    if args.length != n && (strict || args.length < n) then
      .error ("<var>" ++ f.qualified ++ "</var> expects <var>" ++ toString n ++
        "</var> arguments, got <var>" ++ toString args.length ++ "</var>")
    else .ok (args.take n)

/-- The numbers that arguments stand for, or which one is refused. -/
def numbers (f : MathFunction) (strict : Bool) (m : Memory) : List Value → Except String (List Float)
  | [] => .ok []
  | v :: vs => do
    let x ← match v with
      | .number x => .ok x
      | v =>
        if strict then
          .error ("<var>" ++ f.qualified ++ "</var> expects numbers, but <var>" ++ m.describe v ++
            "</var> is not a number")
        else .ok (m.toNumber v)
    let xs ← numbers f strict m vs
    .ok (x :: xs)

/-- Calls a function. -/
def call (f : MathFunction) (strict : Bool) (m : Memory) (args : List Value) : Except String Value := do
  let args ← f.arguments strict args
  let xs ← f.numbers strict m args
  .ok (.number (f.apply xs))

/-- Calls a function, or breaks down where an argument that is no number is written out. -/
def call? (f : MathFunction) (strict : Bool) (m : Memory) (args : List Value) :
    Except Breakdown (Except String Value) := do
  m.writeOut? args
  .ok (f.call strict m args)

end MathFunction

namespace MathConstant

/-- The name of a constant. -/
def name : MathConstant → String
  | .pi => "PI"
  | .e => "E"

/-- The value of a constant. -/
def value : MathConstant → Float
  | .pi => Number.ofBitPattern 0x400921fb54442d18
  | .e => Number.ofBitPattern 0x4005bf0a8b145769

/-- Why a constant cannot be written. -/
def readOnly (c : MathConstant) : String := "<var>Math." ++ c.name ++ "</var> cannot be changed"

end MathConstant

/-- The member of `Math` with a name. -/
def mathMember? (name : String) : Option Value :=
  match MathFunction.all.find? fun f => f.name == name with
  | some f => some (.hostFunction ⟨.math f, f.qualified⟩)
  | none =>
    match name with
    | "PI" => some (.hostVariable ⟨.math .pi, "PI"⟩)
    | "E" => some (.hostVariable ⟨.math .e, "E"⟩)
    | _ => none

end Primer
