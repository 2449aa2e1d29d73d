import Primer.Agreement.Basic

/-!
# Generated programs

Programs for comparing the strategies are made up from a list of choices. Every program declares its
variables first, bounds its loops by counters of their own and calls only functions that stand above the
call, so it always ends; most programs run through and the others fail with ordinary faults. When the
choices are used up the first alternative is taken everywhere.
-/

set_option autoImplicit false

namespace Primer

/-- What a generator has used and made so far. -/
structure Generator where
  /-- The choices that are left. -/
  choices : List Nat
  /-- The number of loops made so far, which keeps their counters apart. -/
  loops : Nat
  /-- The functions of the program so far: name and number of parameters. -/
  functions : List (String × Nat)
  deriving Repr, DecidableEq, Inhabited

/-- Making a text with a generator. -/
abbrev Generate := StateM Generator

namespace Generator

/-- A generator that makes the given choices. -/
def ofChoices (choices : List Nat) : Generator := ⟨choices, 0, []⟩

/-- The bytes that a text of hex digits writes, two digits for each. -/
def bytesOfHex? : List Char → Option (List Nat)
  | [] => some []
  | high :: low :: rest => do
    let h ← Number.hexValue? high
    let l ← Number.hexValue? low
    let more ← bytesOfHex? rest
    return (16 * h + l) :: more
  | [_] => none

/-- A generator whose choices are the bytes of a text of hex digits. -/
def ofHex? (s : String) : Option Generator := (bytesOfHex? s.toList).map ofChoices

/-- How deep blocks and expressions are nested. -/
def depth : Nat := 3

/-- The variables that every program declares. -/
def globals : List String := ["a", "b", "c", "s", "arr"]

/-- Chooses a number below `n`. -/
def choose (n : Nat) : Generate Nat := fun g =>
  match g.choices with
  | [] => (0, g)
  | c :: rest => (c % n, { g with choices := rest })

/-- Chooses an entry of a list of texts. -/
def pick (l : List String) : Generate String := do
  let i ← choose l.length
  return l[i]?.getD ""

/-- Chooses a number below `n` and writes it. -/
def digits (n : Nat) : Generate String := do
  return toString (← choose n)

/-- Makes `n` texts one after the other. -/
def times (n : Nat) (part : Generate String) : Generate (List String) :=
  (List.replicate n part).mapM id

/-- An expression without parts. -/
def atom (vars : List String) : Generate String := do
  match ← choose 7 with
  | 0 => digits 20
  | 1 => return (← digits 5) ++ ".5"
  | 2 => return "arr[" ++ (← digits 4) ++ "]"
  | 3 => return "arr.length"
  | 4 => return "\"t\""
  | _ => pick vars

/-- A call of one of the functions so far. -/
def call (vars : List String) : Generate String := do
  let functions := (← get).functions
  let i ← choose functions.length
  let (name, arity) := functions[i]?.getD ("", 0)
  let args ← times arity (atom vars)
  return name ++ "(" ++ String.intercalate ", " args ++ ")"

/-- An expression in which `room` levels may be nested. -/
def expression (vars : List String) : Nat → Generate String
  | 0 => atom vars
  | room + 1 => do
    match ← choose 8 with
    | 0 | 1 | 2 => atom vars
    | 3 | 4 => do
      let left ← expression vars room
      let symbol ← pick ["+", "-", "*", "/", "%"]
      let right ← expression vars room
      return left ++ " " ++ symbol ++ " " ++ right
    | 5 => return "(" ++ (← expression vars room) ++ ")"
    | 6 => do
      let name ← pick ["Math.abs", "Math.floor", "Math.round", "Math.sqrt"]
      return name ++ "(" ++ (← expression vars room) ++ ")"
    | _ => do
      if (← get).functions.isEmpty then return "-" ++ (← atom vars) else call vars

/-- A condition. -/
def condition (vars : List String) : Generate String := do
  let left ← expression vars (depth - 1)
  let symbol ← pick ["<", ">", "<=", ">=", "==", "!="]
  let right ← expression vars (depth - 1)
  let text := left ++ " " ++ symbol ++ " " ++ right
  match ← choose 4 with
  | 0 => return "!(" ++ text ++ ")"
  | 1 => return text ++ " && " ++ (← pick vars) ++ " != 0"
  | _ => return text

/-- Something that can be assigned to. -/
def target (vars : List String) : Generate String := do
  match ← choose 4 with
  | 0 => return "arr[" ++ (← digits 4) ++ "]"
  | _ => pick vars

/-- A fresh counter for a loop. -/
def counter (letter : String) : Generate String := fun g =>
  (letter ++ toString g.loops, { g with loops := g.loops + 1 })

/-- The white space before a statement inside `level` blocks. -/
def indent (level : Nat) : String := String.join (List.replicate level "  ")

/-- The other branch of a condition, if there is one. -/
def alternative (vars : List String) (pad : String) (body : Generate String) : Generate String := do
  match ← choose 3 with
  | 1 => return pad ++ "\x7d else \x7b\n" ++ (← body)
  | 2 => do
    let test ← condition vars
    return pad ++ "\x7d else if (" ++ test ++ ") \x7b\n" ++ (← body)
  | _ => return ""

/-- A statement inside `level` blocks, in which `room` more may be nested. -/
def statement (vars : List String) (level : Nat) : Nat → Generate String
  | 0 => return indent level ++ "console.log(a);\n"
  | room + 1 => do
    let pad := indent level
    let whole := expression vars depth
    match ← choose 10 with
    | 0 | 1 => do
      let left ← target vars
      return pad ++ left ++ " = " ++ (← whole) ++ ";\n"
    | 2 => do
      let left ← target vars
      let symbol ← pick ["+=", "-=", "*=", "/=", "%="]
      return pad ++ left ++ " " ++ symbol ++ " " ++ (← whole) ++ ";\n"
    | 3 => do
      let left ← target vars
      return pad ++ left ++ (← pick ["++", "--"]) ++ ";\n"
    | 4 => return pad ++ "console.log(" ++ (← whole) ++ ");\n"
    | 5 => do
      let test ← condition vars
      let body ← statement vars (level + 1) room
      let others ← alternative vars pad (statement vars (level + 1) room)
      return pad ++ "if (" ++ test ++ ") \x7b\n" ++ body ++ others ++ pad ++ "\x7d\n"
    | 6 => do
      let i ← counter "i"
      let bound ← choose 5
      let body ← statement vars (level + 1) room
      return pad ++ "for (var " ++ i ++ " = 0; " ++ i ++ " < " ++ toString (bound + 1) ++ "; " ++ i ++
        "++) \x7b\n" ++ body ++ pad ++ "\x7d\n"
    | 7 => do
      let w ← counter "w"
      let bound ← choose 4
      let body ← statement vars (level + 1) room
      return pad ++ "var " ++ w ++ " = " ++ toString (bound + 1) ++ ";\n" ++ pad ++ "while (" ++ w ++
        " > 0) \x7b\n" ++ body ++ pad ++ "  " ++ w ++ "--;\n" ++ pad ++ "\x7d\n"
    | 8 => do
      if (← get).functions.isEmpty then
        let i ← digits 5
        return pad ++ "arr[" ++ i ++ "] = " ++ (← whole) ++ ";\n"
      else return pad ++ (← call vars) ++ ";\n"
    | _ => return pad ++ "arr.length = " ++ (← digits 4) ++ ";\n"

/-- A function. It is known only after its body, so that it cannot call itself. -/
def function : Generate String := do
  let name := "f" ++ toString (← get).functions.length
  let arity ← choose 3
  let params := (List.range arity).map fun i => "p" ++ toString i
  let vars := globals ++ params
  let count ← choose 3
  let body ← times count (statement vars 1 depth)
  let result ← expression vars depth
  modify fun g => { g with functions := g.functions ++ [(name, arity)] }
  return "function " ++ name ++ "(" ++ String.intercalate ", " params ++ ") \x7b\n" ++ String.join body ++
    "  return " ++ result ++ ";\n\x7d\n"

/-- A complete program. -/
def program : Generate String := do
  modify fun g => { g with functions := [] }
  let functionCount ← choose 3
  let functions ← times functionCount function
  let count ← choose 6
  let body ← times (count + 1) (statement globals 0 (depth + 1))
  return "var a = 1, b = 2, c = 3;\nvar s = \"x\";\nvar arr = [1, 2, 3];\n" ++ String.join functions ++
    String.join body ++ "console.log(a, b, c, s, arr);\n"

/-- The first `n` programs of a generator. -/
def programs (n : Nat) (g : Generator) : List String := ((times n program).run g).1

/-- The choices that a seed leads to. -/
def choicesOfSeed (seed : Int) (n : Nat) : List Nat :=
  (List.range n).map fun (i : Nat) =>
    let x := ((seed + i) % Nat.pow 2 64).toNat * 6364136223846793005 % Nat.pow 2 64
    x / Nat.pow 2 29 * 1442695040888963407 % Nat.pow 2 64 / Nat.pow 2 56

/-- Cases with generated programs. Only the checked strategies are compared on them. -/
def cases (seed : Int) (n : Nat) : List AgreementCase :=
  let sources := programs n (ofChoices (choicesOfSeed seed (256 * n)))
  sources.mapIdx fun i source => ⟨"random_" ++ toString seed ++ "_" ++ toString i, source, false⟩

end Generator

end Primer
