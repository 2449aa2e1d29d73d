import Primer.Number.Reading
import Primer.Time.Duration

/-!
# Flags

Flags may stand anywhere on a command line: as `--name value`, `--name=value` or, if they have a letter, as
`-n value` and `-nvalue`. Letters of switches can be written together. Behind `--` there are no flags.
-/

set_option autoImplicit false

namespace Primer

/-- What a flag takes. -/
inductive FlagKind where
  /-- Nothing: it is set or not. -/
  | switch
  | text
  | integer
  | duration
  deriving Repr, DecidableEq, Inhabited

/-- A flag that a command knows. -/
structure Flag where
  name : String
  letter : Option Char
  kind : FlagKind
  deriving Repr, DecidableEq, Inhabited

/-- The value of a flag. -/
inductive FlagValue where
  | switch (b : Bool)
  | text (s : String)
  | number (n : Int)
  deriving Repr, DecidableEq, Inhabited

/-- A command line taken apart: the flags that were set, the last one first, and the other arguments. -/
structure ParsedArguments where
  flags : List (String × FlagValue)
  positional : List String
  deriving Repr, DecidableEq, Inhabited

namespace Flag

/-- Whether a flag can stand without a value. -/
def needsNoValue (f : Flag) : Bool := f.kind = .switch

/-- The flag of a name. -/
def named? (flags : List Flag) (name : String) : Option Flag := flags.find? fun f => f.name = name

/-- The flag of a letter. -/
def lettered? (flags : List Flag) (letter : Char) : Option Flag :=
  flags.find? fun f => f.letter = some letter

/-- Whether underscores stand only between digits, or between a digit and the letters of the base. -/
def groupsWell (afterDigit : Bool) : List Char → Bool
  | [] => true
  | '_' :: c :: rest => afterDigit && c ≠ '_' && groupsWell false (c :: rest)
  | ['_'] => false
  | _ :: rest => groupsWell true rest

/-- Reads an integer of sixty-four bits. Digits that are too many for an unsigned one are out of range,
whatever follows them. -/
def readInteger (text : String) : Except String Int :=
  let refused (why : String) : Except String Int :=
    .error ("strconv.ParseInt: parsing " ++ Text.quoteShown text ++ ": " ++ why)
  let (negative, cs) := Number.splitSign text.toList
  let (base, digits) := Number.splitBase cs
  let values := (digits.filter (· ≠ '_')).map fun c => (Number.hexValue? c).getD 16
  let valid := values.takeWhile (· < base)
  let size := valid.foldl (fun n d => base * n + d) 0
  if Nat.pow 2 64 ≤ size then refused "value out of range"
  else if values.isEmpty || valid.length < values.length ||
      (digits.contains '_' && !groupsWell (base ≠ 10) digits) then refused "invalid syntax"
  else
    let n := Number.signed negative size
    if Number.fitsWord n then .ok n else refused "value out of range"

/-- Reads a truth value. -/
def readSwitch (text : String) : Except String Bool :=
  if ["1", "t", "T", "true", "TRUE", "True"].contains text then .ok true
  else if ["0", "f", "F", "false", "FALSE", "False"].contains text then .ok false
  else .error ("strconv.ParseBool: parsing " ++ Text.quoteShown text ++ ": invalid syntax")

/-- Reads a value of a kind. -/
def readKind (kind : FlagKind) (text : String) : Except String FlagValue :=
  match kind with
  | .switch => (readSwitch text).map .switch
  | .text => .ok (.text text)
  | .integer => (readInteger text).map .number
  | .duration =>
    match Duration.parse text with
    | .ok n => .ok (.number n)
    | .error e => .error (e.message text)

/-- Reads the value of a flag. -/
def read (f : Flag) (text : String) : Except String (String × FlagValue) :=
  match readKind f.kind text with
  | .ok v => .ok (f.name, v)
  | .error why =>
    let name := match f.letter with
      | some c => "-" ++ String.singleton c ++ ", --" ++ f.name
      | none => "--" ++ f.name
    .error ("invalid argument " ++ Text.quoteShown text ++ " for \"" ++ name ++ "\" flag: " ++ why)

/-- Takes a long flag apart, with the arguments behind it. -/
def takeLong (flags : List Flag) (arg : String) (rest : List String) :
    Except String ((String × FlagValue) × List String) :=
  let body := arg.toList.drop 2
  let name := body.takeWhile (· ≠ '=')
  let given := body.dropWhile (· ≠ '=')
  if name.isEmpty || name.head? = some '-' then .error ("bad flag syntax: " ++ arg)
  else
    match named? flags (String.ofList name) with
    | none => .error ("unknown flag: --" ++ String.ofList name)
    | some f =>
      match given, rest with
      | _ :: value, rest => (f.read (String.ofList value)).map fun v => (v, rest)
      | [], rest =>
        if f.needsNoValue then (f.read "true").map fun v => (v, rest)
        else
          match rest with
          | value :: rest => (f.read value).map fun v => (v, rest)
          | [] => .error ("flag needs an argument: " ++ arg)

/-- A letter between single quotes. -/
def quotedLetter (c : Char) : String :=
  let tick := String.singleton (Char.ofNat 39)
  let byte := Char.ofNat ((String.singleton c).toUTF8.toList.headD 0).toNat
  tick ++ String.ofList (Text.shownChar byte) ++ tick

/-- Takes the letters behind a dash apart, with the arguments behind them. -/
def takeLetters (flags : List Flag) (done : List (String × FlagValue)) (rest : List String) :
    List Char → Except String (List (String × FlagValue) × List String)
  | [] => .ok (done, rest)
  | c :: cs =>
    match lettered? flags c with
    | none => .error ("unknown shorthand flag: " ++ quotedLetter c ++ " in -" ++ String.ofList (c :: cs))
    | some f =>
      match cs with
      | '=' :: d :: value => (f.read (String.ofList (d :: value))).map fun v => (v :: done, rest)
      | cs =>
        if f.needsNoValue then
          match f.read "true" with
          | .ok v => takeLetters flags (v :: done) rest cs
          | .error e => .error e
        else
          match cs, rest with
          | _ :: _, rest => (f.read (String.ofList cs)).map fun v => (v :: done, rest)
          | [], value :: rest => (f.read value).map fun v => (v :: done, rest)
          | [], [] => .error ("flag needs an argument: " ++ quotedLetter c ++ " in -" ++ String.singleton c)

/-- Whether an argument starts a flag. -/
def isFlag (arg : String) : Bool :=
  match arg.toList with
  | '-' :: _ :: _ => true
  | _ => false

/-- Takes a command line apart; at most `fuel` arguments. -/
def parseAll (flags : List Flag) : Nat → ParsedArguments → List String → Except String ParsedArguments
  | 0, done, _ => .ok done
  | _, done, [] => .ok done
  | fuel + 1, done, arg :: rest =>
    if !isFlag arg then parseAll flags fuel { done with positional := done.positional ++ [arg] } rest
    else if arg = "--" then .ok { done with positional := done.positional ++ rest }
    else if arg.startsWith "--" then
      match takeLong flags arg rest with
      | .error e => .error e
      | .ok (v, rest) => parseAll flags fuel { done with flags := v :: done.flags } rest
    else
      match takeLetters flags done.flags rest (arg.toList.drop 1) with
      | .error e => .error e
      | .ok (set, rest) => parseAll flags fuel { done with flags := set } rest

/-- Takes a command line apart. -/
def parse (flags : List Flag) (args : List String) : Except String ParsedArguments :=
  parseAll flags (args.length + 1) ⟨[], []⟩ args

end Flag

namespace ParsedArguments

/-- Whether a switch is on. -/
def isOn (p : ParsedArguments) (name : String) : Bool := p.flags.lookup name = some (.switch true)

/-- The text of a flag, or what stands for it when it was not set. -/
def text (p : ParsedArguments) (name : String) (usual : String) : String :=
  match p.flags.lookup name with
  | some (.text s) => s
  | _ => usual

/-- The number of a flag, or what stands for it when it was not set. -/
def number (p : ParsedArguments) (name : String) (usual : Int) : Int :=
  match p.flags.lookup name with
  | some (.number n) => n
  | _ => usual

end ParsedArguments

end Primer
