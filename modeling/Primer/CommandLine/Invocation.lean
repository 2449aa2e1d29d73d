import Primer.CommandLine.Flag

/-!
# Invocations

What a command line asks for: one of the commands with its options, or help. A command that is not known is
refused, with the names that it may have been meant to be.
-/

set_option autoImplicit false

namespace Primer

/-- How many arguments a command takes. -/
inductive Arity where
  | none
  | exactly (n : Nat)
  | atLeast (n : Nat)
  | atMost (n : Nat)
  deriving Repr, DecidableEq, Inhabited

/-- A command with its own flags. -/
structure CommandSpec where
  name : String
  flags : List Flag
  arity : Arity
  deriving Repr, DecidableEq, Inhabited

/-- The options that every command has. -/
structure CommonOptions where
  verbose : Bool
  database : String
  deriving Repr, DecidableEq, Inhabited

/-- The options of a run. -/
structure RunOptions where
  strategy : String
  exercise : String
  trace : Bool
  commands : Bool
  noHistory : Bool
  deriving Repr, DecidableEq, Inhabited

/-- What a command line asks for. -/
inductive Job where
  | help
  | run (options : RunOptions) (path : String)
  | check (paths : List String)
  | test (all : Bool) (random seed : Int)
  | serve (address : String) (noHistory : Bool)
  | history (limit : Int) (id : Option String)
  deriving Repr, DecidableEq, Inhabited

/-- A job with the options that every command has. -/
structure Invocation where
  common : CommonOptions
  job : Job
  deriving Repr, DecidableEq, Inhabited

namespace Invocation

/-- The name of the program. -/
def programName : String := "jsmm"

/-- The flags that every command has. -/
def commonFlags : List Flag :=
  [⟨"verbose", some 'v', .switch⟩, ⟨"db", none, .text⟩, ⟨"help", some 'h', .switch⟩]

/-- The commands. -/
def commands : List CommandSpec := [
  ⟨"run", [⟨"strategy", some 's', .text⟩, ⟨"exercise", some 'e', .text⟩, ⟨"trace", none, .switch⟩,
    ⟨"commands", none, .switch⟩, ⟨"no-history", none, .switch⟩], .exactly 1⟩,
  ⟨"check", [], .atLeast 1⟩,
  ⟨"test", [⟨"all", some 'a', .switch⟩, ⟨"random", none, .integer⟩, ⟨"seed", none, .integer⟩], .none⟩,
  ⟨"serve", [⟨"addr", none, .text⟩, ⟨"timeout", none, .duration⟩, ⟨"no-history", none, .switch⟩,
    ⟨"allow-raw", none, .switch⟩], .none⟩,
  ⟨"history", [⟨"limit", some 'n', .integer⟩], .atMost 1⟩]

/-- The commands that only explain the others. -/
def helpCommands : List String := ["help", "completion"]

/-- Whether an argument is a flag that takes the next argument as its value. -/
def takesNext (flags : List Flag) (arg : String) : Bool :=
  match arg.toList with
  | '-' :: '-' :: name =>
    !name.contains '=' && !(((Flag.named? flags (String.ofList name)).map Flag.needsNoValue).getD false)
  | ['-', c] => c ≠ '=' && !(((Flag.lettered? flags c).map Flag.needsNoValue).getD false)
  | _ => false

/-- The first argument that is no flag and no value of one, with the arguments around it. -/
def firstWord (flags : List Flag) : List String → List String → Option (String × List String)
  | _, [] => none
  | before, arg :: rest =>
    if arg = "--" then none
    else if takesNext flags arg then
      match rest with
      | value :: next :: rest => firstWord flags (value :: arg :: before) (next :: rest)
      | _ => none
    else if arg = "" || arg.startsWith "-" then firstWord flags (arg :: before) rest
    else some (arg, before.reverse ++ rest)

/-- One row of the table of edit distances: the row below `row` for another character. -/
def nextRow (c : Char) (target : List Char) (row : List Nat) : List Nat :=
  let first := row.headD 0 + 1
  let cells := (target.zip (row.zip row.tail)).foldl (fun (done : List Nat) (d, diagonal, above) =>
    let left := done.headD 0
    let cost := if c = d then diagonal else min (min left above) diagonal + 1
    cost :: done) [first]
  cells.reverse

/-- The number of letters that have to be inserted, dropped or replaced to turn one word into another, in
any case. -/
def distance (a b : String) : Nat :=
  let target := (b.map Char.toLower).toList
  let first := List.range (target.length + 1)
  (((a.map Char.toLower).toList.foldl (fun row c => nextRow c target row) first).getLast?).getD 0

/-- The names of commands that are close to a word. -/
def suggestions (word : String) : List String :=
  (commands.map CommandSpec.name ++ ["completion"]).filter fun name =>
    distance word name ≤ 2 || name.startsWith (word.map Char.toLower)

/-- The refusal of a command that is not known. -/
def unknownCommand (word path : String) : String :=
  "unknown command " ++ Text.quoteShown word ++ " for " ++ Text.quoteShown path

/-- The refusal of a word that is no command. -/
def refuseWord (word : String) : String :=
  let close := suggestions word
  unknownCommand word programName ++
    (if close.isEmpty then ""
     else "\n\nDid you mean this?\n" ++ String.join (close.map fun n => "\t" ++ n ++ "\n"))

/-- Checks the number of arguments of a command. -/
def checkArity (spec : CommandSpec) (args : List String) : Except String Unit :=
  let n := args.length
  match spec.arity with
  | .none =>
    match args with
    | [] => .ok ()
    | arg :: _ => .error (unknownCommand arg (programName ++ " " ++ spec.name))
  | .exactly k =>
    if n = k then .ok () else .error ("accepts " ++ toString k ++ " arg(s), received " ++ toString n)
  | .atLeast k =>
    if k ≤ n then .ok ()
    else .error ("requires at least " ++ toString k ++ " arg(s), only received " ++ toString n)
  | .atMost k =>
    if n ≤ k then .ok ()
    else .error ("accepts at most " ++ toString k ++ " arg(s), received " ++ toString n)

/-- The job of a command whose arguments are in order. -/
def jobOf (name : String) (p : ParsedArguments) : Job :=
  let first := p.positional.headD ""
  match name with
  | "run" => .run ⟨p.text "strategy" "", p.text "exercise" "", p.isOn "trace", p.isOn "commands",
      p.isOn "no-history"⟩ first
  | "check" => .check p.positional
  | "test" => .test (p.isOn "all") (p.number "random" 0) (p.number "seed" 1)
  | "serve" => .serve (p.text "addr" "localhost:7433") (p.isOn "no-history")
  | "history" => .history (p.number "limit" 20) p.positional.head?
  | _ => .help

/-- Understands the arguments of a command. -/
def ofCommand (usualDatabase : String) (spec : CommandSpec) (args : List String) : Except String Invocation := do
  let p ← Flag.parse (spec.flags ++ commonFlags) args
  let common : CommonOptions := ⟨p.isOn "verbose", p.text "db" usualDatabase⟩
  if p.isOn "help" then .ok ⟨common, .help⟩
  else
    checkArity spec p.positional
    .ok ⟨common, jobOf spec.name p⟩

/-- Understands a command line without a command: only flags can stand there. -/
def withoutCommand (usualDatabase : String) (args : List String) : Except String Invocation := do
  let p ← Flag.parse commonFlags args
  .ok ⟨⟨p.isOn "verbose", p.text "db" usualDatabase⟩, .help⟩

/-- Understands a command line. -/
def ofArguments (usualDatabase : String) (args : List String) : Except String Invocation :=
  match firstWord commonFlags [] args with
  | none => withoutCommand usualDatabase args
  | some (word, others) =>
    match commands.find? fun c => c.name = word with
    | some spec => ofCommand usualDatabase spec others
    | none => if helpCommands.contains word then .ok ⟨⟨false, usualDatabase⟩, .help⟩ else .error (refuseWord word)

end Invocation

end Primer
