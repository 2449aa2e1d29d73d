import Primer.Host.Color
import Primer.Run.Host
import Primer.Value.Conversion

/-!
# The console

The console collects the lines that a program logs, each with the color that was set when it was logged.
-/

set_option autoImplicit false

namespace Primer

/-- A logged line; no color means the usual one. -/
structure Line where
  text : String
  color : String
  deriving Repr, DecidableEq, Inhabited

/-- The console of one run, lines newest first. `echoed` keeps all lines, also cleared ones. -/
structure Console where
  logged : List Line
  color : String
  echoed : List String
  deriving Repr, DecidableEq, Inhabited

namespace Console

/-- A console without lines. -/
def empty : Console := ⟨[], "", []⟩

/-- The lines in order. -/
def lines (c : Console) : List Line := c.logged.reverse

/-- Everything that is on the console, a line end behind each line. -/
def output (c : Console) : String := String.join (c.lines.map fun l => l.text ++ "\n")

/-- Everything that was ever logged. -/
def echo (c : Console) : String := String.join (c.echoed.reverse.map fun l => l ++ "\n")

/-- Logs a line. -/
def log (c : Console) (text : String) : Console :=
  { c with logged := ⟨text, c.color⟩ :: c.logged, echoed := text :: c.echoed }

/-- Sets the color from a value. -/
def setColor (c : Console) (m : Memory) : Value → Except String Console
  | .string s =>
    match parseColor s with
    | some hex => .ok { c with color := hex }
    | none => .error ("<var>" ++ m.describe (.string s) ++ "</var> is not a valid color")
  | v => .error ("<var>console.color</var> must be a string, not <var>" ++ m.describe v ++ "</var>")

/-- Sets the color from a value, or breaks down where the refusal shows the value. -/
def setColor? (c : Console) (m : Memory) (v : Value) : Except Breakdown (Except String Console) :=
  match c.setColor m v with
  | .ok c => .ok (.ok c)
  | .error text => do
    let _ ← m.describe? v
    .ok (.error text)

/-- The color as programs read it. -/
def shownColor (c : Console) : String := if c.color = "" then "#ffffff" else c.color

/-- Calls a function of the console. -/
def call (c : Console) (m : Memory) (f : ConsoleFunction) (args : List Value) :
    Except String Console :=
  match f, args with
  | .log, _ => .ok (c.log (String.intercalate " " (args.map m.text)))
  | .clear, [] => .ok { c with logged := [] }
  | .clear, _ => .error "<var>console.clear</var> expects no arguments"
  | .setColor, [v] => c.setColor m v
  | .setColor, _ =>
    .error ("<var>console.setColor</var> expects <var>1</var> argument, got <var>" ++
      toString args.length ++ "</var>")

/-- Calls a function of the console, or breaks down where it writes its arguments out. -/
def call? (c : Console) (m : Memory) (f : ConsoleFunction) (args : List Value) :
    Except Breakdown (Except String Console) :=
  match f, args with
  | .log, _ => do
    let texts ← args.mapM m.text?
    .ok (.ok (c.log (String.intercalate " " texts)))
  | .setColor, [v] => c.setColor? m v
  | f, args => .ok (c.call m f args)

/-- The member of the console with a name. -/
def member? (name : String) : Option Value :=
  match name with
  | "log" => some (.hostFunction ⟨.console .log, "console.log"⟩)
  | "clear" => some (.hostFunction ⟨.console .clear, "console.clear"⟩)
  | "setColor" => some (.hostFunction ⟨.console .setColor, "console.setColor"⟩)
  | "color" => some (.hostVariable ⟨.color, "color"⟩)
  | _ => none

end Console

end Primer
