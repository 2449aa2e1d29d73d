import Primer.Text.Blank
import Primer.Text.Quoted

/-!
# Log lines

What a command reports about its work, one line for each event: a level, a message and named values.
Values that are not plain words stand in quotes.
-/

set_option autoImplicit false

namespace Primer

/-- How important a log line is. -/
inductive LogLevel where
  | debug
  | warning
  deriving Repr, DecidableEq, Inhabited

/-- The name of a level. -/
def LogLevel.name : LogLevel → String
  | .debug => "DEBUG"
  | .warning => "WARN"

/-- A log line. -/
structure LogLine where
  level : LogLevel
  message : String
  values : List (String × String)
  deriving Repr, DecidableEq, Inhabited

namespace LogLine

/-- Whether a character forces a value into quotes. -/
def isSpecial (c : Char) : Bool :=
  if c.toNat < 0x80 then c = ' ' || c = '=' || c = '"' || c.toNat < 0x20
  else c.toNat = 0xFFFD || Text.isBlank c || !Text.isShown c

/-- A value, in quotes where needed. -/
def valueText (s : String) : String :=
  if s = "" || s.toList.any isSpecial then Text.quoteShown s else s

/-- A log line as text. -/
def text (l : LogLine) : String :=
  "level=" ++ l.level.name ++ " msg=" ++ valueText l.message ++
    String.join (l.values.map fun v => " " ++ v.1 ++ "=" ++ valueText v.2) ++ "\n"

end LogLine

end Primer
