import Primer.Tree.Basic

/-!
# Diagnostics

A problem found at a place in a program: while reading it, or while running it.
-/

set_option autoImplicit false

namespace Primer

/-- A problem with its code and place. The codes `P001` (not a program at all), `P002` (outside the
language) and `P003` (nothing to read) are found before a program runs, `R001` while it runs. -/
structure Diagnostic where
  code : String
  token : Token
  file : String
  message : String
  deriving Repr, DecidableEq, Inhabited

namespace Diagnostic

/-- The diagnostic in one line: file and position as far as known, code and message. -/
def text (d : Diagnostic) : String :=
  let file := if d.file = "" then "" else d.file ++ ":"
  let position :=
    if 0 < d.token.line then toString d.token.line ++ ":" ++ toString d.token.column ++ ":" else ""
  let place := file ++ position
  let body := "[" ++ d.code ++ "] " ++ d.message
  if place = "" then body else place ++ " " ++ body

/-- Whether the problem was found before the program ran. -/
def isBeforeRun (d : Diagnostic) : Bool := d.code = "P001" || d.code = "P002" || d.code = "P003"

end Diagnostic

end Primer
