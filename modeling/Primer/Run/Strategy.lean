import Primer.Text.Lower
import Primer.Text.Quoted

/-!
# Strategies

A program can run in three ways. `raw` follows JavaScript without checks, `safe` checks every operand and
records the constructs that are used, and `stepped` does the same and narrates every step.
-/

set_option autoImplicit false

namespace Primer

/-- How a program is run. -/
inductive Strategy where
  | raw
  | safe
  | stepped
  deriving Repr, DecidableEq, Inhabited

namespace Strategy

/-- The name of a strategy. -/
def name : Strategy → String
  | .raw => "raw"
  | .safe => "safe"
  | .stepped => "step"

/-- All strategies, the unchecked one first. -/
def all : List Strategy := [.raw, .safe, .stepped]

/-- The name of the strategy with a code; other codes are shown as they are. -/
def nameOfCode (code : Int) : String :=
  if code = 0 then name .raw
  else if code = 1 then name .safe
  else if code = 2 then name .stepped
  else "Strategy(" ++ toString code ++ ")"

/-- Why a name is refused. -/
def unknown (text : String) : String :=
  "unknown strategy " ++ Text.quoteShown text ++ " (want raw, safe or step)"

/-- The strategy of a name, in any case; no name means `safe`. -/
def ofName? (text : String) : Option Strategy :=
  match Text.lowerName text with
  | "raw" => some .raw
  | "safe" | "" => some .safe
  | "step" | "stepped" => some .stepped
  | _ => none

end Strategy

end Primer
