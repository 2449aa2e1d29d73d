import Primer.Tree.Basic

/-!
# Records

What a run leaves behind besides its effects: the commands that its nodes used and the steps that were
narrated.
-/

set_option autoImplicit false

namespace Primer

/-- A construct or host function that a node used. -/
structure Command where
  node : NodeId
  tag : String
  deriving Repr, DecidableEq, Inhabited

/-- How a narrated node is highlighted. -/
inductive Category where
  | inline
  | block
  deriving Repr, DecidableEq, Inhabited

/-- The name of a category. -/
def Category.name : Category → String
  | .inline => "inline"
  | .block => "block"

/-- A piece of narration, attached to a node. -/
structure Fragment where
  node : NodeId
  category : Category
  message : String
  deriving Repr, DecidableEq, Inhabited

/-- A name that a step changed. -/
structure Change where
  node : NodeId
  name : String
  deriving Repr, DecidableEq, Inhabited

/-- One narrated step, with the labels of the active function calls, outermost first. -/
structure Step where
  fragments : List Fragment
  changes : List Change
  stack : List String
  deriving Repr, DecidableEq, Inhabited

end Primer
