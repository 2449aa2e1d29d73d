import Primer.Number.Reading

/-!
# Documents

A settings file is a tree of scalars, lists and tables, whatever notation it is written in. Reading a
setting from a document fails when something of another shape stands in its place.
-/

set_option autoImplicit false

namespace Primer

/-- A tree of settings. -/
inductive Document where
  /-- Nothing: a key without a value. -/
  | missing
  /-- A scalar without quotes, whose meaning depends on where it stands. -/
  | plain (text : String)
  /-- A text. -/
  | quoted (text : String)
  /-- A number. -/
  | integer (n : Int)
  /-- A scalar of a kind that no setting has. -/
  | other
  | list (items : List Document)
  | table (entries : List (String × Document))
  deriving Inhabited

namespace Document

/-- The spellings of nothing. -/
def isNothing (text : String) : Bool := ["", "~", "null", "Null", "NULL"].contains text

/-- The integer that is left of a decimal number when its fraction is cut off. -/
def cutDecimal? (cs : List Char) : Option Int :=
  match Number.readNumeral cs with
  | none => none
  | some n =>
    let digits := Number.decimalValue (n.whole ++ n.fraction)
    let shift := n.exponent - n.fraction.length
    if 400 < shift.natAbs then none
    else
      let size := if 0 ≤ shift then digits * Nat.pow 10 shift.toNat else digits / Nat.pow 10 (-shift).toNat
      some (Number.signed n.negative size)

/-- The integer that a scalar without quotes is, if it is a number: an integer in its base, or else a decimal
number without its fraction. -/
def plainInteger? (text : String) : Option Int :=
  let cs := text.toList.filter (· ≠ '_')
  let (negative, digits) := Number.splitSign cs
  let value? := match Number.readBased digits with
    | some n => some (Number.signed negative n)
    | none => cutDecimal? cs
  value?.filter Number.fitsWord

/-- A document that stands for nothing. -/
def isMissing : Document → Bool
  | .missing => true
  | .plain text => isNothing text
  | _ => false

/-- A setting that is a text; nothing is the empty text. -/
def text? : Document → Option String
  | .missing => some ""
  | .plain text => some (if isNothing text then "" else text)
  | .quoted text => some text
  | _ => none

/-- A setting that is an integer; nothing is zero. -/
def integer? : Document → Option Int
  | .missing => some 0
  | .plain text => if isNothing text then some 0 else plainInteger? text
  | .integer n => some n
  | _ => none

/-- A setting that is a list of texts. Items that are nothing do not count. -/
def texts? (d : Document) : Option (Option (List String)) :=
  if d.isMissing then some none
  else
    match d with
    | .list items => ((items.filter fun i => !i.isMissing).mapM text?).map some
    | _ => none

/-- A table of settings; nothing is the empty one. -/
def entries? (d : Document) : Option (List (String × Document)) :=
  if d.isMissing then some []
  else
    match d with
    | .table entries => some entries
    | _ => none

end Document

end Primer
