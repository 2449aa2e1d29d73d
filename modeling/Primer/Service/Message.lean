import Primer.Number.Exact

/-!
# Messages

What a service and its callers send to each other: trees of named fields. Reading a field fails when it
holds something of another kind.
-/

set_option autoImplicit false

namespace Primer

/-- A value in a message. -/
inductive Message where
  | null
  | boolean (b : Bool)
  | number (x : Float)
  | string (s : String)
  | list (items : List Message)
  | fields (entries : List (String × Message))
  deriving Inhabited

namespace Message

/-- An integer in a message. -/
def int (n : Int) : Message := .number (Number.ofInt n)

/-- A field that is a text; it may be left out or null. -/
def stringField (fields : List (String × Message)) (key : String) : Except String String :=
  match fields.lookup key with
  | none | some .null => .ok ""
  | some (.string s) => .ok s
  | some _ => .error (key ++ " must be a string")

/-- A field that is a list of texts; it may be left out. -/
def stringsField (fields : List (String × Message)) (key : String) : Except String (List String) :=
  match fields.lookup key with
  | none => .ok []
  | some (.list items) => items.zipIdx.mapM fun (item, i) =>
    match item with
    | .string s => .ok s
    | _ => .error (key ++ "[" ++ toString i ++ "] must be a string")
  | some _ => .error (key ++ " must be a list of strings")

/-- A field that is a natural number; it may be left out. -/
def natField (fields : List (String × Message)) (key : String) : Except String Nat :=
  match fields.lookup key with
  | none => .ok 0
  | some (.number x) =>
    match Number.toInt? x with
    | some n => if 0 ≤ n ∧ Number.fitsWord n then .ok n.toNat else .error (key ++ " must be a non-negative integer")
    | none => .error (key ++ " must be a non-negative integer")
  | some _ => .error (key ++ " must be a number")

end Message

end Primer
