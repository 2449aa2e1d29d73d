import Primer.Value.Memory

/-!
# Native values

A program can be embedded in another one, which offers it native values of its own: numbers, texts, lists,
dictionaries, records with fields and methods, and functions. Records are shared and known by number;
functions are known by name together with values bound to them.
-/

set_option autoImplicit false

namespace Primer

/-- The width of a kind of integers and whether they have a sign. -/
structure IntegerFormat where
  signed : Bool
  bits : Nat
  deriving Repr, DecidableEq, Inhabited

/-- What a native function or field takes. -/
inductive NativeType where
  /-- Whatever has a native counterpart. -/
  | any
  | boolean
  | string
  | double
  | single
  | integer (format : IntegerFormat)
  | list (element : NativeType)
  /-- Something that may be missing, of which nothing else can be passed. -/
  | optional (name : String)
  /-- Something that cannot be passed at all. -/
  | foreign (name : String)
  deriving Repr, DecidableEq, Inhabited

/-- The number of a record. -/
abbrev RecordRef := Nat

/-- A value of the embedding program. -/
inductive Native where
  | nothing
  | boolean (b : Bool)
  | string (s : String)
  | double (x : Float)
  | integer (n : Int)
  | list (items : List Native)
  /-- A collection with texts as keys. -/
  | dictionary (entries : List (String × Native))
  /-- A collection with keys of another type. -/
  | keyed (keyType : String)
  /-- A record that is shared with the program. -/
  | record (ref : RecordRef)
  /-- A record of which the program gets a copy. -/
  | copy (ref : RecordRef)
  /-- A function with values bound to it. -/
  | function (name : String) (bound : List Native)
  /-- Something that programs cannot use. -/
  | foreign (type : String)
  /-- Something that already is a value of programs. -/
  | value (v : Value)
  deriving Inhabited

/-- A field of a record. -/
structure RecordField where
  name : String
  type : NativeType
  value : Native
  deriving Inhabited

/-- A record: its fields, and its methods with the functions that they are. The record itself is bound to
them. -/
structure Record where
  fields : List RecordField
  methods : List (String × String)
  deriving Inhabited

namespace Record

/-- The content of a field. -/
def get (r : Record) (name : String) : Native :=
  ((r.fields.find? fun f => f.name = name).map RecordField.value).getD .nothing

/-- What a field takes. -/
def typeOf (r : Record) (name : String) : NativeType :=
  ((r.fields.find? fun f => f.name = name).map RecordField.type).getD .any

/-- Writes a field. -/
def set (r : Record) (name : String) (v : Native) : Record :=
  { r with fields := r.fields.map fun f => if f.name = name then { f with value := v } else f }

end Record

/-- The arguments of a native function: fixed ones, and perhaps any number of further ones. -/
structure Signature where
  params : List NativeType
  rest : Option NativeType
  deriving Repr, DecidableEq, Inhabited

/-- What a native function takes at a position. -/
def Signature.typeAt (s : Signature) (i : Nat) : NativeType :=
  (s.params[i]?.or s.rest).getD .any

/-- How a native function ends. -/
inductive NativeAnswer where
  | results (values : List Native)
  | failed (message : String)
  | broken (message : String)
  deriving Inhabited

/-- The functions of an embedding program. A call gets the bound values and the arguments, and may read
and change the records. -/
structure Catalog where
  signature : String → Signature
  call : String → List Native → List Native → Array Record → NativeAnswer × Array Record

end Primer
