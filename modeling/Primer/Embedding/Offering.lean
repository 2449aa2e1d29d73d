import Primer.Embedding.Native

/-!
# From native values to values

A native value is offered to a program under a name. Numbers, texts and truth values become values, lists
become arrays, and functions can be called. A dictionary becomes an object whose members can only be read;
a record becomes an object whose fields can be written and whose methods can be called. A value of programs is
offered as it is, but inside a native value it becomes an object that tells about it. What objects, functions and
variables stand for is kept in a registry, where they are known by number.
-/

set_option autoImplicit false

namespace Primer

/-- What an offered function does. -/
inductive OfferedBody where
  /-- It calls a native function with values bound to it. -/
  | native (name : String) (bound : List Native)
  /-- It names the type of a value of programs. -/
  | typeOf (v : Value)
  /-- It shows a value of programs, with the content that a record has for it. -/
  | inspect (record : RecordRef) (v : Value)
  deriving Inhabited

/-- A function that was offered. Its calls are recorded under the tag. -/
structure OfferedFunction where
  tag : String
  body : OfferedBody
  deriving Inhabited

/-- A member of an object that can be read. -/
inductive OfferedVariable where
  /-- An entry of a dictionary, which cannot be changed. -/
  | entry (object key : String) (v : Value)
  /-- A field of a record. -/
  | field (record : RecordRef) (name qualified : String)
  deriving Inhabited

/-- The records of the embedding program and everything that was offered so far. -/
structure Registry where
  records : Array Record
  objects : Array (List (String × Value))
  functions : Array OfferedFunction
  bindings : Array OfferedVariable
  deriving Inhabited

/-- A registry of which nothing was offered yet. -/
def Registry.empty : Registry := ⟨#[], #[], #[], #[]⟩

/-- What an offer adds to: the registry and the memory for arrays. -/
structure Stock where
  registry : Registry
  memory : Memory
  deriving Inhabited

/-- The record of what is inside a value of programs, which its object shows. -/
def Value.content : Value → Record
  | .number x => ⟨[⟨"Value", .double, .double x⟩], []⟩
  | .string t => ⟨[⟨"Value", .string, .string t⟩], []⟩
  | .boolean b => ⟨[⟨"Value", .boolean, .boolean b⟩], []⟩
  | _ => ⟨[], []⟩

/-- A value of programs with the content that a record has for it. -/
def Value.withContent (v : Value) (r : Record) : Value :=
  match r.get "Value" with
  | .double x => .number x
  | .string t => .string t
  | .boolean b => .boolean b
  | _ => v

namespace Stock

/-- Offers an array. -/
def addArray (s : Stock) (values : List Value) : Value × Stock :=
  let (a, m) := s.memory.newArray values
  (.array a, { s with memory := m })

/-- Offers an object with members. -/
def addObject (s : Stock) (members : List (String × Value)) : Value × Stock :=
  (.object (.extra s.registry.objects.size),
    { s with registry := { s.registry with objects := s.registry.objects.push members } })

/-- Offers a function. -/
def addFunction (s : Stock) (f : OfferedFunction) : Value × Stock :=
  (.hostFunction ⟨.extra s.registry.functions.size, f.tag⟩,
    { s with registry := { s.registry with functions := s.registry.functions.push f } })

/-- Offers a variable of a name. -/
def addVariable (s : Stock) (name : String) (v : OfferedVariable) : Value × Stock :=
  (.hostVariable ⟨.extra s.registry.bindings.size, name⟩,
    { s with registry := { s.registry with bindings := s.registry.bindings.push v } })

/-- The record with a number. -/
def record (s : Stock) (ref : RecordRef) : Record := s.registry.records[ref]?.getD default

/-- Takes a record in and gives it a number. -/
def keepRecord (s : Stock) (r : Record) : RecordRef × Stock :=
  (s.registry.records.size, { s with registry := { s.registry with records := s.registry.records.push r } })

/-- Adds a copy of a record. -/
def copyRecord (s : Stock) (ref : RecordRef) : RecordRef × Stock := s.keepRecord (s.record ref)

/-- Offers one member after the other. -/
def addMembers {α : Type} (add : Stock → α → (String × Value) × Stock) (s : Stock) (l : List α) :
    List (String × Value) × Stock :=
  l.foldl (fun (members, s) a =>
    let (member, s) := add s a
    (members ++ [member], s)) ([], s)

/-- Offers the fields of a record. -/
def addFields (s : Stock) (name : String) (ref : RecordRef) : List (String × Value) × Stock :=
  s.addMembers (fun s f =>
    let (v, s) := s.addVariable f.name (.field ref f.name (name ++ "." ++ f.name))
    ((f.name, v), s)) (s.record ref).fields

/-- Offers methods of an object. -/
def addMethods (s : Stock) (name : String) (methods : List (String × OfferedBody)) :
    List (String × Value) × Stock :=
  s.addMembers (fun s (method, body) =>
    let (v, s) := s.addFunction ⟨name ++ "." ++ method, body⟩
    ((method, v), s)) methods

/-- Offers a record under a name. -/
def addRecord (s : Stock) (name : String) (ref : RecordRef) : Value × Stock :=
  let methods := (s.record ref).methods.map fun (method, function) =>
    (method, OfferedBody.native function [.record ref])
  let (fields, s) := s.addFields name ref
  let (methods, s) := s.addMethods name methods
  s.addObject (fields ++ methods)

/-- Offers an entry of a dictionary. Functions are members as they are, and everything else can only be
read. -/
def addEntry (s : Stock) (object key : String) (v : Value) : (String × Value) × Stock :=
  match v with
  | .hostFunction _ => ((key, v), s)
  | v =>
    let (w, s) := s.addVariable key (.entry object key v)
    ((key, w), s)

/-- Offers a value of programs inside a native value: it is an object that tells the type of the value and how it
shows itself. The content of a number, a text or a truth value is a field of it. -/
def addSealed (s : Stock) (name : String) (v : Value) : Value × Stock :=
  match v with
  | .absent => (.null, s)
  | v =>
    let (ref, s) := s.keepRecord v.content
    let (fields, s) := s.addFields name ref
    let (methods, s) := s.addMethods name [("Inspect", .inspect ref v), ("Type", .typeOf v)]
    s.addObject (fields ++ methods)

end Stock

mutual

/-- Offers a native value under a name, or says why it cannot be used. -/
def Native.offer (name : String) (s : Stock) : Native → Except String (Value × Stock)
  | .nothing => .ok (.null, s)
  | .boolean b => .ok (.boolean b, s)
  | .string t => .ok (.string t, s)
  | .double x => .ok (.number x, s)
  | .integer n => .ok (.number (Number.ofInt n), s)
  | .list items =>
    if maxArrayLength < items.length then
      .error (name ++ ": " ++ toString items.length ++ " elements exceed the array limit of " ++
        toString maxArrayLength)
    else
      match offerItems name s 0 [] items with
      | .error text => .error text
      | .ok (values, s) => .ok (s.addArray values)
  | .dictionary entries =>
    match offerEntries name s [] entries with
    | .error text => .error text
    | .ok (members, s) => .ok (s.addObject members)
  | .keyed keyType => .error (name ++ ": map keys must be strings, not " ++ keyType)
  | .record ref => .ok (s.addRecord name ref)
  | .copy ref =>
    let (ref, s) := s.copyRecord ref
    .ok (s.addRecord name ref)
  | .function f bound => .ok (s.addFunction ⟨name, .native f bound⟩)
  | .foreign type => .error (name ++ ": cannot convert " ++ type)
  | .value v =>
    match v with
    | .absent => .ok (.null, s)
    | v => .ok (v, s)

/-- Offers the items of a list from the `i`-th on, behind those that are done. -/
def Native.offerItems (name : String) (s : Stock) (i : Nat) (done : List Value) :
    List Native → Except String (List Value × Stock)
  | [] => .ok (done.reverse, s)
  | .value v :: rest =>
    let (w, s) := s.addSealed (name ++ "[" ++ toString i ++ "]") v
    offerItems name s (i + 1) (w :: done) rest
  | item :: rest =>
    match item.offer (name ++ "[" ++ toString i ++ "]") s with
    | .error text => .error text
    | .ok (v, s) => offerItems name s (i + 1) (v :: done) rest

/-- Offers the entries of a dictionary, behind those that are done. -/
def Native.offerEntries (name : String) (s : Stock) (done : List (String × Value)) :
    List (String × Native) → Except String (List (String × Value) × Stock)
  | [] => .ok (done.reverse, s)
  | (key, .value v) :: rest =>
    let (w, s) := s.addSealed (name ++ "." ++ key) v
    let (member, s) := s.addEntry name key w
    offerEntries name s (member :: done) rest
  | (key, item) :: rest =>
    match item.offer (name ++ "." ++ key) s with
    | .error text => .error text
    | .ok (v, s) =>
      let (member, s) := s.addEntry name key v
      offerEntries name s (member :: done) rest

end

/-- Offers what is inside a native value: the content of a field, or what a function gave. -/
def Native.offerInner (name : String) (s : Stock) : Native → Except String (Value × Stock)
  | .value v => .ok (s.addSealed name v)
  | item => item.offer name s

end Primer
