import Primer.Embedding.Offering
import Primer.Embedding.Taking
import Primer.Host.Standard

/-!
# Native hosts

What a program can do with the native values that it was offered: read and write members, and call
functions. Arguments are turned into what a function takes, and its results are offered in turn.
-/

set_option autoImplicit false

namespace Primer

/-- Turns the arguments of a call into what the function takes. -/
def Signature.takeAll (sig : Signature) (m : Memory) (tag : String) (args : List Value) :
    Except String (List Native) := do
  let n := sig.params.length
  let got := ", got <var>" ++ toString args.length ++ "</var>"
  let expects := "<var>" ++ tag ++ "</var> expects "
  if sig.rest.isSome then
    if args.length < n then
      throw (expects ++ "at least <var>" ++ toString n ++ "</var> arguments" ++ got)
  else if args.length ≠ n then
    throw (expects ++ "<var>" ++ toString n ++ "</var> arguments" ++ got)
  (args.zipIdx).mapM fun (v, i) =>
    match m.take (sig.typeAt i) v with
    | .ok item => .ok item
    | .error e => .error ("argument " ++ toString (i + 1) ++ " of <var>" ++ tag ++ "</var>: " ++ e.message)

/-- Offers the results of a function: nothing, the one result, or a list of them. -/
def offerResults (tag : String) (s : Stock) : List Native → Except String (Value × Stock)
  | [] => .ok (.absent, s)
  | [v] => v.offerInner tag s
  | values => (Native.list values).offer tag s

namespace Catalog

/-- What an offered function takes. -/
def signatureOf (c : Catalog) : OfferedBody → Signature
  | .native name _ => c.signature name
  | .typeOf _ | .inspect .. => ⟨[], none⟩

/-- What an offered function does with what it takes. -/
def answerOf (c : Catalog) (m : Memory) (args : List Native) (records : Array Record) :
    OfferedBody → NativeAnswer × Array Record
  | .native name bound => c.call name bound args records
  | .typeOf v => (.results [.string v.kind], records)
  | .inspect ref v => (.results [.string (m.inspect (v.withContent (records[ref]?.getD default)))], records)

/-- Calls a function that was offered. -/
def callOffered (c : Catalog) (f : OfferedFunction) (s : Registry) (m : Memory) (args : List Value) :
    HostAction Registry :=
  match (c.signatureOf f.body).takeAll m f.tag args with
  | .error text => .finish (.error (.message text)) s m
  | .ok args =>
    let (answer, records) := c.answerOf m args s.records f.body
    let s := { s with records := records }
    match answer with
    | .failed text => .finish (.error (.message text)) s m
    | .broken text => .finish (.error (.breakdown text)) s m
    | .results values =>
      match offerResults f.tag ⟨s, m⟩ values with
      | .error text => .finish (.error (.message text)) s m
      | .ok (v, stock) => .finish (.ok v) stock.registry stock.memory

/-- Reads a member that was offered. -/
def readOffered (v : OfferedVariable) (s : Registry) (m : Memory) :
    Except HostFailure Value × Registry × Memory :=
  match v with
  | .entry _ _ v => (.ok v, s, m)
  | .field ref name qualified =>
    match ((s.records[ref]?.getD default).get name).offerInner qualified ⟨s, m⟩ with
    | .error text => (.error (.message text), s, m)
    | .ok (v, stock) => (.ok v, stock.registry, stock.memory)

/-- Writes a member that was offered. -/
def writeOffered (v : OfferedVariable) (s : Registry) (m : Memory) (w : Value) :
    Except HostFailure Unit × Registry × Memory :=
  match v with
  | .entry object key _ =>
    (.error (.message ("<var>" ++ object ++ "." ++ key ++ "</var> cannot be changed")), s, m)
  | .field ref name qualified =>
    let record := s.records[ref]?.getD default
    match m.take (record.typeOf name) w with
    | .error e => (.error (.message ("<var>" ++ qualified ++ "</var>: " ++ e.message)), s, m)
    | .ok item => (.ok (), { s with records := s.records.setIfInBounds ref (record.set name item) }, m)

/-- The native values as hosts beside the standard ones. -/
def extras (c : Catalog) : Extras Registry where
  member s n name := (s.objects[n]?.getD []).lookup name
  call n _ s m args := c.callOffered (s.functions[n]?.getD default) s m args
  get n s m := readOffered (s.bindings[n]?.getD default) s m
  set n s m w := some (writeOffered (s.bindings[n]?.getD default) s m w)

end Catalog

end Primer
