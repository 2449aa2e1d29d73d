import Primer.Embedding.Hosts
import Primer.Execution

/-!
# Sessions

A session runs one program after the other with the same strategy, filter, limits, hosts and native
bindings. Bindings are offered anew to every program, so arrays are not shared between programs; records
are.
-/

set_option autoImplicit false

namespace Primer

/-- The setting that programs of a session run in. -/
structure Session where
  strategy : Strategy
  filter : Option CommandFilter
  limits : Limits
  hosts : Option (List String)
  /-- The bound names in order. -/
  bindings : List (String × Native)
  stock : Stock

/-- Why a program of a session failed. -/
inductive SessionFailure where
  /-- It was wrong or went wrong at a place. -/
  | program (kind message : String) (line column : Int)
  /-- It was not run at all. -/
  | refused (text : String)
  deriving Repr, DecidableEq, Inhabited

namespace SessionFailure

/-- The failure in one line. -/
def text : SessionFailure → String
  | .program kind message line column =>
    kind ++ " at " ++ toString line ++ ":" ++ toString column ++ ": " ++ message
  | .refused text => text

/-- The failure that an execution ended with. -/
def ofExecution? (e : Execution) : Option SessionFailure :=
  match e.syntaxProblem?, e.fault? with
  | some d, _ => some (.program "SyntaxError" (Markup.plain d.message) d.token.line d.token.column)
  | none, some f => some (.program f.kind.name (Markup.plain f.message) f.line f.column)
  | none, none => none

end SessionFailure

namespace Session

/-- A session without bindings. -/
def start (strategy : Strategy) : Session :=
  ⟨strategy, none, Limits.none, none, [], ⟨Registry.empty, Memory.empty⟩⟩

/-- Bounds the statements and the depth of calls. -/
def setLimits (s : Session) (statements depth : Int) : Session :=
  { s with limits := { s.limits with maxStatements := statements, maxCallDepth := depth } }

/-- Restricts the constructs that programs may use. -/
def restrict (s : Session) (allow deny : List String) : Session :=
  { s with filter := some (CommandFilter.of allow deny) }

/-- Chooses the hosts. -/
def setHosts (s : Session) (names : Option (List String)) : Except String Session := do
  let _ ← hostNames names
  .ok { s with hosts := names }

/-- Puts an entry into a list that is in order of its keys, in place of one with the same key. -/
def insert (name : String) (v : Native) : List (String × Native) → List (String × Native)
  | [] => [(name, v)]
  | (key, w) :: rest =>
    if name < key then (name, v) :: (key, w) :: rest
    else if name = key then (name, v) :: rest
    else (key, w) :: insert name v rest

/-- Binds a native value to a name. -/
def bind (s : Session) (name : String) (v : Native) : Except String Session :=
  if standardHosts.contains name then .error (Text.quoteShown name ++ " is a host name")
  else
    match v.offer name s.stock with
    | .error text => .error text
    | .ok _ => .ok { s with bindings := insert name v s.bindings }

/-- Offers all bindings. -/
def offerAll (stock : Stock) : List (String × Native) → Except String (List (String × Value) × Stock)
  | [] => .ok ([], stock)
  | (name, v) :: rest =>
    match v.offer name stock with
    | .error text => .error text
    | .ok (w, stock) =>
      match offerAll stock rest with
      | .error text => .error text
      | .ok (globals, stock) => .ok ((name, w) :: globals, stock)

/-- The request to run a source with what was offered. -/
def request (s : Session) (catalog : Catalog) (source : String) (globals : List (String × Value))
    (stock : Stock) : Request Registry :=
  ⟨"main.js", source, s.filter, s.limits, s.hosts, globals, stock.memory, catalog.extras, stock.registry⟩

/-- What a program left in the stock. -/
def stockAfter (stock : Stock) (p : Passage (HostState Registry)) : Stock :=
  match p.finished with
  | none => stock
  | some f => ⟨f.state.host.extra, f.state.memory⟩

/-- Runs a program. Gives what it wrote and how it failed, if it did. -/
def run (s : Session) (catalog : Catalog) (source : String) : (String × Option SessionFailure) × Session :=
  match offerAll s.stock s.bindings with
  | .error text => (("", some (.refused text)), s)
  | .ok (globals, stock) =>
    match (s.request catalog source globals stock).pass s.strategy with
    | .error text => (("", some (.refused text)), s)
    | .ok p =>
      let e := p.execution
      ((e.console.output, SessionFailure.ofExecution? e), { s with stock := stockAfter stock p })

end Session

end Primer
