import Primer.Host.Arithmetic
import Primer.Host.Console
import Primer.Run.Strategy

/-!
# The standard hosts

The console and `Math`, together with whatever else a program is embedded in. The extra part has a state
of its own and knows its objects, functions and variables by number.
-/

set_option autoImplicit false

namespace Primer

/-- The hosts that an embedding adds, with a state `τ`. -/
structure Extras (τ : Type) where
  member : τ → Nat → String → Option Value
  call : Nat → View → τ → Memory → List Value → HostAction τ
  get : Nat → τ → Memory → Except HostFailure Value × τ × Memory
  set : Nat → τ → Memory → Value → Option (Except HostFailure Unit × τ × Memory)

/-- No extra hosts. -/
def Extras.none : Extras Unit where
  member _ _ _ := Option.none
  call _ _ s m _ := .finish (.ok .absent) s m
  get _ s m := (.ok .absent, s, m)
  set _ _ _ _ := Option.none

/-- The state of the standard hosts and the extra ones. -/
structure HostState (τ : Type) where
  console : Console
  extra : τ

variable {τ : Type}

/-- What an extra host does, with the console kept beside it. -/
def HostAction.besideConsole (console : Console) : HostAction τ → HostAction (HostState τ)
  | .finish answer host memory => .finish answer ⟨console, host⟩ memory
  | .callBack f args host memory next =>
    .callBack f args ⟨console, host⟩ memory fun answer view s m =>
      besideConsole s.console (next answer view s.extra m)

/-- The standard hosts with extra ones beside them. -/
def Hosts.standard (extras : Extras τ) : Hosts (HostState τ) where
  member s o name :=
    match o with
    | .console => Console.member? name
    | .math => mathMember? name
    | .extra n => extras.member s.extra n name
  call f view s m args :=
    match f with
    | .console g =>
      match s.console.call? m g args with
      | .ok (.ok c) => .finish (.ok .absent) { s with console := c } m
      | .ok (.error text) => .finish (.error (.message text)) s m
      | .error b => .finish (.error (.breakdown b.text)) s m
    | .math g =>
      match g.call? (view.strategy != .raw) m args with
      | .ok (.ok v) => .finish (.ok v) s m
      | .ok (.error text) => .finish (.error (.message text)) s m
      | .error b => .finish (.error (.breakdown b.text)) s m
    | .extra n => (extras.call n view s.extra m args).besideConsole s.console
  get v s m :=
    match v with
    | .color => (.ok (.string s.console.shownColor), s, m)
    | .math c => (.ok (.number c.value), s, m)
    | .extra n =>
      let (answer, e, m) := extras.get n s.extra m
      (answer, { s with extra := e }, m)
  set v _ s m w :=
    match v with
    | .color =>
      match s.console.setColor? m w with
      | .ok (.ok c) => some (.finish (.ok .absent) { s with console := c } m)
      | .ok (.error text) => some (.finish (.error (.message text)) s m)
      | .error b => some (.finish (.error (.breakdown b.text)) s m)
    | .math c => some (.finish (.error (.message c.readOnly)) s m)
    | .extra n => (extras.set n s.extra m w).map fun (answer, e, m) =>
        .finish (answer.map fun _ => .absent) { s with extra := e } m

/-- The names of the standard hosts. -/
def standardHosts : List String := ["console", "Math"]

/-- The object of a standard host. -/
def standardHost? (name : String) : Option Value :=
  match name with
  | "console" => some (.object .console)
  | "Math" => some (.object .math)
  | _ => none

/-- The names that the chosen hosts bind, or why one of them is refused. Without a choice all of them are
there. -/
def hostNames (chosen : Option (List String)) : Except String (List (String × Value)) :=
  (chosen.getD standardHosts).mapM fun name =>
    match standardHost? name with
    | some v => .ok (name, v)
    | none => .error ("unknown host " ++ Text.quoteShown name)

end Primer
