import Primer.Execution
import Primer.Proofs.Run.Ending

/-!
# Runs with the standard hosts only

A plain request has the console and `Math` and nothing else. This module names its setting and the state in
which it starts, and notes what is special about its hosts: they never call back.
-/

set_option autoImplicit false

namespace Primer

/-- What stays fixed during a run with the standard hosts only. -/
def Setting.plain (strategy : Strategy) (filter : Option CommandFilter) (limits : Limits) :
    Setting (HostState Unit) :=
  ⟨strategy, filter, limits, Hosts.standard Extras.none⟩

/-- The hosts of such a setting. -/
theorem Setting.hosts_plain (strategy : Strategy) (filter : Option CommandFilter) (limits : Limits) :
    (plain strategy filter limits).hosts = Hosts.standard Extras.none := rfl

/-- The state in which a run with the standard hosts only starts. -/
def RunState.plain : RunState (HostState Unit) :=
  initialState ⟨Console.empty, ()⟩ Memory.empty [("console", .object .console), ("Math", .object .math)]

/-- An action of a host that is finished, and not with a failure of the program. -/
def HostAction.OnItsOwn {σ : Type} : HostAction σ → Prop
  | .finish answer _ _ => ∀ f, answer ≠ .error (.passedOn f)
  | .callBack .. => False

/-- Hosts that call nothing back and pass on no failure of the program. -/
structure Hosts.OnTheirOwn {σ : Type} (hosts : Hosts σ) : Prop where
  call : ∀ key v host memory args, (hosts.call key v host memory args).OnItsOwn
  set : ∀ key v host memory value, ∀ action ∈ hosts.set key v host memory value, action.OnItsOwn
  get : ∀ key host memory f, (hosts.get key host memory).1 ≠ .error (.passedOn f)

/-- The standard hosts answer on their own. -/
theorem Hosts.onTheirOwn_standard : (Hosts.standard Extras.none).OnTheirOwn where
  call key v host memory args := by
    cases key with
    | console f =>
      rw [Hosts.call_console]
      cases host.console.call memory f args <;> exact fun _ => nofun
    | math f =>
      rw [Hosts.call_math]
      cases f.call (v.strategy != .raw) memory args <;> exact fun _ => nofun
    | extra n => exact fun _ => nofun
  set key v host memory value action haction := by
    cases key with
    | color =>
      rw [Hosts.set_color] at haction
      generalize host.console.setColor memory value = result at haction
      cases result <;> (cases haction; exact fun _ => nofun)
    | math c =>
      cases haction
      exact fun _ => nofun
    | extra n => cases haction
  get key host memory f := by cases key <;> exact nofun

/-- Hosts on their own call nothing back. -/
theorem Hosts.OnTheirOwn.still {σ : Type} {hosts : Hosts σ} (h : hosts.OnTheirOwn) : hosts.Still where
  call key v host memory args := by
    have hcall := h.call key v host memory args
    generalize hosts.call key v host memory args = action at hcall
    cases action with
    | finish => exact trivial
    | callBack => exact hcall
  set key v host memory value action haction := by
    have hset := h.set key v host memory value action haction
    cases action with
    | finish => exact trivial
    | callBack => exact hset

/-- The standard hosts never call back. -/
theorem Hosts.still_standard : (Hosts.standard Extras.none).Still := Hosts.onTheirOwn_standard.still

/-- The program `console.log("hello")`. -/
def greeting : List Stmt :=
  [.call ⟨1, ⟨"console", 1, 1⟩⟩ ⟨⟨2, ⟨"console", 1, 1⟩⟩,
    .member ⟨3, ⟨"console", 1, 1⟩⟩ (.name ⟨4, ⟨"console", 1, 1⟩⟩ "console") "log",
    [.string ⟨5, ⟨"\"hello\"", 1, 13⟩⟩ "hello" "\"hello\""]⟩]

end Primer
