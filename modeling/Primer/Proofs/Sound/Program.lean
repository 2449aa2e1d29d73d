import Primer.Proofs.Realm.Program

/-!
# No source leads to an internal fault

An internal fault has two sources: a node that the engine does not know, and a breakdown of the engine, which ends
a run with an internal fault of its own.

* A program that was built of a source is handled: its statements and operators are ones that the engine knows.
  Its run is confined to the realm of what the engine knows, where no failure is internal, however long the run is.
* Wherever the engine indexes, cuts or repeats, it could break down, and it never does: elements are found and
  written inside their slots (`Memory.slot?_eq`, `Memory.setSlot?_eq`), numbers and texts are written
  (`Number.render?_eq`, `Text.quoteJson?_eq`), and so every task can be carried out (`Task.unbroken`).

With the standard hosts a program from a source therefore never ends with an internal fault.
-/

set_option autoImplicit false

namespace Primer

variable {σ : Type}

/-! ## What the engine knows -/

/-- The realm of everything that the engine knows, whatever nodes it stands at. -/
def Realm.handled (depth : Nat) : Realm σ where
  node _ := True
  host _ := True
  depth := depth
  loose := False
  foreign := False

/-- Handled statements are in the realm of what is handled. -/
theorem Realm.stmts_handled {depth : Nat} {body : List Stmt} (h : Stmt.allHandled body = true) :
    (Realm.handled depth : Realm σ).stmts body := ⟨fun _ _ => trivial, .inr h⟩

/-- The standard hosts never call back a function that the engine cannot run. -/
theorem Hosts.areHandled_standard {depth : Nat} : (Hosts.standard Extras.none).Fit (.handled depth) :=
  fit_standard fun _ => trivial

/-- The state in which a run with the standard hosts starts is handled. -/
theorem RunState.isHandled_plain {depth : Nat} : RunState.plain.Confined (.handled depth) ⟨0, 0⟩ :=
  confined_plain fun _ => trivial

/-- A handled program that starts in a handled state never ends with an internal fault. -/
theorem Ends.fault_not_internal {cfg : Setting σ} (hhosts : cfg.hosts.Fit (.handled cfg.limits.callDepth))
    {body : List Stmt} (hbody : Stmt.allHandled body = true) {ℓ : Level} {s : RunState σ}
    (hs : s.Confined (.handled cfg.limits.callDepth) ℓ) {f : Finished σ} (hf : Ends cfg body s f) {fault : Fault}
    (hfault : f.result.fault = some fault) : fault.kind ≠ .internal := by
  have hconfined := hf.confined hhosts (Nat.le_refl _) (Realm.stmts_handled hbody) hs
  obtain ⟨e, rfl, he⟩ := hconfined.fails fault hfault
  cases e with
  | fault f =>
    rcases he with hforeign | hraises
    · exact hforeign.elim
    · exact hraises.kind
  | text t => exact he.elim
  | breakdown b => exact he.elim

/-! ## Hosts that do not break down -/

/-- An action of a host that is finished, and not because the host broke down. -/
def HostAction.Unbroken : HostAction σ → Prop
  | .finish answer _ _ => ∀ text, answer ≠ .error (.breakdown text)
  | .callBack .. => False

/-- Hosts that call nothing back and never break down. -/
structure Hosts.Unbroken (hosts : Hosts σ) : Prop where
  call : ∀ key view host memory args, (hosts.call key view host memory args).Unbroken
  set : ∀ key view host memory v, ∀ action ∈ hosts.set key view host memory v, action.Unbroken
  get : ∀ key host memory text, (hosts.get key host memory).1 ≠ .error (.breakdown text)

end Primer
