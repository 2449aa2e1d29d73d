import Primer.Proofs.Control.Restored
import Primer.Proofs.Realm.Program

/-!
# The depth of calls is bounded

There are two stacks in a run: the calls that are active, of functions of the program and of hosts alike, and the
frames of the functions that are running. A call is entered before its function gets a frame. A host that calls
functions back enters no call of its own for them, but it was called itself, and its functions run one after
another, so the call that it was called by stands for all their frames. At every point of a run there are
therefore at most as many frames as active calls, and never more of these than the limit allows, whatever hosts
call back and whatever failures they discard.
-/

set_option autoImplicit false

namespace Primer

variable {σ : Type}

/-- The variables of hosts call nothing back when they are assigned to. -/
def Hosts.VariablesStill (hosts : Hosts σ) : Prop :=
  ∀ key view host memory v, ∀ action ∈ hosts.set key view host memory v, action.Finished

/-- If all faults that a host is told have a property, it passes on only faults that have it, and keeps to the
states that it may be in. -/
def HostAction.Forwards (P : Fault → Prop) (I : σ → Prop) : HostAction σ → Prop
  | .finish answer host _ => (∀ f, answer = .error (.passedOn (.fault f)) → P f) ∧ I host
  | .callBack _ _ host _ next => I host ∧ ∀ answer view host memory,
      (∀ f, answer = .error (.fault f) → P f) → I host → (next answer view host memory).Forwards P I

/-- Hosts that pass on faults but make up none that lack a property. In the states that they may be in they know
only faults that have it. -/
structure Hosts.Forward (hosts : Hosts σ) (P : Fault → Prop) (I : σ → Prop) : Prop where
  call : ∀ key view host memory args, I host → (hosts.call key view host memory args).Forwards P I
  get : ∀ key host memory, I host →
    (∀ f, (hosts.get key host memory).1 = .error (.passedOn (.fault f)) → P f) ∧ I (hosts.get key host memory).2.1
  set : ∀ key view host memory v, I host →
    ∀ action ∈ hosts.set key view host memory v, action.Forwards P I

/-- The realm of everything, where calls are counted only. -/
def Realm.everywhere (depth : Nat) (host : σ → Prop) (foreign : Prop) : Realm σ where
  node _ := True
  host := host
  depth := depth
  loose := True
  foreign := foreign

section Everywhere

variable {depth : Nat} {host : σ → Prop} {foreign : Prop}

/-- The realm of everything has all sites. -/
theorem Realm.site_everywhere (t : Token) : (Realm.everywhere depth host foreign).site t :=
  ⟨⟨⟨0, t⟩, "FunctionCall", ""⟩, trivial, rfl, rfl⟩

/-- The realm of everything has all places. -/
theorem Realm.info_everywhere (i : Info) : (Realm.everywhere depth host foreign).info i := ⟨⟨i, "", ""⟩, trivial, rfl⟩

/-- The realm of everything has all bodies. -/
theorem Realm.stmts_everywhere (body : List Stmt) : (Realm.everywhere depth host foreign).stmts body :=
  ⟨fun _ _ => trivial, .inl trivial⟩

/-- Every value is in the realm of everything. -/
theorem Realm.only_everywhere (v : Value) : v.Only (Realm.everywhere depth host foreign).function := by
  cases v with
  | function f => exact ⟨info_everywhere f.info, stmts_everywhere f.body⟩
  | _ => exact trivial

/-- Every memory is in the realm of everything. -/
theorem Realm.memory_everywhere (m : Memory) : m.Only (Realm.everywhere depth host foreign).function :=
  fun v _ => only_everywhere v

/-- Everywhere a fault only has to keep to the number of calls. -/
theorem Realm.raises_everywhere {f : Fault} (h : f.calls.length ≤ depth) :
    (Realm.everywhere depth host foreign).Raises f where
  node := ⟨⟨⟨f.node, ⟨"", f.line, f.column⟩⟩, "", ""⟩, trivial, rfl, rfl, rfl⟩
  kind _ := trivial
  calls c _ := ⟨⟨"", c.line, c.column⟩, site_everywhere _, rfl, rfl⟩
  depth := h

/-- What a host does fits everywhere if it passes on what may be passed on. -/
theorem HostAction.Forwards.fits {P : Fault → Prop} (hP : ∀ f, P f → foreign ∨ f.calls.length ≤ depth)
    (hfails : ∀ f, (Realm.everywhere depth host foreign).Fails (.fault f) → P f) {action : HostAction σ}
    (h : action.Forwards P host) : action.Fits (Realm.everywhere depth host foreign) := by
  induction action with
  | finish answer host memory =>
    obtain ⟨hpassed, hhost⟩ := h
    refine ⟨?_, hhost, Realm.memory_everywhere memory⟩
    rcases answer with (text | (f | text | b) | text) | v
    · exact trivial
    · exact (hP f (hpassed f rfl)).imp_right Realm.raises_everywhere
    · exact trivial
    · exact trivial
    · exact trivial
    · exact Realm.only_everywhere v
  | callBack f args host memory next ih =>
    obtain ⟨hhost, hnext⟩ := h
    refine ⟨⟨Realm.info_everywhere _, Realm.stmts_everywhere _⟩, fun v _ => Realm.only_everywhere v, hhost,
      Realm.memory_everywhere memory, ?_⟩
    intro answer view host memory hanswer hhost _
    refine ih answer view host memory (hnext answer view host memory ?_ hhost)
    intro f hf
    subst hf
    exact hfails f hanswer

/-- Hosts fit everywhere if their variables call nothing back and they pass on what may be passed on. -/
theorem Hosts.Forward.fit {hosts : Hosts σ} {P : Fault → Prop} (h : hosts.Forward P host)
    (hvariables : hosts.VariablesStill) (hP : ∀ f, P f → foreign ∨ f.calls.length ≤ depth)
    (hfails : ∀ f, (Realm.everywhere depth host foreign).Fails (.fault f) → P f) :
    hosts.Fit (Realm.everywhere depth host foreign) where
  member _ _ _ v _ _ := Realm.only_everywhere v
  call key view s memory args hs _ _ := (h.call key view s memory args hs).fits hP hfails
  get key s memory hs _ := HostAction.Forwards.fits hP hfails (h.get key s memory hs)
  set key view s memory v hs _ _ action haction :=
    ⟨(h.set key view s memory v hs action haction).fits hP hfails, hvariables key view s memory v action haction⟩

/-- Hosts that may make up faults. -/
theorem HostAction.forwards_trivial (action : HostAction σ) :
    action.Forwards (fun _ => True) (fun _ => True) := by
  induction action with
  | finish answer host memory => exact ⟨fun _ _ => trivial, trivial⟩
  | callBack f args host memory next ih => exact ⟨trivial, fun answer view host memory _ _ => ih answer view host memory⟩

/-- Hosts pass everything on if nothing is asked of it. -/
theorem Hosts.forward_trivial (hosts : Hosts σ) : hosts.Forward (fun _ => True) (fun _ => True) where
  call _ _ _ _ _ _ := HostAction.forwards_trivial _
  get _ _ _ _ := ⟨fun _ _ => trivial, trivial⟩
  set _ _ _ _ _ _ action _ := action.forwards_trivial

end Everywhere

/-- At every point of a run there are at most as many frames as active calls, and at most as many of these as the
limits allow; so no step shows more functions than that. Hosts may have functions that call back functions of the
program as often as they like, and that discard the failures of these, as long as their variables call nothing back.
If hosts do not make up faults with more active calls than that, there is no such fault: none arises at any
point of the run, and the run ends with none. -/
theorem call_depth_bounded (cfg : Setting σ) (hvariables : cfg.hosts.VariablesStill) (host : σ) (memory : Memory)
    (names : List (String × Value)) (body : List Stmt) :
    (∀ n e u, (Plan.ask (.execAll 0 body)).Reaches cfg n (initialState host memory names) e u →
      u.frames.length ≤ u.calls.length ∧ u.calls.length ≤ cfg.limits.callDepth ∧
      ∀ step ∈ u.steps, step.stack.length ≤ cfg.limits.callDepth) ∧
    (∀ f, Ends cfg body (initialState host memory names) f →
      ∀ step ∈ f.result.steps, step.stack.length ≤ cfg.limits.callDepth) ∧
    ∀ I, I host → cfg.hosts.Forward (fun fault => fault.calls.length ≤ cfg.limits.callDepth) I →
      (∀ n fault u, (Plan.ask (.execAll 0 body)).Reaches cfg n (initialState host memory names)
        (some (.fault fault)) u → fault.calls.length ≤ cfg.limits.callDepth) ∧
      ∀ f, Ends cfg body (initialState host memory names) f →
        ∀ fault, f.result.fault = some fault → fault.calls.length ≤ cfg.limits.callDepth := by
  have hstart {I : σ → Prop} {foreign : Prop} (hI : I host) :
      (initialState host memory names).Confined (Realm.everywhere cfg.limits.callDepth I foreign) ⟨0, 0⟩ :=
    RunState.confined_initialState hI (Realm.memory_everywhere memory) fun e _ => Realm.only_everywhere e.2
  have hbody {I : σ → Prop} {foreign : Prop} :
      (Realm.everywhere cfg.limits.callDepth I foreign).stmts body := Realm.stmts_everywhere body
  have hfree : cfg.hosts.Fit (Realm.everywhere cfg.limits.callDepth (fun _ => True) True) :=
    cfg.hosts.forward_trivial.fit hvariables (fun _ _ => .inl trivial) fun _ _ => trivial
  refine ⟨?_, ?_, ?_⟩
  · intro n e u h
    have hpoint := (Task.stays hfree (Nat.le_refl _) n ⟨0, 0⟩ (.execAll 0 body) hbody).reaches _ e u (hstart trivial) h
    obtain ⟨ℓ, hu⟩ := hpoint.confined
    exact ⟨hu.frames_le_calls, hu.stands.depth, hu.reported.depths⟩
  · intro f hf
    exact (hf.confined hfree (Nat.le_refl _) hbody (hstart trivial)).reported.depths
  · intro I hI hforward
    have hfails (f : Fault) (h : (Realm.everywhere cfg.limits.callDepth I False).Fails (.fault f)) :
        f.calls.length ≤ cfg.limits.callDepth := (h.resolve_left id).depth
    have hfit := hforward.fit hvariables (fun _ h => .inr h) hfails
    constructor
    · intro n fault u h
      have hpoint := (Task.stays hfit (Nat.le_refl _) n ⟨0, 0⟩ (.execAll 0 body) hbody).reaches _ _ u (hstart hI) h
      exact hfails fault (hpoint.fails _ rfl)
    · intro f hf fault hfault
      obtain ⟨e, rfl, he⟩ := (hf.confined hfit (Nat.le_refl _) hbody (hstart hI)).fails fault hfault
      cases e with
      | fault f => exact hfails f he
      | text t => exact Nat.zero_le _
      | breakdown b => exact he.elim

/-- The statements `try(f); f();`. -/
def carelessProgram : List Stmt := [.ofCall "try" [.name ⟨0, ⟨"f", 1, 1⟩⟩ "f"], .ofCall "f" []]

/-- The careless host calls back and discards the failure, and the call that failed stays active. With a limit of two
calls there is room for one more, and the next one ends the run, with one active call in the fault. -/
theorem careless_call_depth_bounded : ∃ f fault,
    Ends ⟨.safe, none, ⟨0, 2, none, fun _ => none⟩, Hosts.careless⟩ carelessProgram
      (initialState () Memory.empty carelessNames) f ∧
    f.result.fault = some fault ∧ f.state.calls.length = 2 ∧ fault.calls.length = 1 ∧
    f.state.frames.length ≤ f.state.calls.length ∧ f.state.calls.length ≤ 2 ∧ fault.calls.length ≤ 2 := by
  have hnothing {key view host memory v action} (h : action ∈ Hosts.careless.set key view host memory v) : False := by
    cases h
  have hvariables : Hosts.careless.VariablesStill := fun _ _ _ _ _ _ haction => (hnothing haction).elim
  have hfinished (host : Unit) (memory : Memory) : (HostAction.finish (.ok .undefined) host memory).Forwards
      (fun fault => fault.calls.length ≤ 2) fun _ => True := ⟨fun _ h => (by cases h), trivial⟩
  have hforward : Hosts.careless.Forward (fun fault => fault.calls.length ≤ 2) fun _ => True := by
    refine ⟨?_, fun _ _ _ _ => ⟨fun _ h => (by cases h), trivial⟩, fun _ _ _ _ _ _ _ haction => (hnothing haction).elim⟩
    intro _ _ host memory args _
    rcases args with _ | ⟨v, rest⟩
    · exact hfinished host memory
    · cases v
      case function f => exact ⟨trivial, fun _ _ host memory _ _ => hfinished host memory⟩
      all_goals exact hfinished host memory
  obtain ⟨hpoints, -, hfaults⟩ := call_depth_bounded ⟨.safe, none, ⟨0, 2, none, fun _ => none⟩, Hosts.careless⟩ hvariables ()
    Memory.empty carelessNames carelessProgram
  obtain ⟨-, hended⟩ := hfaults _ trivial hforward
  have hchecked : (Finished.of? .safe (execAll ⟨.safe, none, ⟨0, 2, none, fun _ => none⟩, Hosts.careless⟩ 20 0 carelessProgram
      (initialState () Memory.empty carelessNames))).any (fun f => f.state.calls.length == 2 &&
        f.result.fault.any fun fault => fault.calls.length == 1) = true := by
    decide +kernel
  generalize hrun : execAll ⟨.safe, none, ⟨0, 2, none, fun _ => none⟩, Hosts.careless⟩ 20 0 carelessProgram
    (initialState () Memory.empty carelessNames) = outcome at hchecked
  rcases outcome with _ | ⟨fault | _, u⟩ | _
  case failed.fault =>
    simp only [Finished.of?, Finished.of?.make, Failure.toFault, Option.any_some, Bool.and_eq_true, beq_iff_eq] at hchecked
    obtain ⟨hframes, hcalls, -⟩ := hpoints 20 (some (.fault fault)) u (.border (.failed hrun))
    have hends : Ends ⟨.safe, none, ⟨0, 2, none, fun _ => none⟩, Hosts.careless⟩ carelessProgram
        (initialState () Memory.empty carelessNames) (Finished.of?.make .safe (some fault) u) := by
      refine ⟨20, ?_⟩
      unfold runBounded
      rw [hrun]
      rfl
    exact ⟨_, fault, hends, rfl, hchecked.1, hchecked.2, hframes, hcalls, hended _ hends fault rfl⟩
  all_goals simp [Finished.of?, Finished.of?.make, Failure.toFault] at hchecked

end Primer
