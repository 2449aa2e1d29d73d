import Primer.Proofs.Realm.Task
import Primer.Proofs.Run.Plain

/-!
# Programs in a realm

A program whose tree lies in a realm ends there, and with a failure of the realm if it fails. The standard hosts
fit into every realm, since the values that they give are no functions of a program.
-/

set_option autoImplicit false

namespace Primer

variable {σ : Type}

/-! ## The standard hosts -/

/-- A mathematical function gives a number, which holds no function. -/
theorem MathFunction.only_of_call {F : UserFunction → Prop} {f : MathFunction} {strict : Bool} {m : Memory}
    {args : List Value} {v : Value} (h : f.call strict m args = .ok v) : v.Only F := by
  unfold call at h
  cases harguments : f.arguments strict args with
  | error text =>
    rw [harguments] at h
    cases h
  | ok used =>
    cases hnumbers : f.numbers strict m used with
    | error text =>
      rw [harguments] at h
      simp only [bind, Except.bind, hnumbers] at h
      cases h
    | ok xs =>
      rw [harguments] at h
      simp only [bind, Except.bind, hnumbers] at h
      cases h
      exact trivial

/-- The standard hosts fit into every realm that leaves them their state. -/
theorem Hosts.fit_standard {R : Realm (HostState Unit)} (hhost : ∀ host, R.host host) :
    (Hosts.standard Extras.none).Fit R where
  member host o name v _ h := by
    cases o with
    | console =>
      simp only [Hosts.standard, Console.member?] at h
      split at h <;> cases h <;> exact trivial
    | math =>
      simp only [Hosts.standard, mathMember?] at h
      split at h
      · cases h
        exact trivial
      · split at h <;> cases h <;> exact trivial
    | extra => cases h
  call key view host memory args _ hmemory _ := by
    cases key with
    | console f =>
      rw [Hosts.call_console]
      cases host.console.call memory f args <;> exact ⟨trivial, hhost _, hmemory⟩
    | math f =>
      rw [Hosts.call_math]
      cases hcall : f.call (view.strategy != .raw) memory args with
      | ok w => exact ⟨MathFunction.only_of_call hcall, hhost _, hmemory⟩
      | error text => exact ⟨trivial, hhost _, hmemory⟩
    | extra => exact ⟨trivial, hhost _, hmemory⟩
  get key host memory _ hmemory := by
    cases key <;> exact ⟨trivial, hhost _, hmemory⟩
  set key view host memory value _ hmemory _ action haction := by
    cases key with
    | color =>
      rw [Hosts.set_color] at haction
      cases hset : host.console.setColor memory value with
      | ok c =>
        rw [hset] at haction
        cases haction
        exact ⟨⟨trivial, hhost _, hmemory⟩, trivial⟩
      | error text =>
        rw [hset] at haction
        cases haction
        exact ⟨⟨trivial, hhost _, hmemory⟩, trivial⟩
    | math c =>
      cases haction
      exact ⟨⟨trivial, hhost _, hmemory⟩, trivial⟩
    | extra => cases haction

/-! ## Programs -/

/-- A run starts outside of all functions, with names for values of its realm. -/
theorem RunState.confined_initialState {R : Realm σ} {host : σ} (hhost : R.host host) {memory : Memory}
    (hmemory : memory.Only R.function) {names : List (String × Value)} (hnames : ∀ e ∈ names, e.2.Only R.function) :
    (initialState host memory names).Confined R ⟨0, 0⟩ := by
  obtain ⟨hglobals, hdeclared⟩ := Scope.Only.empty.declareAll hmemory names hnames
  refine ⟨⟨hdeclared, hglobals, fun f hf => absurd hf List.not_mem_nil⟩, hhost, ?_, ?_⟩
  · exact ⟨rfl, Nat.le_refl 0, Nat.le_refl 0, Nat.zero_le _, fun t ht => absurd ht List.not_mem_nil,
      fun f hf => absurd hf List.not_mem_nil⟩
  · exact ⟨fun c hc => absurd hc List.not_mem_nil, fun step hstep => absurd hstep List.not_mem_nil,
      fun step hstep => absurd hstep List.not_mem_nil⟩

/-- The state in which a run with the standard hosts starts lies in every realm that leaves them their state. -/
theorem RunState.confined_plain {R : Realm (HostState Unit)} (hhost : ∀ host, R.host host) :
    RunState.plain.Confined R ⟨0, 0⟩ := by
  apply confined_initialState (hhost _) .empty
  intro e he
  simp only [List.mem_cons, List.not_mem_nil, or_false] at he
  rcases he with rfl | rfl <;> exact trivial

/-- A program that ended in its realm: what it reports lies there, and it failed with a failure of the realm if it
failed. -/
structure Finished.Confined (R : Realm σ) (f : Finished σ) : Prop where
  reported : R.Reported f.result.commands f.result.steps
  fails : ∀ fault, f.result.fault = some fault → ∃ e : Failure, fault = e.toFault ∧ R.Fails e

/-- A program in a realm ends in it. -/
theorem Ends.confined {R : Realm σ} {cfg : Setting σ} (hhosts : cfg.hosts.Fit R)
    (hdepth : cfg.limits.callDepth ≤ R.depth) {body : List Stmt} (hbody : R.stmts body) {ℓ : Level} {s : RunState σ}
    (hs : s.Confined R ℓ) {f : Finished σ} (hf : Ends cfg body s f) : f.Confined R := by
  obtain ⟨n, hn⟩ := hf
  have hstays := (Task.stays hhosts hdepth n ℓ (.execAll 0 body) hbody).run s hs
  change (execAll cfg n 0 body s).Confined R ℓ ℓ _ at hstays
  have hreverse {u : RunState σ} (hu : u.Confined R ℓ) : R.Reported u.commands.reverse u.steps.reverse :=
    ⟨fun c hc => hu.reported.commands c (List.mem_reverse.mp hc),
      fun step hstep => hu.reported.fragments step (List.mem_reverse.mp hstep),
      fun step hstep => hu.reported.depths step (List.mem_reverse.mp hstep)⟩
  unfold runBounded at hn
  generalize execAll cfg n 0 body s = o at hn hstays
  cases hstays with
  | done hu _ =>
    cases hn
    exact ⟨hreverse hu, fun fault hfault => nomatch hfault⟩
  | @failed e u hu he =>
    cases hn
    refine ⟨hreverse hu, ?_⟩
    intro fault hfault
    refine ⟨e, ?_, he⟩
    cases hfault
    rfl
  | exhausted => cases hn

end Primer
