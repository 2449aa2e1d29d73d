import Primer.Proofs.Realm.Program

/-!
# Reports point into the program

The realm of a program are the nodes of its walk. A run with the standard hosts is confined to it, and so all that
it reports is found there: a fault at the node where it arose, the active calls at the calls of the program, and
commands and steps at the nodes that they belong to. Functions run long after they were declared, and what they
report is found in the tree because their bodies are parts of it.
-/

set_option autoImplicit false

namespace Primer

variable {σ : Type}

/-- The realm of a program: the nodes of its tree, whatever the engine knows about them. -/
def Program.realm (p : Program) (depth : Nat) : Realm σ where
  node n := n ∈ p.walk
  host _ := True
  depth := depth
  loose := True
  foreign := False

/-- The statements of a program are in its realm. -/
theorem Program.stmts_realm (p : Program) (depth : Nat) : (p.realm depth : Realm σ).stmts p.body :=
  ⟨fun _ hn => List.mem_cons_of_mem _ hn, .inl trivial⟩

/-- Whatever a run with the standard hosts reports points into the program, under every strategy, filter and limit. A
fault is placed at a node of the tree, unless the engine itself failed; the calls that were active are calls in the
tree; and each command and each fragment of a step has the number of a node in the tree. -/
theorem reports_point_into_program (p : Program) (strategy : Strategy) (filter : Option CommandFilter)
    (limits : Limits) (f : Finished (HostState Unit)) (hf : Ends (.plain strategy filter limits) p.body .plain f) :
    (∀ fault, f.result.fault = some fault →
      (fault.kind ≠ .internal → ∃ n ∈ p.walk,
        n.info.id = fault.node ∧ n.info.token.line = fault.line ∧ n.info.token.column = fault.column) ∧
      ∀ c ∈ fault.calls, ∃ n ∈ p.walk,
        n.kind = "FunctionCall" ∧ n.info.token.line = c.line ∧ n.info.token.column = c.column) ∧
    (∀ c ∈ f.result.commands, ∃ n ∈ p.walk, n.info.id = c.node) ∧
    ∀ step ∈ f.result.steps, ∀ fragment ∈ step.fragments, ∃ n ∈ p.walk, n.info.id = fragment.node := by
  have hhost : ∀ host, (p.realm limits.callDepth : Realm (HostState Unit)).host host := fun _ => trivial
  have hconfined : f.Confined (p.realm limits.callDepth) :=
    hf.confined (Hosts.fit_standard hhost) (Nat.le_refl _) (p.stmts_realm _) (RunState.confined_plain hhost)
  refine ⟨?_, hconfined.reported.commands, hconfined.reported.fragments⟩
  intro fault hfault
  obtain ⟨e, rfl, he⟩ := hconfined.fails fault hfault
  cases e with
  | text t => exact ⟨fun hkind => absurd rfl hkind, fun c hc => absurd hc List.not_mem_nil⟩
  | breakdown b => exact he.elim
  | fault raised =>
    obtain ⟨hnode, -, hcalls, -⟩ := he.resolve_left id
    refine ⟨fun _ => hnode, ?_⟩
    intro c hc
    obtain ⟨t, ⟨n, hn, hkind, rfl⟩, hline, hcolumn⟩ := hcalls c hc
    exact ⟨n, hn, hkind, hline, hcolumn⟩

/-- A program that calls a function which returns a name that nothing is bound to. -/
def lostName : Program where
  info := ⟨0, ⟨"", 1, 1⟩⟩
  file := "lost.js"
  body := [.function ⟨1, ⟨"function", 1, 1⟩⟩ "f" [] [.return ⟨2, ⟨"return", 2, 3⟩⟩ (some (.name ⟨3, ⟨"x", 2, 10⟩⟩ "x"))],
    .call ⟨4, ⟨"f", 4, 1⟩⟩ ⟨⟨5, ⟨"f", 4, 1⟩⟩, .name ⟨6, ⟨"f", 4, 1⟩⟩ "f", []⟩]
  count := 7

/-- The fault of the lost name is found at the name, and the active call at the call. -/
theorem lost_name_points_into_program : ∃ f fault c, Ends (.plain .stepped none .none) lostName.body .plain f ∧
    f.result.fault = some fault ∧ c ∈ fault.calls ∧
    (∃ n ∈ lostName.walk,
      n.info.id = fault.node ∧ n.info.token.line = fault.line ∧ n.info.token.column = fault.column) ∧
    ∃ n ∈ lostName.walk, n.kind = "FunctionCall" ∧ n.info.token.line = c.line ∧ n.info.token.column = c.column := by
  obtain ⟨f, hf, hfound⟩ : ∃ f, Ends (.plain .stepped none .none) lostName.body .plain f ∧
      (f.result.fault.any fun fault => decide (fault.kind ≠ .internal) && !fault.calls.isEmpty) = true :=
    Ends.exists_of_any 20 (by decide +kernel)
  obtain ⟨fault, hfault, hreported⟩ := (Option.any_eq_true ..).mp hfound
  simp only [Bool.and_eq_true, decide_eq_true_eq, Bool.not_eq_true', List.isEmpty_eq_false_iff] at hreported
  obtain ⟨hkind, hcalls⟩ := hreported
  obtain ⟨c, hc⟩ := List.exists_mem_of_ne_nil _ hcalls
  obtain ⟨hreports, -⟩ := reports_point_into_program lostName .stepped none .none f hf
  obtain ⟨hnode, hsites⟩ := hreports fault hfault
  exact ⟨f, fault, c, hf, hfault, hc, hnode hkind, hsites c hc⟩

end Primer
