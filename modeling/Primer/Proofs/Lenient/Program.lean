import Primer.Proofs.Lenient.Simulation

/-!
# Programs that succeed with checks

Every program that a source can hold runs alike with and without checks, as long as the checked run ends
without a fault and the right operands of `&&` and `||` call nothing. The checks are then of no consequence:
the console shows the same lines in the same colors, and the same number of statements is counted.
-/

set_option autoImplicit false

namespace Primer

/-- A link between memories that have nothing in common yet. -/
def Link.empty : Link := ⟨fun _ _ => False, fun _ _ => False⟩

/-- The state in which a run starts agrees with itself. -/
theorem RunState.agrees_plain : RunState.Agrees Link.empty RunState.plain RunState.plain := by
  let blank : RunState (HostState Unit) :=
    ⟨Memory.empty, ⟨Console.empty, ()⟩, Scope.empty, [], [], [], [], 0, []⟩
  have hplain : RunState.plain =
      (blank.bindNew "console" (.object .console)).bindNew "Math" (.object .math) := rfl
  have hunbound (i : Nat) (x : String) : Scope.lookup blank.scopes i x = none := by
    cases i with
    | zero => rfl
    | succ i => rfl
  have hseparate : Primer.Separate blank.scopes := by
    refine ⟨fun {i j x y c} hx _ => ?_⟩
    rw [hunbound] at hx
    cases hx
  have hagree : Scope.Agree blank.scopes blank.scopes := by
    refine ⟨rfl, ?_, hseparate, hseparate⟩
    intro i x
    rw [hunbound]
    exact .none
  -- Nothing is stored yet, so there is nothing that could disagree.
  have hblank : RunState.Agrees Link.empty blank blank := by
    refine ⟨rfl, rfl, rfl, rfl, hagree, ?_⟩
    refine ⟨rfl, ⟨False.elim, False.elim⟩, ⟨False.elim, False.elim⟩, False.elim, False.elim, ?_, False.elim,
      False.elim⟩
    rintro c d ⟨i, x, hc, -⟩
    rw [hunbound] at hc
    cases hc
  have hobject (key : ObjectKey) : Stored Link.empty (.object key) (.object key) := ⟨.same trivial, rfl⟩
  rw [hplain]
  exact (hblank.bindNew "console" (hobject .console)).bindNew "Math" (hobject .math)

/-- A run that ended without a fault, beside one that ended in the same way. -/
structure Finished.ShowsTheSame (f g : Finished (HostState Unit)) : Prop where
  fault : g.result.fault = none
  lines : g.state.host.console.lines = f.state.host.console.lines
  color : g.state.host.console.color = f.state.host.console.color
  statements : g.result.statements = f.result.statements

/-- A checked run without a fault is repeated by the unchecked run. -/
theorem raw_agrees_with_safe {program : Program} (haccepted : program.Accepted)
    (hcalls : program.rightOperandsCallNothing = true)
    (filter : Option CommandFilter) (limits : Limits) {f : Finished (HostState Unit)}
    (hf : Ends (.plain .safe filter limits) program.body .plain f) (hok : f.result.fault = none) :
    ∃ g, Ends (.plain .raw filter limits) program.body .plain g ∧ f.ShowsTheSame g := by
  obtain ⟨n, hn⟩ := hf
  have htame := haccepted.allTame hcalls
  have hrepeats : Repeats 1 Link.empty RunState.plain RunState.plain Returned
      (execAll (.plain .safe filter limits) n 0 program.body .plain)
      (execAll (.plain .raw filter limits) (2 * n) 0 program.body .plain) :=
    (Repeated.all filter limits n).execAll (Nat.le_refl _) htame RunState.agrees_plain
  unfold runBounded at hn
  generalize hsafe : execAll (.plain .safe filter limits) n 0 program.body .plain = o at hn hrepeats
  generalize hraw : execAll (.plain .raw filter limits) (2 * n) 0 program.body .plain = o' at hrepeats
  cases hrepeats with
  | exhausted => cases hn
  | failed =>
    -- The checked run would have ended with a fault.
    cases hn
    cases hok
  | @done a b s r L _ hagree _ _ _ =>
    cases hn
    refine ⟨Finished.of?.make .raw none r, ⟨2 * n, ?_⟩, ?_⟩
    · unfold runBounded
      rw [hraw]
      rfl
    · exact ⟨rfl, congrArg (fun host => host.console.lines) hagree.host,
        congrArg (fun host => host.console.color) hagree.host, hagree.ticks⟩

/-- A greeting behind a variable that is declared again and an operand that may be left out. -/
def declaredAgain : String :=
  "var done = true; var done; done = false; if (!done && !false) \x7b console.log(\"hello\"); \x7d"

/-- The variable and the operand make no difference to the greeting. -/
theorem raw_agrees_with_safe_redeclared :
    ∃ program f g,
      parse "greet.js" declaredAgain = .ok program ∧
      program.rightOperandsCallNothing = true ∧ Ends (.plain .safe none .none) program.body .plain f ∧
      f.result.fault = none ∧ Ends (.plain .raw none .none) program.body .plain g ∧ f.ShowsTheSame g ∧
      g.state.host.console.lines = [⟨"hello", ""⟩] := by
  obtain ⟨program, hparse, hprogram⟩ : ∃ program, parse "greet.js" declaredAgain = .ok program ∧
      (program.rightOperandsCallNothing && (runBounded (.plain .safe none .none) 40 program.body .plain).any fun f =>
        f.result.fault.isNone && f.state.host.console.lines == [⟨"hello", ""⟩]) = true :=
    exists_parse_of_any (by decide +kernel)
  obtain ⟨hcalls, hgreeting⟩ := Bool.and_eq_true_iff.mp hprogram
  obtain ⟨f, hf, hchecked⟩ := Ends.exists_of_any 40 hgreeting
  simp only [Bool.and_eq_true, Option.isNone_iff_eq_none, beq_iff_eq] at hchecked
  obtain ⟨hok, hlines⟩ := hchecked
  obtain ⟨g, hg, hsame⟩ := raw_agrees_with_safe (.read hparse) hcalls none .none hf hok
  exact ⟨program, f, g, hparse, hcalls, hf, hok, hg, hsame, hsame.lines.trans hlines⟩

end Primer
