import Primer.Proofs.Run.Plain

/-!
# Narration has no effect

The checked strategies differ in what they tell: `stepped` narrates every step, `safe` keeps quiet about
them. Apart from the steps nobody can see a difference. A run under one of the two ends if and only if the
run under the other does, and both leave the same fault, the same records and the same effects
(`safe_agrees_with_stepped`), provided that the hosts do not look at the strategy or the steps themselves.
The standard hosts do not (`Extras.Impartial.standard`).
-/

set_option autoImplicit false

namespace Primer

open Run

variable {σ τ α : Type}

/-! ## Everything but the steps -/

/-- Records that differ in their steps at most. -/
def Records.SameButSteps (r r' : Records) : Prop := r' = { r with steps := r'.steps }

/-- Views of checked runs that differ in the strategy and the steps at most. -/
structure View.SameButSteps (v w : View) : Prop where
  checked : v.strategy ≠ .raw
  checked' : w.strategy ≠ .raw
  same : w = { v with strategy := w.strategy, narrated := w.narrated }

/-- A state with other steps. -/
def RunState.withSteps (s : RunState σ) (steps : List Step) : RunState σ := { s with steps := steps }

/-- States that are alike but for the steps differ in the steps only. -/
theorem RunState.alike_sameButSteps_iff {s t : RunState σ} :
    s.Alike Records.SameButSteps t ↔ t = s.withSteps t.steps := by
  constructor
  · intro h
    rw [h.same]
    show s.withRecords t.records = s.withSteps t.steps
    rw [h.records]
    rfl
  · intro h
    rw [h]
    exact ⟨rfl, rfl⟩

/-- What happens at a mark does not depend on the steps. -/
theorem Mark.run_withSteps (cfg : Setting σ) (place : Mark) (s : RunState σ) (steps : List Step) :
    place.run cfg (s.withSteps steps) = (place.run cfg s).mapState fun t => t.withSteps steps := by
  cases place with
  | record info tag =>
    unfold Mark.run Primer.record
    by_cases hraw : cfg.isRaw
    · simp only [if_pos hraw]
      rfl
    · simp only [if_neg hraw]
      by_cases hallowed : CommandFilter.allowsTag cfg.filter tag
      · simp only [if_pos hallowed]
        rfl
      · simp only [if_neg hallowed]
        rfl
  | tick info =>
    have hticks : (s.withSteps steps).ticks = s.ticks := rfl
    simp only [Mark.run, Primer.tick, hticks]
    cases cfg.limits.stopped s.ticks with
    | some reason => rfl
    | none =>
      show (if cfg.limits.isSpent (s.ticks + 1) = true then _ else _) =
        Outcome.mapState _ (if cfg.limits.isSpent (s.ticks + 1) = true then _ else _)
      split
      · rfl
      · cases cfg.limits.limiter with
        | none => rfl
        | some limiter =>
          simp only [RunState.withSteps]
          cases limiter s.asked info.id <;> rfl

/-- A mark is the same in two settings with the same filter and limits. -/
theorem Mark.run_congr {cfg cfg' : Setting σ} (hraw : cfg'.isRaw = cfg.isRaw)
    (hfilter : cfg'.filter = cfg.filter) (hlimits : cfg'.limits = cfg.limits) (place : Mark) :
    place.run cfg' = place.run cfg := by
  cases place with
  | record info tag => simp only [Mark.run, Primer.record, hraw, hfilter]
  | tick info =>
    simp only [Mark.run]
    unfold Primer.tick
    rw [hlimits]

/-! ## Checked runs side by side -/

/-- Hosts that do not tell the checked strategies apart. -/
def Hosts.Impartial (hosts : Hosts σ) : Prop := hosts.Blind View.SameButSteps

/-- Two checked strategies are companions in everything but the steps. -/
theorem Companions.checked (cfg cfg' : Setting σ) (himpartial : cfg.hosts.Impartial)
    (hchecked : cfg.strategy ≠ .raw) (hchecked' : cfg'.strategy ≠ .raw) (hhosts : cfg'.hosts = cfg.hosts)
    (hfilter : cfg'.filter = cfg.filter) (hlimits : cfg'.limits = cfg.limits) :
    Companions cfg cfg' Records.SameButSteps View.SameButSteps (fun _ => False) := by
  have hraw : cfg'.isRaw = cfg.isRaw := by
    simp only [Setting.isRaw, hchecked, hchecked']
  refine ⟨⟨hhosts, hraw, by rw [hlimits]⟩, ?_, ?_, himpartial, fun _ => False.elim, ?_⟩
  · intro step r r' h
    rw [h]
    unfold Setting.told
    split <;> split <;> rfl
  · intro s t h
    rw [RunState.alike_sameButSteps_iff.mp h]
    exact ⟨hchecked, hchecked', rfl⟩
  · intro place s t h
    rw [Mark.run_congr hraw hfilter hlimits, RunState.alike_sameButSteps_iff.mp h, Mark.run_withSteps]
    cases place.run cfg s with
    | done a u => exact .done (RunState.alike_sameButSteps_iff.mpr rfl)
    | failed e u => exact .failed (RunState.alike_sameButSteps_iff.mpr rfl)
    | exhausted => exact .exhausted

/-- A run without narration keeps no steps. -/
theorem Ends.steps_eq {cfg : Setting σ} {body : List Stmt} {s : RunState σ} {f : Finished σ}
    (h : Ends cfg body s f) (hstrategy : cfg.strategy ≠ .stepped) : f.state.steps = s.steps := by
  obtain ⟨bound, h⟩ := h
  have hgrown := (Task.execAll 0 body).run_grows cfg bound s
  change (execAll cfg bound 0 body s).Leaves _ at hgrown
  unfold runBounded at h
  generalize execAll cfg bound 0 body s = o at h hgrown
  cases o with
  | done a t =>
    cases h
    exact hgrown.untold hstrategy
  | failed e t =>
    cases h
    exact hgrown.untold hstrategy
  | exhausted => cases h

/-! ## The standard hosts -/

/-- Extra hosts that do not tell the checked strategies apart. -/
def Extras.Impartial (extras : Extras τ) : Prop :=
  ∀ n v w extra memory args, View.SameButSteps v w →
    HostAction.Alike View.SameButSteps (extras.call n v extra memory args) (extras.call n w extra memory args)

/-- Actions of a host that are alike are so beside the console. -/
theorem HostAction.Alike.besideConsole {V : View → View → Prop} {action action' : HostAction τ}
    (h : action.Alike V action') (console : Console) :
    (action.besideConsole console).Alike V (action'.besideConsole console) := by
  induction h generalizing console with
  | finish answer host memory => exact .finish ..
  | callBack f args host memory _ ih =>
    refine .callBack _ _ _ _ ?_
    intro answer v w host memory hv
    exact ih answer v w host.extra memory hv host.console

/-- The standard hosts do not tell the checked strategies apart, with any extra hosts that do not. -/
theorem Extras.Impartial.standard {extras : Extras τ} (h : extras.Impartial) :
    (Hosts.standard extras).Impartial where
  call key v w host memory args hv := by
    have hchecked : (v.strategy != .raw) = (w.strategy != .raw) := by
      rw [bne_iff_ne.mpr hv.checked, bne_iff_ne.mpr hv.checked']
    cases key with
    | console f =>
      rw [Hosts.call_console, Hosts.call_console]
      cases host.console.call memory f args <;> exact .finish ..
    | math f =>
      rw [Hosts.call_math, Hosts.call_math, hchecked]
      cases f.call (w.strategy != .raw) memory args <;> exact .finish ..
    | extra n => exact (h n v w host.extra memory args hv).besideConsole host.console
  set key v w host memory value hv := by
    cases key with
    | color =>
      rw [Hosts.set_color, Hosts.set_color]
      cases host.console.setColor memory value <;> exact .some (.finish ..)
    | math c => exact .some (.finish ..)
    | extra n =>
      simp only [Hosts.standard]
      cases extras.set n host.extra memory value with
      | none => exact .none
      | some result => exact .some (.finish ..)

/-- No extra hosts are impartial. -/
theorem Extras.impartial_none : Extras.none.Impartial := fun _ _ _ _ _ _ _ => .finish ..

/-! ## The checked strategies agree -/

/-- Two runs that left the same behind, except for the steps, of which the first has none. -/
structure Finished.SameButSteps (f g : Finished (HostState τ)) : Prop where
  fault : f.result.fault = g.result.fault
  commands : f.result.commands = g.result.commands
  statements : f.result.statements = g.result.statements
  console : f.state.host.console = g.state.host.console
  extra : f.state.host.extra = g.state.host.extra
  globals : f.state.globals = g.state.globals
  memory : f.state.memory = g.state.memory
  untold : f.result.steps = []

/-- `safe` and `stepped` cannot be told apart but by the steps: for every program, filter, limits and global
names, and for all hosts that do not tell them apart themselves. -/
theorem safe_agrees_with_stepped (hosts : Hosts (HostState τ)) (himpartial : hosts.Impartial)
    (filter : Option CommandFilter) (limits : Limits) (body : List Stmt) (host : HostState τ)
    (memory : Memory) (globals : List (String × Value)) :
    ((∃ f, Ends ⟨.safe, filter, limits, hosts⟩ body (initialState host memory globals) f) ↔
      ∃ g, Ends ⟨.stepped, filter, limits, hosts⟩ body (initialState host memory globals) g) ∧
    ∀ f g, Ends ⟨.safe, filter, limits, hosts⟩ body (initialState host memory globals) f →
      Ends ⟨.stepped, filter, limits, hosts⟩ body (initialState host memory globals) g →
      f.SameButSteps g := by
  have hstart : (initialState host memory globals).Alike Records.SameButSteps
      (initialState host memory globals) := RunState.alike_sameButSteps_iff.mpr rfl
  have hsafe := Companions.checked ⟨.safe, filter, limits, hosts⟩ ⟨.stepped, filter, limits, hosts⟩
    himpartial (by simp) (by simp) rfl rfl rfl
  have hstepped := Companions.checked ⟨.stepped, filter, limits, hosts⟩ ⟨.safe, filter, limits, hosts⟩
    himpartial (by simp) (by simp) rfl rfl rfl
  refine ⟨⟨?_, ?_⟩, ?_⟩
  · rintro ⟨f, hf⟩
    obtain ⟨g, hg, -⟩ := hsafe.ends hstart hf
    exact ⟨g, hg⟩
  · rintro ⟨g, hg⟩
    obtain ⟨f, hf, -⟩ := hstepped.ends hstart hg
    exact ⟨f, hf⟩
  · intro f g hf hg
    obtain ⟨g', hg', hsame⟩ := hsafe.ends hstart hf
    obtain rfl := hg.unique hg'
    rcases hsame with ⟨hfault, hstate⟩ | ⟨_, _, _, _, _, hcuts, -⟩
    · have hsteps := hf.steps_eq (by simp)
      have hg_eq := RunState.alike_sameButSteps_iff.mp hstate
      exact {
        fault := hfault.symm
        commands := by rw [hf.result_eq, hg.result_eq, hg_eq]; rfl
        statements := by rw [hf.result_eq, hg.result_eq, hg_eq]; rfl
        console := by rw [hg_eq]; rfl
        extra := by rw [hg_eq]; rfl
        globals := by rw [hg_eq]; rfl
        memory := by rw [hg_eq]; rfl
        untold := by rw [hf.result_eq, hsteps]; rfl }
    · exact hcuts.elim

/-- Both checked runs of a greeting end, the narrated one with a step, and they agree. -/
theorem safe_agrees_with_stepped_greeting :
    ∃ f g, Ends (.plain .safe none .none) greeting .plain f ∧
      Ends (.plain .stepped none .none) greeting .plain g ∧ f.SameButSteps g ∧
      g.state.host.console.lines = [⟨"hello", ""⟩] ∧ g.result.steps.length = 1 := by
  obtain ⟨hends, hsame⟩ := safe_agrees_with_stepped (Hosts.standard Extras.none) Extras.impartial_none.standard none
    .none greeting ⟨Console.empty, ()⟩ Memory.empty [("console", .object .console), ("Math", .object .math)]
  obtain ⟨g, hg, hchecked⟩ : ∃ g, Ends (.plain .stepped none .none) greeting .plain g ∧
      (g.state.host.console.lines == [⟨"hello", ""⟩] && g.result.steps.length == 1) = true :=
    Ends.exists_of_any 10 (by decide +kernel)
  simp only [Bool.and_eq_true, beq_iff_eq] at hchecked
  obtain ⟨f, hf⟩ := hends.mpr ⟨g, hg⟩
  exact ⟨f, g, hf, hg, hsame f g hf hg, hchecked.1, hchecked.2⟩

end Primer
