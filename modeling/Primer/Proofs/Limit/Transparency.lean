import Primer.Proofs.Control.Restored
import Primer.Proofs.Limit.Budget

/-!
# A budget of statements is not felt until it is used up

The run with a budget is the run without one up to the tick that is one too many. If the free run has no more
ticks than the budget allows, both are the same; otherwise the other ends there, with the fault of the budget
and with what was recorded until then. This is `budget_transparent_until_spent`.
-/

set_option autoImplicit false

namespace Primer

open Run

variable {σ : Type}

/-! ## The run with a budget beside the free one -/

/-- The same limits but for the number of statements. -/
def Limits.withBudget (limits : Limits) (N : Nat) : Limits := { limits with maxStatements := N }

/-- The same setting with a budget. -/
def Setting.withBudget (cfg : Setting σ) (N : Nat) : Setting σ := { cfg with limits := cfg.limits.withBudget N }

/-- A setting with a budget has the limits with it. -/
@[simp]
theorem Setting.limits_withBudget (cfg : Setting σ) (N : Nat) :
    (cfg.withBudget N).limits = cfg.limits.withBudget N := rfl

/-- A budget does not change when a run is stopped. -/
@[simp]
theorem Limits.stopped_withBudget (limits : Limits) (N : Nat) : (limits.withBudget N).stopped = limits.stopped := rfl

/-- A budget of `N` is spent behind `N` statements, unless `N` is 0. -/
theorem Limits.isSpent_withBudget_iff {limits : Limits} {N ticks : Nat} :
    (limits.withBudget N).isSpent ticks = true ↔ 0 < N ∧ N < ticks := by
  show (decide (0 < (N : Int)) && decide ((N : Int) < ticks)) = true ↔ 0 < N ∧ N < ticks
  rw [Bool.and_eq_true, decide_eq_true_eq, decide_eq_true_eq]
  omega

/-- A budget does not change the limiter. -/
@[simp]
theorem Limits.limiter_withBudget (limits : Limits) (N : Nat) : (limits.withBudget N).limiter = limits.limiter := rfl

/-- The same records, with ticks that some limits still allow. -/
def Records.SameUnspent (limits : Limits) (r r' : Records) : Prop := r = r' ∧ limits.isSpent r.ticks = false

/-- Before the budget is spent, states that are alike are the same. -/
theorem RunState.Alike.eq_of_unspent {limits : Limits} {s t : RunState σ}
    (h : s.Alike (Records.SameUnspent limits) t) : t = s := by
  rw [h.same, ← h.records.1, RunState.withRecords_records]

/-- Before the budget is spent, a state is alike to itself. -/
theorem RunState.alike_unspent {limits : Limits} {s : RunState σ} (h : limits.isSpent s.ticks = false) :
    s.Alike (Records.SameUnspent limits) s := ⟨s.withRecords_records.symm, rfl, h⟩

/-- Whether a mark is one where a tick is counted. -/
def Mark.IsTick : Mark → Prop
  | .record .. => False
  | .tick _ => True

section Tick

variable (cfg : Setting σ) (hfree : cfg.limits.maxStatements ≤ 0) {N : Nat}

/-- A tick beyond the budget ends a run that is not stopped anyway. -/
theorem tick_spent {s : RunState σ} (hstopped : cfg.limits.stopped s.ticks = none)
    (hspent : (cfg.limits.withBudget N).isSpent (s.ticks + 1) = true) (info : Info) :
    tick (cfg.withBudget N) info s =
      raise .limit info (cfg.limits.withBudget N).spentMessage { s with ticks := s.ticks + 1 } := by
  simp only [tick, Setting.limits_withBudget, Limits.stopped_withBudget, hstopped, hspent, if_true]

include hfree in
/-- All other ticks are the same with and without a budget. -/
theorem tick_unspent {s : RunState σ}
    (h : cfg.limits.stopped s.ticks ≠ none ∨ (cfg.limits.withBudget N).isSpent (s.ticks + 1) = false) (info : Info) :
    tick (cfg.withBudget N) info s = tick cfg info s := by
  have hunlimited : cfg.limits.isSpent (s.ticks + 1) = false := by
    have hpos : ¬ 0 < cfg.limits.maxStatements := by omega
    simp only [Limits.isSpent, hpos, decide_false, Bool.false_and]
  unfold tick
  simp only [Setting.limits_withBudget, Limits.stopped_withBudget, Limits.limiter_withBudget]
  cases hstopped : cfg.limits.stopped s.ticks with
  | some reason => rfl
  | none =>
    rcases h with h | h
    · exact absurd hstopped h
    · simp only [h, hunlimited, Bool.false_eq_true, if_false]

/-- A tick that is counted is within the limits. -/
theorem tick_leaves_unspent (info : Info) {s : RunState σ}
    (hs : (cfg.limits.withBudget N).isSpent s.ticks = false)
    (h : cfg.limits.stopped s.ticks ≠ none ∨ (cfg.limits.withBudget N).isSpent (s.ticks + 1) = false) :
    (tick (cfg.withBudget N) info s).Leaves fun u =>
      (cfg.limits.withBudget N).isSpent u.ticks = false := by
  unfold tick
  simp only [Setting.limits_withBudget, Limits.stopped_withBudget, Limits.limiter_withBudget]
  cases hstopped : cfg.limits.stopped s.ticks with
  | some reason => exact hs
  | none =>
    rcases h with h | h
    · exact absurd hstopped h
    · simp only [h, Bool.false_eq_true, if_false]
      cases cfg.limits.limiter with
      | none => exact h
      | some limiter =>
        simp only
        cases limiter s.asked info.id with
        | none => exact h
        | some text => exact h

include hfree in
/-- The run with a budget accompanies the run without one, and is cut off at ticks only. -/
theorem Companions.budgeted (hstill : cfg.hosts.Still) :
    Companions cfg (cfg.withBudget N)
      (Records.SameUnspent (cfg.limits.withBudget N)) Eq Mark.IsTick := by
  refine ⟨⟨rfl, rfl, rfl⟩, ?_, ?_, .refl cfg.hosts, fun _ _ => hstill, ?_⟩
  · rintro step r _ ⟨rfl, hr⟩
    refine ⟨rfl, ?_⟩
    unfold Setting.told
    split
    · exact hr
    · exact hr
  · intro s t h
    rw [h.eq_of_unspent]
    rfl
  · intro place s t h
    obtain rfl := h.eq_of_unspent
    have hunspent := h.records.2
    cases place with
    | record info tag =>
      have hrecord := (Run.Steady.record (.all cfg) info tag).run t
      show Follows _ _ _ _ (record cfg info tag t)
        (record cfg info tag t)
      generalize record cfg info tag t = o at hrecord
      have hsame {u : RunState σ} (hu : u.control = t.control) :
          u.Alike (Records.SameUnspent (cfg.limits.withBudget N)) u := by
        refine RunState.alike_unspent ?_
        rw [show u.ticks = t.ticks from congrArg Control.ticks hu]
        exact hunspent
      cases hrecord with
      | done hu => exact .done (hsame hu)
      | failed hu => exact .failed (hsame hu)
    | tick info =>
      show Follows _ _ _ _ (tick cfg info t)
        (tick (cfg.withBudget N) info t)
      by_cases hcut : cfg.limits.stopped t.ticks = none ∧ (cfg.limits.withBudget N).isSpent (t.ticks + 1) = true
      · have hstop := tick_spent cfg hcut.1 hcut.2 info
        have htick : (Mark.tick info).IsTick := trivial
        rw [hstop]
        exact .cut htick ⟨rfl, rfl⟩ h hstop rfl
      · have hleft : cfg.limits.stopped t.ticks ≠ none ∨ (cfg.limits.withBudget N).isSpent (t.ticks + 1) = false := by
          rw [← Bool.not_eq_true]
          exact Classical.not_and_iff_not_or_not.mp hcut
        have hleaves := tick_leaves_unspent cfg info hunspent
          hleft
        rw [tick_unspent cfg hfree hleft] at hleaves ⊢
        generalize tick cfg info t = o at hleaves
        cases o with
        | done a u => exact .done (RunState.alike_unspent hleaves)
        | failed e u => exact .failed (RunState.alike_unspent hleaves)
        | exhausted => exact .exhausted

/-- A counted statement is one more. -/
theorem tick_leaves_ticks (info : Info) {s : RunState σ} (hstopped : cfg.limits.stopped s.ticks = none) :
    (tick cfg info s).Leaves fun u => u.ticks = s.ticks + 1 := by
  unfold tick
  simp only [hstopped]
  split
  · exact rfl
  · cases cfg.limits.limiter with
    | none => exact rfl
    | some limiter =>
      simp only
      cases limiter s.asked info.id with
      | none => exact rfl
      | some text => exact rfl

/-- What is recorded after a tick was recorded before it or counts it. -/
theorem grown_of_tick {info : Info} {s : RunState σ} {r : Records} (hstopped : cfg.limits.stopped s.ticks = none)
    (h : (tick cfg info s).Leaves fun w => Records.Grown cfg.strategy w.records r) :
    ∃ w : RunState σ, Records.Grown cfg.strategy s.records w.records ∧ w.ticks = s.ticks + 1 ∧
      Records.Grown cfg.strategy w.records r := by
  have hgrows := Grows.tick cfg info s
  have hticks := tick_leaves_ticks cfg info hstopped
  have hticked := tick_ticked cfg info s
  generalize tick cfg info s = o at h hgrows hticks hticked
  cases hticked with
  | done => exact ⟨_, hgrows, hticks, h⟩
  | spent => exact ⟨_, hgrows, hticks, h⟩
  | stopped => exact ⟨_, hgrows, hticks, h⟩

end Tick

/-! ## The cut -/

/-- The run with a budget ends where the budget is used up, with what the free run had recorded until then. -/
structure EndsSpent (limits : Limits) (N : Nat) (free budgeted : Finished σ) : Prop where
  fault : ∃ fault, budgeted.result.fault = some fault ∧ fault.Spends (limits.withBudget N)
  statements : budgeted.result.statements = N + 1
  commands : budgeted.result.commands <+: free.result.commands
  steps : budgeted.result.steps <+: free.result.steps

/-- A run that was cut off at a tick: either the budget was used up there, and the free run went on, or both
runs ended there for the same other reason. -/
theorem CutOff.at_tick {cfg : Setting σ} (hfree : cfg.limits.maxStatements ≤ 0) (hstill : cfg.hosts.Still)
    {N : Nat} {body : List Stmt} {s : RunState σ} (hs : s.frames = []) {free budgeted : Finished σ}
    (hf : Ends cfg body s free) (hb : Ends (cfg.withBudget N) body s budgeted)
    (h : CutOff cfg (cfg.withBudget N) (Records.SameUnspent (cfg.limits.withBudget N)) Mark.IsTick body s free
      budgeted) :
    (budgeted.result.fault = free.result.fault ∧ budgeted.state = free.state ∧
      (cfg.limits.withBudget N).isSpent free.state.ticks = false) ∨
    (N < free.result.statements ∧ EndsSpent cfg.limits N free budgeted) := by
  obtain ⟨place, u, t, e, v, htick, hpassed, hut, hstop, hfault, hstate, hgrown⟩ := h
  obtain rfl := hut.eq_of_unspent
  have hunspent := hut.records.2
  cases place with
  | record => cases htick
  | tick info =>
    change tick (cfg.withBudget N) info t = .failed e v at hstop
    change (tick cfg info t).Leaves _ at hgrown
    by_cases hcut : cfg.limits.stopped t.ticks = none ∧ (cfg.limits.withBudget N).isSpent (t.ticks + 1) = true
    · obtain ⟨hstopped, hspent⟩ := hcut
      rw [tick_spent cfg hstopped hspent] at hstop
      cases hstop
      have hticks : t.ticks = N := by
        rw [Limits.isSpent_withBudget_iff] at hspent
        rw [← Bool.not_eq_true, Limits.isSpent_withBudget_iff] at hunspent
        change ¬ (0 < N ∧ N < t.ticks) at hunspent
        omega
      obtain ⟨w, hgrown, hcounted, hlater⟩ := grown_of_tick cfg hstopped hgrown
      have hall := hgrown.trans hlater
      refine .inr ⟨?_, ⟨_, hfault, rfl, rfl, rfl⟩, ?_, ?_, ?_⟩
      · have hle : w.ticks ≤ free.state.ticks := hlater.ticks
        rw [hf.result_eq]
        show N < free.state.ticks
        omega
      · rw [hb.result_eq, hstate]
        exact congrArg (· + 1) hticks
      · rw [hb.result_eq, hf.result_eq, hstate]
        exact List.reverse_prefix.mpr hall.commands
      · rw [hb.result_eq, hf.result_eq, hstate]
        exact List.reverse_prefix.mpr hall.steps
    · have hleft : cfg.limits.stopped t.ticks ≠ none ∨ (cfg.limits.withBudget N).isSpent (t.ticks + 1) = false := by
        rw [← Bool.not_eq_true]
        exact Classical.not_and_iff_not_or_not.mp hcut
      have hleaves := tick_leaves_unspent cfg info hunspent hleft
      rw [hstop] at hleaves
      rw [tick_unspent cfg hfree hleft] at hstop
      obtain ⟨hfault', hstate'⟩ := hf.of_passes hstill hpassed hstop
      refine .inl ⟨hfault.trans hfault'.symm, ?_, ?_⟩
      · rw [hb.frames_nil hs] at hstate
        rw [hf.frames_nil hs] at hstate'
        rw [hstate, hstate']
      · rw [hstate']
        exact hleaves

/-- A budget is not felt until it is used up. Take a run without a limit on statements that ends, for any
tree, strategy and filter and any other limits. With a budget of at least as many statements as it had, the run
is the same in every respect. With a smaller one it ends with the fault of the budget, one tick beyond it, and
its commands and steps are the first ones of the free run. -/
theorem budget_transparent_until_spent (strategy : Strategy) (filter : Option CommandFilter) (limits : Limits)
    (hunlimited : limits.maxStatements ≤ 0) (body : List Stmt) {free : Finished (HostState Unit)}
    (hfree : Ends (.plain strategy filter limits) body .plain free) (N : Nat) :
    ∃ budgeted, Ends (.plain strategy filter (limits.withBudget N)) body .plain budgeted ∧
      (free.result.statements ≤ N → budgeted = free) ∧
      (1 ≤ N → N < free.result.statements → EndsSpent limits N free budgeted) := by
  have hcompanions := Companions.budgeted (.plain strategy filter limits) hunlimited Hosts.still_standard (N := N)
  have hstart : RunState.plain.Alike (Records.SameUnspent (limits.withBudget N)) RunState.plain := by
    refine RunState.alike_unspent ?_
    rw [← Bool.not_eq_true, Limits.isSpent_withBudget_iff]
    exact fun h => Nat.not_lt_zero N h.2
  obtain ⟨budgeted, hbudgeted, hend⟩ := hcompanions.ends hstart hfree
  refine ⟨budgeted, hbudgeted, ?_⟩
  have hcases : (budgeted.result.fault = free.result.fault ∧ budgeted.state = free.state ∧
      (limits.withBudget N).isSpent free.state.ticks = false) ∨
      (N < free.result.statements ∧ EndsSpent limits N free budgeted) := by
    rcases hend with ⟨hfault, hstate⟩ | hcut
    · exact .inl ⟨hfault, hstate.eq_of_unspent, hstate.records.2⟩
    · exact hcut.at_tick hunlimited Hosts.still_standard rfl hfree hbudgeted
  rcases hcases with ⟨hfault, hstate, hunspent⟩ | ⟨hlt, hspent⟩
  · have hsame : budgeted = free := by
      have hresult : budgeted.result = free.result := by
        rw [hbudgeted.result_eq, hfree.result_eq, hfault, hstate]
        rfl
      cases free
      cases budgeted
      simp only [Finished.mk.injEq]
      exact ⟨hresult, hstate⟩
    refine ⟨fun _ => hsame, ?_⟩
    intro hpos hlt
    rw [hfree.result_eq] at hlt
    rw [Limits.isSpent_withBudget_iff.mpr ⟨hpos, hlt⟩] at hunspent
    cases hunspent
  · exact ⟨fun hle => absurd hlt (by omega), fun _ _ => hspent⟩

/-- The program `if (true) {} if (true) {}`. -/
def idle : List Stmt :=
  [.cond ⟨1, ⟨"if", 1, 1⟩⟩ (.boolean ⟨2, ⟨"true", 1, 5⟩⟩ true) [] none,
    .cond ⟨3, ⟨"if", 1, 14⟩⟩ (.boolean ⟨4, ⟨"true", 1, 18⟩⟩ true) [] none]

/-- The idle program has two statements, and with a budget of one the second is not run. -/
theorem budget_transparent_idle :
    ∃ free, Ends (.plain .safe none .none) idle .plain free ∧ free.result.statements = 2 ∧
      ∃ budgeted, Ends (.plain .safe none (Limits.none.withBudget 1)) idle .plain budgeted ∧
        EndsSpent .none 1 free budgeted := by
  obtain ⟨free, hfree, hcount⟩ : ∃ free, Ends (.plain .safe none .none) idle .plain free ∧
      (free.result.statements == 2) = true := Ends.exists_of_any 8 (by decide +kernel)
  rw [beq_iff_eq] at hcount
  obtain ⟨budgeted, hbudgeted, -, hspent⟩ := budget_transparent_until_spent .safe none .none (by decide) idle hfree 1
  exact ⟨free, hfree, hcount, budgeted, hbudgeted, hspent (Nat.le_refl 1) (by omega)⟩

end Primer
