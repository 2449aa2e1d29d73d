import Primer.Proofs.Control.Part

/-!
# A budget of statements stops every program

Under a limit on statements every run ends. A round of a loop takes a tick, a call takes one of the calls that
may be active at a time, and everything else works on a smaller part of the tree: what a task goes on with is
less in this order (`Task.room`), and so there are no runs without an end. A run that is not stopped by the
limit has as many ticks as the limit allows at most; the tick that is one too many is where the limit stops it,
and nothing comes after that.

This holds for hosts that answer on their own: they call nothing back, and they pass no failure of the program
on. The standard hosts are such hosts.
-/

set_option autoImplicit false

namespace Primer

open Run

variable {σ α β : Type}

/-! ## Within a budget -/

/-- The limits allow a positive number of statements. -/
structure Limits.Budget (limits : Limits) (N : Nat) : Prop where
  maxStatements : limits.maxStatements = N
  pos : 1 ≤ N

/-- A budget is spent when more statements were counted. -/
theorem Limits.Budget.isSpent_iff {limits : Limits} {N : Nat} (h : limits.Budget N) (ticks : Nat) :
    limits.isSpent ticks = true ↔ N < ticks := by
  have hpos := h.pos
  simp only [isSpent, h.maxStatements, Bool.and_eq_true, decide_eq_true_eq]
  omega

/-- A failure that does not say that the statements are used up. -/
def Failure.Unspent (limits : Limits) (e : Failure) : Prop := ∀ f, e = .fault f → ¬ f.Spends limits

/-- How a computation ends within a budget of ticks: it is done with as many calls active as before, or it
fails, or it fails because one tick more than the budget was counted. -/
inductive Outcome.Within (limits : Limits) (N : Nat) (s : RunState σ) : Outcome σ α → Prop where
  | done {a u} (calls : u.calls.length = s.calls.length) (grown : s.ticks ≤ u.ticks) (ticks : u.ticks ≤ N) :
      Within limits N s (.done a u)
  | failed {e u} (ticks : u.ticks ≤ N) (he : e.Unspent limits) : Within limits N s (.failed e u)
  | spent {f u} (ticks : u.ticks = N + 1) (hf : f.Spends limits) : Within limits N s (.failed (.fault f) u)

/-- What stays within the budget has ended. -/
theorem Outcome.Within.ended {limits : Limits} {N : Nat} {s : RunState σ} {o : Outcome σ α}
    (h : o.Within limits N s) : o ≠ .exhausted := by
  cases h <;> nofun

/-- What happened before, within the same budget, does not matter. -/
theorem Outcome.Within.after {limits : Limits} {N : Nat} {s t : RunState σ} {o : Outcome σ α}
    (h : o.Within limits N t) (hcalls : t.calls.length = s.calls.length) (hticks : s.ticks ≤ t.ticks) :
    o.Within limits N s := by
  cases h with
  | done calls grown ticks => exact .done (calls.trans hcalls) (Nat.le_trans hticks grown) ticks
  | failed ticks he => exact .failed ticks he
  | spent ticks hf => exact .spent ticks hf

/-- A steady outcome stays within the budget. -/
theorem Outcome.Steady.within {limits : Limits} {N : Nat} {s : RunState σ} {o : Outcome σ α}
    (h : o.Steady (Failure.Unspent limits) s.control) (hs : s.ticks ≤ N) : o.Within limits N s := by
  have hcontrol {u : RunState σ} (hu : u.control = s.control) : u.calls = s.calls ∧ u.ticks = s.ticks :=
    ⟨congrArg Control.calls hu, congrArg Control.ticks hu⟩
  cases h with
  | done hu =>
    obtain ⟨hcalls, hticks⟩ := hcontrol hu
    exact .done (by rw [hcalls]) (Nat.le_of_eq hticks.symm) (by omega)
  | failed hu he =>
    obtain ⟨-, hticks⟩ := hcontrol hu
    exact .failed (by omega) he

/-- One computation after another, both within the budget. -/
theorem Run.within_bind {limits : Limits} {N : Nat} {x : Run σ α} {f : α → Run σ β} {s b c : RunState σ}
    (hx : (x s).Within limits N b)
    (hf : ∀ a u, u.calls.length = b.calls.length → b.ticks ≤ u.ticks → u.ticks ≤ N → (f a u).Within limits N c) :
    ((x >>= f) s).Within limits N c := by
  show (Run.andThen x f s).Within limits N c
  unfold Run.andThen
  generalize x s = o at hx
  cases hx with
  | done calls grown ticks => exact hf _ _ calls grown ticks
  | failed ticks he => exact .failed ticks he
  | spent ticks hf => exact .spent ticks hf

/-- A plan ends within the budget, if there is enough room for its recursion. -/
def Plan.Stops (cfg : Setting σ) (N : Nat) (p : Plan σ α) (s : RunState σ) : Prop :=
  ∃ n, (p.run cfg n s).Within cfg.limits N s

/-- An ordinary fault does not say that the statements are used up. -/
theorem Failure.Unspent.of_ordinary {f : Fault} (hf : f.Ordinary) (limits : Limits) :
    Failure.Unspent limits (.fault f) := by
  intro f' heq
  cases heq
  exact hf.unspent limits

/-- Hosts on their own pass no fault of the budget on. -/
theorem Hosts.OnTheirOwn.unspent {cfg : Setting σ} (h : cfg.hosts.OnTheirOwn) :
    Allows cfg (Failure.Unspent cfg.limits) := h.allows fun _ hf => .of_ordinary hf cfg.limits

namespace Plan.Stops

variable {cfg : Setting σ} {N : Nat} {s : RunState σ}

/-- One plan after another. What the first does is known in relation to a state that lies before its end. -/
theorem bind_from {x : Plan σ α} {f : α → Plan σ β} {b : RunState σ}
    (hx : ∃ n, (x.run cfg n s).Within cfg.limits N b) (hcalls : b.calls.length = s.calls.length)
    (hticks : s.ticks ≤ b.ticks)
    (hf : ∀ a u, u.calls.length = b.calls.length → b.ticks ≤ u.ticks → u.ticks ≤ N → (f a).Stops cfg N u) :
    (Plan.bind x f).Stops cfg N s := by
  obtain ⟨n, hn⟩ := hx
  generalize ho : x.run cfg n s = o at hn
  cases hn with
  | @done a u calls grown ticks =>
    obtain ⟨m, hm⟩ := hf a u calls grown ticks
    refine ⟨max n m, ?_⟩
    have hfirst := x.run_mono cfg (Nat.le_max_left n m) s (by rw [ho]; nofun)
    have hnext := (f a).run_mono cfg (Nat.le_max_right n m) u hm.ended
    show ((x.run cfg _ >>= fun a => (f a).run cfg _) s).Within _ _ _
    rw [Run.bind_of_done (hfirst.trans ho), hnext]
    exact hm.after (calls.trans hcalls) (Nat.le_trans hticks grown)
  | failed ticks he =>
    refine ⟨n, ?_⟩
    show ((x.run cfg n >>= fun a => (f a).run cfg n) s).Within _ _ _
    rw [Run.bind_of_failed ho]
    exact .failed ticks he
  | spent ticks hf =>
    refine ⟨n, ?_⟩
    show ((x.run cfg n >>= fun a => (f a).run cfg n) s).Within _ _ _
    rw [Run.bind_of_failed ho]
    exact .spent ticks hf

/-- A sequence of plans stops if each of them does within what is left. -/
theorem bind {x : Plan σ α} {f : α → Plan σ β} (hx : x.Stops cfg N s)
    (hf : ∀ a u, u.calls.length = s.calls.length → s.ticks ≤ u.ticks → u.ticks ≤ N → (f a).Stops cfg N u) :
    (Plan.bind x f).Stops cfg N s := bind_from hx rfl (Nat.le_refl _) hf

/-- A task ends if its plan does. -/
theorem ask {t : Task σ α} (h : (t.plan cfg).Stops cfg N s) : (Plan.ask t).Stops cfg N s := by
  obtain ⟨n, hn⟩ := h
  refine ⟨n + 1, ?_⟩
  show (t.run cfg (n + 1) s).Within _ _ _
  rw [Task.run_succ]
  exact hn

/-- A steady action stops. -/
theorem steady {x : Run σ α} {quiet : x.Quiet} (hx : x.Steady (Failure.Unspent cfg.limits)) (hs : s.ticks ≤ N) :
    (Plan.act x quiet).Stops cfg N s := ⟨0, (hx.run s).within hs⟩

end Plan.Stops

/-- Counting a tick, in a state where the budget is not used up. -/
theorem tick_within {cfg : Setting σ} {N : Nat} (hbudget : cfg.limits.Budget N) (info : Info) {s : RunState σ}
    (hs : s.ticks ≤ N) :
    (tick cfg info s).Within cfg.limits N { s with ticks := s.ticks + 1 } := by
  have hticked := tick_ticked cfg info s
  generalize tick cfg info s = o at hticked
  have hcontrol {u : RunState σ} {k : Nat} (hu : u.control = { s.control with ticks := k }) :
      u.calls = s.calls ∧ u.ticks = k := ⟨congrArg Control.calls hu, congrArg Control.ticks hu⟩
  have hleft (h : cfg.limits.isSpent (s.ticks + 1) = false) : s.ticks + 1 ≤ N := by
    rw [← Bool.not_eq_true, hbudget.isSpent_iff] at h
    omega
  cases hticked with
  | done hu h =>
    obtain ⟨hcalls, hticks⟩ := hcontrol hu
    refine .done (congrArg List.length hcalls) (Nat.le_of_eq hticks.symm) ?_
    rw [hticks]
    exact hleft h
  | spent hu h hf =>
    obtain ⟨-, hticks⟩ := hcontrol hu
    rw [hbudget.isSpent_iff] at h
    exact .spent (by omega) hf
  | @stopped u f hu hf =>
    refine .failed ?_ (.of_ordinary hf cfg.limits)
    rcases hu with hu | ⟨hu, h⟩
    · exact Nat.le_trans (Nat.le_of_eq (hcontrol hu).2) hs
    · exact Nat.le_trans (Nat.le_of_eq (hcontrol hu).2) (hleft h)

/-! ## Plans -/

section Budget

variable {cfg : Setting σ} {N : Nat} (hhosts : cfg.hosts.OnTheirOwn) (hbudget : cfg.limits.Budget N)

include hhosts

/-- A host that answers on its own is done at once. -/
theorem runHost_within (n depth : Nat) (info : Info) (use : HostUse) {action : HostAction σ}
    (haction : action.OnItsOwn) {s : RunState σ} (hs : s.ticks ≤ N) :
    (runHost cfg (n + 1) depth info use action s).Within cfg.limits N s := by
  cases action with
  | callBack => cases haction
  | finish answer host memory =>
    have hsteady := Run.Steady.finish hhosts.unspent n depth info use answer host memory fun fault hpassed =>
      absurd hpassed (haction _)
    exact (hsteady.run s).within hs

include hbudget

/-- A plan ends within the budget if the tasks in it do. -/
theorem Plan.Made.stops {declares : Bool} {asked : (α : Type) → Task σ α → Prop} {p : Plan σ α}
    (hp : p.Made cfg declares asked) {s : RunState σ} (hs : s.ticks ≤ N)
    (hasked : ∀ {α : Type} (t : Task σ α) (u : RunState σ), asked α t → u.calls.length = s.calls.length →
      s.ticks ≤ u.ticks → u.ticks ≤ N → (Plan.ask t).Stops cfg N u) : p.Stops cfg N s := by
  have hallows := hhosts.unspent
  have hinternal : ∀ f : Fault, f.kind = .internal → Failure.Unspent cfg.limits (.fault f) := by
    intro f hf f' heq hspends
    cases heq
    rw [hspends.kind] at hf
    cases hf
  have htext : ∀ message, Failure.Unspent cfg.limits (.text message) := fun _ _ heq => nomatch heq
  induction hp generalizing s with
  | act h => exact .steady (h.steady hallows hinternal htext) hs
  | declareName h =>
    refine ⟨0, .done ?_ ?_ ?_⟩
    · rw [RunState.calls_withScope]
    · refine Nat.le_of_eq ?_
      rw [RunState.ticks_withScope]
    · rw [RunState.ticks_withScope]
      exact hs
  | mark place =>
    cases place with
    | record info tag => exact ⟨0, ((Run.Steady.record hallows info tag).run s).within hs⟩
    | tick info => exact ⟨0, (tick_within hbudget info hs).after rfl (Nat.le_succ _)⟩
  | narrate category node message changes =>
    exact ⟨0, ((Run.Steady.narrate category node message changes).run s).within hs⟩
  -- How long a task takes is the hypothesis. Everything else takes a fixed number of steps.
  | ask h => exact hasked _ s h rfl (Nat.le_refl _) hs
  | hostCall depth info callee key args =>
    exact ⟨1, runHost_within hhosts 0 depth info (.call callee) (hhosts.call ..) hs⟩
  | hostSet depth info target key v =>
    refine ⟨1, ?_⟩
    simp only [Plan.run]
    cases hset : cfg.hosts.set key (s.view cfg.strategy) s.host s.memory v with
    | none => exact ((Run.Steady.cannotAssign hallows info target v).run s).within hs
    | some action => exact runHost_within hhosts 0 depth info (.assign target) (hhosts.set _ _ _ _ _ _ hset) hs
  | bind _ _ ihx ihf =>
    refine .bind (ihx hs hasked) ?_
    intro a u hcalls hticks hu
    refine ihf a hu ?_
    intro _ t v ht hcalls' hticks' hv
    exact hasked t v ht (hcalls'.trans hcalls) (Nat.le_trans hticks hticks') hv
  | recorded h info tag =>
    have hrecord := Run.Steady.record hallows info tag
    exact ⟨0, (((h.steady hallows hinternal htext).onFailure hrecord).run s).within hs⟩

/-! ## Tasks -/

/-- What is left for a task in a state: the ticks, the calls that may still be entered, and the tree. -/
noncomputable def Task.room (cfg : Setting σ) (N : Nat) (t : Task σ α) (s : RunState σ) : Nat × Nat × Nat :=
  (N - s.ticks, cfg.limits.callDepth - s.calls.length, t.size)

/-- Less room: fewer ticks, or as many and fewer calls, or as many of both and a smaller tree. -/
abbrev Room.Less : Nat × Nat × Nat → Nat × Nat × Nat → Prop := Prod.Lex (· < ·) (Prod.Lex (· < ·) (· < ·))

omit hhosts hbudget in
/-- Each counted statement leaves less room. -/
theorem Task.room_of_ticks {t : Task σ α} {t' : Task σ β} {s u : RunState σ} (h : s.ticks < u.ticks)
    (hu : u.ticks ≤ N) : Room.Less (t'.room cfg N u) (t.room cfg N s) :=
  .left _ _ (by omega)

omit hhosts hbudget in
/-- As long as no fewer calls can be entered, the rest decides. -/
theorem Task.room_of_le {t : Task σ α} {t' : Task σ β} {s u : RunState σ} (hticks : s.ticks ≤ u.ticks)
    (hu : u.ticks ≤ N)
    (h : Prod.Lex (· < ·) (· < ·) (cfg.limits.callDepth - u.calls.length, t'.size)
      (cfg.limits.callDepth - s.calls.length, t.size)) : Room.Less (t'.room cfg N u) (t.room cfg N s) := by
  rcases Nat.eq_or_lt_of_le hticks with heq | hlt
  · unfold Task.room
    rw [heq]
    exact .right _ h
  · exact room_of_ticks hlt hu

omit hhosts hbudget in
/-- A call whose parts have been taken ends within the budget if the function does that is called, with one
more call active. -/
theorem enterCall_within {n depth : Nat} {info : Info} {callee : Expr} {g : Value} {vs : List Value} {label : String}
    {s t : RunState σ} (ht : t.control = s.control) (hs : s.ticks ≤ N)
    (hcall : s.calls.length < cfg.limits.callDepth →
      ((Plan.callValue depth info callee g vs).run cfg n { t with calls := info.token :: t.calls }).Within cfg.limits N
        { t with calls := info.token :: t.calls }) :
    ((enterCall cfg info >>= fun _ => (Plan.callValue depth info callee g vs).run cfg n >>= fun result =>
      leaveCall >>= fun _ => (Plan.callResult info label result).run cfg n) t).Within cfg.limits N s := by
  have hcalls : t.calls = s.calls := congrArg Control.calls ht
  have hticks : t.ticks = s.ticks := congrArg Control.ticks ht
  rcases Nat.lt_or_ge t.calls.length cfg.limits.callDepth with hroom | hfull
  · rw [Run.bind_of_done (enterCall_of_lt hroom info)]
    rw [hcalls] at hroom
    apply Run.within_bind (hcall hroom)
    intro result u hu hgrown hleft
    rw [Run.bind_of_done (show leaveCall u = .done () { u with calls := u.calls.tail } from rfl)]
    have hresult : ((Plan.callResult info label result).run cfg n).Steady (Failure.Unspent cfg.limits) :=
      Plan.callResult_steady n info label result
    refine ((hresult.run { u with calls := u.calls.tail }).within hleft).after ?_ ?_
    · show u.calls.tail.length = s.calls.length
      rw [List.length_tail, hu, ← hcalls]
      rfl
    · rw [← hticks]
      exact hgrown
  · rw [Run.bind_of_failed (enterCall_of_le hfull info)]
    refine .failed (Nat.le_trans (Nat.le_of_eq hticks) hs) ?_
    intro f heq hspends
    cases heq
    refine Limits.ne_spentMessage ?_ cfg.limits hspends.message
    show ("Too many nested function calls (more than <var>" ++ toString cfg.limits.callDepth ++
      "</var>)").toList[8]? ≠ some 's'
    rw [getElem?_message (by decide +kernel)]
    decide +kernel

omit hbudget in
/-- A call ends within the budget if the function does that is called, with one more call active. -/
theorem Task.call_stops {depth : Nat} {info : Info} {callee : Expr} {args : List Expr} {f : Value}
    {given : List Value} {s : RunState σ} (hs : s.ticks ≤ N)
    (hcall : s.calls.length < cfg.limits.callDepth → ∀ (g : Value) (vs : List Value) (u : RunState σ),
      u.calls.length = s.calls.length + 1 → u.ticks = s.ticks →
      (Plan.callValue depth info callee g vs).Stops cfg N u) :
    (Plan.ask (.call depth info callee args f given)).Stops cfg N s := by
  have hparts := (callParts_steady hhosts.unspent info callee args f given).run s
  generalize ho : callParts cfg info callee args f given s = o at hparts
  cases hparts with
  | failed ht he =>
    refine ⟨1, ?_⟩
    show (Task.run cfg (0 + 1) _ s).Within _ _ _
    rw [Task.run_call, Run.bind_of_failed ho]
    exact (Outcome.Steady.failed ht he).within hs
  | @done c t ht =>
    have hcalls : t.calls = s.calls := congrArg Control.calls ht
    have hticks : t.ticks = s.ticks := congrArg Control.ticks ht
    -- How much room the function needs is known only now that its arguments are.
    have hbound : ∃ n, s.calls.length < cfg.limits.callDepth →
        ((Plan.callValue depth info callee c.1 c.2.1).run cfg n { t with calls := info.token :: t.calls }).Within
          cfg.limits N { t with calls := info.token :: t.calls } := by
      by_cases hroom : s.calls.length < cfg.limits.callDepth
      · obtain ⟨n, hn⟩ := hcall hroom c.1 c.2.1 { t with calls := info.token :: t.calls }
          (by rw [List.length_cons, hcalls]) hticks
        exact ⟨n, fun _ => hn⟩
      · exact ⟨0, fun h => absurd h hroom⟩
    obtain ⟨n, hn⟩ := hbound
    refine ⟨n + 1, ?_⟩
    show (Task.run cfg (n + 1) _ s).Within _ _ _
    rw [Task.run_call, Run.bind_of_done ho]
    exact enterCall_within ht hs hn

omit hbudget in
/-- The body of a function ends within the budget if its statements do. -/
theorem Task.callFunction_stops {depth : Nat} {info : Info} {f : UserFunction} {args : List Value}
    {s : RunState σ} (hs : s.ticks ≤ N)
    (hbody : ∀ u : RunState σ, u.calls.length = s.calls.length → u.ticks = s.ticks →
      (Plan.ask (.execAll depth f.body)).Stops cfg N u) :
    (Plan.ask (.callFunction depth info f args)).Stops cfg N s := by
  have hparts := (functionParts_steady hhosts.unspent info f args).run s
  generalize ho : functionParts cfg info f args s = o at hparts
  cases hparts with
  | failed ht he =>
    refine ⟨1, ?_⟩
    show (Task.run cfg (0 + 1) _ s).Within _ _ _
    rw [Task.run_callFunction, Run.bind_of_failed ho]
    exact (Outcome.Steady.failed ht he).within hs
  | @done b t ht =>
    have hcalls : t.calls = s.calls := congrArg Control.calls ht
    have hticks : t.ticks = s.ticks := congrArg Control.ticks ht
    obtain ⟨n, hn⟩ := hbody (pushFrame f b.1 b.2 t) (congrArg List.length hcalls) hticks
    have hsame : (pushFrame f b.1 b.2 t).calls.length = s.calls.length ∧ s.ticks = (pushFrame f b.1 b.2 t).ticks :=
      ⟨congrArg List.length hcalls, hticks.symm⟩
    have hwithin := hn.after hsame.1 (Nat.le_of_eq hsame.2)
    refine ⟨n + 1, ?_⟩
    show (Task.run cfg (n + 1) _ s).Within _ _ _
    rw [Task.run_callFunction, Run.bind_of_done ho]
    show (Plan.framed _ (pushFrame f b.1 b.2 t)).Within _ _ _
    unfold Plan.framed
    change ((Task.execAll depth f.body).run cfg n (pushFrame f b.1 b.2 t)).Within _ _ _ at hwithin
    generalize (Task.execAll depth f.body).run cfg n (pushFrame f b.1 b.2 t) = o at hwithin
    cases hwithin with
    | done calls grown ticks => exact .done calls grown ticks
    | failed ticks he => exact .failed ticks he
    | spent ticks hf => exact .spent ticks hf

/-- A task ends within the budget if all tasks do that have less room. -/
theorem Task.stops_of_less (t : Task σ α) {s : RunState σ} (hs : s.ticks ≤ N)
    (hless : ∀ {β : Type} (t' : Task σ β) (u : RunState σ), u.ticks ≤ N →
      Room.Less (t'.room cfg N u) (t.room cfg N s) → (Plan.ask t').Stops cfg N u) :
    (Plan.ask t).Stops cfg N s := by
  cases hcall : t.isCall with
  | true =>
    cases t with
    | call depth info callee args f given =>
      apply call_stops hhosts hs
      intro hroom g vs u hcalls hticks
      refine (Plan.callValue_made cfg depth info callee g vs).stops hhosts hbudget (by omega) ?_
      intro β t' v _ hcalls' hticks' hv
      -- One call fewer can be entered now.
      exact hless t' v hv (room_of_le (by omega) hv (.left _ _ (by omega)))
    | callFunction depth info f args =>
      apply callFunction_stops hhosts hs
      intro u hcalls hticks
      refine hless _ u (by omega) ?_
      refine room_of_le (Nat.le_of_eq hticks.symm) (by omega) ?_
      rw [hcalls]
      refine .right _ ?_
      simp [Task.size]
    | _ => cases hcall
  | false =>
    refine .ask ?_
    cases hloop : t.isLoop with
    | true =>
      cases t with
      | execLoop depth info tag test update body =>
        rw [plan_execLoop]
        refine .bind_from ⟨0, tick_within hbudget info hs⟩ rfl (Nat.le_succ _) fun _ u _ hticks hu => ?_
        refine (Plan.round_made cfg depth info tag test update body).stops hhosts hbudget hu ?_
        intro β t' v _ _ hticks' hv
        -- A tick was counted before the round.
        exact hless t' v hv (room_of_ticks (Nat.lt_of_lt_of_le hticks hticks') hv)
      | _ => cases hloop
    | false =>
      refine (t.plan_below cfg hcall hloop).stops hhosts hbudget hs ?_
      intro _ t' u ht' hcalls hticks hu
      refine hless t' u hu (room_of_le hticks hu ?_)
      rw [hcalls]
      exact .right _ ht'.size

/-- Every task ends within the budget, from every state where the budget is not used up. -/
theorem Task.stops {γ : Type} (t : Task σ γ) (s : RunState σ) (hs : s.ticks ≤ N) : (Plan.ask t).Stops cfg N s :=
  stops_of_less hhosts hbudget t hs fun t' u hu _hless => stops t' u hu
termination_by t.room cfg N s
decreasing_by exact _hless

end Budget

/-! ## Programs -/

/-- A budget of statements stops every program: for every tree, strategy and filter and all limits that allow
`N` statements, the run ends. It counted `N + 1` ticks at most, and it counted as many exactly if it ended with
the fault of the budget. -/
theorem budget_stops_every_program (strategy : Strategy) (filter : Option CommandFilter) (limits : Limits)
    (N : Nat) (hbudget : limits.Budget N) (body : List Stmt) :
    ∃ f, Ends (.plain strategy filter limits) body .plain f ∧ f.result.statements ≤ N + 1 ∧
      (f.result.statements = N + 1 ↔ ∃ fault, f.result.fault = some fault ∧ fault.Spends limits) := by
  have hstops : (Plan.ask (.execAll 0 body)).Stops (.plain strategy filter limits) N .plain :=
    Task.stops Hosts.onTheirOwn_standard hbudget (.execAll 0 body) .plain (Nat.zero_le N)
  obtain ⟨n, hn⟩ := hstops
  change (execAll (.plain strategy filter limits) n 0 body .plain).Within limits N .plain at hn
  generalize ho : execAll (.plain strategy filter limits) n 0 body .plain = o at hn
  have hends {f : Finished (HostState Unit)} (hf : Finished.of? strategy o = some f) :
      Ends (.plain strategy filter limits) body .plain f := by
    refine ⟨n, ?_⟩
    rw [← hf, ← ho]
    rfl
  cases hn with
  | @done a u calls grown ticks =>
    refine ⟨_, hends rfl, Nat.le_succ_of_le ticks, ?_⟩
    constructor
    · intro h
      change u.ticks = N + 1 at h
      omega
    · rintro ⟨_, hfault, -⟩
      cases hfault
  | @failed e u ticks he =>
    refine ⟨_, hends rfl, Nat.le_succ_of_le ticks, ?_⟩
    constructor
    · intro h
      change u.ticks = N + 1 at h
      omega
    · rintro ⟨fault, hfault, hspends⟩
      cases hfault
      cases e with
      | fault f => exact absurd hspends (he f rfl)
      | text t => cases hspends.kind
      | breakdown b => cases hspends.kind
  | @spent f u ticks hf =>
    exact ⟨_, hends rfl, Nat.le_of_eq ticks, fun _ => ⟨f, rfl, hf⟩, fun _ => ticks⟩

/-- The loop `while (true) {}`. -/
def endless : List Stmt := [.while ⟨1, ⟨"while", 1, 1⟩⟩ (.boolean ⟨2, ⟨"true", 1, 8⟩⟩ true) []]

/-- An endless loop ends with a budget of three statements. -/
theorem budget_stops_endless_loop :
    Limits.Budget ⟨3, 0, none, fun _ => none⟩ 3 ∧
      ∃ f, Ends (.plain .safe none ⟨3, 0, none, fun _ => none⟩) endless .plain f ∧ f.result.statements = 4 := by
  have hbudget : Limits.Budget ⟨3, 0, none, fun _ => none⟩ 3 := ⟨rfl, by decide⟩
  obtain ⟨f, hf, hle, hiff⟩ := budget_stops_every_program .safe none ⟨3, 0, none, fun _ => none⟩ 3 hbudget endless
  refine ⟨hbudget, f, hf, ?_⟩
  obtain ⟨g, hg, hcount⟩ : ∃ g, Ends (.plain .safe none ⟨3, 0, none, fun _ => none⟩) endless .plain g ∧
      (g.result.statements == 4) = true := Ends.exists_of_any 20 (by decide +kernel)
  rw [hf.unique hg]
  exact beq_iff_eq.mp hcount

end Primer
