import Primer.Proofs.Control.Part
import Primer.Proofs.Run.Plain

/-!
# What is restored when a piece of work is over

Whatever the evaluator does, and however that ends, the scopes are afterwards as they were: the same frames
and the same global scope, and only statements add names to the active scope. The active calls are those
from before as long as no call failed after it was entered. A call that fails is never left: it stays active
although nothing is running in it, and if a host discards the failure, the program goes on with one call less
to make. `Task.run_restored` says so for every piece of work, from every state and with hosts that call back.
-/

set_option autoImplicit false

namespace Primer

open Run

variable {σ α β : Type}

/-! ## Levels -/

/-- Putting the active scope in its own place changes nothing. -/
theorem RunState.withScope_scope (s : RunState σ) : s.withScope s.scope = s := by
  rcases s with ⟨memory, host, globals, _ | ⟨frame, frames⟩, calls, commands, steps, ticks, asked⟩
  · rfl
  · rfl

/-- A state has the levels of another one: the same frames and the same global scope, apart from the names
that were added to the active scope if there may be any. -/
structure RunState.SameLevels (declares : Bool) (s u : RunState σ) : Prop where
  frames : (u.withScope s.scope).frames = s.frames
  globals : (u.withScope s.scope).globals = s.globals
  scope : declares = false → u.scope = s.scope
  names : ∀ name, (s.scope.find? name).isSome → (u.scope.find? name).isSome

namespace RunState.SameLevels

variable {declares : Bool} {s t u : RunState σ}

/-- The same frames and globals are the same levels. -/
theorem of_eq (hframes : u.frames = s.frames) (hglobals : u.globals = s.globals) : s.SameLevels declares u := by
  have hscope : u.scope = s.scope := by simp only [RunState.scope, hframes, hglobals]
  have hself : u.withScope s.scope = u := by rw [← hscope, u.withScope_scope]
  exact ⟨by rw [hself, hframes], by rw [hself, hglobals], fun _ => hscope, fun name h => by rw [hscope]; exact h⟩

/-- Without declarations all levels are the same. -/
theorem eq (h : s.SameLevels false u) : u.frames = s.frames ∧ u.globals = s.globals := by
  have hself : u.withScope s.scope = u := by rw [← h.scope rfl, u.withScope_scope]
  have hframes := h.frames
  have hglobals := h.globals
  rw [hself] at hframes hglobals
  exact ⟨hframes, hglobals⟩

/-- Outside of all functions a state stays outside. -/
theorem frames_nil (h : s.SameLevels declares u) (hs : s.frames = []) : u.frames = [] := by
  have hframes := h.frames
  rw [hs] at hframes
  rcases u with ⟨memory, host, globals, _ | ⟨frame, frames⟩, calls, commands, steps, ticks, asked⟩
  · rfl
  · cases hframes

/-- What declares nothing keeps the levels that what declares may keep. -/
theorem mono (h : s.SameLevels false u) : s.SameLevels declares u := .of_eq h.eq.1 h.eq.2

/-- Keeping the levels passes on. -/
theorem trans (h : s.SameLevels declares t) (h' : t.SameLevels declares u) : s.SameLevels declares u := by
  have hputBack : ((u.withScope t.scope).withScope s.scope).frames = (u.withScope s.scope).frames ∧
      ((u.withScope t.scope).withScope s.scope).globals = (u.withScope s.scope).globals := by
    rcases u with ⟨memory, host, globals, _ | ⟨frame, frames⟩, calls, commands, steps, ticks, asked⟩
    · exact ⟨rfl, rfl⟩
    · exact ⟨rfl, rfl⟩
  have hcongr {v w : RunState σ} (hframes : v.frames = w.frames) (hglobals : v.globals = w.globals) :
      (v.withScope s.scope).frames = (w.withScope s.scope).frames ∧
        (v.withScope s.scope).globals = (w.withScope s.scope).globals := by
    simp only [RunState.withScope]
    rw [hframes]
    cases w.frames with
    | nil => exact ⟨rfl, rfl⟩
    | cons frame frames => exact ⟨rfl, hglobals⟩
  have hback := hcongr h'.frames h'.globals
  exact {
    frames := hputBack.1.symm.trans (hback.1.trans h.frames)
    globals := hputBack.2.symm.trans (hback.2.trans h.globals)
    scope := fun hd => (h'.scope hd).trans (h.scope hd)
    names := fun name hname => h'.names name (h.names name hname) }

/-- The declaration of a name changes the active scope only. -/
theorem declared (s : RunState σ) (memory : Memory) (name : String) (v : Value) :
    s.SameLevels true ({ s with memory := memory }.withScope (s.scope.bind name v)) := by
  have hnames (n : String) (h : (s.scope.find? n).isSome) : ((s.scope.bind name v).find? n).isSome := by
    rw [Scope.find?_bind]
    split
    · rfl
    · exact h
  rcases s with ⟨_, host, globals, _ | ⟨frame, frames⟩, calls, commands, steps, ticks, asked⟩
  · exact ⟨rfl, rfl, nofun, hnames⟩
  · exact ⟨rfl, rfl, nofun, hnames⟩

/-- A function leaves the levels as they were before its frame was pushed. -/
theorem leaveFunction (h : t.SameLevels declares u) {frame : Frame} (hframes : t.frames = frame :: s.frames)
    (hglobals : t.globals = s.globals) : s.SameLevels false (leaveFunction u) := by
  have hu := h.frames
  have hg := h.globals
  rw [hframes] at hu
  rw [hglobals] at hg
  rcases u with ⟨memory, host, globals, _ | ⟨frame', frames⟩, calls, commands, steps, ticks, asked⟩
  · cases hu
  · refine .of_eq ?_ hg
    exact (List.cons.inj hu).2

end RunState.SameLevels

/-! ## Losing a call -/

/-- On its way from a state, a plan enters a call that fails. -/
inductive Plan.LosesCall (cfg : Setting σ) : Nat → {α : Type} → Plan σ α → RunState σ → Prop where
  | failed {n depth info callee args f given s c t u e v}
      (hparts : callParts cfg info callee args f given s = .done c t)
      (henter : enterCall cfg info t = .done () u)
      (hfailed : (Plan.callValue depth info callee c.1 c.2.1).run cfg n u = .failed e v) :
      LosesCall cfg (n + 1) (.ask (.call depth info callee args f given)) s
  | inCall {n depth info callee args f given s c t u}
      (hparts : callParts cfg info callee args f given s = .done c t)
      (henter : enterCall cfg info t = .done () u)
      (h : LosesCall cfg n (Plan.callValue depth info callee c.1 c.2.1) u) :
      LosesCall cfg (n + 1) (.ask (.call depth info callee args f given)) s
  | inFunction {n depth info f args s b t} (hparts : functionParts cfg info f args s = .done b t)
      (h : LosesCall cfg n (.ask (.execAll depth f.body)) (pushFrame f b.1 b.2 t)) :
      LosesCall cfg (n + 1) (.ask (.callFunction depth info f args)) s
  | ask {n α} {t : Task σ α} {s} (ht : t.isCall = false) (h : LosesCall cfg n (t.plan cfg) s) :
      LosesCall cfg (n + 1) (.ask t) s
  | hostCall {n depth info callee key args s k f fargs t}
      (reached : HostReaches cfg depth n (cfg.hosts.call key (s.view cfg.strategy) s.host s.memory args) s
        k f fargs t)
      (h : LosesCall cfg k (.ask (.callFunction depth f.info f fargs)) t) :
      LosesCall cfg n (.hostCall depth info callee key args) s
  | hostSet {n depth info target key v action s k f fargs t}
      (hset : cfg.hosts.set key (s.view cfg.strategy) s.host s.memory v = some action)
      (reached : HostReaches cfg depth n action s k f fargs t)
      (h : LosesCall cfg k (.ask (.callFunction depth f.info f fargs)) t) :
      LosesCall cfg n (.hostSet depth info target key v) s
  | first {n α β} {x : Plan σ α} {f : α → Plan σ β} {s} (h : LosesCall cfg n x s) :
      LosesCall cfg n (.bind x f) s
  | next {n α β} {x : Plan σ α} {f : α → Plan σ β} {s a t} (hx : x.run cfg n s = .done a t)
      (h : LosesCall cfg n (f a) t) : LosesCall cfg n (.bind x f) s

/-- A call is only lost in a task, in a host, or in one of two plans. -/
theorem Plan.LosesCall.inv {cfg : Setting σ} {n : Nat} {p : Plan σ α} {s : RunState σ} (h : p.LosesCall cfg n s) :
    (match p with
    | .ask _ | .hostCall .. | .hostSet .. | .bind .. => True
    | _ => False) := by
  cases h <;> exact trivial

/-- When a call loses a call: it is one that fails after it was entered, or has one in it. -/
theorem Plan.losesCall_call_iff {cfg : Setting σ} {n depth : Nat} {info : Info} {callee : Expr} {args : List Expr}
    {f : Value} {given : List Value} {s : RunState σ} :
    (Plan.ask (.call depth info callee args f given)).LosesCall cfg (n + 1) s ↔ ∃ c t u,
      callParts cfg info callee args f given s = .done c t ∧ enterCall cfg info t = .done () u ∧
        ((∃ e v, (Plan.callValue depth info callee c.1 c.2.1).run cfg n u = .failed e v) ∨
          (Plan.callValue depth info callee c.1 c.2.1).LosesCall cfg n u) := by
  constructor
  · intro h
    cases h with
    | failed hparts henter hfailed => exact ⟨_, _, _, hparts, henter, .inl ⟨_, _, hfailed⟩⟩
    | inCall hparts henter h => exact ⟨_, _, _, hparts, henter, .inr h⟩
    | ask hask => cases hask
  · rintro ⟨c, t, u, hparts, henter, ⟨e, v, hfailed⟩ | h⟩
    · exact .failed hparts henter hfailed
    · exact .inCall hparts henter h

/-- A function loses a call exactly when its body does, once it was entered. -/
theorem Plan.losesCall_callFunction_iff {cfg : Setting σ} {n depth : Nat} {info : Info} {f : UserFunction}
    {args : List Value} {s : RunState σ} :
    (Plan.ask (.callFunction depth info f args)).LosesCall cfg (n + 1) s ↔ ∃ b t,
      functionParts cfg info f args s = .done b t ∧
        (Plan.ask (.execAll depth f.body)).LosesCall cfg n (pushFrame f b.1 b.2 t) := by
  constructor
  · intro h
    cases h with
    | inFunction hparts h => exact ⟨_, _, hparts, h⟩
    | ask hask => cases hask
  · rintro ⟨b, t, hparts, h⟩
    exact .inFunction hparts h

/-- A task that is no call loses a call exactly when its plan does. -/
theorem Plan.losesCall_ask_iff {cfg : Setting σ} {n : Nat} {t : Task σ α} {s : RunState σ}
    (ht : t.isCall = false) : (Plan.ask t).LosesCall cfg (n + 1) s ↔ (t.plan cfg).LosesCall cfg n s := by
  constructor
  · intro h
    cases h with
    | ask _ h => exact h
    | failed => cases ht
    | inCall => cases ht
    | inFunction => cases ht
  · exact .ask ht

/-- A sequence loses a call in its first step or, from where that is done, in the rest. -/
theorem Plan.losesCall_bind_of_done {cfg : Setting σ} {n : Nat} {x : Plan σ α} {f : α → Plan σ β} {s t : RunState σ}
    {a : α} (hx : x.run cfg n s = .done a t) :
    (Plan.bind x f).LosesCall cfg n s ↔ x.LosesCall cfg n s ∨ (f a).LosesCall cfg n t := by
  constructor
  · intro h
    cases h with
    | first h => exact .inl h
    | next hx' h =>
      rw [hx] at hx'
      cases hx'
      exact .inr h
  · rintro (h | h)
    · exact .first h
    · exact .next hx h

/-- A sequence whose first step fails loses a call exactly when that step does. -/
theorem Plan.losesCall_bind_of_failed {cfg : Setting σ} {n : Nat} {x : Plan σ α} {f : α → Plan σ β}
    {s t : RunState σ} {e : Failure} (hx : x.run cfg n s = .failed e t) :
    (Plan.bind x f).LosesCall cfg n s ↔ x.LosesCall cfg n s := by
  constructor
  · intro h
    cases h with
    | first h => exact h
    | next hx' h =>
      rw [hx] at hx'
      cases hx'
  · exact .first

/-- A function that a host calls back loses a call. -/
def HostAction.LosesCall (cfg : Setting σ) (depth n : Nat) (action : HostAction σ) (s : RunState σ) : Prop :=
  ∃ k f args t, HostReaches cfg depth n action s k f args t ∧
    (Plan.ask (.callFunction depth f.info f args)).LosesCall cfg k t

namespace HostAction

variable {cfg : Setting σ} {depth n : Nat} {s t : RunState σ} {f : UserFunction} {args : List Value} {host : σ}
  {memory : Memory} {next : Except Failure Value → View → σ → Memory → HostAction σ}

/-- A host that is finished loses no call. -/
theorem not_losesCall_finish (answer : Except HostFailure Value) :
    ¬ (HostAction.finish answer host memory).LosesCall cfg depth n s := by
  rintro ⟨_, _, _, _, hreached, _⟩
  cases hreached

/-- A host that calls back loses a call in the function or in what it goes on with. -/
theorem losesCall_callBack_of_done {v : Value}
    (hrun : callFunction cfg n depth f.info f args { s with host := host, memory := memory } = .done v t) :
    (HostAction.callBack f args host memory next).LosesCall cfg depth (n + 1) s ↔
      (Plan.ask (.callFunction depth f.info f args)).LosesCall cfg n { s with host := host, memory := memory } ∨
        (next (.ok v) (t.view cfg.strategy) t.host t.memory).LosesCall cfg depth n t := by
  constructor
  · rintro ⟨k, g, gargs, u, hreached, hlost⟩
    cases hreached with
    | now => exact .inl hlost
    | answered hdone hreached =>
      rw [hrun] at hdone
      cases hdone
      exact .inr ⟨k, g, gargs, u, hreached, hlost⟩
    | refused hfailed =>
      rw [hrun] at hfailed
      cases hfailed
  · rintro (hlost | ⟨k, g, gargs, u, hreached, hlost⟩)
    · exact ⟨n, f, args, _, .now, hlost⟩
    · exact ⟨k, g, gargs, u, .answered hrun hreached, hlost⟩

/-- A host that discards a failure loses a call in the function or in what it goes on with. -/
theorem losesCall_callBack_of_failed {e : Failure}
    (hrun : callFunction cfg n depth f.info f args { s with host := host, memory := memory } = .failed e t) :
    (HostAction.callBack f args host memory next).LosesCall cfg depth (n + 1) s ↔
      (Plan.ask (.callFunction depth f.info f args)).LosesCall cfg n { s with host := host, memory := memory } ∨
        (next (.error e) (t.view cfg.strategy) t.host t.memory).LosesCall cfg depth n t := by
  constructor
  · rintro ⟨k, g, gargs, u, hreached, hlost⟩
    cases hreached with
    | now => exact .inl hlost
    | answered hdone =>
      rw [hrun] at hdone
      cases hdone
    | refused hfailed hreached =>
      rw [hrun] at hfailed
      cases hfailed
      exact .inr ⟨k, g, gargs, u, hreached, hlost⟩
  · rintro (hlost | ⟨k, g, gargs, u, hreached, hlost⟩)
    · exact ⟨n, f, args, _, .now, hlost⟩
    · exact ⟨k, g, gargs, u, .refused hrun hreached, hlost⟩

end HostAction

/-- The call of a host loses a call exactly when the host does. -/
theorem Plan.losesCall_hostCall_iff {cfg : Setting σ} {n depth : Nat} {info : Info} {callee : Expr}
    {key : FunctionKey} {args : List Value} {s : RunState σ} :
    (Plan.hostCall depth info callee key args).LosesCall cfg n s ↔
      (cfg.hosts.call key (s.view cfg.strategy) s.host s.memory args).LosesCall cfg depth n s := by
  constructor
  · intro h
    cases h with
    | hostCall hreached h => exact ⟨_, _, _, _, hreached, h⟩
  · rintro ⟨k, f, fargs, t, hreached, h⟩
    exact .hostCall hreached h

/-- Writing a host variable loses a call exactly when the host does. -/
theorem Plan.losesCall_hostSet_iff {cfg : Setting σ} {n depth : Nat} {info : Info} {target : Expr}
    {key : VariableKey} {v : Value} {s : RunState σ} :
    (Plan.hostSet depth info target key v).LosesCall cfg n s ↔
      ∃ action ∈ cfg.hosts.set key (s.view cfg.strategy) s.host s.memory v, action.LosesCall cfg depth n s := by
  constructor
  · intro h
    cases h with
    | hostSet hset hreached h => exact ⟨_, hset, _, _, _, _, hreached, h⟩
  · rintro ⟨action, hset, k, f, fargs, t, hreached, h⟩
    exact .hostSet hset hreached h

/-- A state after a piece of work: it has the levels from before, the active calls from before are still
active, and there are no others exactly if none was lost. -/
structure RunState.Restored (declares : Bool) (lost : Prop) (s u : RunState σ) : Prop where
  levels : s.SameLevels declares u
  calls : s.calls <:+ u.calls
  calls_eq : u.calls = s.calls ↔ ¬ lost

namespace RunState.Restored

variable {declares : Bool} {lost lost' lost'' : Prop} {s t u : RunState σ}

/-- A state with the same control but for the counted statements is restored. -/
theorem of_control (hlost : ¬ lost) {ticks : Nat} (h : u.control = { s.control with ticks := ticks }) :
    s.Restored declares lost u := by
  obtain ⟨hglobals, hframes, hcalls, -⟩ := Control.mk.inj h
  change u.calls = s.calls at hcalls
  refine ⟨.of_eq hframes hglobals, ?_, ?_⟩
  · exact ⟨[], hcalls.symm⟩
  · simp only [hcalls, hlost, not_false_eq_true]

/-- Being restored passes on, and a call is lost if it was lost on the way. -/
theorem trans (h : s.Restored declares lost t) (h' : t.Restored declares lost' u)
    (hlost : lost'' ↔ lost ∨ lost') : s.Restored declares lost'' u := by
  refine ⟨h.levels.trans h'.levels, h.calls.trans h'.calls, ?_⟩
  rw [hlost, not_or, ← h.calls_eq, ← h'.calls_eq]
  constructor
  · intro heq
    have hlength := h.calls.length_le
    have hlength' := h'.calls.length_le
    rw [heq] at hlength'
    have hst : s.calls = t.calls := h.calls.eq_of_length (by omega)
    exact ⟨hst.symm, by rw [heq, hst]⟩
  · rintro ⟨hts, hut⟩
    rw [hut, hts]

/-- What was done before without touching the control state does not matter. -/
theorem after (h : t.Restored declares lost u) (hcontrol : t.control = s.control) : s.Restored declares lost u :=
  RunState.Restored.trans (of_control not_false hcontrol) h (by simp)

/-- What restores without declaring restores. -/
theorem mono (h : s.Restored false lost u) : s.Restored declares lost u := ⟨h.levels.mono, h.calls, h.calls_eq⟩

/-- Whether a call was lost may be said in another way. -/
theorem congr (h : s.Restored declares lost u) (hlost : lost' ↔ lost) : s.Restored declares lost' u :=
  ⟨h.levels, h.calls, by rw [hlost]; exact h.calls_eq⟩

end RunState.Restored

/-! ## Hosts and plans -/

/-- A steady computation restores everything, and no call is lost in it. -/
theorem Run.Steady.restored {E : Failure → Prop} {x : Run σ α} (hx : x.Steady E) {declares : Bool} {lost : Prop}
    (hlost : ¬ lost) (s : RunState σ) : (x s).Leaves (s.Restored declares lost) :=
  (hx.run s).leaves.imp fun _ hu => .of_control hlost hu

/-- A host restores what the functions that it calls back restore. -/
theorem runHost_restored (cfg : Setting σ) (depth : Nat) (info : Info) (use : HostUse) {n : Nat}
    (hcall : ∀ k < n, ∀ (f : UserFunction) (args : List Value) (t : RunState σ),
      (callFunction cfg k depth f.info f args t).Leaves
        (t.Restored false ((Plan.ask (.callFunction depth f.info f args)).LosesCall cfg k t)))
    (action : HostAction σ) (s : RunState σ) :
    (runHost cfg n depth info use action s).Leaves (s.Restored false (action.LosesCall cfg depth n s)) := by
  induction n generalizing action s with
  | zero => exact trivial
  | succ n ih =>
    cases action with
    | finish answer host memory =>
      have hsteady := Run.Steady.finish (.all cfg) n depth info use answer host memory fun _ _ => trivial
      exact hsteady.restored (HostAction.not_losesCall_finish answer) s
    | callBack f args host memory next =>
      have hs := hcall n (Nat.lt_succ_self n) f args { s with host := host, memory := memory }
      have hrest {lost : Prop} {t : RunState σ} (action : HostAction σ)
          (ht : ({ s with host := host, memory := memory } : RunState σ).Restored false lost t) :
          (runHost cfg n depth info use action t).Leaves
            (s.Restored false (lost ∨ action.LosesCall cfg depth n t)) := by
        have hbefore : s.Restored false lost t := ht.after rfl
        apply (ih (fun k hk => hcall k (Nat.lt_succ_of_lt hk)) action t).imp
        intro u hu
        exact hbefore.trans hu Iff.rfl
      rw [runHost_callBack]
      cases hrun : callFunction cfg n depth f.info f args { s with host := host, memory := memory } with
      | done v t =>
        rw [hrun] at hs
        rw [HostAction.losesCall_callBack_of_done hrun]
        exact hrest _ hs
      | failed e t =>
        rw [hrun] at hs
        rw [HostAction.losesCall_callBack_of_failed hrun]
        exact hrest _ hs
      | exhausted => exact trivial

/-- Counting a statement restores everything else. -/
theorem tick_restored (cfg : Setting σ) (info : Info) {declares : Bool} {lost : Prop} (hlost : ¬ lost) (s : RunState σ) :
    (tick cfg info s).Leaves (s.Restored declares lost) := by
  have hticked := tick_ticked cfg info s
  generalize tick cfg info s = o at hticked
  cases hticked with
  | done hu => exact .of_control hlost hu
  | spent hu => exact .of_control hlost hu
  | stopped hu =>
    rcases hu with hu | ⟨hu, -⟩
    · exact .of_control hlost hu
    · exact .of_control hlost hu

/-- Whatever restores its tasks restores itself. -/
theorem Plan.Made.restored {cfg : Setting σ} {n : Nat} {declares : Bool} {asked : (α : Type) → Task σ α → Prop}
    (hasked : ∀ α (t : Task σ α), asked α t → declares = false → t.declares = false)
    (htask : ∀ k ≤ n, ∀ {α : Type} (t : Task σ α) (s : RunState σ),
      (t.run cfg k s).Leaves (s.Restored t.declares ((Plan.ask t).LosesCall cfg k s)))
    {p : Plan σ α} (hp : p.Made cfg declares asked) (s : RunState σ) :
    (p.run cfg n s).Leaves (s.Restored declares (p.LosesCall cfg n s)) := by
  have hall := Allows.all cfg
  have hcall (depth : Nat) : ∀ k < n, ∀ (f : UserFunction) (args : List Value) (t : RunState σ),
      (callFunction cfg k depth f.info f args t).Leaves
        (t.Restored false ((Plan.ask (.callFunction depth f.info f args)).LosesCall cfg k t)) :=
    fun k hk f args t => htask k (Nat.le_of_lt hk) (.callFunction depth f.info f args) t
  induction hp generalizing s with
  | act h => exact (h.steady hall (fun _ _ => trivial) fun _ => trivial).restored (fun h => h.inv) s
  -- A declared name is the one thing that a statement leaves behind in the scope.
  | @declareName name v quiet h =>
    subst h
    refine ⟨.declared .., ?_, ?_⟩
    · refine ⟨[], ?_⟩
      rw [RunState.calls_withScope]
      rfl
    · rw [RunState.calls_withScope]
      exact ⟨fun _ h => h.inv, fun _ => rfl⟩
  | mark place =>
    cases place with
    | record info tag => exact (Run.Steady.record hall info tag).restored (fun h => h.inv) s
    | tick info => exact tick_restored cfg info (fun h => h.inv) s
  | narrate category node message changes =>
    exact (Run.Steady.narrate (E := fun _ => True) category node message changes).restored (fun h => h.inv) s
  | @ask α t h =>
    apply (htask n (Nat.le_refl n) t s).imp
    intro u hu
    cases declares with
    | false =>
      rw [hasked α t h rfl] at hu
      exact hu
    | true =>
      cases ht : t.declares with
      | false =>
        rw [ht] at hu
        exact hu.mono
      | true =>
        rw [ht] at hu
        exact hu
  | hostCall depth info callee key args =>
    rw [Plan.losesCall_hostCall_iff]
    apply (runHost_restored cfg depth info (.call callee) (hcall depth) _ s).imp
    intro _ hu
    exact hu.mono
  | hostSet depth info target key v =>
    rw [Plan.losesCall_hostSet_iff]
    simp only [Plan.run]
    cases hset : cfg.hosts.set key (s.view cfg.strategy) s.host s.memory v with
    | none => exact (Run.Steady.cannotAssign hall info target v).restored (by simp) s
    | some action =>
      apply (runHost_restored cfg depth info (.assign target) (hcall depth) action s).imp
      intro u hu
      exact hu.mono.congr (by simp)
  | @bind α β x f hx hf ihx ihf =>
    have hs := ihx s
    show (Run.andThen (x.run cfg n) (fun a => (f a).run cfg n) s).Leaves _
    unfold Run.andThen
    cases hrun : x.run cfg n s with
    | done a t =>
      rw [hrun] at hs
      rw [Plan.losesCall_bind_of_done hrun]
      exact (ihf a t).imp fun u hu => hs.trans hu Iff.rfl
    | failed e t =>
      rw [hrun] at hs
      rw [Plan.losesCall_bind_of_failed hrun]
      exact hs
    | exhausted => exact trivial
  | @recorded α x quiet h info tag =>
    have hsteady := h.steady hall (fun _ _ => trivial) fun _ => trivial
    exact (hsteady.onFailure (.record hall info tag)).restored (fun h => h.inv) s

/-! ## Tasks -/

/-- The call that is left is not always the one that was entered, but one that is active besides those from
before. None but those are left over exactly if the one that was entered is left. -/
theorem tail_of_entered {token : Token} {before active : List Token} (h : token :: before <:+ active) :
    before <:+ active.tail ∧ (active.tail = before ↔ active = token :: before) := by
  obtain ⟨more, rfl⟩ := h
  cases more with
  | nil => exact ⟨List.suffix_refl before, fun _ => rfl, fun _ => rfl⟩
  | cons first more =>
    refine ⟨⟨more ++ [token], by simp⟩, fun heq => ?_, fun heq => ?_⟩
    · have hlength := congrArg List.length heq
      simp only [List.cons_append, List.tail_cons, List.length_append, List.length_cons] at hlength
      omega
    · have hlength := congrArg List.length heq
      simp only [List.length_append, List.length_cons] at hlength
      omega

/-- What runs while a call is active restores what was there before the call, unless it fails. -/
theorem Run.leaves_entered {x : Run σ Value} {rest : Value → Run σ Value} {E : Failure → Prop} {lost : Prop}
    {t u : RunState σ} {token : Token} (hu : u.control = { t.control with calls := token :: t.calls })
    (hx : (x u).Leaves (u.Restored false lost)) (hrest : ∀ v, (rest v).Steady E) :
    ((x >>= fun v => leaveCall >>= fun _ => rest v) u).Leaves
      (t.Restored false ((∃ e w, x u = .failed e w) ∨ lost)) := by
  obtain ⟨hglobals, hframes, hcalls, -⟩ := Control.mk.inj hu
  show (Run.andThen x (fun v => leaveCall >>= fun _ => rest v) u).Leaves _
  unfold Run.andThen
  generalize x u = o at hx
  cases o with
  | done v w =>
    have hlevels := hx.levels.eq
    have hsuffix := hx.calls
    have hkept := hx.calls_eq
    rw [hcalls] at hsuffix hkept
    obtain ⟨hleft, htail⟩ := tail_of_entered hsuffix
    have hlost : ¬ ((∃ e w', Outcome.done v w = .failed e w') ∨ lost) ↔ ¬ lost := by simp
    have hrestored : t.Restored false ((∃ e w', Outcome.done v w = .failed e w') ∨ lost)
        { w with calls := w.calls.tail } := by
      refine ⟨.of_eq (hlevels.1.trans hframes) (hlevels.2.trans hglobals), hleft, ?_⟩
      rw [hlost]
      exact htail.trans hkept
    apply ((hrest v).restored not_false _).imp
    intro _ hz
    exact hrestored.trans hz (by simp)
  | failed e w =>
    have hlevels := hx.levels.eq
    have hgrown := hx.calls
    rw [hcalls] at hgrown
    have hlonger : w.calls ≠ t.calls := by
      intro heq
      have hlength := hgrown.length_le
      rw [heq] at hlength
      rw [List.length_cons] at hlength
      omega
    refine ⟨.of_eq (hlevels.1.trans hframes) (hlevels.2.trans hglobals), ?_, ?_⟩
    · exact (List.suffix_cons token t.calls).trans hgrown
    · simp [hlonger]
  | exhausted => exact trivial

/-- A call restores everything unless it fails after it was entered. -/
theorem Task.run_call_restored {cfg : Setting σ} {n depth : Nat} {info : Info} {callee : Expr}
    {args : List Expr} {f : Value} {given : List Value}
    (hcall : ∀ (g : Value) (vs : List Value) (t : RunState σ),
      ((Plan.callValue depth info callee g vs).run cfg n t).Leaves
        (t.Restored false ((Plan.callValue depth info callee g vs).LosesCall cfg n t))) (s : RunState σ) :
    ((Task.call depth info callee args f given).run cfg (n + 1) s).Leaves
      (s.Restored false ((Plan.ask (.call depth info callee args f given)).LosesCall cfg (n + 1) s)) := by
  have hall := Allows.all cfg
  have hparts := (callParts_steady hall info callee args f given).run s
  rw [Task.run_call, Plan.losesCall_call_iff]
  show (Run.andThen _ _ s).Leaves _
  unfold Run.andThen
  generalize callParts cfg info callee args f given s = o at hparts
  cases hparts with
  | @failed e t ht => exact .of_control (by simp) ht
  | @done c t ht =>
    show (Run.andThen (enterCall cfg info) _ t).Leaves _
    unfold Run.andThen
    rcases Nat.lt_or_ge t.calls.length cfg.limits.callDepth with hroom | hfull
    · rw [enterCall_of_lt hroom]
      apply (leaves_entered rfl (hcall c.1 c.2.1 _) fun v => Plan.callResult_steady (E := fun _ => True) n info c.2.2
        v).imp
      intro u hu
      refine (hu.after ht).congr ?_
      constructor
      · rintro ⟨_, _, _, hparts, henter, h⟩
        cases hparts
        rw [enterCall_of_lt hroom] at henter
        cases henter
        exact h
      · exact fun h => ⟨c, t, _, rfl, enterCall_of_lt hroom info, h⟩
    · rw [enterCall_of_le hfull]
      refine RunState.Restored.of_control ?_ ht
      rintro ⟨_, _, _, hparts, henter, -⟩
      cases hparts
      rw [enterCall_of_le hfull] at henter
      cases henter

/-- A function restores everything unless a call is lost in its body. -/
theorem Task.run_callFunction_restored {cfg : Setting σ} {n depth : Nat} {info : Info} {f : UserFunction}
    {args : List Value}
    (hbody : ∀ t, ((Task.execAll depth f.body).run cfg n t).Leaves
      (t.Restored true ((Plan.ask (.execAll depth f.body)).LosesCall cfg n t))) (s : RunState σ) :
    ((Task.callFunction depth info f args).run cfg (n + 1) s).Leaves
      (s.Restored false ((Plan.ask (.callFunction depth info f args)).LosesCall cfg (n + 1) s)) := by
  have hparts := (functionParts_steady (.all cfg) info f args).run s
  rw [Task.run_callFunction, Plan.losesCall_callFunction_iff]
  show (Run.andThen _ _ s).Leaves _
  unfold Run.andThen
  generalize functionParts cfg info f args s = o at hparts
  cases hparts with
  | @failed e t ht => exact .of_control (by simp) ht
  | @done b t ht =>
    have hlost : (∃ b' t', Outcome.done b t = .done b' t' ∧
        (Plan.ask (.execAll depth f.body)).LosesCall cfg n (pushFrame f b'.1 b'.2 t')) ↔
          (Plan.ask (.execAll depth f.body)).LosesCall cfg n (pushFrame f b.1 b.2 t) := by
      constructor
      · rintro ⟨_, _, hparts, h⟩
        cases hparts
        exact h
      · exact fun h => ⟨b, t, rfl, h⟩
    rw [hlost]
    have hleave {lost : Prop} {u : RunState σ} (hu : (pushFrame f b.1 b.2 t).Restored true lost u) :
        s.Restored false lost (leaveFunction u) :=
      RunState.Restored.after ⟨hu.levels.leaveFunction rfl rfl, hu.calls, hu.calls_eq⟩ ht
    have hrun := hbody (pushFrame f b.1 b.2 t)
    show (Plan.framed _ (pushFrame f b.1 b.2 t)).Leaves _
    unfold Plan.framed
    generalize (Task.execAll depth f.body).run cfg n (pushFrame f b.1 b.2 t) = o at hrun
    cases o with
    | done a u => exact hleave hrun
    | failed e u => exact hleave hrun
    | exhausted => exact trivial

/-- Every piece of work restores the control state, from every state and however it ends: the frames and
scopes are as before, but for names that a statement adds to the active scope, and so are the active calls,
exactly unless a call failed in it after it was entered. -/
theorem Task.run_restored (cfg : Setting σ) (n : Nat) (t : Task σ α) (s : RunState σ) :
    (t.run cfg n s).Leaves (s.Restored t.declares ((Plan.ask t).LosesCall cfg n s)) := by
  -- A host may call back with any smaller bound, so the bound before this one is not enough.
  induction n using Nat.strongRecOn generalizing α t s with
  | _ n ih =>
    cases n with
    | zero =>
      rw [show t.run cfg 0 s = .exhausted by cases t <;> rfl]
      exact trivial
    | succ n =>
      have htask : ∀ k ≤ n, ∀ {α : Type} (t : Task σ α) (s : RunState σ),
          (t.run cfg k s).Leaves (s.Restored t.declares ((Plan.ask t).LosesCall cfg k s)) :=
        fun k hk _ t s => ih k (Nat.lt_succ_of_le hk) t s
      cases hkind : t.isCall with
      | true =>
        cases t with
        | call depth info callee args f given =>
          refine run_call_restored ?_ s
          intro g vs u
          exact (Plan.callValue_made cfg depth info callee g vs).restored (fun _ _ h _ => h) htask u
        | callFunction depth info f args =>
          exact run_callFunction_restored (fun u => htask n (Nat.le_refl n) (.execAll depth f.body) u) s
        | _ => cases hkind
      | false =>
        rw [Task.run_succ, Plan.losesCall_ask_iff hkind]
        exact (t.plan_made cfg hkind).restored (fun _ _ h => h) htask s

/-- A program that started outside of all functions ends there. -/
theorem Ends.frames_nil {cfg : Setting σ} {body : List Stmt} {s : RunState σ} {f : Finished σ}
    (hf : Ends cfg body s f) (hs : s.frames = []) : f.state.frames = [] := by
  obtain ⟨n, hn⟩ := hf
  have hrestored := (Task.execAll 0 body).run_restored cfg n s
  change (execAll cfg n 0 body s).Leaves _ at hrestored
  unfold runBounded at hn
  generalize execAll cfg n 0 body s = o at hn hrestored
  cases o with
  | done a u =>
    cases hn
    exact hrestored.levels.frames_nil hs
  | failed e u =>
    cases hn
    exact hrestored.levels.frames_nil hs
  | exhausted => cases hn

/-- The control state after any expression, statement, call or function that a host calls back, with a value
or with a failure. All frames and the global scope are as they were, and the active scope has lost no name; it
is the same altogether, unless a statement ran. All calls that were active still are. No others are, and so
there is room for as many further calls as before, exactly if no call failed after it was entered. -/
theorem control_kept_unless_call_lost (cfg : Setting σ) (n : Nat) (t : Task σ α) (s : RunState σ) :
    (t.run cfg n s).Leaves fun u =>
      (u.withScope s.scope).frames = s.frames ∧ (u.withScope s.scope).globals = s.globals ∧
      (t.declares = false → u.frames = s.frames ∧ u.globals = s.globals) ∧
      (∀ name, (s.scope.find? name).isSome → (u.scope.find? name).isSome) ∧
      s.calls <:+ u.calls ∧ (u.calls = s.calls ↔ ¬ (Plan.ask t).LosesCall cfg n s) := by
  apply (t.run_restored cfg n s).imp
  intro u hu
  refine ⟨hu.levels.frames, hu.levels.globals, ?_, hu.levels.names, hu.calls, hu.calls_eq⟩
  intro ht
  have hlevels := hu.levels
  rw [ht] at hlevels
  exact hlevels.eq

/-- A host with one function, which calls the function that it is given and does not care how that ends. -/
def Hosts.careless : Hosts Unit where
  member _ _ _ := none
  call _ _ host memory args :=
    match args with
    | .function f :: _ => .callBack f [] host memory fun _ _ host memory => .finish (.ok .undefined) host memory
    | _ => .finish (.ok .undefined) host memory
  get _ host memory := (.ok .undefined, host, memory)
  set _ _ _ _ _ := none

/-- The statement `callee(arguments);`. -/
def Stmt.ofCall (callee : String) (arguments : List Expr) : Stmt :=
  let info : Info := ⟨0, ⟨callee, 1, 1⟩⟩
  .call info ⟨info, .name info callee, arguments⟩

/-- The function `try` of the careless host, a function `f` that calls `g` without arguments, and a function `g`
that wants one. -/
def carelessNames : List (String × Value) :=
  let info : Info := ⟨0, ⟨"function", 1, 1⟩⟩
  [("try", .hostFunction ⟨.extra 0, "try"⟩), ("f", .function ⟨0, info, "f", [], [.ofCall "g" []]⟩),
    ("g", .function ⟨1, info, "g", ["x"], []⟩)]

/-- A careless host lets a program go on after a call in it has failed, and that call stays active: `try(f);`
ends without a fault, and one call is still active. -/
theorem call_stays_active_after_discarded_failure :
    ∃ f, Ends ⟨.safe, none, .none, Hosts.careless⟩ [.ofCall "try" [.name ⟨0, ⟨"f", 1, 1⟩⟩ "f"]]
      (initialState () Memory.empty carelessNames) f ∧ f.result.fault = none ∧ f.state.calls.length = 1 := by
  obtain ⟨f, hf, hchecked⟩ : ∃ f, Ends ⟨.safe, none, .none, Hosts.careless⟩
      [.ofCall "try" [.name ⟨0, ⟨"f", 1, 1⟩⟩ "f"]] (initialState () Memory.empty carelessNames) f ∧
        (f.result.fault.isNone && f.state.calls.length == 1) = true :=
    Ends.exists_of_any 12 (by decide +kernel)
  simp only [Bool.and_eq_true, Option.isNone_iff_eq_none, beq_iff_eq] at hchecked
  exact ⟨f, hf, hchecked⟩

/-! ## Hosts that call nothing back -/

/-- Nothing goes on after a lost call if no host can discard its failure. -/
theorem Plan.LosesCall.not_done {cfg : Setting σ} (hstill : cfg.hosts.Still) {n : Nat} {p : Plan σ α}
    {s u : RunState σ} {a : α} (h : p.LosesCall cfg n s) : p.run cfg n s ≠ .done a u := by
  induction h generalizing u with
  | failed hparts henter hfailed =>
    show Task.run cfg _ _ _ ≠ _
    rw [Task.run_call, Run.bind_of_done hparts, Run.bind_of_done henter, Run.bind_of_failed hfailed]
    exact fun h => nomatch h
  | inCall hparts henter _ ih =>
    show Task.run cfg _ _ _ ≠ _
    rw [Task.run_call, Run.bind_of_done hparts, Run.bind_of_done henter]
    intro h
    obtain ⟨_, _, hcall, -⟩ := Run.bind_eq_done h
    exact ih hcall
  | @inFunction n depth info f args s b t hparts _ ih =>
    show Task.run cfg _ _ _ ≠ _
    rw [Task.run_callFunction, Run.bind_of_done hparts]
    show Plan.framed _ (pushFrame f b.1 b.2 t) ≠ _
    unfold Plan.framed
    change ∀ u a, (Task.execAll depth f.body).run cfg n (pushFrame f b.1 b.2 t) ≠ .done a u at ih
    generalize (Task.execAll depth f.body).run cfg n (pushFrame f b.1 b.2 t) = o at ih
    cases o with
    | done a u => exact absurd rfl (ih u a)
    | failed e u => exact fun h => nomatch h
    | exhausted => exact fun h => nomatch h
  | ask _ _ ih =>
    show Task.run cfg _ _ _ ≠ _
    rw [Task.run_succ]
    exact ih
  -- A host that is finished at once has begun nothing in which a call could be lost.
  | hostCall reached => exact absurd (hstill.call ..) reached.not_finished
  | hostSet hset reached => exact absurd (hstill.set _ _ _ _ _ _ hset) reached.not_finished
  | first _ ih =>
    intro h
    obtain ⟨_, _, hx, -⟩ := Run.bind_eq_done h
    exact ih hx
  | next hx _ ih =>
    show (_ >>= _ : Run _ _) _ ≠ _
    rw [Run.bind_of_done hx]
    exact ih

/-- What is done with hosts that call nothing back has restored the active calls. -/
theorem Task.calls_of_done {cfg : Setting σ} (hstill : cfg.hosts.Still) {n : Nat} {t : Task σ α}
    {s u : RunState σ} {a : α} (h : t.run cfg n s = .done a u) : u.calls = s.calls := by
  have hrestored := t.run_restored cfg n s
  rw [h] at hrestored
  exact hrestored.calls_eq.mpr fun hlost => hlost.not_done hstill h

end Primer
