import Primer.Proofs.Element.Action
import Primer.Proofs.Locals.Plan

/-!
# Plans that leave elements in their cells

An element that is watched may be cut off in the middle of a run, and a later write may then give its slot another
cell. A plan carries along what is watched under a condition on the states that it comes by: if all of them meet the
condition, then what is watched is there in all of them (`Plan.Carries`). The condition is that the array of the
element is long enough wherever the run comes by. Only hosts and writes to lengths need it, so the rules for the ways
to put plans together leave it open.
-/

set_option autoImplicit false

namespace Primer

open Run

variable {σ α β : Type} {W : Watch σ} {C : RunState σ → Prop}

/-- A plan that is begun in a state comes by states only that meet a condition. -/
def Plan.Meets (cfg : Setting σ) (n : Nat) (C : RunState σ → Prop) (p : Plan σ α) (s : RunState σ) : Prop :=
  ∀ e u, p.Reaches cfg n s e u → C u

/-- A condition that leaves room for the element that is watched. -/
def Watch.Inside (W : Watch σ) (C : RunState σ → Prop) : Prop :=
  ∀ u, C u → ∀ x ∈ W.element, x.index < u.memory.size x.array

/-- A watch without an element keeps inside every condition. -/
theorem Watch.inside_ofArrays {k : Nat} {hosts : Holding σ} : (Watch.ofArrays k hosts).Inside C :=
  fun _ _ _ hx => nomatch hx

/-- A plan that carries along what is watched, under a condition on the states that it comes by. -/
structure Plan.Carries (cfg : Setting σ) (n : Nat) (W : Watch σ) (C : RunState σ → Prop) (p : Plan σ α)
    (Q : Nat → α → Prop) : Prop where
  run : ∀ s, s.Carries W → p.Meets cfg n C s → (p.run cfg n s).Carries W Q
  reaches : ∀ s e u, s.Carries W → p.Meets cfg n C s → p.Reaches cfg n s e u → u.Carries W

section Reached

variable {cfg : Setting σ} {n : Nat} {p : Plan σ α} {s u : RunState σ}

/-- A plan that meets a condition all the way meets it at its start. -/
theorem Plan.Meets.start (h : p.Meets cfg n C s) : C s := h none s (.border .start)

/-- The state in which a plan ends is one of those that it comes by. -/
theorem Plan.Meets.leaves (h : p.Meets cfg n C s) : (p.run cfg n s).Leaves C := by
  cases hrun : p.run cfg n s with
  | done a u => exact h none u (.border (.done hrun))
  | failed e u => exact h (some e) u (.border (.failed hrun))
  | exhausted => exact trivial

/-- At the border of a plan that keeps to the watch, the state does. -/
theorem Plan.Borders.carries {e : Option Failure} {Q : Nat → α → Prop} (h : p.Borders cfg n s e u) (hs : s.Carries W)
    (hrun : (p.run cfg n s).Carries W Q) : u.Carries W := by
  cases h with
  | start => exact hs
  | done h =>
    rw [h] at hrun
    cases hrun with
    | done hu _ => exact hu
  | failed h =>
    rw [h] at hrun
    cases hrun with
    | failed hu => exact hu

/-- A run comes by the states where the plans in it are begun. -/
theorem Plan.Begins.reaches {k : Nat} {q : Plan σ β} (h : p.Begins cfg n s k q u) :
    p.Reaches cfg n s none u := by
  induction h with
  | here => exact .border .start
  | first _ ih => exact .first ih
  | next hx _ ih => exact .next hx ih
  | noted hx _ ih => exact .noted hx ih
  | inFrame _ ih => exact .inFrame ih
  | ask _ ih => exact .ask ih
  | hostCall reached _ ih => exact .hostCall reached ih
  | hostSet hset reached _ ih => exact .hostSet hset reached ih

end Reached

/-- An outcome that keeps to the watch does so with every weaker condition. -/
theorem Outcome.Carries.imp {P Q : Nat → α → Prop} {o : Outcome σ α} (h : o.Carries W P)
    (hPQ : ∀ k a, P k a → Q k a) : o.Carries W Q := by
  cases h with
  | done hs ha => exact .done hs (hPQ _ _ ha)
  | failed hs => exact .failed hs
  | exhausted => exact .exhausted

namespace Plan.Carries

variable {cfg : Setting σ} {n : Nat} {P : Nat → α → Prop} {Q : Nat → β → Prop}

/-- What a plan is done with keeps to the watch and meets the condition. -/
theorem done {p : Plan σ α} (h : p.Carries cfg n W C P) {s u : RunState σ} {a : α} (hs : s.Carries W)
    (hmeets : p.Meets cfg n C s) (hdone : p.run cfg n s = .done a u) : u.Carries W ∧ P u.memory.arrays.size a := by
  have hps := h.run s hs hmeets
  rw [hdone] at hps
  cases hps with
  | done hu ha => exact ⟨hu, ha⟩

/-- A plan that keeps to the watch does so with every weaker condition. -/
theorem imp {p : Plan σ α} {P' : Nat → α → Prop} (h : p.Carries cfg n W C P) (hP : ∀ k a, P k a → P' k a) :
    p.Carries cfg n W C P' := ⟨fun s hs hmeets => (h.run s hs hmeets).imp hP, h.reaches⟩

/-! ## Rules for the ways to put plans together -/

/-- A plan of one step keeps to the watch if the step does. -/
theorem leaf {p : Plan σ α} (hp : p.isLeaf = true)
    (hrun : ∀ s, s.Carries W → p.Meets cfg n C s → (p.run cfg n s).Carries W P) : p.Carries cfg n W C P :=
  ⟨hrun, fun s _ _ hs hmeets h => (h.borders hp).carries hs (hrun s hs hmeets)⟩

/-- An action as a plan keeps to the watch if the action does. -/
theorem act {x : Run σ α} {quiet : x.Quiet} (hx : x.Carries W P) : (Plan.act x quiet).Carries cfg n W C P :=
  leaf rfl fun s hs _ => hx.run s hs

/-- Recording a command keeps to the watch. -/
theorem record (i : Info) (tag : String) : (Plan.record i tag : Plan σ Unit).Carries cfg n W C fun _ => Anything :=
  leaf rfl fun s hs _ => (Run.Carries.record cfg i tag).run s hs

/-- Counting a statement keeps to the watch. -/
theorem tick (i : Info) : (Plan.tick i : Plan σ Unit).Carries cfg n W C fun _ => Anything :=
  leaf rfl fun s hs _ => (Run.Carries.tick cfg i).run s hs

/-- Narrating a step keeps to the watch. -/
theorem narrate (category : Category) (node : NodeId) (message : Memory → String) (changes : Unit → List Change) :
    (Plan.narrate category node message changes : Plan σ Unit).Carries cfg n W C fun _ => Anything :=
  leaf rfl fun s hs _ => (Run.Carries.narrate cfg category node message changes).run s hs

/-- A plan that gives a value keeps to the watch. -/
theorem pure {a : α} (h : ∀ k, W.arrays ≤ k → P k a) : (Pure.pure a : Plan σ α).Carries cfg n W C P := act (.value h)

/-- A plan that fails keeps to the watch. -/
theorem raise (kind : FaultClass) (i : Info) (message : String) :
    (Plan.raise kind i message : Plan σ α).Carries cfg n W C P := act .fails

/-- A plan that reads off the state keeps to the watch. -/
theorem asks {f : RunState σ → α} {quiet : (Run.asks f).Quiet} :
    (Plan.act (Run.asks f) quiet).Carries cfg n W C fun _ => Anything := act (.asks fun _ _ => trivial)

/-- What follows a plan may rely on the arrays that are there by then. -/
theorem andThen {x : Plan σ α} {f : α → Plan σ β} (hx : x.Carries cfg n W C P)
    (hf : ∀ k, W.arrays ≤ k → ∀ a, P k a → (f a).Carries cfg n (W.upTo k) C Q) :
    (x >>= f).Carries cfg n W C Q := by
  have hfirst {s : RunState σ} (hmeets : (x >>= f).Meets cfg n C s) : x.Meets cfg n C s :=
    fun e u h => hmeets e u (.first h)
  have hnext {s t : RunState σ} {a : α} (hmeets : (x >>= f).Meets cfg n C s) (hdone : x.run cfg n s = .done a t) :
      (f a).Meets cfg n C t := fun e u h => hmeets e u (.next hdone h)
  have hrun (s : RunState σ) (hs : s.Carries W) (hmeets : (x >>= f).Meets cfg n C s) :
      ((x >>= f).run cfg n s).Carries W Q := by
    have hxs := hx.run s hs (hfirst hmeets)
    show (Run.andThen (x.run cfg n) (fun a => (f a).run cfg n) s).Carries W Q
    unfold Run.andThen
    cases hdone : x.run cfg n s with
    | done a t =>
      rw [hdone] at hxs
      cases hxs with
      | done ht ha =>
        have harrays := ht.memory.arrays
        exact ((hf _ harrays a ha).run t ht.upTo (hnext hmeets hdone)).of_upTo harrays
    | failed e t =>
      rw [hdone] at hxs
      cases hxs with
      | failed ht => exact .failed ht
    | exhausted => exact .exhausted
  refine ⟨hrun, ?_⟩
  intro s e u hs hmeets h
  cases h with
  | border h => exact h.carries hs (hrun s hs hmeets)
  | first h => exact hx.reaches s e u hs (hfirst hmeets) h
  | next hdone h =>
    obtain ⟨ht, ha⟩ := hx.done hs (hfirst hmeets) hdone
    have harrays := ht.memory.arrays
    exact ((hf _ harrays _ ha).reaches _ e u ht.upTo (hnext hmeets hdone) h).of_upTo harrays

/-- A choice between plans keeps to the watch if both sides do. -/
theorem ite {c : Prop} [Decidable c] {x y : Plan σ α} (hx : x.Carries cfg n W C P) (hy : y.Carries cfg n W C P) :
    (if c then x else y).Carries cfg n W C P := by
  by_cases h : c
  · rw [if_pos h]
    exact hx
  · rw [if_neg h]
    exact hy

/-- An action with a recorded command keeps to the watch if the action does. -/
theorem recorded {x : Run σ α} {quiet : x.Quiet} (hx : x.Carries W P) (i : Info) (tag : String) :
    (Plan.recorded x quiet i tag).Carries cfg n W C P := by
  have hrun := (hx.onFailure (.record cfg i tag)).run
  refine ⟨fun s hs _ => hrun s hs, ?_⟩
  intro s e u hs hmeets h
  cases h with
  | border h => exact h.carries hs (hrun s hs)
  | noted hfailed h =>
    have hxs := hx.run s hs
    rw [hfailed] at hxs
    cases hxs with
    | failed ht => exact (record i tag).reaches _ e u ht (fun e u h => hmeets e u (.noted hfailed h)) h

/-- The frame of a function is taken away again. -/
theorem inFrame {x : Plan σ (Option Value)}
    (hx : x.Carries cfg n W C fun k returned => ∀ v ∈ returned, v.Settled k) :
    (Plan.inFrame x).Carries cfg n W C Value.Settled := by
  have hbody {s : RunState σ} (hmeets : (Plan.inFrame x).Meets cfg n C s) : x.Meets cfg n C s :=
    fun e u h => hmeets e u (.inFrame h)
  have hrun (s : RunState σ) (hs : s.Carries W) (hmeets : (Plan.inFrame x).Meets cfg n C s) :
      ((Plan.inFrame x).run cfg n s).Carries W Value.Settled := by
    have hxs := hx.run s hs (hbody hmeets)
    show (Plan.framed (x.run cfg n) s).Carries W Value.Settled
    unfold Plan.framed
    generalize x.run cfg n s = o at hxs
    cases hxs with
    | @done returned u hu hreturned =>
      refine .done hu.leaveFunction ?_
      cases returned with
      | none => exact trivial
      | some v => exact hreturned v rfl
    | failed hu => exact .failed hu.leaveFunction
    | exhausted => exact .exhausted
  refine ⟨hrun, ?_⟩
  intro s e u hs hmeets h
  cases h with
  | border h => exact h.carries hs (hrun s hs hmeets)
  | inFrame h => exact hx.reaches s e u hs (hbody hmeets) h

/-! ## Hosts -/

/-- The functions that hosts call back carry along what is watched, with any bound that is left and all arrays that are
there by then. -/
abbrev CallBacks (cfg : Setting σ) (W : Watch σ) (C : RunState σ → Prop) (depth n : Nat) : Prop :=
  ∀ m < n, ∀ k (f : UserFunction) (args : List Value), (∀ v ∈ args, v.Settled k) →
    (Plan.ask (.callFunction depth f.info f args)).Carries cfg m (W.upTo k) C Value.Settled

/-- The functions that a host comes to call back meet the condition. -/
abbrev CallsMeet (cfg : Setting σ) (C : RunState σ → Prop) (depth n : Nat) (action : HostAction σ) (s : RunState σ) :
    Prop :=
  ∀ k f args t, HostReaches cfg depth n action s k f args t →
    (Plan.ask (.callFunction depth f.info f args)).Meets cfg k C t

section Hosts

variable (hinside : W.Inside C)

include hinside

/-- A host changes memory. -/
theorem onHosts {s : RunState σ} (hs : s.Carries W) {host : σ} {memory : Memory} (hmemory : s.memory.Trims memory)
    (hhost : W.hosts.holds host memory.arrays.size) (hmeets : C { s with host := host, memory := memory }) :
    ({ s with host := host, memory := memory } : RunState σ).Carries W :=
  hs.onHosts (hs.memory.trims hmemory (hinside _ hmeets)) hmemory.arrays hhost

/-- A function that a host calls back starts and ends with what is watched. -/
theorem calledBack {depth : Nat} (hcalls : CallBacks cfg W C depth (n + 1)) {f : UserFunction} {args : List Value}
    {host : σ} {memory : Memory} {next : Except Failure Value → View → σ → Memory → HostAction σ} {s : RunState σ}
    (haction : (HostAction.callBack f args host memory next).Orderly W.hosts s.memory) (hs : s.Carries W)
    (hmeets : CallsMeet cfg C depth (n + 1) (.callBack f args host memory next) s) :
    ({ s with host := host, memory := memory } : RunState σ).Carries W ∧
      (callFunction cfg n depth f.info f args { s with host := host, memory := memory }).Carries W Value.Settled := by
  obtain ⟨hargs, hmemory, hhost, -⟩ := haction
  have hcallMeets := hmeets n f args _ .now
  have ht := onHosts hinside hs hmemory hhost hcallMeets.start
  have hcalled := (hcalls n (Nat.lt_succ_self n) _ f args hargs).run _ ht.upTo hcallMeets
  exact ⟨ht, hcalled.of_upTo ht.memory.arrays⟩

/-- A host carries along what is watched if the functions that it calls back do. -/
theorem runHost {depth : Nat} (hcalls : CallBacks cfg W C depth n) (i : Info) (use : HostUse)
    {action : HostAction σ} {s : RunState σ} (haction : action.Orderly W.hosts s.memory) (hs : s.Carries W)
    (hmeets : CallsMeet cfg C depth n action s) (hends : (Primer.runHost cfg n depth i use action s).Leaves C) :
    (Primer.runHost cfg n depth i use action s).Carries W Value.Settled := by
  induction n generalizing action s with
  | zero => exact .exhausted
  | succ n ih =>
    have hrest {action : HostAction σ} {t : RunState σ} (haction : action.Orderly W.hosts t.memory) :=
      ih (fun m hm => hcalls m (Nat.lt_succ_of_lt hm)) haction
    cases action with
    | finish answer host memory =>
      obtain ⟨hanswer, hmemory, hhost⟩ := haction
      have hend : C { s with host := host, memory := memory } := by
        rcases answer with ((text | (f | text | b) | text) | v)
        case error.breakdown => cases use <;> exact hends
        case error.passedOn.breakdown => cases use <;> exact hends
        all_goals exact hends
      exact Run.Carries.finish n depth i use (onHosts hinside hs hmemory hhost hend) hanswer
    | callBack f args host memory next =>
      have hcalled := (calledBack hinside hcalls haction hs hmeets).2
      obtain ⟨-, -, -, hnext⟩ := haction
      rw [runHost_callBack] at hends ⊢
      cases hcall : callFunction cfg n depth f.info f args { s with host := host, memory := memory } with
      | done v t =>
        rw [hcall] at hcalled hends
        cases hcalled with
        | done ht hv =>
          have hcallsMeet := fun k g gargs u h => hmeets k g gargs u (.answered hcall h)
          exact hrest (hnext _ _ _ _ (settles_ok hv) ht.hosts) ht hcallsMeet hends
      | failed e t =>
        rw [hcall] at hcalled hends
        cases hcalled with
        | failed ht =>
          have hcallsMeet := fun k g gargs u h => hmeets k g gargs u (.refused hcall h)
          exact hrest (hnext _ _ _ _ (settles_error e) ht.hosts) ht hcallsMeet hends
      | exhausted => exact .exhausted

/-- Where a function is called back, all that is watched is there. -/
theorem hostReaches {depth m : Nat} {action : HostAction σ} {s t : RunState σ} {f : UserFunction}
    {args : List Value} (h : HostReaches cfg depth n action s m f args t) (hcalls : CallBacks cfg W C depth n)
    (haction : action.Orderly W.hosts s.memory) (hs : s.Carries W) (hmeets : CallsMeet cfg C depth n action s) :
    m < n ∧ (∀ v ∈ args, v.Settled t.memory.arrays.size) ∧ t.Carries W := by
  induction h with
  | now => exact ⟨Nat.lt_succ_self _, haction.1, (calledBack hinside hcalls haction hs hmeets).1⟩
  | @answered n f args host memory next s v t m g gargs u hdone _ ih =>
    have hcalled := (calledBack hinside hcalls haction hs hmeets).2
    obtain ⟨-, -, -, hnext⟩ := haction
    rw [hdone] at hcalled
    cases hcalled with
    | done ht hv =>
      obtain ⟨hm, hreached⟩ := ih (fun m hm => hcalls m (Nat.lt_succ_of_lt hm))
        (hnext _ _ _ _ (settles_ok hv) ht.hosts) ht fun k g gargs u h => hmeets k g gargs u (.answered hdone h)
      exact ⟨Nat.lt_succ_of_lt hm, hreached⟩
  | @refused n f args host memory next s e t m g gargs u hfailed _ ih =>
    have hcalled := (calledBack hinside hcalls haction hs hmeets).2
    obtain ⟨-, -, -, hnext⟩ := haction
    rw [hfailed] at hcalled
    cases hcalled with
    | failed ht =>
      obtain ⟨hm, hreached⟩ := ih (fun m hm => hcalls m (Nat.lt_succ_of_lt hm))
        (hnext _ _ _ _ (settles_error e) ht.hosts) ht fun k g gargs u h => hmeets k g gargs u (.refused hfailed h)
      exact ⟨Nat.lt_succ_of_lt hm, hreached⟩

/-- All states that a function comes by that a host calls back carry what is watched. -/
theorem reachedByHost {depth m : Nat} {action : HostAction σ} {s t u : RunState σ} {f : UserFunction}
    {args : List Value} {e : Option Failure} (reached : HostReaches cfg depth n action s m f args t)
    (h : (Plan.ask (.callFunction depth f.info f args)).Reaches cfg m t e u) (hcalls : CallBacks cfg W C depth n)
    (haction : action.Orderly W.hosts s.memory) (hs : s.Carries W) (hmeets : CallsMeet cfg C depth n action s) :
    u.Carries W := by
  obtain ⟨hm, hargs, ht⟩ := hostReaches hinside reached hcalls haction hs hmeets
  have hcalled := hcalls m hm _ f args hargs
  exact (hcalled.reaches t e u ht.upTo (hmeets _ _ _ _ reached) h).of_upTo ht.memory.arrays

variable (hhosts : cfg.hosts.Orderly W.hosts)

include hhosts

/-- The call of a host keeps to the watch if all functions it may call do. -/
theorem hostCall {depth : Nat} (hcalls : CallBacks cfg W C depth n) (i : Info) (callee : Expr) (key : FunctionKey)
    {args : List Value} (hargs : ∀ v ∈ args, v.Settled W.arrays) :
    (Plan.hostCall depth i callee key args : Plan σ Value).Carries cfg n W C Value.Settled := by
  let p : Plan σ Value := .hostCall depth i callee key args
  have horderly {s : RunState σ} (hs : s.Carries W) :=
    hhosts.call key (s.view cfg.strategy) s.host s.memory args hs.hosts fun v hv => (hargs v hv).mono hs.memory.arrays
  have hmeets {s : RunState σ} (h : p.Meets cfg n C s) : CallsMeet cfg C depth n _ s :=
    fun k f fargs t reached e u hu => h e u (.hostCall reached hu)
  have hrun (s : RunState σ) (hs : s.Carries W) (h : p.Meets cfg n C s) : (p.run cfg n s).Carries W Value.Settled :=
    runHost hinside hcalls i (.call callee) (horderly hs) hs (hmeets h) h.leaves
  refine ⟨hrun, ?_⟩
  intro s e u hs hp h
  cases h with
  | border h => exact h.carries hs (hrun s hs hp)
  | hostCall reached h => exact reachedByHost hinside reached h hcalls (horderly hs) hs (hmeets hp)

/-- Writing a host variable keeps to the watch if all functions it may call do. -/
theorem hostSet {depth : Nat} (hcalls : CallBacks cfg W C depth n) (i : Info) (target : Expr) (key : VariableKey)
    {v : Value} (hv : v.Settled W.arrays) :
    (Plan.hostSet depth i target key v : Plan σ Value).Carries cfg n W C fun _ => Anything := by
  let p : Plan σ Value := .hostSet depth i target key v
  have horderly {s : RunState σ} (hs : s.Carries W) :=
    hhosts.set key (s.view cfg.strategy) s.host s.memory v hs.hosts (hv.mono hs.memory.arrays)
  have hmeets {s : RunState σ} {action : HostAction σ} (h : p.Meets cfg n C s)
      (hset : cfg.hosts.set key (s.view cfg.strategy) s.host s.memory v = some action) :
      CallsMeet cfg C depth n action s := fun k f fargs t reached e u hu => h e u (.hostSet hset reached hu)
  have hrun (s : RunState σ) (hs : s.Carries W) (h : p.Meets cfg n C s) :
      (p.run cfg n s).Carries W fun _ => Anything := by
    have hends := h.leaves
    simp only [p, Plan.run] at hends ⊢
    cases hset : cfg.hosts.set key (s.view cfg.strategy) s.host s.memory v with
    | none => exact (Run.Carries.cannotAssign i target v).run s hs
    | some action =>
      rw [hset] at hends
      have haction := horderly hs action hset
      apply (runHost hinside hcalls i (.assign target) haction hs (hmeets h hset) hends).imp
      intro _ _ _
      exact trivial
  refine ⟨hrun, ?_⟩
  intro s e u hs hp h
  cases h with
  | border h => exact h.carries hs (hrun s hs hp)
  | hostSet hset reached h =>
    exact reachedByHost hinside reached h hcalls (horderly hs _ hset) hs (hmeets hp hset)

end Hosts

/-! ## The plans of the actions that leave a record -/

section Actions

variable (hhosts : cfg.hosts.Orderly W.hosts)

include hhosts

/-- Taking a place gives a settled value. -/
theorem take (e : Expr) {v : Value} (hv : v.Spares W) : (Plan.take cfg e v).Carries cfg n W C Value.Settled :=
  act (.take hhosts e hv)

/-- Taking the operands of an operation keeps to the watch. -/
theorem operands (i : Info) (symbol : String) (left right : Expr) {a b : Value} (ha : a.Spares W) (hb : b.Spares W) :
    (Plan.operands cfg i symbol left right a b).Carries cfg n W C fun _ => Anything := by
  apply andThen (recorded (.take hhosts left ha) i _)
  intro k hk _ _
  apply andThen (recorded (.take (W := W.upTo k) hhosts right (hb.mono hk)) i _)
  intro _ _ _ _
  exact pure fun _ _ => trivial

omit hhosts in
/-- An operation on taken operands gives a settled value. -/
theorem operator (i : Info) (symbol : String) (a b : Value) :
    (Plan.operator cfg i symbol a b).Carries cfg n W C Value.Settled :=
  andThen (record i _) fun _ _ _ _ => act (.binaryValue cfg i symbol a b)

/-- A binary operation gives a settled value. -/
theorem binary (i : Info) (left : Expr) (symbol : String) (right : Expr) {a b : Value} (ha : a.Spares W)
    (hb : b.Spares W) : (Plan.binary cfg i left symbol right a b).Carries cfg n W C Value.Settled := by
  apply andThen (operands hhosts i symbol left right ha hb)
  intro _ _ _ _
  apply andThen (operator i symbol _ _)
  intro _ _ _ hv
  apply andThen (narrate ..)
  intro _ hk _ _
  exact pure fun _ hk' => hv.mono (Nat.le_trans hk hk')

/-- A sign gives a settled value. -/
theorem unary (i : Info) (symbol : String) (operand : Expr) {a : Value} (ha : a.Spares W) :
    (Plan.unary cfg i symbol operand a).Carries cfg n W C Value.Settled := by
  apply andThen (record i _)
  intro k hk _ _
  apply andThen (take (W := W.upTo k) hhosts operand (ha.mono hk))
  intro _ _ x _
  apply andThen (act (.unaryValue cfg i symbol x))
  intro _ _ _ hv
  apply andThen (narrate ..)
  intro _ hk' _ _
  exact pure fun _ hk'' => hv.mono (Nat.le_trans hk' hk'')

/-- The value of an assignment is settled. -/
theorem assigned (a : Assignment) {place given : Value} (hplace : place.Spares W) (hgiven : given.Spares W) :
    (Plan.assigned cfg a place given).Carries cfg n W C Value.Settled := by
  refine ite (andThen (record ..) fun k hk _ _ => take (W := W.upTo k) hhosts a.value (hgiven.mono hk)) ?_
  exact andThen (operands hhosts a.info a.symbol a.target a.value hplace hgiven) fun _ _ _ _ => operator ..

/-- The value of an increment or decrement is settled. -/
theorem bump (i : Info) (target : Expr) (symbol : String) {place : Value} (hplace : place.Spares W) :
    (Plan.bump cfg i target symbol place).Carries cfg n W C Value.Settled := by
  apply andThen (record ..)
  intro k hk _ _
  apply andThen (take (W := W.upTo k) hhosts target (hplace.mono hk))
  intro _ _ x _
  exact act (.bumped cfg i symbol x)

/-- A test keeps to the watch. -/
theorem test (i : Info) (tag : String) (e : Expr) {cond : Value} (hcond : cond.Spares W) :
    (Plan.test cfg i tag e cond).Carries cfg n W C fun _ => Anything := by
  apply andThen (record ..)
  intro k hk _ _
  apply andThen (take (W := W.upTo k) hhosts e (hcond.mono hk))
  intro _ _ v _
  exact act (.testValue cfg i tag v)

end Actions

/-- A declaration keeps to the watch. -/
theorem declared (d : Declared) : (Plan.declared cfg d).Carries cfg n W C fun _ => Anything := by
  apply andThen (record ..)
  intro _ _ _ _
  apply andThen asks
  intro _ _ _ _
  refine ite (pure fun _ _ => trivial) ?_
  refine andThen (act (.declareName d.name trivial)) ?_
  intro _ _ _ _
  exact ite (narrate ..) (pure fun _ _ => trivial)

/-- The declaration of a function keeps to the watch. -/
theorem function (i : Info) (name : String) (params : List String) (body : List Stmt) :
    (Plan.function cfg i name params body).Carries cfg n W C fun _ => Anything := by
  have hbind {W : Watch σ} : (Plan.bindFunction i name params body : Plan σ Unit).Carries cfg n W C
      fun _ => Anything := by
    have hadvances (m : Memory) : m.Advances { m with functions := m.functions + 1 } :=
      ⟨fun h => ⟨h.contents, h.linked⟩, Nat.le_refl _, fun _ hx => hx⟩
    apply andThen (P := fun _ => Anything) (act (.onMemory fun m _ => ⟨hadvances m, trivial⟩))
    intro _ _ ref _
    exact andThen (act (.declareName name trivial)) fun _ _ _ _ => narrate ..
  apply andThen (record ..)
  intro _ _ _ _
  apply andThen asks
  intro _ _ existing? _
  cases existing? with
  | none => exact hbind
  | some existing => exact ite hbind (raise ..)

/-- Entering a function with settled arguments keeps to the watch. -/
theorem enterFunction (i : Info) (f : UserFunction) {args : List Value} (hargs : ∀ v ∈ args, v.Settled W.arrays) :
    (Plan.enterFunction cfg i f args).Carries cfg n W C fun _ => Anything := by
  refine ite (raise ..) ?_
  apply andThen (act (.bindParams cfg i f.params hargs))
  intro k hk bound hbound
  apply andThen asks
  intro _ hk' label _
  apply andThen (narrate ..)
  intro _ hk'' _ _
  have hle := Nat.le_trans hk' hk''
  apply leaf rfl
  intro s hs _
  refine .done (hs.pushFrame f ?_ label) trivial
  intro e he
  exact (hbound e he).mono (Nat.le_trans hle hs.memory.arrays)

/-- The result of a call stays settled. -/
theorem callResult (i : Info) (label : String) {result : Value} (hresult : result.Settled W.arrays) :
    (Plan.callResult i label result : Plan σ Value).Carries cfg n W C Value.Settled := by
  cases result
  case absent | undefined | null => exact pure fun _ _ => trivial
  all_goals exact andThen (narrate ..) fun _ hk _ _ => pure fun _ hk' => hresult.mono (Nat.le_trans hk hk')

/-- A value is written to a place that is not the pending one of the element that is watched. -/
theorem assignPlace (hinside : W.Inside C) (i : Info) (target : Expr) {place v : Value} (hplace : place.Spares W)
    (hv : v.Settled W.arrays) {quiet : (Primer.assignPlace i target place v : Run σ Unit).Quiet} :
    (Plan.act (Primer.assignPlace i target place v) quiet).Carries cfg n W C fun _ => Anything := by
  apply leaf rfl
  intro s hs hmeets
  apply Run.Carries.assignPlace i target hplace hv hs
  intro u hdone
  refine hinside u ?_
  have hleaves := hmeets.leaves
  simp only [Plan.run, hdone] at hleaves
  exact hleaves

end Plan.Carries

end Primer
