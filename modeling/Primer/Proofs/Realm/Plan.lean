import Primer.Proofs.Realm.Action
import Primer.Proofs.Run.Ending

/-!
# Plans in a realm

`Plan.Reaches` relates a run to the states that it comes by, with the failure that is under way there, if there
is one: where a plan is begun, where it is done, and where it fails, for all plans in the plan, inside calls and
inside what hosts call back. A plan leads from one level of a realm to another if it ends there and is in the
realm in all the states that it comes by. The plans of the evaluator are put together with one rule for each
way to put plans together.
-/

set_option autoImplicit false

namespace Primer

open Run

variable {σ α β : Type}

/-! ## Where a run comes by -/

/-- Where a plan is begun and where it ends. -/
inductive Plan.Borders (cfg : Setting σ) (n : Nat) (p : Plan σ α) (s : RunState σ) :
    Option Failure → RunState σ → Prop where
  | start : Borders cfg n p s none s
  | done {a u} (h : p.run cfg n s = .done a u) : Borders cfg n p s none u
  | failed {e u} (h : p.run cfg n s = .failed e u) : Borders cfg n p s (some e) u

/-- A state that a plan comes by, with the failure that is under way there. -/
inductive Plan.Reaches (cfg : Setting σ) :
    Nat → {α : Type} → Plan σ α → RunState σ → Option Failure → RunState σ → Prop where
  | border {n α} {p : Plan σ α} {s e u} (h : p.Borders cfg n s e u) : Reaches cfg n p s e u
  | first {n α β} {x : Plan σ α} {f : α → Plan σ β} {s e u} (h : Reaches cfg n x s e u) :
      Reaches cfg n (.bind x f) s e u
  | next {n α β} {x : Plan σ α} {f : α → Plan σ β} {s a t e u} (hx : x.run cfg n s = .done a t)
      (h : Reaches cfg n (f a) t e u) : Reaches cfg n (.bind x f) s e u
  | noted {n α} {x : Run σ α} {quiet info tag s e t e' u} (hx : x s = .failed e t)
      (h : Reaches cfg n (.mark (.record info tag)) t e' u) : Reaches cfg n (.recorded x quiet info tag) s e' u
  | inFrame {n} {x : Plan σ (Option Value)} {s e u} (h : Reaches cfg n x s e u) : Reaches cfg n (.inFrame x) s e u
  | ask {n α} {t : Task σ α} {s e u} (h : Reaches cfg n (t.plan cfg) s e u) : Reaches cfg (n + 1) (.ask t) s e u
  | hostCall {n depth info callee key args s k f fargs t e u}
      (reached : HostReaches cfg depth n (cfg.hosts.call key (s.view cfg.strategy) s.host s.memory args) s
        k f fargs t)
      (h : Reaches cfg k (.ask (.callFunction depth f.info f fargs)) t e u) :
      Reaches cfg n (.hostCall depth info callee key args) s e u
  | hostSet {n depth info target key v action s k f fargs t e u}
      (hset : cfg.hosts.set key (s.view cfg.strategy) s.host s.memory v = some action)
      (reached : HostReaches cfg depth n action s k f fargs t)
      (h : Reaches cfg k (.ask (.callFunction depth f.info f fargs)) t e u) :
      Reaches cfg n (.hostSet depth info target key v) s e u

/-- Whether a plan has no other plans in it. -/
def Plan.isLeaf : {α : Type} → Plan σ α → Bool
  | _, .act .. | _, .mark .. | _, .narrate .. => true
  | _, _ => false

/-- A plan of one step is reached at its borders only. -/
theorem Plan.Reaches.borders {cfg : Setting σ} {n : Nat} {p : Plan σ α} {s u : RunState σ} {e : Option Failure}
    (h : p.Reaches cfg n s e u) (hp : p.isLeaf = true) : p.Borders cfg n s e u := by
  cases h with
  | border h => exact h
  | first | next | noted | inFrame | ask | hostCall | hostSet => cases hp

/-- A state in a realm, with a failure of the realm under way if there is one. -/
structure Realm.Point (R : Realm σ) (e : Option Failure) (u : RunState σ) : Prop where
  confined : ∃ ℓ, u.Confined R ℓ
  fails : ∀ f ∈ e, R.Fails f

/-- A plan that leads from one level of a realm to another, or fails at a third, and is in the realm in all states
that it comes by. -/
structure Plan.Leads (cfg : Setting σ) (n : Nat) (R : Realm σ) (start done failed : Level) (p : Plan σ α)
    (Q : α → Prop) : Prop where
  run : ∀ s, s.Confined R start → (p.run cfg n s).Confined R done failed Q
  reaches : ∀ s e u, s.Confined R start → p.Reaches cfg n s e u → R.Point e u

/-- A plan that stays at its level. -/
abbrev Plan.Stays (cfg : Setting σ) (n : Nat) (R : Realm σ) (ℓ : Level) (p : Plan σ α) (Q : α → Prop) : Prop :=
  p.Leads cfg n R ℓ ℓ ℓ Q

variable {R : Realm σ}

/-- The borders of a plan are in the realm if it starts and ends there. -/
theorem Plan.Borders.point {cfg : Setting σ} {n : Nat} {p : Plan σ α} {s u : RunState σ} {e : Option Failure}
    {start done failed : Level} {Q : α → Prop} (h : p.Borders cfg n s e u) (hs : s.Confined R start)
    (hrun : (p.run cfg n s).Confined R done failed Q) : R.Point e u := by
  cases h with
  | start => exact ⟨⟨_, hs⟩, fun _ hf => nomatch hf⟩
  | done h =>
    rw [h] at hrun
    cases hrun with
    | done hu _ => exact ⟨⟨_, hu⟩, fun _ hf => nomatch hf⟩
  | failed h =>
    rw [h] at hrun
    cases hrun with
    | failed hu he =>
      refine ⟨⟨_, hu⟩, ?_⟩
      intro f hf
      cases hf
      exact he

namespace Plan.Leads

variable {cfg : Setting σ} {n : Nat} {ℓ ℓ' start middle done failed : Level} {P : α → Prop} {Q : β → Prop}

/-! ## Rules for the ways to put plans together -/

/-- A plan of one step leads where its step does. -/
theorem leaf {p : Plan σ α} (hp : p.isLeaf = true)
    (hrun : ∀ s, s.Confined R start → (p.run cfg n s).Confined R done failed P) :
    p.Leads cfg n R start done failed P :=
  ⟨hrun, fun s _ _ hs h => (h.borders hp).point hs (hrun s hs)⟩

/-- An action as a plan stays in the realm if the action does. -/
theorem act {x : Run σ α} {quiet : x.Quiet} (hx : x.Stays R P) : (Plan.act x quiet).Stays cfg n R ℓ P :=
  leaf rfl (hx.run ℓ)

/-- A mark stays in the realm if what it does stays there. -/
theorem mark {place : Mark} (hplace : (place.run cfg).Stays R Anything) :
    (Plan.mark place : Plan σ Unit).Stays cfg n R ℓ Anything := leaf rfl (hplace.run ℓ)

/-- Recording a command at a place of the realm stays in it. -/
theorem record {i : Info} (hi : R.info i) (tag : String) :
    (Plan.record i tag : Plan σ Unit).Stays cfg n R ℓ Anything := mark (.record cfg hi tag)

/-- Counting a statement at a place of the realm stays in it. -/
theorem tick {i : Info} (hi : R.info i) : (Plan.tick i : Plan σ Unit).Stays cfg n R ℓ Anything :=
  mark (.tick cfg hi)

/-- Narrating a step at a place of the realm stays in it. -/
theorem narrate (category : Category) {i : Info} (hi : R.info i) (message : Memory → String)
    (changes : Unit → List Change) :
    (Plan.narrate category i.id message changes : Plan σ Unit).Stays cfg n R ℓ Anything :=
  leaf rfl ((Run.Stays.narrate cfg category hi.id message changes).run ℓ)

/-- A plan that gives a value of the realm stays in it. -/
theorem pure {a : α} (h : P a) : (Pure.pure a : Plan σ α).Stays cfg n R ℓ P := act (.value h)

/-- A plan that fails at a place of the realm stays in it. -/
theorem raise {kind : FaultClass} (hkind : kind ≠ .internal) {i : Info} (hi : R.info i) (message : String) :
    (Plan.raise kind i message : Plan σ α).Stays cfg n R ℓ P := act (.raise hkind hi message)

/-- A sequence of plans leads on from where each of them left. -/
theorem andThen {x : Plan σ α} {f : α → Plan σ β} (hx : x.Leads cfg n R start middle failed P)
    (hf : ∀ a, P a → (f a).Leads cfg n R middle done failed Q) : (x >>= f).Leads cfg n R start done failed Q := by
  have hrun (s : RunState σ) (hs : s.Confined R start) :
      ((x >>= f).run cfg n s).Confined R done failed Q := by
    have hxs := hx.run s hs
    show (Run.andThen (x.run cfg n) (fun a => (f a).run cfg n) s).Confined R done failed Q
    unfold Run.andThen
    generalize x.run cfg n s = o at hxs
    cases hxs with
    | done hu ha => exact (hf _ ha).run _ hu
    | failed hu he => exact .failed hu he
    | exhausted => exact .exhausted
  refine ⟨hrun, ?_⟩
  intro s e u hs h
  cases h with
  | border h => exact h.point hs (hrun s hs)
  | first h => exact hx.reaches s e u hs h
  | next hdone h =>
    have hxs := hx.run s hs
    rw [hdone] at hxs
    cases hxs with
    | done ht ha => exact (hf _ ha).reaches _ e u ht h

/-- A choice between plans leads where both sides do. -/
theorem ite {c : Prop} [Decidable c] {x y : Plan σ α} (hx : c → x.Leads cfg n R start done failed P)
    (hy : ¬ c → y.Leads cfg n R start done failed P) : (if c then x else y).Leads cfg n R start done failed P := by
  by_cases h : c
  · rw [if_pos h]
    exact hx h
  · rw [if_neg h]
    exact hy h

/-- An action with a recorded command stays in the realm if the action does. -/
theorem recorded {x : Run σ α} {quiet : x.Quiet} (hx : x.Stays R P) {i : Info} (hi : R.info i) (tag : String) :
    (Plan.recorded x quiet i tag).Stays cfg n R ℓ P := by
  have hrun := (hx.onFailure (.record cfg hi tag)).run ℓ
  refine ⟨hrun, ?_⟩
  intro s e u hs h
  cases h with
  | border h => exact h.point hs (hrun s hs)
  | noted hfailed h =>
    have hxs := hx.run ℓ s hs
    rw [hfailed] at hxs
    cases hxs with
    | failed ht _ => exact (record hi tag).reaches _ e u ht h

/-- The frame of a function is taken away again, and the call that it belongs to stays. -/
theorem inFrame {frames calls : Nat} {x : Plan σ (Option Value)}
    (hx : x.Stays cfg n R ⟨frames + 1, calls⟩ (Returned.Only R.function)) :
    (Plan.inFrame x).Leads cfg n R ⟨frames + 1, calls⟩ ⟨frames, calls⟩ ⟨frames, calls⟩ (Value.Only R.function) := by
  have hleave {u : RunState σ} (hu : u.Confined R ⟨frames + 1, calls⟩) :
      (leaveFunction u).Confined R ⟨frames, calls⟩ := by
    have hstands := hu.stands
    refine ⟨⟨hu.only.memory, hu.only.globals, fun f hf => hu.only.frames f (List.mem_of_mem_tail hf)⟩, hu.host,
      ⟨?_, ?_, hstands.calls_le, hstands.depth, hstands.callSites, ?_⟩, hu.reported⟩
    · have hframes := hstands.frames_eq
      show u.frames.tail.length = frames
      rw [List.length_tail, hframes]
      rfl
    · exact Nat.le_of_succ_le hstands.frames_le
    · exact fun f hf => hstands.frameSites f (List.mem_of_mem_tail hf)
  have hrun (s : RunState σ) (hs : s.Confined R ⟨frames + 1, calls⟩) :
      ((Plan.inFrame x).run cfg n s).Confined R ⟨frames, calls⟩ ⟨frames, calls⟩ (Value.Only R.function) := by
    have hxs := hx.run s hs
    show (Plan.framed (x.run cfg n) s).Confined R _ _ _
    unfold Plan.framed
    generalize x.run cfg n s = o at hxs
    cases hxs with
    | @done returned u hu hreturned =>
      refine .done (hleave hu) ?_
      cases returned with
      | none => exact trivial
      | some v => exact hreturned v rfl
    | failed hu he => exact .failed (hleave hu) he
    | exhausted => exact .exhausted
  refine ⟨hrun, ?_⟩
  intro s e u hs h
  cases h with
  | border h => exact h.point hs (hrun s hs)
  | inFrame h => exact hx.reaches s e u hs h

/-! ## Calls and frames -/

/-- A call that is entered is one more active call. -/
theorem enterCall (hdepth : cfg.limits.callDepth ≤ R.depth) {i : Info} (hi : R.info i) (hsite : R.site i.token)
    {quiet : (Primer.enterCall cfg i).Quiet} {frames calls : Nat} :
    (Plan.act (Primer.enterCall cfg i) quiet).Leads cfg n R ⟨frames, calls⟩ ⟨frames, calls + 1⟩ ⟨frames, calls⟩
      Anything := by
  apply leaf rfl
  intro s hs
  have hstands := hs.stands
  show (Primer.enterCall cfg i s).Confined R _ _ _
  rcases Nat.lt_or_ge s.calls.length cfg.limits.callDepth with hroom | hfull
  · rw [enterCall_of_lt hroom i]
    refine .done ⟨⟨hs.only.memory, hs.only.globals, hs.only.frames⟩, hs.host, ?_, hs.reported⟩ trivial
    refine ⟨hstands.frames_eq, Nat.le_succ_of_le hstands.frames_le, Nat.succ_le_succ hstands.calls_le, ?_, ?_,
      hstands.frameSites⟩
    · show s.calls.length + 1 ≤ R.depth
      omega
    · intro t ht
      rcases List.mem_cons.mp ht with rfl | ht
      · exact hsite
      · exact hstands.callSites t ht
  · rw [enterCall_of_le hfull i]
    exact .failed hs (hs.raised (by decide) hi _ _)

/-- A call can be left where there is no frame of its own. Calls that failed may be left instead of it. -/
theorem leaveCall {quiet : (Primer.leaveCall : Run σ Unit).Quiet} {frames calls : Nat} (hframes : frames ≤ calls) :
    (Plan.act Primer.leaveCall quiet).Leads cfg n R ⟨frames, calls + 1⟩ ⟨frames, calls⟩ ⟨frames, calls⟩
      Anything := by
  apply leaf rfl
  intro s hs
  have hstands := hs.stands
  have hactive := hstands.calls_le
  have hroom := hstands.depth
  refine .done ⟨⟨hs.only.memory, hs.only.globals, hs.only.frames⟩, hs.host, ?_, hs.reported⟩ trivial
  refine ⟨hstands.frames_eq, hframes, ?_, ?_, ?_, hstands.frameSites⟩
  · show calls ≤ s.calls.tail.length
    rw [List.length_tail]
    exact Nat.le_sub_of_add_le hactive
  · show s.calls.tail.length ≤ R.depth
    rw [List.length_tail]
    omega
  · exact fun t ht => hstands.callSites t (List.mem_of_mem_tail ht)

/-- A frame is pushed for a call that has none yet. -/
theorem pushFrame (f : UserFunction) {bound : List (String × Value)} (hbound : ∀ e ∈ bound, e.2.Only R.function)
    (label : String) {quiet : (Run.update (Primer.pushFrame f bound label) : Run σ Unit).Quiet} {frames calls : Nat}
    (hfree : frames < calls) :
    (Plan.act (Run.update (Primer.pushFrame f bound label)) quiet).Leads cfg n R ⟨frames, calls⟩
      ⟨frames + 1, calls⟩ ⟨frames, calls⟩ Anything := by
  apply leaf rfl
  intro s hs
  have hstands := hs.stands
  refine .done ⟨hs.only.pushFrame f hbound label, hs.host, ⟨?_, hfree, hstands.calls_le, hstands.depth,
    hstands.callSites, ?_⟩, hs.reported⟩ trivial
  · exact congrArg (· + 1) hstands.frames_eq
  · intro frame hframe
    rcases List.mem_cons.mp hframe with rfl | hframe
    · have hactive := hstands.calls_le
      have hsites := hstands.callSites
      show R.site (s.calls.headD f.info.token)
      generalize s.calls = active at hactive hsites
      cases active with
      | nil =>
        simp only [List.length_nil] at hactive
        omega
      | cons t rest => exact hsites t List.mem_cons_self
    · exact hstands.frameSites frame hframe

/-! ## Hosts -/

/-- The functions that hosts call back stay in the realm, with any bound that is left. -/
abbrev CallBacks (cfg : Setting σ) (R : Realm σ) (ℓ : Level) (depth n : Nat) : Prop :=
  ∀ k < n, ∀ (f : UserFunction) (args : List Value), R.function f → Values.Only R.function args →
    (Plan.ask (.callFunction depth f.info f args)).Stays cfg k R ℓ (Value.Only R.function)

/-- A host stays in the realm if what it calls back does. -/
theorem runHost {depth : Nat} (hcalls : CallBacks cfg R ℓ depth n) {i : Info} (hi : R.info i) (use : HostUse)
    {action : HostAction σ} (haction : action.Fits R) {s : RunState σ} (hs : s.Confined R ℓ) :
    (Primer.runHost cfg n depth i use action s).Confined R ℓ ℓ (Value.Only R.function) := by
  induction n generalizing action s with
  | zero => exact .exhausted
  | succ n ih =>
    have hrest {action : HostAction σ} (haction : action.Fits R) {t : RunState σ} (ht : t.Confined R ℓ) :=
      ih (fun k hk => hcalls k (Nat.lt_succ_of_lt hk)) haction ht
    cases action with
    | finish answer host memory => exact (Run.Stays.finish hi n depth use haction).run ℓ s hs
    | callBack f args host memory next =>
      obtain ⟨hf, hargs, hhost, hmemory, hnext⟩ := haction
      have hcalled := (hcalls n (Nat.lt_succ_self n) f args hf hargs).run _ (hs.onHosts hhost hmemory)
      change (callFunction cfg n depth f.info f args { s with host := host, memory := memory }).Confined R ℓ ℓ _
        at hcalled
      rw [runHost_callBack]
      generalize callFunction cfg n depth f.info f args { s with host := host, memory := memory } = o at hcalled
      cases hcalled with
      | done ht hv => exact hrest (hnext (.ok _) _ _ _ hv ht.host ht.only.memory) ht
      | failed ht he => exact hrest (hnext (.error _) _ _ _ he ht.host ht.only.memory) ht
      | exhausted => exact .exhausted

/-- A function is called back in the realm. -/
theorem hostReaches {depth k : Nat} {action : HostAction σ} {s t : RunState σ} {f : UserFunction}
    {args : List Value} (h : HostReaches cfg depth n action s k f args t) (hcalls : CallBacks cfg R ℓ depth n)
    (haction : action.Fits R) (hs : s.Confined R ℓ) :
    k < n ∧ R.function f ∧ Values.Only R.function args ∧ t.Confined R ℓ := by
  induction h with
  | now =>
    obtain ⟨hf, hargs, hhost, hmemory, -⟩ := haction
    exact ⟨Nat.lt_succ_self _, hf, hargs, hs.onHosts hhost hmemory⟩
  | @answered n f args host memory next s v t k g gargs u hdone _ ih =>
    obtain ⟨hf, hargs, hhost, hmemory, hnext⟩ := haction
    have hcalled := (hcalls n (Nat.lt_succ_self n) f args hf hargs).run _ (hs.onHosts hhost hmemory)
    change (callFunction cfg n depth f.info f args { s with host := host, memory := memory }).Confined R ℓ ℓ _
      at hcalled
    rw [hdone] at hcalled
    cases hcalled with
    | done ht hv =>
      obtain ⟨hk, hreached⟩ := ih (fun k hk => hcalls k (Nat.lt_succ_of_lt hk))
        (hnext (.ok v) _ _ _ hv ht.host ht.only.memory) ht
      exact ⟨Nat.lt_succ_of_lt hk, hreached⟩
  | @refused n f args host memory next s e t k g gargs u hfailed _ ih =>
    obtain ⟨hf, hargs, hhost, hmemory, hnext⟩ := haction
    have hcalled := (hcalls n (Nat.lt_succ_self n) f args hf hargs).run _ (hs.onHosts hhost hmemory)
    change (callFunction cfg n depth f.info f args { s with host := host, memory := memory }).Confined R ℓ ℓ _
      at hcalled
    rw [hfailed] at hcalled
    cases hcalled with
    | failed ht he =>
      obtain ⟨hk, hreached⟩ := ih (fun k hk => hcalls k (Nat.lt_succ_of_lt hk))
        (hnext (.error e) _ _ _ he ht.host ht.only.memory) ht
      exact ⟨Nat.lt_succ_of_lt hk, hreached⟩

section Hosts

variable (hhosts : cfg.hosts.Fit R)

include hhosts

/-- The call of a host stays in the realm if all functions it may call do. -/
theorem hostCall {depth : Nat} (hcalls : CallBacks cfg R ℓ depth n) {i : Info} (hi : R.info i) (callee : Expr)
    (key : FunctionKey) {args : List Value} (hargs : Values.Only R.function args) :
    (Plan.hostCall depth i callee key args : Plan σ Value).Stays cfg n R ℓ (Value.Only R.function) := by
  have hfits (s : RunState σ) (hs : s.Confined R ℓ) :=
    hhosts.call key (s.view cfg.strategy) s.host s.memory args hs.host hs.only.memory hargs
  have hrun (s : RunState σ) (hs : s.Confined R ℓ) := runHost hcalls hi (.call callee) (hfits s hs) hs
  refine ⟨hrun, ?_⟩
  intro s e u hs h
  cases h with
  | border h => exact h.point hs (hrun s hs)
  | hostCall reached h =>
    obtain ⟨hk, hf, hfargs, ht⟩ := hostReaches reached hcalls (hfits s hs) hs
    exact (hcalls _ hk _ _ hf hfargs).reaches _ e u ht h

/-- A variable of a host calls nothing back. -/
theorem hostSet (depth : Nat) {i : Info} (hi : R.info i) (target : Expr) (key : VariableKey) {v : Value}
    (hv : v.Only R.function) : (Plan.hostSet depth i target key v : Plan σ Value).Stays cfg n R ℓ Anything := by
  have hcannot : (Primer.cannotAssign i target v : Run σ Value).Stays R Anything := .cannotAssign hi target v
  have hset (s : RunState σ) (hs : s.Confined R ℓ) :=
    hhosts.set key (s.view cfg.strategy) s.host s.memory v hs.host hs.only.memory hv
  have hrun (s : RunState σ) (hs : s.Confined R ℓ) :
      ((Plan.hostSet depth i target key v : Plan σ Value).run cfg n s).Confined R ℓ ℓ Anything := by
    simp only [Plan.run]
    cases haction : cfg.hosts.set key (s.view cfg.strategy) s.host s.memory v with
    | none => exact hcannot.run ℓ s hs
    | some action =>
      obtain ⟨hfits, hfinished⟩ := hset s hs action haction
      cases action with
      | callBack => cases hfinished
      | finish answer host memory =>
        cases n with
        | zero => exact .exhausted
        | succ n =>
          have hfinish : (Primer.runHost cfg (n + 1) depth i (.assign target) (.finish answer host memory)).Stays R
              (Value.Only R.function) := .finish hi n depth (.assign target) hfits
          have hdone := hfinish.run ℓ s hs
          simp only
          generalize Primer.runHost cfg (n + 1) depth i (.assign target) (.finish answer host memory) s = o at hdone
          cases hdone with
          | done hu _ => exact .done hu trivial
          | failed hu he => exact .failed hu he
          | exhausted => exact .exhausted
  refine ⟨hrun, ?_⟩
  intro s e u hs h
  cases h with
  | border h => exact h.point hs (hrun s hs)
  | hostSet haction reached =>
    obtain ⟨-, hfinished⟩ := hset s hs _ haction
    exact absurd hfinished reached.not_finished

/-! ## The plans of the actions that leave a record -/

/-- Taking a place gives a value of the realm. -/
theorem take {e : Expr} (he : R.info e.info) {v : Value} (hv : v.Only R.function) :
    (Plan.take cfg e v).Stays cfg n R ℓ (Value.Only R.function) := act (.take hhosts he hv)

/-- Taking the operands of an operation stays in the realm. -/
theorem operands {i : Info} (hi : R.info i) (symbol : String) {left right : Expr} (hleft : R.info left.info)
    (hright : R.info right.info) {a b : Value} (ha : a.Only R.function) (hb : b.Only R.function) :
    (Plan.operands cfg i symbol left right a b).Stays cfg n R ℓ Anything := by
  apply andThen (recorded (.take hhosts hleft ha) hi _)
  intro _ _
  exact andThen (recorded (.take hhosts hright hb) hi _) fun _ _ => pure trivial

omit hhosts in
/-- An operation gives a value of the realm. -/
theorem operator {i : Info} (hi : R.info i) {symbol : String} (hsymbol : R.loose ∨ isOperator symbol = true)
    (a b : Value) : (Plan.operator cfg i symbol a b).Stays cfg n R ℓ (Value.Only R.function) :=
  andThen (record hi _) fun _ _ => act (.binaryValue cfg hi hsymbol a b)

/-- A binary operation gives a value of the realm. -/
theorem binary {i : Info} (hi : R.info i) {left : Expr} (hleft : R.info left.info) {symbol : String}
    (hsymbol : R.loose ∨ isOperator symbol = true) {right : Expr} (hright : R.info right.info) {a b : Value}
    (ha : a.Only R.function) (hb : b.Only R.function) :
    (Plan.binary cfg i left symbol right a b).Stays cfg n R ℓ (Value.Only R.function) := by
  apply andThen (operands hhosts hi symbol hleft hright ha hb)
  intro _ _
  apply andThen (operator hi hsymbol _ _)
  intro _ hv
  exact andThen (narrate _ hi ..) fun _ _ => pure hv

/-- A sign gives a value of the realm. -/
theorem unary {i : Info} (hi : R.info i) (symbol : String) {operand : Expr} (hoperand : R.info operand.info)
    {a : Value} (ha : a.Only R.function) :
    (Plan.unary cfg i symbol operand a).Stays cfg n R ℓ (Value.Only R.function) := by
  apply andThen (record hi _)
  intro _ _
  apply andThen (take hhosts hoperand ha)
  intro x _
  apply andThen (act (.unaryValue cfg hi symbol x))
  intro _ hv
  exact andThen (narrate _ hi ..) fun _ _ => pure hv

/-- The value of an assignment is in the realm. -/
theorem assigned {a : Assignment} (hi : R.info a.info) (htarget : R.info a.target.info)
    (hvalue : R.info a.value.info) (hsymbol : R.loose ∨ isAssignment a.symbol = true) {place given : Value}
    (hplace : place.Only R.function) (hgiven : given.Only R.function) :
    (Plan.assigned cfg a place given).Stays cfg n R ℓ (Value.Only R.function) := by
  refine ite (fun _ => andThen (record hi _) fun _ _ => take hhosts hvalue hgiven) ?_
  intro hplain
  apply andThen (operands hhosts hi a.symbol htarget hvalue hplace hgiven)
  intro _ _
  refine operator hi ?_ _ _
  apply hsymbol.imp_right
  intro h
  exact isOperator_of_isAssignment h hplain

/-- The value of an increment or decrement is in the realm. -/
theorem bump {i : Info} (hi : R.info i) {target : Expr} (htarget : R.info target.info) (symbol : String)
    {place : Value} (hplace : place.Only R.function) :
    (Plan.bump cfg i target symbol place).Stays cfg n R ℓ (Value.Only R.function) := by
  apply andThen (record hi _)
  intro _ _
  apply andThen (take hhosts htarget hplace)
  intro x _
  exact act (.bumped cfg hi symbol x)

/-- A test stays in the realm. -/
theorem test {i : Info} (hi : R.info i) (tag : String) {e : Expr} (he : R.info e.info) {cond : Value}
    (hcond : cond.Only R.function) : (Plan.test cfg i tag e cond).Stays cfg n R ℓ Anything := by
  apply andThen (record hi _)
  intro _ _
  apply andThen (take hhosts he hcond)
  intro v _
  exact act (.testValue cfg hi tag v)

end Hosts

/-- A plan that reads off the state stays in the realm. -/
theorem asks {f : RunState σ → α} {quiet : (Run.asks f).Quiet} :
    (Plan.act (Run.asks f) quiet).Stays cfg n R ℓ Anything := act (.asks fun _ _ => trivial)

/-- A declaration stays in the realm. -/
theorem declared {d : Declared} (hi : R.info d.info) : (Plan.declared cfg d).Stays cfg n R ℓ Anything := by
  have hundefined : Value.undefined.Only R.function := trivial
  apply andThen (record hi _)
  intro _ _
  apply andThen asks
  intro exists? _
  refine ite (fun _ => pure trivial) ?_
  intro _
  apply andThen (act (.declareName d.name hundefined))
  intro _ _
  exact ite (fun _ => narrate _ hi ..) fun _ => pure trivial

/-- The declaration of a function of the realm stays in it. -/
theorem function {i : Info} (hi : R.info i) (name : String) (params : List String) {body : List Stmt}
    (hbody : R.stmts body) : (Plan.function cfg i name params body).Stays cfg n R ℓ Anything := by
  have hbind : (Plan.bindFunction i name params body : Plan σ Unit).Stays cfg n R ℓ Anything := by
    apply andThen (P := Anything) (act (.onMemory fun m hm => ⟨hm, trivial⟩))
    intro ref _
    have hfunction : (Value.function ⟨ref, i, name, params, body⟩).Only R.function := ⟨hi, hbody⟩
    exact andThen (act (.declareName name hfunction)) fun _ _ => narrate _ hi ..
  apply andThen (record hi _)
  intro _ _
  apply andThen asks
  intro existing? _
  cases existing? with
  | none => exact hbind
  | some existing => exact ite (fun _ => hbind) fun _ => raise (by decide) hi _

/-- Entering a function leads one frame further, if a call is open for it. -/
theorem enterFunction {i : Info} (hi : R.info i) {f : UserFunction} (hf : R.function f) {args : List Value}
    (hargs : Values.Only R.function args) {frames calls : Nat} (hfree : frames < calls) :
    (Plan.enterFunction cfg i f args).Leads cfg n R ⟨frames, calls⟩ ⟨frames + 1, calls⟩ ⟨frames, calls⟩
      Anything := by
  refine ite ?_ ?_
  · intro _
    apply leaf rfl
    intro s hs
    exact .failed hs (hs.raised (by decide) hi _ _)
  · intro _
    apply andThen (act (.bindParams cfg hi f.params hargs))
    intro bound hbound
    apply andThen asks
    intro label _
    exact andThen (narrate _ hf.1 ..) fun _ _ => pushFrame f hbound label hfree

/-- The result of a call is in the realm. -/
theorem callResult {i : Info} (hi : R.info i) (label : String) {result : Value} (hresult : result.Only R.function) :
    (Plan.callResult i label result : Plan σ Value).Stays cfg n R ℓ (Value.Only R.function) := by
  cases result
  case absent | undefined | null => exact pure trivial
  all_goals exact andThen (narrate _ hi ..) fun _ _ => pure hresult

end Plan.Leads

end Primer
