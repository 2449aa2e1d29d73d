import Primer.Proofs.Run.Passing

/-!
# Runs side by side

Two settings can agree on everything that decides what a computation does and differ in what is recorded,
narrated, forbidden or counted. The same program then runs alike in both: state by state, until the second
run is cut off at a mark where the first one goes on. `Companions` says what has to be known of two settings
for this, and `Companions.follows` is the result, for every piece of work and with more room for recursion
in the second run than in the first.

Hosts see a part of the state. Where the two runs show them different views, they must answer alike; and
where the second run may be cut off, hosts must not call back, since they could go on after a failed call.
-/

set_option autoImplicit false

namespace Primer

open Run

variable {σ α β : Type}

/-! ## Settings that agree -/

/-- Two settings under which every quiet computation is the same. -/
structure Setting.Agrees (cfg cfg' : Setting σ) : Prop where
  hosts : cfg'.hosts = cfg.hosts
  isRaw : cfg'.isRaw = cfg.isRaw
  callDepth : cfg'.limits.callDepth = cfg.limits.callDepth

namespace Setting.Agrees

variable {cfg cfg' : Setting σ} (h : cfg.Agrees cfg')

include h

/-- Both settings read a host variable alike. -/
theorem readHost : Primer.readHost cfg' = Primer.readHost cfg := by
  funext e v s
  simp only [Primer.readHost, h.hosts]

/-- Both settings take a place without checks alike. -/
theorem takeUnchecked : Primer.takeUnchecked cfg' = Primer.takeUnchecked cfg := by
  funext e v
  cases v <;> simp only [Primer.takeUnchecked, h.readHost]

/-- Both settings take a place alike. -/
theorem take : Primer.take cfg' = Primer.take cfg := by
  funext e v
  have hchecked (w : Value) : Primer.takeChecked cfg' e w = Primer.takeChecked cfg e w := by
    cases w <;> simp only [Primer.takeChecked, h.readHost]
  simp only [Primer.take, h.isRaw, h.takeUnchecked, hchecked]

/-- Both settings take several places alike. -/
theorem takeAll : Primer.takeAll cfg' = Primer.takeAll cfg := by
  funext es vs
  fun_induction Primer.takeAll cfg' es vs with
  | case1 e es v vs ih => simp only [Primer.takeAll, h.take, ih]
  | case2 => simp only [Primer.takeAll]

/-- Both settings compute a binary operation alike. -/
theorem binaryValue : Primer.binaryValue cfg' = Primer.binaryValue cfg := by
  funext info symbol a b
  simp only [Primer.binaryValue, h.isRaw]

/-- Both settings compute a sign alike. -/
theorem unaryValue : Primer.unaryValue cfg' = Primer.unaryValue cfg := by
  funext info symbol x
  simp only [Primer.unaryValue, h.isRaw]

/-- Both settings compute an increment or decrement alike. -/
theorem bumped : Primer.bumped cfg' = Primer.bumped cfg := by
  funext info symbol v
  unfold Primer.bumped
  rw [h.isRaw]

/-- Both settings test a value alike. -/
theorem testValue : Primer.testValue cfg' = Primer.testValue cfg := by
  funext info tag v
  simp only [Primer.testValue, h.isRaw]

/-- Both settings find the members of an object alike. -/
theorem memberOf? : Primer.memberOf? cfg' = Primer.memberOf? cfg := by
  funext s property v
  cases v <;> simp only [Primer.memberOf?, h.hosts]

/-- Both settings look up a member alike. -/
theorem memberAction : Primer.memberAction cfg' = Primer.memberAction cfg := by
  funext info object property o
  simp only [Primer.memberAction, h.isRaw, h.take, h.memberOf?]

/-- Both settings look up an element alike. -/
theorem elementAction : Primer.elementAction cfg' = Primer.elementAction cfg := by
  funext info array position a i
  simp only [Primer.elementAction, h.isRaw, h.take]

/-- Both settings enter a call alike. -/
theorem enterCall : Primer.enterCall cfg' = Primer.enterCall cfg := by
  funext info s
  simp only [Primer.enterCall, h.callDepth]

/-- Both settings bind parameters alike. -/
theorem bindParams : Primer.bindParams cfg' = Primer.bindParams cfg := by
  funext info ps args
  induction ps generalizing args with
  | nil => rfl
  | cons p ps ih => simp only [Primer.bindParams, Primer.bindParam, h.isRaw, ih]

/-- Both settings plan an expression alike. -/
theorem exprPlan (depth : Nat) (e : Expr) : e.plan cfg' depth = e.plan cfg depth := by
  cases e <;> simp only [Expr.plan, Plan.binary, Plan.operands, Plan.operator, Plan.unary, Plan.take,
    h.isRaw, h.take, h.binaryValue, h.unaryValue, h.memberAction, h.elementAction]

/-- Both settings plan a statement alike. -/
theorem stmtPlan (depth : Nat) (stmt : Stmt) : stmt.plan cfg' depth = stmt.plan cfg depth := by
  cases stmt
  case «for» info first test update body => cases first <;> rfl
  all_goals simp only [Stmt.plan, Plan.bump, Plan.take, Plan.function, h.isRaw, h.take, h.bumped]

/-- Settings that agree plan every piece of work alike. -/
theorem plan (t : Task σ α) : t.plan cfg' = t.plan cfg := by
  cases t with
  | eval depth e => simp only [Task.plan, h.exprPlan]
  | evalAll depth es => cases es <;> rfl
  | evalTaken depth es => cases es <;> simp only [Task.plan, Plan.take, h.take]
  | evalLogical depth left symbol right => simp only [Task.plan, h.takeUnchecked]
  | call depth info callee args f given =>
    simp only [Task.plan, Plan.take, h.take, h.takeAll, h.enterCall]
  | callFunction depth info f args =>
    simp only [Task.plan, Plan.enterFunction, h.isRaw, h.bindParams]
  | store depth info target place v => cases place <;> rfl
  | execAll depth body => cases body <;> rfl
  | exec depth stmt => simp only [Task.plan, h.stmtPlan]
  | execDeclared depth names => cases names <;> simp only [Task.plan, Plan.declared, h.isRaw]
  | execAssign depth a =>
    simp only [Task.plan, Plan.assigned, Plan.operands, Plan.operator, Plan.take, h.take, h.binaryValue]
  | execCond depth info test body branch =>
    simp only [Task.plan, Plan.test, Plan.take, h.take, h.testValue]
  | execLoop depth info tag test update body =>
    simp only [Task.plan, Plan.test, Plan.take, h.take, h.testValue]
  | execReturn depth info value =>
    cases value <;> simp only [Task.plan, Plan.take, h.take]

end Setting.Agrees

/-! ## States, hosts and outcomes side by side -/

/-- Two states that are the same except for their records, which are related. -/
structure RunState.Alike (S : Records → Records → Prop) (s t : RunState σ) : Prop where
  same : t = s.withRecords t.records
  records : S s.records t.records

namespace RunState.Alike

variable {S : Records → Records → Prop} {s t : RunState σ} (h : s.Alike S t)

include h

/-- States that are alike have the same host. -/
theorem host : t.host = s.host := by
  rw [h.same]
  rfl

/-- States that are alike have the same memory. -/
theorem memory : t.memory = s.memory := by
  rw [h.same]
  rfl

/-- States that are alike have the same active functions. -/
theorem stack : t.stack = s.stack := by
  rw [h.same]
  rfl

/-- What changes everything but the records in the same way keeps states alike. -/
theorem map {f : RunState σ → RunState σ} (hf : ∀ s r, f (s.withRecords r) = (f s).withRecords r) :
    (f s).Alike S (f t) := by
  have hrecords (s : RunState σ) : (f s).records = s.records := by
    rw [← s.withRecords_records, hf]
    rfl
  constructor
  · rw [hrecords, ← hf, ← h.same]
  · rw [hrecords, hrecords]
    exact h.records

end RunState.Alike

/-- Two actions of a host that do the same, as long as the views that they are shown are related. -/
inductive HostAction.Alike (V : View → View → Prop) : HostAction σ → HostAction σ → Prop where
  | finish (answer : Except HostFailure Value) (host : σ) (memory : Memory) :
      Alike V (.finish answer host memory) (.finish answer host memory)
  | callBack (f : UserFunction) (args : List Value) (host : σ) (memory : Memory)
      {next next' : Except Failure Value → View → σ → Memory → HostAction σ}
      (h : ∀ answer v w host memory, V v w → Alike V (next answer v host memory) (next' answer w host memory)) :
      Alike V (.callBack f args host memory next) (.callBack f args host memory next')

/-- Whether an action of a host is finished without a call. -/
def HostAction.Finished : HostAction σ → Prop
  | .finish .. => True
  | .callBack .. => False

/-- Hosts that do the same whichever of two related views they are shown. -/
structure Hosts.Blind (V : View → View → Prop) (hosts : Hosts σ) : Prop where
  call : ∀ key v w host memory args, V v w →
    HostAction.Alike V (hosts.call key v host memory args) (hosts.call key w host memory args)
  set : ∀ key v w host memory value, V v w →
    Option.Rel (HostAction.Alike V) (hosts.set key v host memory value) (hosts.set key w host memory value)

/-- Hosts that never call back. -/
structure Hosts.Still (hosts : Hosts σ) : Prop where
  call : ∀ key v host memory args, (hosts.call key v host memory args).Finished
  set : ∀ key v host memory value, ∀ action ∈ hosts.set key v host memory value, action.Finished

/-- How the outcome of a second run follows that of a first one: both end alike, or the second is cut off
at a mark that the first one passed, and nothing happens after that but the loss of frames. Nothing is said
if the bound of the first was used up. -/
inductive Follows (cfg' : Setting σ) (S : Records → Records → Prop) (cuts : Mark → Prop)
    (passed : Mark → RunState σ → Prop) : Outcome σ α → Outcome σ α → Prop where
  | done {a s t} (h : s.Alike S t) : Follows cfg' S cuts passed (.done a s) (.done a t)
  | failed {e s t} (h : s.Alike S t) : Follows cfg' S cuts passed (.failed e s) (.failed e t)
  | exhausted {o} : Follows cfg' S cuts passed .exhausted o
  | cut {o e place u t v w} (hcuts : cuts place) (hu : passed place u) (h : u.Alike S t)
      (hstop : place.run cfg' t = .failed e v) (hw : w = { v with frames := w.frames }) :
      Follows cfg' S cuts passed o (.failed e w)

namespace Follows

variable {cfg' : Setting σ} {S : Records → Records → Prop} {cuts : Mark → Prop}
  {passed passed' : Mark → RunState σ → Prop}

/-- One outcome follows the other with everything that more places are passed by. -/
theorem imp {o o' : Outcome σ α} (h : Follows cfg' S cuts passed o o')
    (himp : ∀ place u, passed place u → passed' place u) : Follows cfg' S cuts passed' o o' := by
  cases h with
  | done h => exact .done h
  | failed h => exact .failed h
  | exhausted => exact .exhausted
  | cut hcuts hu h hstop hw => exact .cut hcuts (himp _ _ hu) h hstop hw

/-- A quiet computation follows itself from states that are alike. -/
theorem quiet {x : Run σ α} (hx : x.Quiet) {s t : RunState σ} (h : s.Alike S t) :
    Follows cfg' S cuts passed (x s) (x t) := by
  have hrecords := hx.leaves_records s
  rw [h.same, hx.withRecords]
  generalize x s = o at hrecords
  cases o with
  | done a u => exact .done ⟨rfl, by rw [show u.records = s.records from hrecords]; exact h.records⟩
  | failed e u => exact .failed ⟨rfl, by rw [show u.records = s.records from hrecords]; exact h.records⟩
  | exhausted => exact .exhausted

/-- A sequence of steps follows another if each step does. -/
theorem bind {x x' : Run σ α} {f f' : α → Run σ β} {s t : RunState σ}
    (hx : Follows cfg' S cuts passed (x s) (x' t))
    (hf : ∀ a u w, x s = .done a u → u.Alike S w → Follows cfg' S cuts passed (f a u) (f' a w)) :
    Follows cfg' S cuts passed ((x >>= f) s) ((x' >>= f') t) := by
  show Follows cfg' S cuts passed (Run.andThen x f s) (Run.andThen x' f' t)
  unfold Run.andThen
  generalize ho : x s = o at hx hf
  generalize x' t = o' at hx
  cases hx with
  | done h => exact hf _ _ _ rfl h
  | failed h => exact .failed h
  | exhausted => exact .exhausted
  | cut hcuts hu h hstop hw => exact .cut hcuts hu h hstop hw

/-- A frame follows another if what is done in it does. -/
theorem framed {x x' : Run σ (Option Value)} {s t : RunState σ}
    (hx : Follows cfg' S cuts passed (x s) (x' t)) :
    Follows cfg' S cuts passed (Plan.framed x s) (Plan.framed x' t) := by
  have hleave {u w : RunState σ} (h : u.Alike S w) : (leaveFunction u).Alike S (leaveFunction w) :=
    h.map fun _ _ => rfl
  unfold Plan.framed
  generalize x s = o at hx
  generalize x' t = o' at hx
  cases hx with
  | done h => exact .done (hleave h)
  | failed h => exact .failed (hleave h)
  | exhausted => exact .exhausted
  | cut hcuts hu h hstop hw =>
    refine .cut hcuts hu h hstop ?_
    rw [hw]
    rfl

/-- A recorded computation follows another if the notes on its failures do. -/
theorem recorded {x : Run σ α} (hx : x.Quiet) {note note' : Run σ Unit} {s t : RunState σ}
    (h : s.Alike S t)
    (hnote : ∀ e u w, x s = .failed e u → u.Alike S w → Follows cfg' S cuts passed (note u) (note' w)) :
    Follows cfg' S cuts passed (Run.onFailure x note s) (Run.onFailure x note' t) := by
  -- A quiet computation is never cut off, so the note is made in both runs or in none.
  have hquiet : Follows cfg' S (fun _ => False) passed (x s) (x t) := quiet hx h
  unfold Run.onFailure
  generalize x s = o at hquiet hnote
  generalize x t = o' at hquiet
  cases hquiet with
  | done h => exact .done h
  | @failed e u w h =>
    have hu := hnote e u w rfl h
    simp only
    generalize note u = o at hu
    generalize note' w = o' at hu
    cases hu with
    | done h => exact .failed h
    | failed h => exact .failed h
    | exhausted => exact .exhausted
    | cut hcuts hu h hstop hw => exact .cut hcuts hu h hstop hw
  | exhausted => exact .exhausted
  | cut hcuts => exact hcuts.elim

end Follows

/-! ## Companions -/

/-- The records after a step was narrated, if steps are kept. -/
def Setting.told (cfg : Setting σ) (step : Step) (r : Records) : Records :=
  if cfg.strategy = .stepped then { r with steps := step :: r.steps } else r

/-- Narrating a step adds what the setting tells of it to the records. -/
theorem narrate_eq (cfg : Setting σ) (category : Category) (node : NodeId) (message : Memory → String)
    (changes : Unit → List Change) (s : RunState σ) :
    narrate cfg category node message changes s = .done () (s.withRecords
      (cfg.told ⟨[⟨node, category, message s.memory⟩], changes (), s.stack⟩ s.records)) := by
  unfold narrate Setting.told
  split <;> rfl

/-- What has to be known of two settings for the second to run like the first until it is cut off: how their
records are related at any time (`S`), how what hosts see is (`V`), and at which marks the second can be cut
off (`cuts`). -/
structure Companions (cfg cfg' : Setting σ) (S : Records → Records → Prop) (V : View → View → Prop)
    (cuts : Mark → Prop) : Prop where
  agrees : cfg.Agrees cfg'
  told : ∀ step r r', S r r' → S (cfg.told step r) (cfg'.told step r')
  view : ∀ s t : RunState σ, s.Alike S t → V (s.view cfg.strategy) (t.view cfg'.strategy)
  blind : cfg.hosts.Blind V
  still : ∀ place, cuts place → cfg.hosts.Still
  mark : ∀ place s t, s.Alike S t →
    Follows cfg' S cuts (fun place' u => place' = place ∧ u = s) (place.run cfg s) (place.run cfg' t)

namespace Companions

variable {cfg cfg' : Setting σ} {S : Records → Records → Prop} {V : View → View → Prop}
  {cuts : Mark → Prop}

/-- A host does the same in both runs if the functions that it calls back do. -/
theorem runHost (h : Companions cfg cfg' S V cuts) (depth : Nat) (info : Info) (use : HostUse) {n m : Nat}
    (hnm : n ≤ m)
    (hcall : ∀ k < n, ∀ j ≥ k, ∀ (f : UserFunction) (args : List Value) (s t : RunState σ), s.Alike S t →
      Follows cfg' S cuts (fun _ _ => True) (callFunction cfg k depth f.info f args s)
        (callFunction cfg' j depth f.info f args t))
    {action action' : HostAction σ} (haction : action.Alike V action') (hstill : ∀ place, cuts place → action.Finished)
    {s t : RunState σ} (hs : s.Alike S t) :
    Follows cfg' S cuts (fun _ _ => False) (Primer.runHost cfg n depth info use action s)
      (Primer.runHost cfg' m depth info use action' t) := by
  have hplaced (host : σ) (memory : Memory) {s t : RunState σ} (hs : s.Alike S t) :
      ({ s with host := host, memory := memory } : RunState σ).Alike S
        { t with host := host, memory := memory } :=
    hs.map (f := fun s => { s with host := host, memory := memory }) fun _ _ => rfl
  induction n generalizing m action action' s t with
  | zero => exact .exhausted
  | succ n ih =>
    obtain ⟨m, rfl⟩ : ∃ k, m = k + 1 := ⟨m - 1, by omega⟩
    cases haction with
    | finish answer host memory =>
      have hs' := hplaced host memory hs
      cases answer with
      | ok v => exact .done hs'
      | error f =>
        refine Follows.quiet (Quiet.hostFailed ?_ f) hs'
        intro text
        cases use with
        | call callee => exact Quiet.raiseFrom ..
        | assign target => exact Quiet.raise ..
    | @callBack f args host memory next next' hnext =>
      -- A host that calls back cannot meet a cut.
      have hcuts (place : Mark) : ¬ cuts place := hstill place
      have hgo (answer : Except Failure Value) {u w : RunState σ} (hu : u.Alike S w) :
          Follows cfg' S cuts (fun _ _ => False)
            (Primer.runHost cfg n depth info use (next answer (u.view cfg.strategy) u.host u.memory) u)
            (Primer.runHost cfg' m depth info use (next' answer (w.view cfg'.strategy) w.host w.memory) w) := by
        rw [hu.host, hu.memory]
        exact ih (by omega) (fun k hk => hcall k (by omega))
          (hnext answer _ _ u.host u.memory (h.view u w hu)) (fun place hc => absurd hc (hcuts place)) hu
      have hback := hcall n (by omega) m (by omega) f args _ _ (hplaced host memory hs)
      rw [runHost_callBack, runHost_callBack]
      generalize callFunction cfg n depth f.info f args { s with host := host, memory := memory } = o at hback
      generalize callFunction cfg' m depth f.info f args { t with host := host, memory := memory } = o' at hback
      cases hback with
      | done hu => exact hgo _ hu
      | failed hu => exact hgo _ hu
      | exhausted => exact .exhausted
      | cut hc => exact absurd hc (hcuts _)

/-- If the tasks in a plan follow each other, so do the runs of the plan. -/
theorem plan (h : Companions cfg cfg' S V cuts) {n m : Nat} (hnm : n ≤ m)
    (htask : ∀ k ≤ n, ∀ j ≥ k, ∀ {γ : Type} (t : Task σ γ) (s s' : RunState σ), s.Alike S s' →
      Follows cfg' S cuts ((Plan.ask t).Passes cfg k s) (t.run cfg k s) (t.run cfg' j s'))
    (p : Plan σ α) {s t : RunState σ} (hs : s.Alike S t) :
    Follows cfg' S cuts (p.Passes cfg n s) (p.run cfg n s) (p.run cfg' m t) := by
  have hcall (depth k : Nat) (hk : k < n) (j : Nat) (hj : j ≥ k) (f : UserFunction) (args : List Value)
      (s t : RunState σ) (hs : s.Alike S t) :
      Follows cfg' S cuts (fun _ _ => True) (callFunction cfg k depth f.info f args s)
        (callFunction cfg' j depth f.info f args t) :=
    (htask k (by omega) j hj (.callFunction depth f.info f args) s t hs).imp fun _ _ _ => trivial
  induction p generalizing s t with
  | act x quiet => exact .quiet quiet hs
  | mark place =>
    refine (h.mark place s t hs).imp ?_
    rintro _ _ ⟨rfl, rfl⟩
    exact .here
  | narrate category node message changes =>
    simp only [Plan.run, narrate_eq]
    rw [hs.memory, hs.stack]
    refine .done ⟨?_, h.told _ _ _ hs.records⟩
    rw [hs.same]
    rfl
  | ask task => exact htask n (by omega) m hnm task s t hs
  | hostCall depth info callee key args =>
    simp only [Plan.run]
    rw [hs.host, hs.memory, h.agrees.hosts]
    apply (h.runHost depth info (.call callee) hnm (hcall depth) (h.blind.call key _ _ s.host s.memory args
      (h.view s t hs)) (fun place hc => (h.still place hc).call ..) hs).imp
    intro _ _
    exact False.elim
  | hostSet depth info target key v =>
    simp only [Plan.run]
    rw [hs.host, hs.memory, h.agrees.hosts]
    have hset := h.blind.set key _ _ s.host s.memory v (h.view s t hs)
    have hstill := fun place hc => (h.still place hc).set key (s.view cfg.strategy) s.host s.memory v
    generalize cfg.hosts.set key (s.view cfg.strategy) s.host s.memory v = o at hset hstill
    generalize cfg.hosts.set key (t.view cfg'.strategy) s.host s.memory v = o' at hset
    cases hset with
    | none => exact .quiet (Quiet.cannotAssign info target v) hs
    | some hact =>
      apply (h.runHost depth info (.assign target) hnm (hcall depth) hact (fun place hc => hstill place hc _ rfl)
        hs).imp
      intro _ _
      exact False.elim
  -- The second part starts from states that are alike, unless the second run was cut off before.
  | bind x f ihx ihf =>
    apply Follows.bind ((ihx hs).imp fun _ _ => .first)
    intro a u w hx hu
    exact (ihf a hu).imp fun _ _ => .next hx
  | recorded x quiet info tag =>
    apply Follows.recorded quiet hs
    intro e u w hx hu
    refine (h.mark (.record info tag) u w hu).imp ?_
    rintro _ _ ⟨rfl, rfl⟩
    exact .onFailure hx
  | inFrame x ih => exact .framed ((ih hs).imp fun _ _ => .inFrame)

/-- Every piece of work runs alike under companions, until the second run is cut off. -/
theorem follows (h : Companions cfg cfg' S V cuts) {n m : Nat} (hnm : n ≤ m) (t : Task σ α)
    {s s' : RunState σ} (hs : s.Alike S s') :
    Follows cfg' S cuts ((Plan.ask t).Passes cfg n s) (t.run cfg n s) (t.run cfg' m s') := by
  -- The second run may have more room than the first, and keeps its lead in every call.
  induction n using Nat.strongRecOn generalizing m α t s s' with
  | _ n ih =>
    cases n with
    | zero =>
      rw [show t.run cfg 0 s = .exhausted by cases t <;> rfl]
      exact .exhausted
    | succ n =>
      obtain ⟨m, rfl⟩ : ∃ k, m = k + 1 := ⟨m - 1, by omega⟩
      rw [Task.run_succ, Task.run_succ, h.agrees.plan]
      refine (h.plan (by omega) ?_ (t.plan cfg) hs).imp fun _ _ => .ask
      intro k hk j hj _ t s s' hs
      exact ih k (by omega) hj t hs

end Companions

end Primer
