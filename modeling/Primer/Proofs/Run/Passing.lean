import Primer.Proofs.Run.Plan

/-!
# What a run passes on its way

`Plan.Passes` relates a run to the marks that it comes by and to the states in which it does, inside calls
and inside what hosts call back. The records of a run only grow, and so everything that is recorded when a
mark is passed is still there when the run ends: this is `Plan.Passes.grown`.
-/

set_option autoImplicit false

namespace Primer

open Run

variable {σ α β : Type}

/-! ## Recording -/

/-- A state in which one more command is recorded. -/
def RunState.withCommand (s : RunState σ) (c : Command) : RunState σ :=
  { s with commands := c :: s.commands }

/-- A checked run records a command, and goes on if it is allowed. -/
theorem record_checked {cfg : Setting σ} (hchecked : cfg.strategy ≠ .raw) (info : Info) (tag : String)
    (s : RunState σ) : record cfg info tag s =
      if CommandFilter.allowsTag cfg.filter tag then .done () (s.withCommand ⟨info.id, tag⟩)
      else raise .policy info ("<var>" ++ tag ++ "</var> cannot be used in this exercise")
        (s.withCommand ⟨info.id, tag⟩) := by
  have hraw : ¬ cfg.isRaw = true := by simpa [Setting.isRaw] using hchecked
  unfold record
  rw [if_neg hraw]
  show Run.andThen (Run.update _) _ s = _
  simp only [Run.andThen, Run.update]
  split <;> rfl

/-! ## Records grow -/

/-- Whether the state that an outcome leaves has a property. Nothing is said if the bound was used up. -/
def Outcome.Leaves (P : RunState σ → Prop) : Outcome σ α → Prop
  | .done _ s => P s
  | .failed _ s => P s
  | .exhausted => True

/-- An outcome leaves every weaker condition true. -/
theorem Outcome.Leaves.imp {P Q : RunState σ → Prop} (hPQ : ∀ s, P s → Q s) {o : Outcome σ α}
    (h : o.Leaves P) : o.Leaves Q := by
  cases o with
  | done a s => exact hPQ s h
  | failed e s => exact hPQ s h
  | exhausted => exact trivial

/-- Whether an outcome is a result, with a state, that a test accepts. -/
def Outcome.gives (o : Outcome σ α) (test : α → RunState σ → Bool) : Bool :=
  match o with
  | .done a s => test a s
  | _ => false

/-- Records that came out of earlier ones. Steps are only added when they are kept. -/
structure Records.Grown (strategy : Strategy) (r r' : Records) : Prop where
  commands : r.commands <:+ r'.commands
  steps : r.steps <:+ r'.steps
  ticks : r.ticks ≤ r'.ticks
  untold : strategy ≠ .stepped → r'.steps = r.steps

namespace Records.Grown

variable {strategy : Strategy} {r r' r'' : Records}

/-- Records have grown out of themselves. -/
theorem refl (r : Records) : Grown strategy r r :=
  ⟨List.suffix_refl _, List.suffix_refl _, Nat.le_refl _, fun _ => rfl⟩

/-- Growing passes on. -/
theorem trans (h : Grown strategy r r') (h' : Grown strategy r' r'') : Grown strategy r r'' where
  commands := h.commands.trans h'.commands
  steps := h.steps.trans h'.steps
  ticks := Nat.le_trans h.ticks h'.ticks
  untold hs := (h'.untold hs).trans (h.untold hs)

end Records.Grown

/-- A sequence of steps leaves what each of them leaves. -/
theorem Run.leaves_bind {P : RunState σ → Prop} {x : Run σ α} {f : α → Run σ β} {s : RunState σ}
    (hx : (x s).Leaves P) (hf : ∀ a t, P t → (f a t).Leaves P) : ((x >>= f) s).Leaves P := by
  show (Run.andThen x f s).Leaves P
  unfold Run.andThen
  generalize x s = o at hx
  cases o with
  | done a t => exact hf a t hx
  | failed e t => exact hx
  | exhausted => exact trivial

/-- A frame leaves what holds before and after leaving it. -/
theorem Run.leaves_framed {P : RunState σ → Prop} {x : Run σ (Option Value)} {s : RunState σ}
    (hx : (x s).Leaves P) (hP : ∀ t, P t → P (leaveFunction t)) : (Plan.framed x s).Leaves P := by
  unfold Plan.framed
  generalize x s = o at hx
  cases o with
  | done a t => exact hP t hx
  | failed e t => exact hP t hx
  | exhausted => exact trivial

/-- A computation that only adds to the records. -/
def Run.Grows (strategy : Strategy) (x : Run σ α) : Prop :=
  ∀ s, (x s).Leaves fun t => Records.Grown strategy s.records t.records

/-- A quiet computation leaves the records as they are. -/
theorem Run.Quiet.leaves_records {x : Run σ α} (hx : x.Quiet) (s : RunState σ) :
    (x s).Leaves fun t => t.records = s.records := by
  have hself := hx.withRecords s s.records
  rw [RunState.withRecords_records] at hself
  rw [hself]
  cases x s with
  | done a u => exact RunState.records_withRecords ..
  | failed e u => exact RunState.records_withRecords ..
  | exhausted => exact trivial

namespace Run.Grows

variable {strategy : Strategy}

/-- A quiet computation leaves the records. -/
theorem quiet {x : Run σ α} (hx : x.Quiet) : Grows strategy x := by
  intro s
  apply (hx.leaves_records s).imp
  intro t ht
  rw [ht]
  exact .refl _

/-- The records only grow in a sequence of steps in which they do. -/
theorem bind {x : Run σ α} {f : α → Run σ β} (hx : Grows strategy x) (hf : ∀ a, Grows strategy (f a)) :
    Grows strategy (x >>= f) :=
  fun s => leaves_bind (hx s) fun a t ht => (hf a t).imp fun _ hu => ht.trans hu

/-- The records only grow with a note on a failure if they do in the note. -/
theorem onFailure {x : Run σ α} {note : Run σ Unit} (hx : Grows strategy x)
    (hnote : Grows strategy note) : Grows strategy (Run.onFailure x note) := by
  intro s
  have hs := hx s
  unfold Run.onFailure
  generalize x s = o at hs
  cases o with
  | done a u => exact hs
  | failed e u =>
    have hu := (hnote u).imp fun t ht => hs.trans ht
    simp only
    generalize note u = o at hu
    cases o with
    | done a t => exact hu
    | failed e t => exact hu
    | exhausted => exact trivial
  | exhausted => exact trivial

/-- The records only grow in a frame if they do in what is done in it. -/
theorem framed {x : Run σ (Option Value)} (hx : Grows strategy x) : Grows strategy (Plan.framed x) :=
  fun s => leaves_framed (hx s) fun _ ht => ht

/-- Recording a command lets the records grow. -/
theorem record (cfg : Setting σ) (info : Info) (tag : String) :
    Grows cfg.strategy (Primer.record cfg info tag) := by
  intro s
  have hadd : Records.Grown cfg.strategy s.records
      { s.records with commands := ⟨info.id, tag⟩ :: s.commands } :=
    ⟨List.suffix_cons .., List.suffix_refl _, Nat.le_refl _, fun _ => rfl⟩
  unfold Primer.record
  split
  · exact .refl _
  · show (Run.andThen (Run.update _) _ s).Leaves _
    simp only [Run.andThen, Run.update]
    split
    · exact hadd
    · exact hadd

/-- Counting a statement leaves the records. -/
theorem tick (cfg : Setting σ) (info : Info) : Grows cfg.strategy (Primer.tick cfg info) := by
  intro s
  have hadd (asked : List NodeId) : Records.Grown cfg.strategy s.records ⟨s.commands, s.steps, s.ticks + 1, asked⟩ :=
    ⟨List.suffix_refl _, List.suffix_refl _, Nat.le_succ _, fun _ => rfl⟩
  unfold Primer.tick
  cases cfg.limits.stopped s.ticks with
  | some reason => exact .refl _
  | none =>
    simp only
    split
    · exact hadd _
    · cases cfg.limits.limiter with
      | none => exact hadd _
      | some limiter =>
        simp only
        cases limiter s.asked info.id with
        | none => exact hadd _
        | some text => exact hadd _

/-- A mark lets the records grow. -/
theorem mark (cfg : Setting σ) (place : Mark) : Grows cfg.strategy (place.run cfg) := by
  cases place with
  | record info tag => exact record cfg info tag
  | tick info => exact tick cfg info

/-- Narrating a step lets the records grow. -/
theorem narrate (cfg : Setting σ) (category : Category) (node : NodeId) (message : Memory → String)
    (changes : Unit → List Change) :
    Grows cfg.strategy (Primer.narrate cfg category node message changes) := by
  intro s
  unfold Primer.narrate
  split
  case isTrue h => exact ⟨List.suffix_refl _, List.suffix_cons .., Nat.le_refl _, fun hs => absurd h hs⟩
  case isFalse => exact .refl _

/-- A host only adds to the records, whatever it calls back. -/
theorem runHost (cfg : Setting σ) (depth : Nat) (info : Info) (use : HostUse) (n : Nat)
    (hcall : ∀ k < n, ∀ f args, Grows cfg.strategy (callFunction cfg k depth f.info f args))
    (action : HostAction σ) : Grows cfg.strategy (Primer.runHost cfg n depth info use action) := by
  -- Every call back uses up one of the bound.
  induction n generalizing action with
  | zero => exact fun s => trivial
  | succ n ih =>
    have hnext := ih fun k hk => hcall k (Nat.lt_succ_of_lt hk)
    intro s
    cases action with
    | finish answer host memory =>
      cases answer with
      | ok v => exact .refl _
      | error f =>
        refine quiet (Quiet.hostFailed ?_ f) { s with host := host, memory := memory }
        intro text
        cases use with
        | call callee => exact Quiet.raiseFrom ..
        | assign target => exact Quiet.raise ..
    | callBack f args host memory next =>
      have hs := hcall n (Nat.lt_succ_self n) f args { s with host := host, memory := memory }
      rw [runHost_callBack]
      generalize callFunction cfg n depth f.info f args { s with host := host, memory := memory } = o at hs
      cases o with
      | done v u => exact (hnext _ u).imp fun t ht => hs.trans ht
      | failed e u => exact (hnext _ u).imp fun t ht => hs.trans ht
      | exhausted => exact trivial

end Run.Grows

/-- If the tasks in a plan only add to the records, so does the plan. -/
theorem Plan.run_grows (cfg : Setting σ) (n : Nat)
    (htask : ∀ k ≤ n, ∀ {γ : Type} (t : Task σ γ), Grows cfg.strategy (t.run cfg k)) (p : Plan σ α) :
    Grows cfg.strategy (p.run cfg n) := by
  have hcall (depth : Nat) : ∀ k < n, ∀ (f : UserFunction) (args : List Value),
      Grows cfg.strategy (callFunction cfg k depth f.info f args) :=
    fun k hk f args => htask k (Nat.le_of_lt hk) (.callFunction depth f.info f args)
  induction p with
  | act x quiet => exact .quiet quiet
  | mark place => exact .mark cfg place
  | narrate category node message changes => exact .narrate cfg category node message changes
  | ask t => exact htask n (Nat.le_refl n) t
  | hostCall depth info callee key args => exact fun s => Grows.runHost cfg depth info _ n (hcall depth) _ s
  | hostSet depth info target key v =>
    intro s
    simp only [Plan.run]
    cases cfg.hosts.set key (s.view cfg.strategy) s.host s.memory v with
    | none => exact Grows.quiet (Quiet.cannotAssign info target v) s
    | some action => exact Grows.runHost cfg depth info _ n (hcall depth) action s
  | bind x f ihx ihf => exact .bind ihx ihf
  | recorded x quiet info tag => exact .onFailure (.quiet quiet) (.mark cfg (.record info tag))
  | inFrame x ih => exact .framed ih

/-- Whatever the evaluator does, it only adds to the records. -/
theorem Task.run_grows (cfg : Setting σ) (n : Nat) (t : Task σ α) : Grows cfg.strategy (t.run cfg n) := by
  -- A host may call back with any smaller bound, so the bound before this one is not enough.
  induction n using Nat.strongRecOn generalizing α t with
  | _ n ih =>
    cases n with
    | zero =>
      intro s
      cases t <;> exact trivial
    | succ n =>
      rw [Task.run_succ]
      exact Plan.run_grows cfg n (fun k hk _ t => ih k (Nat.lt_succ_of_le hk) t) (t.plan cfg)

/-! ## Passing a mark -/

/-- A host comes to call back a function: the bound that is left, the function, its arguments and the state.
The calls that it made before are over. -/
inductive HostReaches (cfg : Setting σ) (depth : Nat) :
    Nat → HostAction σ → RunState σ → Nat → UserFunction → List Value → RunState σ → Prop where
  | now {n f args host memory next s} :
      HostReaches cfg depth (n + 1) (.callBack f args host memory next) s n f args
        { s with host := host, memory := memory }
  | answered {n f args host memory next s v t k g gargs u} :
      callFunction cfg n depth f.info f args { s with host := host, memory := memory } = .done v t →
      HostReaches cfg depth n (next (.ok v) (t.view cfg.strategy) t.host t.memory) t k g gargs u →
      HostReaches cfg depth (n + 1) (.callBack f args host memory next) s k g gargs u
  | refused {n f args host memory next s e t k g gargs u} :
      callFunction cfg n depth f.info f args { s with host := host, memory := memory } = .failed e t →
      HostReaches cfg depth n (next (.error e) (t.view cfg.strategy) t.host t.memory) t k g gargs u →
      HostReaches cfg depth (n + 1) (.callBack f args host memory next) s k g gargs u

/-- On its way from a state, the run of a plan comes by a mark, in a state of its own. -/
inductive Plan.Passes (cfg : Setting σ) :
    Nat → {α : Type} → Plan σ α → RunState σ → Mark → RunState σ → Prop where
  | here {n place s} : Passes cfg n (.mark place) s place s
  | onFailure {n α} {x : Run σ α} {quiet info tag s e u} (h : x s = .failed e u) :
      Passes cfg n (.recorded x quiet info tag) s (.record info tag) u
  | ask {n α} {t : Task σ α} {s place u} (h : Passes cfg n (t.plan cfg) s place u) :
      Passes cfg (n + 1) (.ask t) s place u
  | hostCall {n depth info callee key args s k f fargs t place u}
      (reached : HostReaches cfg depth n (cfg.hosts.call key (s.view cfg.strategy) s.host s.memory args) s
        k f fargs t)
      (h : Passes cfg k (.ask (.callFunction depth f.info f fargs)) t place u) :
      Passes cfg n (.hostCall depth info callee key args) s place u
  | hostSet {n depth info target key v action s k f fargs t place u}
      (hset : cfg.hosts.set key (s.view cfg.strategy) s.host s.memory v = some action)
      (reached : HostReaches cfg depth n action s k f fargs t)
      (h : Passes cfg k (.ask (.callFunction depth f.info f fargs)) t place u) :
      Passes cfg n (.hostSet depth info target key v) s place u
  | first {n α β} {x : Plan σ α} {f : α → Plan σ β} {s place u} (h : Passes cfg n x s place u) :
      Passes cfg n (.bind x f) s place u
  | next {n α β} {x : Plan σ α} {f : α → Plan σ β} {s a t place u} (hx : x.run cfg n s = .done a t)
      (h : Passes cfg n (f a) t place u) : Passes cfg n (.bind x f) s place u
  | inFrame {n} {x : Plan σ (Option Value)} {s place u} (h : Passes cfg n x s place u) :
      Passes cfg n (.inFrame x) s place u

/-- What a function that a host calls back leaves in the records is there when the host is done. -/
theorem HostReaches.leaves_grown {cfg : Setting σ} {depth n k : Nat} {action : HostAction σ}
    {s t : RunState σ} {f : UserFunction} {args : List Value}
    (h : HostReaches cfg depth n action s k f args t) (info : Info) (use : HostUse) {r : Records}
    (hr : (callFunction cfg k depth f.info f args t).Leaves fun u =>
      Records.Grown cfg.strategy r u.records) :
    (runHost cfg n depth info use action s).Leaves fun u => Records.Grown cfg.strategy r u.records := by
  induction h with
  | @now n f args host memory next s =>
    rw [runHost_callBack]
    generalize callFunction cfg n depth f.info f args { s with host := host, memory := memory } = o at hr
    have hnext (action : HostAction σ) (u : RunState σ) (hu : Records.Grown cfg.strategy r u.records) :=
      (Grows.runHost cfg depth info use n
        (fun k _ f args => Task.run_grows cfg k (.callFunction depth f.info f args)) action u).imp
        fun w hw => hu.trans hw
    cases o with
    | done v u => exact hnext _ u hr
    | failed e u => exact hnext _ u hr
    | exhausted => exact trivial
  | answered hcall _ ih =>
    rw [runHost_callBack, hcall]
    exact ih hr
  | refused hcall _ ih =>
    rw [runHost_callBack, hcall]
    exact ih hr

/-- The records only grow in a plan. -/
theorem Plan.grows (cfg : Setting σ) (n : Nat) (p : Plan σ α) : Grows cfg.strategy (p.run cfg n) :=
  p.run_grows cfg n fun k _ _ t => t.run_grows cfg k

/-- What is recorded when a run passes a mark is still there when the run ends. -/
theorem Plan.Passes.grown {cfg : Setting σ} {n : Nat} {p : Plan σ α} {s u : RunState σ} {place : Mark}
    (h : p.Passes cfg n s place u) :
    (place.run cfg u).Leaves fun v =>
      (p.run cfg n s).Leaves fun t => Records.Grown cfg.strategy v.records t.records := by
  induction h with
  | @here n place s =>
    simp only [Plan.run]
    cases place.run cfg s with
    | done a v => exact Records.Grown.refl _
    | failed e v => exact Records.Grown.refl _
    | exhausted => exact trivial
  | @onFailure n α x quiet info tag s e u h =>
    simp only [Plan.run, Run.onFailure, h]
    cases (Mark.record info tag).run cfg u with
    | done a v => exact Records.Grown.refl _
    | failed e v => exact Records.Grown.refl _
    | exhausted => exact trivial
  | ask _ ih =>
    simp only [Plan.run, Task.run_succ]
    exact ih
  | hostCall reached _ ih => exact ih.imp fun v hv => reached.leaves_grown _ _ hv
  | hostSet hset reached _ ih =>
    simp only [Plan.run, hset]
    exact ih.imp fun v hv => reached.leaves_grown _ _ hv
  | @first n α β x f s place u _ ih =>
    apply ih.imp
    intro v hv
    apply leaves_bind hv
    intro a t ht
    exact ((f a).grows cfg n t).imp fun w hw => ht.trans hw
  | next hx _ ih =>
    apply ih.imp
    intro v hv
    show (Run.andThen _ _ _).Leaves _
    simp only [Run.andThen, hx]
    exact hv
  | inFrame _ ih => exact ih.imp fun v hv => leaves_framed hv fun t ht => ht

end Primer
