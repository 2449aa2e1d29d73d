import Primer.Proofs.Control.Part
import Primer.Proofs.Realm.Basic

/-!
# Actions in a realm

An action of the evaluator stays in a realm: it keeps the level of the state, gives a value with functions of
the realm only, and fails with faults at the nodes that it is given. Hosts fit into a realm if they stay in it
themselves: they give and call back functions of the realm only, and pass on no other faults than those that they
were told.
-/

set_option autoImplicit false

namespace Primer

open Run

variable {σ α β : Type} {R : Realm σ}

/-- A computation that stays in a realm, at the level where it starts. -/
structure Run.Stays (R : Realm σ) (x : Run σ α) (Q : α → Prop) : Prop where
  run : ∀ ℓ s, s.Confined R ℓ → (x s).Confined R ℓ ℓ Q

namespace Run.Stays

variable {P : α → Prop} {Q : β → Prop}

/-- A value that meets the condition is given. -/
theorem value {a : α} (h : P a) : Stays R (Run.value a) P := ⟨fun _ _ hs => .done hs h⟩

/-- A value that meets the condition is given. -/
theorem pure {a : α} (h : P a) : Stays R (Pure.pure a) P := value h

/-- What is read off a state meets the condition that all states give. -/
theorem asks {f : RunState σ → α} (h : ∀ s, s.Only R.function → P (f s)) : Stays R (Run.asks f) P :=
  ⟨fun _ s hs => .done hs (h s hs.only)⟩

/-- A step of the memory that stays in the realm does so in a run. -/
theorem onMemory {f : Memory → α × Memory}
    (h : ∀ m, m.Only R.function → (f m).2.Only R.function ∧ P (f m).1) : Stays R (Run.onMemory f) P := by
  constructor
  intro ℓ s hs
  obtain ⟨hmemory, hvalue⟩ := h s.memory hs.only.memory
  exact .done (hs.onMemory hmemory) hvalue

/-- A failure with a cause stays in the realm at a place of it. -/
theorem raiseFrom {kind : FaultClass} (hkind : kind ≠ .internal) {i : Info} (hi : R.info i) (message cause : String) :
    Stays R (Run.raiseFrom kind i message cause) P :=
  ⟨fun _ _ hs => .failed hs (hs.raised hkind hi message _)⟩

/-- An internal failure stays in the realm if the realm allows it. -/
theorem raiseInternal {kind : FaultClass} {i : Info} (hi : R.info i) (hkind : kind = .internal → R.loose)
    (message : String) : Stays R (Run.raise kind i message) P :=
  ⟨fun _ _ hs => .failed hs (hs.faultAt hi hkind message _)⟩

/-- A failure stays in the realm at a place of it. -/
theorem raise {kind : FaultClass} (hkind : kind ≠ .internal) {i : Info} (hi : R.info i) (message : String) :
    Stays R (Run.raise kind i message) P := raiseInternal hi (fun h => absurd h hkind) message

/-- A failure without a place stays in the realm if the realm allows it. -/
theorem failText (h : R.loose) (message : String) : Stays R (Run.failText message) P :=
  ⟨fun _ _ hs => .failed hs h⟩

/-- A sequence of steps stays in the realm if each of them does. -/
theorem bind {x : Run σ α} {f : α → Run σ β} (hx : Stays R x P) (hf : ∀ a, P a → Stays R (f a) Q) :
    Stays R (x >>= f) Q := by
  constructor
  intro ℓ s hs
  have hxs := hx.run ℓ s hs
  show (Run.andThen x f s).Confined R ℓ ℓ Q
  unfold Run.andThen
  generalize x s = o at hxs
  cases hxs with
  | done hu ha => exact (hf _ ha).run ℓ _ hu
  | failed hu he => exact .failed hu he
  | exhausted => exact .exhausted

/-- A choice stays in the realm if both sides do. -/
theorem ite {c : Prop} [Decidable c] {x y : Run σ α} (hx : Stays R x P) (hy : Stays R y P) :
    Stays R (if c then x else y) P := by
  by_cases h : c
  · rw [if_pos h]
    exact hx
  · rw [if_neg h]
    exact hy

/-- What a computation does in a state may be what another one does there. -/
theorem of_eq {x : Run σ α} {y : RunState σ → Run σ α} (hy : ∀ s, s.Only R.function → Stays R (y s) P)
    (h : ∀ s, x s = y s s) : Stays R x P := by
  constructor
  intro ℓ s hs
  rw [h]
  exact (hy s hs.only).run ℓ s hs

/-- A note that is made on a failure stays in the realm if the note does. -/
theorem onFailure {x : Run σ α} {note : Run σ Unit} {N : Unit → Prop} (hx : Stays R x P) (hnote : Stays R note N) :
    Stays R (Run.onFailure x note) P := by
  constructor
  intro ℓ s hs
  have hxs := hx.run ℓ s hs
  unfold Run.onFailure
  generalize x s = o at hxs
  cases hxs with
  | done hu ha => exact .done hu ha
  | @failed e u hu he =>
    have hnoted := hnote.run ℓ u hu
    simp only
    generalize note u = o at hnoted
    cases hnoted with
    | done hv _ => exact .failed hv he
    | failed hv he' => exact .failed hv he'
    | exhausted => exact .exhausted
  | exhausted => exact .exhausted

end Run.Stays

/-! ## Hosts -/

/-- What a host is told after it has called a function back. -/
def Realm.Answers (R : Realm σ) : Except Failure Value → Prop
  | .ok v => v.Only R.function
  | .error e => R.Fails e

/-- What a host may answer. -/
def Realm.Replies (R : Realm σ) : Except HostFailure Value → Prop
  | .ok v => v.Only R.function
  | .error (.passedOn (.fault f)) => R.Fails (.fault f)
  | .error _ => True

/-- What a host does fits into a realm, whatever it is told by the functions that it calls back. -/
def HostAction.Fits (R : Realm σ) : HostAction σ → Prop
  | .finish answer host memory => R.Replies answer ∧ R.host host ∧ memory.Only R.function
  | .callBack f args host memory next =>
    R.function f ∧ Values.Only R.function args ∧ R.host host ∧ memory.Only R.function ∧
      ∀ answer view host memory, R.Answers answer → R.host host → memory.Only R.function →
        (next answer view host memory).Fits R

/-- Hosts that fit into a realm. Their functions may call functions of the program, and their variables do not. -/
structure Hosts.Fit (hosts : Hosts σ) (R : Realm σ) : Prop where
  member : ∀ host o name v, R.host host → hosts.member host o name = some v → v.Only R.function
  call : ∀ key view host memory args, R.host host → memory.Only R.function → Values.Only R.function args →
    (hosts.call key view host memory args).Fits R
  get : ∀ key host memory, R.host host → memory.Only R.function →
    (HostAction.finish (hosts.get key host memory).1 (hosts.get key host memory).2.1
      (hosts.get key host memory).2.2).Fits R
  set : ∀ key view host memory v, R.host host → memory.Only R.function → v.Only R.function →
    ∀ action ∈ hosts.set key view host memory v, action.Fits R ∧ action.Finished

/-! ## Actions of the evaluator -/

namespace Run.Stays

variable {i : Info}

/-- The failure of a host stays in the realm, however a breakdown is reported. -/
theorem hostFailed (hi : R.info i) {broken : String → Run σ Value}
    (hbroken : ∀ text, Stays R (broken text) (Value.Only R.function)) {f : HostFailure}
    (hf : R.Replies (.error f)) : Stays R (Primer.hostFailed i broken f) (Value.Only R.function) := by
  rcases f with text | (f | text | b) | text
  · exact raiseFrom (by decide) hi ..
  · exact ⟨fun _ _ hs => .failed hs hf⟩
  · exact raiseFrom (by decide) hi ..
  · exact hbroken b.text
  · exact hbroken text

/-- Reporting a breakdown of a host stays in the realm. -/
theorem broken {P : α → Prop} (hi : R.info i) (use : HostUse) (text : String) : Stays R (use.broken i text) P := by
  cases use with
  | call callee => exact raiseFrom (by decide) hi ..
  | assign target => exact raise (by decide) hi _

/-- A host that is finished. -/
theorem finish {cfg : Setting σ} (hi : R.info i) (n depth : Nat) (use : HostUse) {answer : Except HostFailure Value}
    {host : σ} {memory : Memory} (h : (HostAction.finish answer host memory).Fits R) :
    Stays R (runHost cfg (n + 1) depth i use (.finish answer host memory)) (Value.Only R.function) := by
  obtain ⟨hanswer, hhost, hmemory⟩ := h
  constructor
  intro ℓ s hs
  have hs' := hs.onHosts hhost hmemory
  cases answer with
  | ok v => exact .done hs' hanswer
  | error f => exact (hostFailed hi (broken hi use) hanswer).run ℓ _ hs'

section Hosts

variable {cfg : Setting σ} (hhosts : cfg.hosts.Fit R)

include hhosts

/-- What a host variable holds is in the realm. -/
theorem readHost {e : Expr} (he : R.info e.info) (v : HostVariable) :
    Stays R (Primer.readHost cfg e v) (Value.Only R.function) := by
  constructor
  intro ℓ s hs
  obtain ⟨hanswer, hhost, hmemory⟩ := hhosts.get v.key s.host s.memory hs.host hs.only.memory
  unfold Primer.readHost
  generalize cfg.hosts.get v.key s.host s.memory = answer at hanswer hhost hmemory
  obtain ⟨result, host, memory⟩ := answer
  have hs' := hs.onHosts hhost hmemory
  cases result with
  | ok w =>
    refine .done hs' ?_
    change w.Only R.function at hanswer
    cases w <;> exact hanswer
  | error f =>
    have hbroken (text : String) : Stays R (Run.raise .host e.info
        ("Reading <var>" ++ e.code ++ "</var> failed: " ++ text) : Run σ Value) (Value.Only R.function) :=
      raise (by decide) he _
    exact (hostFailed he hbroken hanswer).run ℓ _ hs'

/-- A place that is taken without checks gives a value of the realm. -/
theorem takeUnchecked {e : Expr} (he : R.info e.info) {v : Value} (hv : v.Only R.function) :
    Stays R (Primer.takeUnchecked cfg e v) (Value.Only R.function) := by
  cases v
  case hostVariable w => exact readHost hhosts he w
  case cell r =>
    apply asks
    intro s hs
    have hread := hs.memory.read r
    generalize s.memory.read r = w at hread
    cases w <;> exact hread
  case arrayLength a => exact asks fun _ _ => trivial
  all_goals exact pure hv

/-- A place that is taken with checks gives a value of the realm. -/
theorem takeChecked {e : Expr} (he : R.info e.info) {v : Value} (hv : v.Only R.function) :
    Stays R (Primer.takeChecked cfg e v) (Value.Only R.function) := by
  have hunusable (reason : String) : Stays R (unusable e reason) (Value.Only R.function) := raise (by decide) he _
  cases v
  case hostVariable w => exact readHost hhosts he w
  case arrayLength a => exact asks fun _ _ => trivial
  case number x => exact ite (pure hv) (hunusable _)
  case absent | undefined | null | pending => exact hunusable _
  all_goals exact pure hv

/-- A place that is taken gives a value of the realm. -/
theorem take {e : Expr} (he : R.info e.info) {v : Value} (hv : v.Only R.function) :
    Stays R (Primer.take cfg e v) (Value.Only R.function) := by
  refine ite (takeUnchecked hhosts he hv)
    (of_eq (y := fun s => Primer.takeChecked cfg e (opened s.memory v)) ?_ fun _ => rfl)
  intro s hs
  exact takeChecked hhosts he (hs.memory.opened hv)

/-- Places that are taken one after the other give values of the realm. -/
theorem takeAll {es : List Expr} (hes : ∀ e ∈ es, R.info e.info) {vs : List Value}
    (hvs : Values.Only R.function vs) : Stays R (Primer.takeAll cfg es vs) (Values.Only R.function) := by
  fun_induction Primer.takeAll cfg es vs with
  | case1 e es v vs ih =>
    have hrest := ih (fun e he => hes e (List.mem_cons_of_mem _ he)) fun v hv => hvs v (List.mem_cons_of_mem _ hv)
    apply bind (take hhosts (hes e List.mem_cons_self) (hvs v List.mem_cons_self))
    intro w hw
    exact bind hrest fun ws hws => pure (Values.only_cons hw hws)
  | case2 => exact pure Values.only_nil

/-- A member of an object is in the realm. -/
theorem memberAction (hi : R.info i) {object : Expr} (hobject : R.info object.info) (property : String) {o : Value}
    (ho : o.Only R.function) : Stays R (Primer.memberAction cfg i object property o) (Value.Only R.function) := by
  apply bind (take hhosts hobject ho)
  intro v hv
  let found? : Option (Option Value) → Prop := fun found => ∀ m, found = some (some m) → m.Only R.function
  have hmember : Stays R (Run.asks fun s => memberOf? cfg s property v) found? := by
    constructor
    intro ℓ s hs
    refine .done hs ?_
    intro m hm
    clear hv
    cases v
    case object key => exact hhosts.member s.host key property m hs.host (Option.some.inj hm)
    case array ref =>
      simp only [memberOf?, Option.some.injEq] at hm
      split at hm <;> cases hm
      exact trivial
    case string t =>
      simp only [memberOf?, Option.some.injEq] at hm
      split at hm <;> cases hm
      exact trivial
    all_goals cases hm
  apply bind hmember
  intro found hfound
  rcases found with _ | (_ | m)
  · exact raise (by decide) hi _
  · exact ite (pure trivial) (raise (by decide) hi _)
  · exact pure (hfound m rfl)

/-- An element of an array is in the realm. -/
theorem elementAction (hi : R.info i) {array position : Expr} (harray : R.info array.info)
    (hposition : R.info position.info) {a j : Value} (ha : a.Only R.function) (hj : j.Only R.function) :
    Stays R (Primer.elementAction cfg i array position a j) (Value.Only R.function) := by
  rw [elementAction_eq]
  apply bind (take hhosts harray ha)
  intro v hv
  apply bind (take hhosts hposition hj)
  intro p hp
  clear hv hp
  have hrefused (message : String) : Stays R
      (if cfg.isRaw then Pure.pure .undefined else Run.raise .type i message : Run σ Value)
      (Value.Only R.function) := ite (pure trivial) (raise (by decide) hi _)
  cases p
  case number x =>
    refine ite (hrefused _) (ite (hrefused _) ?_)
    cases v
    case array ref => exact onMemory fun m hm => (hm.slot ref (indexOf x)).symm
    all_goals exact raise (by decide) hi _
  all_goals exact hrefused _

end Hosts

/-- Refusing to assign stays in the realm. -/
theorem cannotAssign {P : α → Prop} (hi : R.info i) (target : Expr) (v : Value) :
    Stays R (Primer.cannotAssign i target v : Run σ α) P := by
  rw [cannotAssign_eq]
  exact ⟨fun ℓ s hs => (raise (by decide) hi _).run ℓ s hs⟩

/-- Writing to a place that does not belong to the hosts stays in the realm. -/
theorem assignPlace (hi : R.info i) (target : Expr) (place : Value) {v : Value} (hv : v.Only R.function) :
    Stays R (Primer.assignPlace i target place v) Anything := by
  have htooLong (message : String) : Stays R (Run.raise .limit i message : Run σ Unit) Anything := raise (by decide) hi _
  rw [assignPlace_eq]
  cases place
  case cell r => exact ⟨fun ℓ s hs => .done (hs.onMemory (hs.only.memory.write r hv)) trivial⟩
  case pending a j =>
    constructor
    intro ℓ s hs
    simp only
    cases hset : s.memory.setSlot a j v with
    | none => exact (htooLong _).run ℓ s hs
    | some m => exact .done (hs.onMemory (hs.only.memory.setSlot hv hset)) trivial
  case arrayLength a =>
    constructor
    intro ℓ s hs
    simp only
    cases hset : s.memory.setLength a v with
    | error f =>
      cases f with
      | invalid => exact (raise (by decide) hi _).run ℓ s hs
      | tooLong => exact (htooLong _).run ℓ s hs
    | ok m => exact .done (hs.onMemory (hs.only.memory.setLength hset)) trivial
  all_goals exact cannotAssign hi target v

/-- An operator that the engine does not know is only met in a loose realm. -/
theorem binaryValue (cfg : Setting σ) (hi : R.info i) {symbol : String} (hsymbol : R.loose ∨ isOperator symbol = true)
    (a b : Value) : Stays R (Primer.binaryValue cfg i symbol a b) (Value.Only R.function) := by
  refine ite (asks fun s _ => s.memory.only_unchecked symbol a b) ?_
  refine bind (P := fun result => (∀ v, result = .ok v → v.Only R.function) ∧
    ∀ r, result = .error r → r.1 = .internal → R.loose) (asks fun s _ => ⟨fun v hv => ?_, fun r hr hkind => ?_⟩) ?_
  · exact Value.only_of_isBasic (Memory.isBasic_of_checked hv)
  · rcases hsymbol with hloose | hknown
    · exact hloose
    · rcases Memory.of_checked_eq_error hr with h | h | ⟨_, h⟩
      · cases h.symm.trans hkind
      · cases h.symm.trans hkind
      · cases h.symm.trans hknown
  · rintro (r | v) ⟨hvalue, hrefusal⟩
    · exact raiseInternal hi (hrefusal r rfl) r.2
    · exact pure (hvalue v rfl)

/-- The value of a sign is in the realm. -/
theorem unaryValue (cfg : Setting σ) (hi : R.info i) (symbol : String) (x : Value) :
    Stays R (Primer.unaryValue cfg i symbol x) (Value.Only R.function) := by
  refine ite (asks fun s _ => Value.only_of_isBasic (s.memory.isBasic_uncheckedUnary symbol x)) ?_
  refine bind (P := fun result => (∀ v, result = .ok v → v.Only R.function) ∧
    ∀ r, result = .error r → r.1 = .type) (asks fun s _ => ⟨fun v hv => ?_, fun r hr => ?_⟩) ?_
  · exact Value.only_of_isBasic (Memory.isBasic_of_checkedUnary hv)
  · exact Memory.of_checkedUnary_eq_error hr
  · rintro (r | v) ⟨hvalue, hrefusal⟩
    · exact raise (by rw [hrefusal r rfl]; nofun) hi r.2
    · exact pure (hvalue v rfl)

/-- The value that an increment or decrement writes is in the realm. -/
theorem bumped (cfg : Setting σ) (hi : R.info i) (symbol : String) (v : Value) :
    Stays R (Primer.bumped cfg i symbol v) (Value.Only R.function) := by
  refine ite (asks fun _ _ => trivial) ?_
  have hrefused : Stays R (fun s => raiseRefusal i (s.memory.notA symbol v "a number") s : Run σ Value)
      (Value.Only R.function) := by
    constructor
    intro ℓ s hs
    have hkind : (s.memory.notA symbol v "a number").1 ≠ .internal := by
      show FaultClass.type ≠ .internal
      decide
    exact (raise hkind hi _).run ℓ s hs
  cases v
  case number x => exact pure trivial
  all_goals exact hrefused

/-- A test stays in the realm. -/
theorem testValue (cfg : Setting σ) (hi : R.info i) (tag : String) (v : Value) :
    Stays R (Primer.testValue cfg i tag v) Anything := by
  refine ite (asks fun _ _ => trivial) ?_
  cases v
  case boolean b => exact pure trivial
  all_goals exact bind (P := Anything) (asks fun _ _ => trivial) fun _ _ => raise (by decide) hi _

/-- A name gives a place of the realm. -/
theorem nameAction (hi : R.info i) (name : String) :
    Stays R (Primer.nameAction i name : Run σ Value) (Value.Only R.function) := by
  constructor
  intro ℓ s hs
  unfold Primer.nameAction
  cases hfound : s.find? name with
  | some v => exact .done hs (hs.only.find hfound)
  | none => exact (raise (by decide) hi _).run ℓ s hs

/-- Parameters are bound to values of the realm. -/
theorem bindParams (cfg : Setting σ) (hi : R.info i) (ps : List String) {args : List Value}
    (hargs : Values.Only R.function args) :
    Stays R (Primer.bindParams cfg i ps args) fun bound => ∀ e ∈ bound, e.2.Only R.function := by
  induction ps generalizing args with
  | nil => exact pure fun e he => absurd he List.not_mem_nil
  | cons p ps ih =>
    have hfirst : (args.headD .undefined).Only R.function := by
      cases args with
      | nil => exact trivial
      | cons v vs => exact hargs v List.mem_cons_self
    have hparam : Stays R (bindParam cfg i p (args.headD .undefined)) (Value.Only R.function) := by
      refine ite (pure hfirst) ?_
      generalize args.headD .undefined = v at hfirst
      cases v <;> first | exact raise (by decide) hi _ | exact pure hfirst
    apply bind hparam
    intro v hv
    apply bind (ih fun w hw => hargs w (List.mem_of_mem_tail hw))
    intro rest hrest
    apply pure
    intro e he
    rcases List.mem_cons.mp he with rfl | he
    · exact hv
    · exact hrest e he

/-- Declaring a name with a value of the realm stays in it. -/
theorem declareName (name : String) {v : Value} (hv : v.Only R.function) :
    Stays R (Primer.declareName name v : Run σ Unit) Anything := ⟨fun _ _ hs => .done (hs.declare name hv) trivial⟩

/-! ## Marks and narration -/

/-- A command that is recorded points at the node that it is recorded for. -/
theorem record (cfg : Setting σ) (hi : R.info i) (tag : String) : Stays R (Primer.record cfg i tag) Anything := by
  have hrecorded : Stays R (Run.update fun s : RunState σ => { s with commands := ⟨i.id, tag⟩ :: s.commands })
      Anything := by
    constructor
    intro ℓ s hs
    have hreported : R.Reported (⟨i.id, tag⟩ :: s.commands) s.steps := by
      refine ⟨?_, hs.reported.fragments, hs.reported.depths⟩
      intro c hc
      rcases List.mem_cons.mp hc with rfl | hc
      · exact hi.id
      · exact hs.reported.commands c hc
    exact .done (hs.withRecords (r := ⟨_, s.steps, s.ticks, s.asked⟩) hreported) trivial
  exact ite (pure trivial) (bind hrecorded fun _ _ => ite (pure trivial) (raise (by decide) hi _))

/-- A step that is narrated points at its node, and its stack are the frames. -/
theorem narrate (cfg : Setting σ) (category : Category) {node : NodeId} (hnode : R.id node)
    (message : Memory → String) (changes : Unit → List Change) :
    Stays R (Primer.narrate cfg category node message changes) Anything := by
  refine ite ⟨?_⟩ (pure trivial)
  intro ℓ s hs
  have hreported : R.Reported s.commands
      (⟨[⟨node, category, message s.memory⟩], changes (), s.stack⟩ :: s.steps) := by
    refine ⟨hs.reported.commands, ?_, ?_⟩
    · intro step hstep fragment hfragment
      rcases List.mem_cons.mp hstep with rfl | hstep
      · cases List.mem_singleton.mp hfragment
        exact hnode
      · exact hs.reported.fragments step hstep fragment hfragment
    · intro step hstep
      rcases List.mem_cons.mp hstep with rfl | hstep
      · show (s.frames.reverse.map _).length ≤ R.depth
        rw [List.length_map, List.length_reverse]
        exact hs.frames_le_depth
      · exact hs.reported.depths step hstep
  exact .done (hs.withRecords (r := ⟨s.commands, _, s.ticks, s.asked⟩) hreported) trivial

/-- Counting a statement stays in the realm. -/
theorem tick (cfg : Setting σ) (hi : R.info i) : Stays R (Primer.tick cfg i) Anything := by
  have hraised (message : String) : Stays R (Run.raise .limit i message : Run σ Unit) Anything :=
    raise (by decide) hi _
  constructor
  intro ℓ s hs
  have hcounted (ticks : Nat) (asked : List NodeId) : ({ s with ticks := ticks, asked := asked } : RunState σ).Confined R ℓ :=
    hs.withRecords (r := ⟨s.commands, s.steps, ticks, asked⟩) hs.reported
  unfold Primer.tick
  cases cfg.limits.stopped s.ticks with
  | some reason => exact (hraised _).run ℓ s hs
  | none =>
    simp only
    split
    · exact (hraised _).run ℓ _ (hcounted _ s.asked)
    · split
      · exact .done (hcounted _ s.asked) trivial
      · split
        · exact .done (hcounted _ _) trivial
        · have hstopped (text : String) : Stays R (Run.raiseFrom .limit i text text : Run σ Unit) Anything :=
            raiseFrom (by decide) hi ..
          exact (hstopped _).run ℓ _ (hcounted _ _)

end Run.Stays

end Primer
