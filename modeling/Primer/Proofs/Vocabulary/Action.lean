import Primer.Proofs.Locals.Action
import Primer.Proofs.Run.Plain
import Primer.Proofs.Run.Store

/-!
# Actions among values of a kind

What an action gives when it is done, among hosts that give values of a kind only: the state holds values of the kind
as before, and so does what the action gives. Nothing is asked of actions that fail, since a run does not go on
behind them.
-/

set_option autoImplicit false

namespace Primer

variable {σ α β : Type} {K : Value.Kind}

/-- Numbers, texts and booleans cannot be called. -/
theorem Value.Kind.has_of_isBasic {v : Value} (h : v.isBasic = true) : K.has v := by
  refine K.plain v ?_
  cases v
  case function | hostFunction => cases h
  all_goals rfl

/-- The value of an unchecked operation is of the kind. -/
theorem Value.Kind.has_unchecked (m : Memory) (symbol : String) (a b : Value) : K.has (m.unchecked symbol a b) := by
  rcases m.isBasic_unchecked symbol a b with hbasic | hundefined
  · exact has_of_isBasic hbasic
  · rw [hundefined]
    exact K.undefined

/-- A value of the kind is so as it is presented. -/
theorem Value.Kind.has_present {v : Value} (h : K.has v) : K.has (present v) := by
  cases v
  case absent => exact K.undefined
  all_goals exact h

/-- The state in which a plain run starts holds nothing that can be called. -/
theorem RunState.ofKind_plain : RunState.plain.OfKind K := by
  have hnames : ∀ e ∈ [("console", Value.object .console), ("Math", .object .math)], K.has e.2 := by
    intro e he
    rcases List.mem_cons.mp he with rfl | he
    · exact K.plain _ rfl
    · cases List.mem_singleton.mp he
      exact K.plain _ rfl
  have hdeclared := Scope.OfKind.empty.declareAll (K := K) .empty _ hnames
  exact ⟨hdeclared.2, hdeclared.1, fun f hf => absurd hf List.not_mem_nil⟩

/-! ## Hosts -/

/-- Hosts that give values of a kind, leave memory alone and call nothing back. -/
structure Hosts.Give (K : Value.Kind) (hosts : Hosts σ) : Prop where
  member : ∀ host o name v, hosts.member host o name = some v → K.has v
  call : ∀ key view host memory args, ∃ answer host', hosts.call key view host memory args =
    .finish answer host' memory ∧ ∀ v, answer = .ok v → K.has v
  get : ∀ key host memory, ∃ answer host', hosts.get key host memory = (answer, host', memory) ∧
    ∀ v, answer = .ok v → K.has v
  set : ∀ key view host memory v action, hosts.set key view host memory v = some action →
    ∃ answer host', action = .finish answer host' memory

/-- The standard hosts give nothing that can be called but their members. -/
theorem Hosts.give_standard
    (hmember : ∀ host o name f, (Hosts.standard Extras.none).member host o name = some (.hostFunction f) →
      K.has (.hostFunction f)) : (Hosts.standard Extras.none).Give K where
  member host o name v hv := by
    rcases Hosts.apart_standard.member host o name v hv with ⟨f, rfl⟩ | ⟨w, rfl, -⟩
    · exact hmember host o name f hv
    · exact K.plain _ rfl
  call key view host memory args := by
    obtain ⟨answer, host', hcall, hanswer⟩ := Hosts.apart_standard.call key view host memory args
    refine ⟨answer, host', hcall, ?_⟩
    intro v hv
    rcases hanswer v hv with rfl | hbasic
    · exact K.plain _ rfl
    · exact K.has_of_isBasic hbasic
  get key host memory := by
    cases hkey : key.isStandard with
    | true =>
      obtain ⟨answer, host', hget, hanswer⟩ := Hosts.apart_standard.get key host memory hkey
      exact ⟨answer, host', hget, fun v hv => K.has_of_isBasic (hanswer v hv).1⟩
    | false =>
      cases key
      case extra n =>
        refine ⟨.ok .absent, host, rfl, ?_⟩
        rintro _ ⟨⟩
        exact K.plain _ rfl
      all_goals cases hkey
  set := Hosts.apart_standard.set

/-! ## Computations -/

/-- A computation that gives something with a property and leaves a state that holds values of a kind. -/
structure Run.Gives (K : Value.Kind) (x : Run σ α) (Q : α → Prop) : Prop where
  run : ∀ s a t, s.OfKind K → x s = .done a t → t.OfKind K ∧ Q a

namespace Run.Gives

variable {P Q : α → Prop} {R : β → Prop}

/-- A value that meets the condition is given. -/
theorem value {a : α} (h : Q a) : Gives K (Pure.pure a : Run σ α) Q := by
  constructor
  rintro s _ _ hs ⟨⟩
  exact ⟨hs, h⟩

/-- What is read off a state meets the condition that all states give. -/
theorem asks {f : RunState σ → α} (h : ∀ s, s.OfKind K → Q (f s)) : Gives K (Run.asks f) Q := by
  constructor
  rintro s _ _ hs ⟨⟩
  exact ⟨hs, h s hs⟩

/-- A change that keeps states of the kind keeps to the kind. -/
theorem update {f : RunState σ → RunState σ} (h : ∀ s, s.OfKind K → (f s).OfKind K) :
    Gives K (Run.update f) Anything := by
  constructor
  rintro s _ _ hs ⟨⟩
  exact ⟨h s hs, trivial⟩

/-- A step of the memory that keeps to the kind does so in a run. -/
theorem onMemory {f : Memory → α × Memory} (h : ∀ m, m.OfKind K → Q (f m).1 ∧ (f m).2.OfKind K) :
    Gives K (Run.onMemory f : Run σ α) Q := by
  constructor
  rintro s _ _ hs ⟨⟩
  have hm := h s.memory hs.memory
  exact ⟨hs.onMemory hm.2 s.host, hm.1⟩

/-- A computation that leaves memory and scopes alone. -/
theorem aside {x : Run σ α} (h : ∀ s a t, x s = .done a t →
    t.memory = s.memory ∧ t.globals = s.globals ∧ t.frames <:+ s.frames) : Gives K x Anything := by
  constructor
  intro s a t hs hdone
  obtain ⟨hmemory, hglobals, hframes⟩ := h s a t hdone
  exact ⟨hs.congr hmemory hglobals hframes, trivial⟩

/-- Nothing is asked of a computation that is never done. -/
theorem never {x : Run σ α} (h : ∀ s a t, x s ≠ .done a t) : Gives K x Q :=
  ⟨fun s a t _ hdone => absurd hdone (h s a t)⟩

/-- A failure keeps the state. -/
theorem raise (kind : FaultClass) (i : Info) (message : String) : Gives K (Run.raise kind i message : Run σ α) Q :=
  never fun _ _ _ => nofun

/-- A sequence of steps keeps to the kind if each of them does. -/
theorem bind {x : Run σ α} {f : α → Run σ β} (hx : Gives K x P) (hf : ∀ a, P a → Gives K (f a) R) :
    Gives K (x >>= f) R := by
  constructor
  intro s b t hs hdone
  obtain ⟨a, u, hfirst, hnext⟩ := Run.bind_eq_done hdone
  obtain ⟨hu, ha⟩ := hx.run s a u hs hfirst
  exact (hf a ha).run u b t hu hnext

/-- A choice keeps to the kind if both sides do. -/
theorem ite {c : Prop} [Decidable c] {x y : Run σ α} (hx : Gives K x Q) (hy : Gives K y Q) :
    Gives K (if c then x else y) Q := by
  split
  · exact hx
  · exact hy

/-! ## Values out of places -/

/-- The failure of a host keeps to the kind, however a breakdown is reported. -/
theorem hostFailed (i : Info) {broken : String → Run σ α} (hbroken : ∀ text, Gives K (broken text) Q)
    (f : HostFailure) : Gives K (Primer.hostFailed i broken f) Q := by
  rcases f with text | (f | text | b) | text
  · exact never fun _ _ _ => nofun
  · exact never fun _ _ _ => nofun
  · exact never fun _ _ _ => nofun
  · exact hbroken b.text
  · exact hbroken text

/-- Reporting a breakdown of a host keeps the state. -/
theorem broken (i : Info) (use : HostUse) (text : String) : Gives K (use.broken i text : Run σ α) Q := by
  cases use with
  | call callee => exact never fun _ _ _ => nofun
  | assign target => exact raise ..

section Hosts

variable {cfg : Setting σ} (hhosts : cfg.hosts.Give K)

include hhosts

/-- What a host variable holds is of the kind. -/
theorem readHost (e : Expr) (w : HostVariable) : Gives K (Primer.readHost cfg e w) K.has := by
  constructor
  intro s a t hs hdone
  obtain ⟨answer, host, hget, hanswer⟩ := hhosts.get w.key s.host s.memory
  have hs' := hs.onMemory hs.memory host
  unfold Primer.readHost at hdone
  rw [hget] at hdone
  cases answer with
  | ok v =>
    cases hdone
    exact ⟨hs', Value.Kind.has_present (hanswer v rfl)⟩
  | error f => exact (hostFailed e.info (fun _ => raise ..) f).run _ _ _ hs' hdone

/-- A place that is taken without checks gives a value of the kind. -/
theorem takeUnchecked (e : Expr) {v : Value} (hv : K.has v) : Gives K (Primer.takeUnchecked cfg e v) K.has := by
  cases v
  case hostVariable w => exact readHost hhosts e w
  case cell r => exact asks fun s hs => Value.Kind.has_present (hs.memory.read r)
  case arrayLength a => exact asks fun _ _ => K.plain _ rfl
  case absent | pending => exact value K.undefined
  case textLength t => exact value (K.plain _ rfl)
  all_goals exact value hv

/-- A place that is taken with checks gives a value of the kind. -/
theorem takeChecked (e : Expr) {v : Value} (hv : K.has v) : Gives K (Primer.takeChecked cfg e v) K.has := by
  cases v
  case hostVariable w => exact readHost hhosts e w
  case arrayLength a => exact asks fun _ _ => K.plain _ rfl
  case textLength t => exact value (K.plain _ rfl)
  case number x => exact ite (value hv) (raise ..)
  case absent | undefined | null | pending => exact raise ..
  all_goals exact value hv

/-- What is taken out of a place is of the kind of what may lie there. -/
theorem take (e : Expr) {v : Value} (hv : K.has v) : Gives K (Primer.take cfg e v) K.has := by
  refine ite (takeUnchecked hhosts e hv) ?_
  constructor
  intro s a t hs hdone
  exact (takeChecked hhosts e (hs.memory.opened hv)).run s a t hs hdone

/-- Places that are taken one after the other give values of the kind. -/
theorem takeAll (es : List Expr) {vs : List Value} (hvs : ∀ v ∈ vs, K.has v) :
    Gives K (Primer.takeAll cfg es vs) fun ws => ∀ w ∈ ws, K.has w := by
  fun_induction Primer.takeAll cfg es vs with
  | case1 e es v vs ih =>
    obtain ⟨hv, hvs⟩ := List.forall_mem_cons.mp hvs
    apply bind (take hhosts e hv)
    intro w hw
    apply bind (ih hvs)
    intro ws hws
    exact value (List.forall_mem_cons.mpr ⟨hw, hws⟩)
  | case2 => exact value fun w hw => absurd hw List.not_mem_nil

/-- A member of an object is what its host gives. -/
theorem memberAction (i : Info) (object : Expr) (property : String) {o : Value} (ho : K.has o) :
    Gives K (Primer.memberAction cfg i object property o) K.has := by
  apply bind (take hhosts object ho)
  intro v hv
  clear hv
  have hmember : Gives K (Run.asks fun s => memberOf? cfg s property v)
      fun found => ∀ m, found = some (some m) → K.has m := by
    apply asks
    intro s _ m hm
    cases v
    case object key => exact hhosts.member s.host key property m (Option.some.inj hm)
    case array ref =>
      simp only [memberOf?, Option.some.injEq] at hm
      split at hm <;> cases hm
      exact K.plain _ rfl
    case string t =>
      simp only [memberOf?, Option.some.injEq] at hm
      split at hm <;> cases hm
      exact K.plain _ rfl
    all_goals cases hm
  apply bind hmember
  intro found hfound
  rcases found with _ | (_ | m)
  · exact raise ..
  · exact ite (value K.undefined) (raise ..)
  · exact value (hfound m rfl)

/-- The place of an element cannot be called. -/
theorem elementAction (i : Info) (base position : Expr) {a j : Value} (ha : K.has a) (hj : K.has j) :
    Gives K (Primer.elementAction cfg i base position a j) K.has := by
  rw [elementAction_eq]
  apply bind (take hhosts base ha)
  intro v hv
  apply bind (take hhosts position hj)
  intro p hp
  clear hv hp
  have hrefused (message : String) : Gives K
      (if cfg.isRaw then Pure.pure .undefined else Run.raise .type i message : Run σ Value) K.has :=
    ite (value K.undefined) (raise ..)
  cases p
  case number x =>
    refine ite (hrefused _) (ite (hrefused _) ?_)
    cases v
    case array ref => exact onMemory fun m hm => hm.slot ref (indexOf x)
    all_goals exact raise ..
  all_goals exact hrefused _

/-- A host answers at once. -/
theorem runHost (n depth : Nat) (i : Info) (callee : Expr) (key : FunctionKey) (args : List Value) :
    Gives K (fun s => Primer.runHost cfg n depth i (.call callee)
      (cfg.hosts.call key (s.view cfg.strategy) s.host s.memory args) s) K.has := by
  constructor
  intro s a t hs hdone
  obtain ⟨answer, host, hcall, hanswer⟩ := hhosts.call key (s.view cfg.strategy) s.host s.memory args
  have hs' := hs.onMemory hs.memory host
  simp only [hcall] at hdone
  cases n with
  | zero => cases hdone
  | succ n =>
    cases answer with
    | ok v =>
      cases hdone
      exact ⟨hs', hanswer _ rfl⟩
    | error f => exact (hostFailed i (broken i _) f).run _ _ _ hs' hdone

/-- Writing a host variable keeps to the kind. -/
theorem setHost (n depth : Nat) (i : Info) (target : Expr) (key : VariableKey) (v : Value) :
    Gives K ((Plan.hostSet depth i target key v : Plan σ Value).run cfg n) Anything := by
  constructor
  intro s a t hs hdone
  simp only [Plan.run] at hdone
  cases haction : cfg.hosts.set key (s.view cfg.strategy) s.host s.memory v with
  | none =>
    rw [haction] at hdone
    dsimp only at hdone
    rw [cannotAssign_eq] at hdone
    cases hdone
  | some action =>
    obtain ⟨answer, host, rfl⟩ := hhosts.set key (s.view cfg.strategy) s.host s.memory v action haction
    have hs' := hs.onMemory hs.memory host
    rw [haction] at hdone
    cases n with
    | zero => cases hdone
    | succ n =>
      cases answer with
      | ok v =>
        cases hdone
        exact ⟨hs', trivial⟩
      | error f => exact (hostFailed i (broken i _) f).run _ _ _ hs' hdone

end Hosts

/-! ## Places, names and functions -/

/-- Writing a value of the kind into a place keeps to the kind. -/
theorem assignPlace (i : Info) (target : Expr) (place : Value) {v : Value} (hv : K.has v) :
    Gives K (Primer.assignPlace i target place v : Run σ Unit) Anything := by
  rw [assignPlace_eq]
  cases place
  case cell r =>
    apply update
    intro s hs
    exact hs.onMemory (hs.memory.write r hv) s.host
  case pending a j =>
    constructor
    intro s a t hs hdone
    simp only at hdone
    split at hdone
    case h_1 m hset =>
      cases hdone
      exact ⟨hs.onMemory (hs.memory.setSlot hv hset) s.host, trivial⟩
    case h_2 => cases hdone
  case arrayLength a =>
    constructor
    intro s a t hs hdone
    simp only at hdone
    split at hdone
    case h_1 m hset =>
      cases hdone
      exact ⟨hs.onMemory (hs.memory.setLength hset) s.host, trivial⟩
    all_goals cases hdone
  all_goals
    dsimp only
    rw [cannotAssign_eq]
    exact never fun _ _ _ => nofun

/-- A name gives a place of the kind. -/
theorem nameAction (i : Info) (x : String) : Gives K (Primer.nameAction i x : Run σ Value) K.has := by
  constructor
  intro s a t hs hdone
  unfold Primer.nameAction at hdone
  split at hdone
  case h_1 v hfound =>
    cases hdone
    exact ⟨hs, hs.find hfound⟩
  case h_2 => cases hdone

/-- Declaring a name with a value of the kind keeps to the kind. -/
theorem declareName (x : String) {v : Value} (hv : K.has v) :
    Gives K (Primer.declareName x v : Run σ Unit) Anything := update fun _ hs => hs.declare x hv

/-- Parameters are bound to values of the kind. -/
theorem bindParams (cfg : Setting σ) (i : Info) (ps : List String) {args : List Value}
    (hargs : ∀ v ∈ args, K.has v) :
    Gives K (Primer.bindParams cfg i ps args) fun bound => ∀ e ∈ bound, K.has e.2 := by
  induction ps generalizing args with
  | nil => exact value fun e he => absurd he List.not_mem_nil
  | cons p ps ih =>
    have hfirst : K.has (args.headD .undefined) := by
      cases args with
      | nil => exact K.undefined
      | cons v vs => exact hargs v List.mem_cons_self
    have hparam : Gives K (bindParam cfg i p (args.headD .undefined)) K.has := by
      refine ite (value hfirst) ?_
      generalize args.headD .undefined = v at hfirst
      cases v <;> first | exact raise .. | exact value hfirst
    apply bind hparam
    intro v hv
    apply bind (ih fun w hw => hargs w (List.mem_of_mem_tail hw))
    intro rest hrest
    exact value (List.forall_mem_cons.mpr ⟨hv, hrest⟩)

/-! ## Operators and tests -/

/-- The value of a binary operation is of the kind. -/
theorem binaryValue (cfg : Setting σ) (i : Info) (symbol : String) (a b : Value) :
    Gives K (Primer.binaryValue cfg i symbol a b) K.has := by
  refine ite (asks fun s _ => K.has_unchecked s.memory symbol a b) ?_
  refine bind (P := fun result => ∀ v, result = .ok v → K.has v)
    (asks fun s _ v hv => K.has_of_isBasic (Memory.isBasic_of_checked hv)) ?_
  rintro (r | v) hvalue
  · exact raise ..
  · exact value (hvalue v rfl)

/-- The value of a sign is of the kind. -/
theorem unaryValue (cfg : Setting σ) (i : Info) (symbol : String) (x : Value) :
    Gives K (Primer.unaryValue cfg i symbol x) K.has := by
  refine ite (asks fun s _ => K.has_of_isBasic (s.memory.isBasic_uncheckedUnary symbol x)) ?_
  refine bind (P := fun result => ∀ v, result = .ok v → K.has v)
    (asks fun s _ v hv => K.has_of_isBasic (Memory.isBasic_of_checkedUnary hv)) ?_
  rintro (r | v) hvalue
  · exact raise ..
  · exact value (hvalue v rfl)

/-- The value that an increment or decrement writes is of the kind. -/
theorem bumped (cfg : Setting σ) (i : Info) (symbol : String) (v : Value) :
    Gives K (Primer.bumped cfg i symbol v) K.has := by
  refine ite (asks fun _ _ => K.plain _ rfl) ?_
  cases v
  case number x => exact value (K.plain _ rfl)
  all_goals exact never fun _ _ _ => nofun

/-- A test only reads. -/
theorem testValue (cfg : Setting σ) (i : Info) (tag : String) (v : Value) :
    Gives K (Primer.testValue cfg i tag v) Anything := by
  refine ite (asks fun _ _ => trivial) ?_
  cases v
  case boolean b => exact value trivial
  all_goals exact bind (P := Anything) (asks fun _ _ => trivial) fun _ _ => raise ..

/-! ## Marks, narration and calls -/

/-- What a mark of a run does keeps to the kind. -/
theorem mark (cfg : Setting σ) (place : Mark) : Gives K (place.run cfg) Anything := by
  cases place with
  | record i tag =>
    refine ite (value trivial) (bind (P := Anything) (update ?_) fun _ _ => ite (value trivial) (raise ..))
    intro s hs
    exact hs.congr rfl rfl (List.suffix_refl _)
  | tick i =>
    apply aside
    intro s a t hdone
    change Primer.tick cfg i s = _ at hdone
    unfold Primer.tick at hdone
    cases hstopped : cfg.limits.stopped s.ticks with
    | some reason =>
      rw [hstopped] at hdone
      cases hdone
    | none =>
      rw [hstopped] at hdone
      simp only at hdone
      split at hdone
      · cases hdone
      · split at hdone
        · cases hdone
          exact ⟨rfl, rfl, List.suffix_refl _⟩
        · split at hdone
          · cases hdone
            exact ⟨rfl, rfl, List.suffix_refl _⟩
          · cases hdone

/-- Narrating a step keeps to the kind. -/
theorem narrate (cfg : Setting σ) (category : Category) (node : NodeId) (message : Memory → String)
    (changes : Unit → List Change) : Gives K (Primer.narrate cfg category node message changes) Anything :=
  ite (update fun _ hs => hs.congr rfl rfl (List.suffix_refl _)) (value trivial)

/-- Entering a call keeps to the kind. -/
theorem enterCall (cfg : Setting σ) (i : Info) : Gives K (Primer.enterCall cfg i) Anything := by
  apply aside
  intro s a t hdone
  unfold Primer.enterCall at hdone
  split at hdone
  · cases hdone
  · cases hdone
    exact ⟨rfl, rfl, List.suffix_refl _⟩

/-- Leaving a call keeps to the kind. -/
theorem leaveCall : Gives K (Primer.leaveCall : Run σ Unit) Anything :=
  update fun _ hs => hs.congr rfl rfl (List.suffix_refl _)

end Run.Gives

end Primer
