import Primer.Proofs.Run.Plain
import Primer.Proofs.Sound.Tree

/-!
# Steady computations

The control state of a run is its scopes, its frames and its active calls. A computation is steady if it
always comes to an end, leaves the control state as it is and fails with allowed failures only. All actions
of the evaluator are, apart from the four that declare a name, enter or leave a call, and push a frame.
Which failures are allowed is left open, as long as they include the ordinary faults: those that neither
point to a defect of the engine nor say that the statements of the program are used up.
-/

set_option autoImplicit false

namespace Primer

open Run

variable {σ α β : Type}

/-! ## Ordinary faults -/

/-- The fault of a program that used up the statements that it has under some limits. -/
structure Fault.Spends (f : Fault) (limits : Limits) : Prop where
  kind : f.kind = .limit
  cause : f.cause = none
  message : f.message = limits.spentMessage

/-- A fault that is neither internal nor that of a program that used up its statements. -/
structure Fault.Ordinary (f : Fault) : Prop where
  kind : f.kind ≠ .internal
  unspent : ∀ limits, ¬ f.Spends limits

/-- A character in what a message starts with, before the value in it. -/
theorem getElem?_message {front : String} {i : Nat} (h : i < front.toList.length) (shown rest : String) :
    (front ++ shown ++ rest).toList[i]? = front.toList[i]? := by
  rw [String.toList_append, String.toList_append, List.append_assoc, List.getElem?_append_left h]

/-- The ninth character of the message for a program that used up its statements. -/
theorem Limits.getElem?_spentMessage (limits : Limits) : limits.spentMessage.toList[8]? = some 's' := by
  unfold spentMessage
  rw [getElem?_message (by decide)]
  rfl

/-- A message whose ninth character is another one is not that of a program that used up its statements. -/
theorem Limits.ne_spentMessage {message : String} (h : message.toList[8]? ≠ some 's') (limits : Limits) :
    message ≠ limits.spentMessage := by
  rintro rfl
  exact h limits.getElem?_spentMessage

namespace Fault.Ordinary

variable {f : Fault}

/-- A fault that is neither internal nor a limit is ordinary. -/
theorem of_kind (hinternal : f.kind ≠ .internal) (hlimit : f.kind ≠ .limit) : f.Ordinary :=
  ⟨hinternal, fun _ h => hlimit h.kind⟩

/-- A fault with a cause is ordinary if it is not internal. -/
theorem of_cause (hinternal : f.kind ≠ .internal) (hcause : f.cause ≠ none) : f.Ordinary :=
  ⟨hinternal, fun _ h => hcause h.cause⟩

/-- A fault is ordinary by its kind or by how its message goes on. -/
theorem of_message (hinternal : f.kind ≠ .internal) (hmessage : f.message.toList[8]? ≠ some 's') :
    f.Ordinary :=
  ⟨hinternal, fun limits h => Limits.ne_spentMessage hmessage limits h.message⟩

end Fault.Ordinary

/-- Failures that are allowed for the actions of a run: all ordinary faults, and those that the variables of
its hosts pass on when they are read. -/
structure Allows (cfg : Setting σ) (E : Failure → Prop) : Prop where
  ordinary : ∀ f : Fault, f.Ordinary → E (.fault f)
  passedOn : ∀ key host memory f, (cfg.hosts.get key host memory).1 = .error (.passedOn (.fault f)) →
    E (.fault f)

/-- Every failure is allowed if all are. -/
theorem Allows.all (cfg : Setting σ) : Allows cfg (fun _ => True) := ⟨fun _ _ => trivial, fun _ _ _ _ _ => trivial⟩

/-- Hosts that answer on their own allow all that includes the ordinary faults. -/
theorem Hosts.OnTheirOwn.allows {cfg : Setting σ} (h : cfg.hosts.OnTheirOwn) {E : Failure → Prop}
    (hE : ∀ f : Fault, f.Ordinary → E (.fault f)) : Allows cfg E :=
  ⟨hE, fun key host memory _ hget => absurd hget (h.get key host memory _)⟩

/-- A number is refused because of what it is. -/
theorem Memory.of_finiteNumber_eq_error {m : Memory} {symbol : String} {v : Value} {r : Refusal}
    (h : m.finiteNumber symbol v = .error r) : r.1 = .type := by
  cases v
  case number x =>
    simp only [Memory.finiteNumber] at h
    split at h
    · cases h
    · cases h
      rfl
  all_goals
    cases h
    rfl

/-- An operator is refused because of its operands, unless the engine does not know it. -/
theorem Memory.of_checked_eq_error {m : Memory} {symbol : String} {a b : Value} {r : Refusal}
    (h : m.checked symbol a b = .error r) :
    r.1 = .type ∨ r.1 = .value ∨ (r.1 = .internal ∧ isOperator symbol = false) := by
  unfold Memory.checked at h
  split at h
  case isTrue hnumeric =>
    cases ha : m.finiteNumber symbol a with
    | error r' =>
      rw [ha] at h
      cases h
      exact .inl (of_finiteNumber_eq_error ha)
    | ok x =>
      cases hb : m.finiteNumber symbol b with
      | error r' =>
        rw [ha, hb] at h
        cases h
        exact .inl (of_finiteNumber_eq_error hb)
      | ok y =>
        rw [ha, hb] at h
        simp only [bind, Except.bind] at h
        split at h
        · cases h
          exact .inr (.inl rfl)
        · cases h
  case isFalse hnumeric =>
    split at h
    case isTrue hsum =>
      split at h
      · cases h
        exact .inl rfl
      · split at h
        · cases h
          exact .inl rfl
        · cases h
    case isFalse hsum =>
      split at h
      case isTrue hlogical =>
        split at h
        · cases h
        · cases h
          exact .inl rfl
        · cases h
          exact .inl rfl
      case isFalse hlogical =>
        split at h
        case isTrue => cases h
        case isFalse hequal =>
          split at h
          case isTrue => cases h
          case isFalse hunequal =>
            cases h
            have hother := mt List.contains_iff_mem.mpr hnumeric
            simp only [Bool.or_eq_true, decide_eq_true_eq, not_or] at hsum hlogical
            simp [isOperator, hother, hsum, hlogical, hequal, hunequal]

/-- An operator before an operand is refused because of its operand. -/
theorem Memory.of_checkedUnary_eq_error {m : Memory} {symbol : String} {v : Value} {r : Refusal}
    (h : m.checkedUnary symbol v = .error r) : r.1 = .type := by
  unfold Memory.checkedUnary at h
  split at h
  · split at h
    · cases h
    · cases h
      rfl
  · split at h
    · cases h
      rfl
    · split at h <;> cases h
  · cases h
    rfl

/-! ## The control state -/

/-- Where a run stands: the global scope, the frames of the functions that are running, with their scopes,
the calls that are active, and the number of ticks so far. -/
structure Control where
  globals : Scope
  frames : List Frame
  calls : List Token
  ticks : Nat

/-- The control state in a state. -/
def RunState.control (s : RunState σ) : Control := ⟨s.globals, s.frames, s.calls, s.ticks⟩

/-- Another scope leaves the active calls as they are. -/
theorem RunState.calls_withScope (s : RunState σ) (scope : Scope) : (s.withScope scope).calls = s.calls := by
  simp only [RunState.withScope]
  cases s.frames <;> rfl

/-- Another scope leaves the counted statements as they are. -/
theorem RunState.ticks_withScope (s : RunState σ) (scope : Scope) : (s.withScope scope).ticks = s.ticks := by
  simp only [RunState.withScope]
  cases s.frames <;> rfl

/-- An outcome, in a state with a given control state, that is an allowed failure if it is one. -/
inductive Outcome.Steady (E : Failure → Prop) (c : Control) : Outcome σ α → Prop where
  | done {a s} (h : s.control = c) : Steady E c (.done a s)
  | failed {e s} (h : s.control = c) (he : E e) : Steady E c (.failed e s)

/-- A computation that ends, keeps the control state and fails as it is allowed to. -/
structure Run.Steady (E : Failure → Prop) (x : Run σ α) : Prop where
  run : ∀ s, (x s).Steady E s.control

/-- A steady outcome leaves a state with the same control. -/
theorem Outcome.Steady.leaves {E : Failure → Prop} {c : Control} {o : Outcome σ α} (h : o.Steady E c) :
    o.Leaves fun s => s.control = c := by
  cases h with
  | done h => exact h
  | failed h => exact h

namespace Run.Steady

variable {E : Failure → Prop} {cfg : Setting σ}

/-- Giving a value keeps the control. -/
theorem value (a : α) : Steady E (Run.value a : Run σ α) := ⟨fun _ => .done rfl⟩

/-- Giving a value keeps the control. -/
theorem pure (a : α) : Steady E (Pure.pure a : Run σ α) := ⟨fun _ => .done rfl⟩

/-- Reading off the state keeps the control. -/
theorem asks (f : RunState σ → α) : Steady E (Run.asks f) := ⟨fun _ => .done rfl⟩

/-- A step of the memory keeps the control. -/
theorem onMemory (f : Memory → α × Memory) : Steady E (Run.onMemory f : Run σ α) := ⟨fun _ => .done rfl⟩

/-- A sequence of steady steps is steady. -/
theorem bind {x : Run σ α} {f : α → Run σ β} (hx : Steady E x) (hf : ∀ a, Steady E (f a)) :
    Steady E (x >>= f) := by
  constructor
  intro s
  have hs := hx.run s
  show (Run.andThen x f s).Steady E _
  unfold Run.andThen
  generalize x s = o at hs
  cases hs with
  | @done a t h =>
    rw [← h]
    exact (hf a).run t
  | failed h he => exact .failed h he

/-- What depends on the state is steady if it is so from each state. -/
theorem asks_bind {f : RunState σ → α} {g : α → Run σ β} (hg : ∀ s, (g (f s) s).Steady E s.control) :
    Steady E (Run.asks f >>= g) := ⟨hg⟩

/-- A choice between steady computations is steady. -/
theorem ite {c : Prop} [Decidable c] {x y : Run σ α} (hx : Steady E x) (hy : Steady E y) :
    Steady E (if c then x else y) := by
  by_cases h : c
  · rw [if_pos h]
    exact hx
  · rw [if_neg h]
    exact hy

/-- A note that is made on a failure is steady if it is so itself. -/
theorem onFailure {x : Run σ α} {note : Run σ Unit} (hx : Steady E x) (hnote : Steady E note) :
    Steady E (Run.onFailure x note) := by
  constructor
  intro s
  have hs := hx.run s
  unfold Run.onFailure
  generalize x s = o at hs
  cases hs with
  | done h => exact .done h
  | @failed e t h he =>
    have ht := hnote.run t
    simp only
    generalize note t = o at ht
    cases ht with
    | done h' => exact .failed (h'.trans h) he
    | failed h' he' => exact .failed (h'.trans h) he'

variable (hE : Allows cfg E)

include hE

/-- Failing with an ordinary fault keeps the control. -/
theorem raise {kind : FaultClass} (hkind : kind ≠ .internal ∧ kind ≠ .limit) (info : Info)
    (message : String) : Steady E (Run.raise kind info message : Run σ α) :=
  ⟨fun _ => .failed rfl (hE.ordinary _ (.of_kind hkind.1 hkind.2))⟩

/-- A fault of a limit is ordinary if its message says so. -/
theorem raiseLimit {message : String} (hmessage : message.toList[8]? ≠ some 's') (info : Info) :
    Steady E (Run.raise .limit info message : Run σ α) :=
  ⟨fun _ => .failed rfl (hE.ordinary _ (.of_message (fun h => nomatch h) hmessage))⟩

/-- Failing for a host keeps the control. -/
theorem raiseHost (info : Info) (message cause : String) :
    Steady E (Run.raiseFrom .host info message cause : Run σ α) :=
  ⟨fun _ => .failed rfl (hE.ordinary _ (.of_kind (fun h => nomatch h) (fun h => nomatch h)))⟩

/-- The refusal of an operand is an ordinary fault. -/
theorem raiseRefusal (info : Info) {r : Refusal} (hr : r.1 = .type ∨ r.1 = .value) :
    Steady E (Primer.raiseRefusal info r : Run σ α) := by
  refine raise hE ?_ info r.2
  rcases hr with hr | hr
  · rw [hr]
    decide
  · rw [hr]
    decide

/-! ## Actions of the evaluator -/

/-- The failure of a host is steady if what it passes on is allowed. -/
theorem hostFailed (info : Info) {broken : String → Run σ α} (hbroken : ∀ text, Steady E (broken text))
    {f : HostFailure} (hf : ∀ fault, f = .passedOn (.fault fault) → E (.fault fault)) :
    Steady E (Primer.hostFailed info broken f) := by
  rcases f with text | (fault | text | b) | text
  · exact raiseHost hE ..
  · exact ⟨fun _ => .failed rfl (hf fault rfl)⟩
  · exact raiseHost hE ..
  · exact hbroken b.text
  · exact hbroken text

/-- Reading a host variable keeps the control. -/
theorem readHost (e : Expr) (v : HostVariable) : Steady E (Primer.readHost cfg e v) := by
  constructor
  intro s
  unfold Primer.readHost
  have hpassed := hE.passedOn v.key s.host s.memory
  generalize cfg.hosts.get v.key s.host s.memory = answer at hpassed
  obtain ⟨result, host, memory⟩ := answer
  cases result with
  | ok w => exact .done rfl
  | error f =>
    have hbroken (text : String) : Steady E
        (Run.raise .host e.info ("Reading <var>" ++ e.code ++ "</var> failed: " ++ text) : Run σ Value) :=
      raise hE (by decide) ..
    have hf : ∀ fault, f = .passedOn (.fault fault) → E (.fault fault) := fun fault hf => hpassed fault (by rw [hf])
    exact (hostFailed hE e.info hbroken hf).run { s with host := host, memory := memory }

/-- Taking a place without checks keeps the control. -/
theorem takeUnchecked (e : Expr) (v : Value) : Steady E (Primer.takeUnchecked cfg e v) := by
  cases v
  case hostVariable h => exact readHost hE e h
  case cell ref => exact asks _
  case arrayLength a => exact asks _
  all_goals exact pure _

/-- Taking a place with checks keeps the control. -/
theorem takeChecked (e : Expr) (v : Value) : Steady E (Primer.takeChecked cfg e v) := by
  have hunusable (reason : String) : Steady E (unusable e reason : Run σ Value) := raise hE (by decide) ..
  cases v
  case hostVariable h => exact readHost hE e h
  case arrayLength a => exact asks _
  case number x => exact ite (pure _) (hunusable _)
  case absent | undefined | null | pending => exact hunusable _
  all_goals exact pure _

/-- Taking a place keeps the control. -/
theorem take (e : Expr) (v : Value) : Steady E (Primer.take cfg e v) :=
  ite (takeUnchecked hE e v) ⟨fun s => (takeChecked hE e (opened s.memory v)).run s⟩

/-- Taking several places keeps the control. -/
theorem takeAll (es : List Expr) (vs : List Value) : Steady E (Primer.takeAll cfg es vs) := by
  fun_induction Primer.takeAll cfg es vs with
  | case1 e es v vs ih => exact bind (take hE e v) fun _ => bind ih fun _ => pure _
  | case2 => exact pure _

/-- Refusing an assignment keeps the control. -/
theorem cannotAssign (info : Info) (target : Expr) (v : Value) :
    Steady E (Primer.cannotAssign info target v : Run σ α) := by
  rw [cannotAssign_eq]
  exact ⟨fun s => (raise hE (by decide) info _).run s⟩

/-- Writing into a place keeps the control. -/
theorem assignPlace (info : Info) (target : Expr) (place v : Value) :
    Steady E (Primer.assignPlace info target place v : Run σ Unit) := by
  have htooLong : Steady E (Run.raise .limit info arrayTooLong : Run σ Unit) := raiseLimit hE (by decide +kernel) info
  rw [assignPlace_eq]
  cases place
  case cell ref => exact ⟨fun _ => .done rfl⟩
  case pending a i =>
    constructor
    intro s
    simp only
    cases s.memory.setSlot a i v with
    | some m => exact .done rfl
    | none => exact htooLong.run s
  case arrayLength a =>
    constructor
    intro s
    simp only
    rcases s.memory.setLength a v with (_ | _) | m
    · exact (raise hE (by decide) info _).run s
    · exact htooLong.run s
    · exact .done rfl
  all_goals exact cannotAssign hE info target v

/-- An operator that the engine does not know is an internal fault, and must be allowed to be one. -/
theorem binaryValue (info : Info) {symbol : String}
    (hsymbol : isOperator symbol = true ∨ ∀ f : Fault, f.kind = .internal → E (.fault f)) (a b : Value) :
    Steady E (Primer.binaryValue cfg info symbol a b) := by
  refine ite (asks _) (asks_bind ?_)
  intro s
  cases h : s.memory.checked symbol a b with
  | ok v => exact .done rfl
  | error r =>
    rcases Memory.of_checked_eq_error h with hr | hr | ⟨hr, hunknown⟩
    · exact (raiseRefusal hE info (.inl hr)).run s
    · exact (raiseRefusal hE info (.inr hr)).run s
    · rcases hsymbol with hknown | hinternal
      · rw [hknown] at hunknown
        cases hunknown
      · exact .failed rfl (hinternal _ hr)

/-- A sign keeps the control. -/
theorem unaryValue (info : Info) (symbol : String) (x : Value) :
    Steady E (Primer.unaryValue cfg info symbol x) := by
  refine ite (asks _) (asks_bind ?_)
  intro s
  cases h : s.memory.checkedUnary symbol x with
  | ok v => exact .done rfl
  | error r => exact (raiseRefusal hE info (.inl (Memory.of_checkedUnary_eq_error h))).run s

/-- An increment or decrement keeps the control. -/
theorem bumped (info : Info) (symbol : String) (v : Value) :
    Steady E (Primer.bumped cfg info symbol v) := by
  refine ite (asks _) ?_
  cases v
  case number x => exact pure _
  all_goals exact ⟨fun s => (raiseRefusal hE info (.inl rfl)).run s⟩

/-- A test keeps the control. -/
theorem testValue (info : Info) (tag : String) (v : Value) :
    Steady E (Primer.testValue cfg info tag v) := by
  refine ite (asks _) ?_
  cases v
  case boolean b => exact pure b
  all_goals exact bind (asks _) fun _ => raise hE (by decide) ..

/-- Looking up a name keeps the control. -/
theorem nameAction (info : Info) (name : String) : Steady E (Primer.nameAction info name : Run σ Value) := by
  constructor
  intro s
  unfold Primer.nameAction
  cases s.find? name with
  | some v => exact .done rfl
  | none => exact (raise hE (by decide) info _).run s

/-- Looking up a member keeps the control. -/
theorem memberAction (info : Info) (object : Expr) (property : String) (o : Value) :
    Steady E (Primer.memberAction cfg info object property o) := by
  apply bind (take hE object o)
  intro v
  apply bind (asks _)
  intro found
  rcases found with _ | (_ | m)
  · exact raise hE (by decide) ..
  · exact ite (pure _) (raise hE (by decide) ..)
  · exact pure m

/-- Looking up an element keeps the control. -/
theorem elementAction (info : Info) (array position : Expr) (a i : Value) :
    Steady E (Primer.elementAction cfg info array position a i) := by
  rw [elementAction_eq]
  apply bind (take hE array a)
  intro v
  apply bind (take hE position i)
  intro p
  have hrefused (message : String) :
      Steady E (if cfg.isRaw then Pure.pure .undefined else Run.raise .type info message : Run σ Value) :=
    ite (pure _) (raise hE (by decide) ..)
  cases p
  case number x =>
    refine ite (hrefused _) (ite (hrefused _) ?_)
    cases v
    case array ref => exact onMemory _
    all_goals exact raise hE (by decide) ..
  all_goals exact hrefused _

/-- Binding parameters keeps the control. -/
theorem bindParams (info : Info) (ps : List String) (args : List Value) :
    Steady E (Primer.bindParams cfg info ps args) := by
  induction ps generalizing args with
  | nil => exact pure _
  | cons p ps ih =>
    have hparam (v : Value) : Steady E (bindParam cfg info p v) := by
      refine ite (pure _) ?_
      cases v <;> first | exact raise hE (by decide) .. | exact pure _
    apply bind (hparam _)
    intro _
    exact bind (ih args.tail) fun _ => pure _

/-- Reporting a breakdown of a host keeps the control. -/
theorem broken (info : Info) (use : HostUse) (text : String) : Steady E (use.broken info text : Run σ α) := by
  cases use with
  | call callee => exact raiseHost hE ..
  | assign target => exact raise hE (by decide) ..

/-- A host that is finished has no part in the control state. -/
theorem finish (n depth : Nat) (info : Info) (use : HostUse) (answer : Except HostFailure Value) (host : σ)
    (memory : Memory) (hpassed : ∀ fault, answer = .error (.passedOn (.fault fault)) → E (.fault fault)) :
    Steady E (runHost cfg (n + 1) depth info use (.finish answer host memory)) := by
  constructor
  intro s
  cases answer with
  | ok v => exact .done rfl
  | error f =>
    have hfailed : Steady E (Primer.hostFailed info (use.broken info) f : Run σ Value) :=
      hostFailed hE info (broken hE info use) fun fault hf => hpassed fault (by rw [hf])
    exact hfailed.run { s with host := host, memory := memory }

end Run.Steady

/-! ## Marks and narration -/

section Marks

variable {E : Failure → Prop} {cfg : Setting σ} (hE : Allows cfg E)

include hE

/-- Recording a command keeps the control. -/
theorem Run.Steady.record (info : Info) (tag : String) : Steady E (Primer.record cfg info tag) := by
  unfold Primer.record
  refine ite (pure _) ?_
  refine bind ⟨fun _ => .done rfl⟩ ?_
  intro _
  refine ite (pure _) ?_
  exact raise hE (by decide) ..

omit hE in
/-- Narrating a step keeps the control. -/
theorem Run.Steady.narrate (category : Category) (node : NodeId) (message : Memory → String)
    (changes : Unit → List Change) : Steady E (Primer.narrate cfg category node message changes) := by
  unfold Primer.narrate
  exact ite ⟨fun _ => .done rfl⟩ (pure _)

end Marks

/-- How a tick ends: it is counted and the run goes on, or the statements are used up by it, or the run is
stopped for another reason, before the tick is counted or after that. -/
inductive Outcome.Ticked (limits : Limits) (s : RunState σ) : Outcome σ Unit → Prop where
  | done {u} (hu : u.control = { s.control with ticks := s.ticks + 1 })
      (hleft : limits.isSpent (s.ticks + 1) = false) : Ticked limits s (.done () u)
  | spent {u f} (hu : u.control = { s.control with ticks := s.ticks + 1 })
      (hspent : limits.isSpent (s.ticks + 1) = true) (hf : f.Spends limits) : Ticked limits s (.failed (.fault f) u)
  | stopped {u f} (hu : u.control = s.control ∨
        u.control = { s.control with ticks := s.ticks + 1 } ∧ limits.isSpent (s.ticks + 1) = false)
      (hf : f.Ordinary) : Ticked limits s (.failed (.fault f) u)

/-- Every tick ends in one of these ways. -/
theorem tick_ticked (cfg : Setting σ) (info : Info) (s : RunState σ) :
    (tick cfg info s).Ticked cfg.limits s := by
  have hinternal : FaultClass.limit ≠ .internal := nofun
  unfold tick
  cases cfg.limits.stopped s.ticks with
  | some reason =>
    refine .stopped (.inl rfl) (.of_message hinternal ?_)
    show (("Program was stopped: <var>" ++ reason ++ "</var>").toList)[8]? ≠ some 's'
    rw [getElem?_message (by decide)]
    decide
  | none =>
    simp only
    cases hspent : cfg.limits.isSpent (s.ticks + 1) with
    | true => exact .spent rfl hspent ⟨rfl, rfl, rfl⟩
    | false =>
      simp only [Bool.false_eq_true, if_false]
      cases cfg.limits.limiter with
      | none => exact .done rfl hspent
      | some limiter =>
        simp only
        cases limiter s.asked info.id with
        | none => exact .done rfl hspent
        | some text => exact .stopped (.inr ⟨rfl, hspent⟩) (.of_cause hinternal nofun)

end Primer
