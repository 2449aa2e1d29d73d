import Primer.Proofs.Sound.Action

/-!
# Quiet computations

A run keeps records beside what it computes: commands, steps and ticks. A computation is quiet if it neither
reads nor writes them and does not break down. Everything that the evaluator does between two entries into the
records is quiet; this module says so for each of its actions.
-/

set_option autoImplicit false

namespace Primer

open Run

variable {σ α β : Type}

/-- What an outcome is when its state is changed. -/
def Outcome.mapState (f : RunState σ → RunState σ) : Outcome σ α → Outcome σ α
  | .done a s => .done a (f s)
  | .failed e s => .failed e (f s)
  | .exhausted => .exhausted

/-- The records of a run, newest first. -/
structure Records where
  commands : List Command
  steps : List Step
  ticks : Nat
  asked : List NodeId

/-- The records in a state. -/
def RunState.records (s : RunState σ) : Records := ⟨s.commands, s.steps, s.ticks, s.asked⟩

/-- A state with other records. -/
def RunState.withRecords (s : RunState σ) (r : Records) : RunState σ :=
  { s with commands := r.commands, steps := r.steps, ticks := r.ticks, asked := r.asked }

/-- Putting the records in their own place changes nothing. -/
@[simp]
theorem RunState.withRecords_records (s : RunState σ) : s.withRecords s.records = s := rfl

/-- A state with other records has them. -/
@[simp]
theorem RunState.records_withRecords (s : RunState σ) (r : Records) : (s.withRecords r).records = r := rfl

/-- A computation that breaks down in no state. -/
def Run.Unbroken (x : Run σ α) : Prop := ∀ s b t, x s ≠ .failed (.breakdown b) t

/-- One computation after another does not break down if neither does. -/
theorem Run.Unbroken.bind {x : Run σ α} {f : α → Run σ β} (hx : x.Unbroken) (hf : ∀ a, (f a).Unbroken) :
    (x >>= f).Unbroken := by
  intro s b t
  show Run.andThen x f s ≠ _
  unfold Run.andThen
  cases hfirst : x s with
  | done a u => exact hf a u b t
  | failed e u =>
    intro h
    cases h
    exact hx s b t hfirst
  | exhausted => exact nofun

/-- A computation that neither reads nor writes the records of a run, and that does not break down. -/
structure Run.Quiet (x : Run σ α) : Prop where
  withRecords : ∀ s r, x (s.withRecords r) = (x s).mapState fun t => t.withRecords r
  unbroken : x.Unbroken

namespace Run.Quiet

/-- Giving a value is quiet. -/
theorem value (a : α) : Quiet (Run.value a : Run σ α) := ⟨fun _ _ => rfl, fun _ _ _ => nofun⟩

/-- Giving a value is quiet. -/
theorem pure (a : α) : Quiet (Pure.pure a : Run σ α) := value a

/-- Raising a fault is quiet. -/
theorem raise (kind : FaultClass) (info : Info) (message : String) :
    Quiet (Run.raise kind info message : Run σ α) := ⟨fun _ _ => rfl, fun _ _ _ => nofun⟩

/-- Raising a fault with a cause is quiet. -/
theorem raiseFrom (kind : FaultClass) (info : Info) (message cause : String) :
    Quiet (Run.raiseFrom kind info message cause : Run σ α) := ⟨fun _ _ => rfl, fun _ _ _ => nofun⟩

/-- Failing with a text is quiet. -/
theorem failText (message : String) : Quiet (Run.failText message : Run σ α) :=
  ⟨fun _ _ => rfl, fun _ _ _ => nofun⟩

/-- Reading something off the state is quiet if it is not read off the records. -/
theorem asks {f : RunState σ → α} (h : ∀ s r, f (s.withRecords r) = f s) : Quiet (Run.asks f) := by
  refine ⟨?_, fun _ _ _ => nofun⟩
  intro s r
  simp only [Run.asks, Outcome.mapState, h]

/-- Working on the memory is quiet. -/
theorem onMemory (f : Memory → α × Memory) : Quiet (Run.onMemory f : Run σ α) :=
  ⟨fun _ _ => rfl, fun _ _ _ => nofun⟩

/-- Changing the state is quiet if the records are not part of it. -/
theorem update {f : RunState σ → RunState σ}
    (h : ∀ s r, f (s.withRecords r) = (f s).withRecords r) : Quiet (Run.update f) := by
  refine ⟨?_, fun _ _ _ => nofun⟩
  intro s r
  simp only [Run.update, Outcome.mapState, h]

/-- One computation after another is quiet if both are. -/
theorem bind {x : Run σ α} {f : α → Run σ β} (hx : Quiet x) (hf : ∀ a, Quiet (f a)) :
    Quiet (x >>= f) := by
  refine ⟨?_, hx.unbroken.bind fun a => (hf a).unbroken⟩
  intro s r
  show Run.andThen x f (s.withRecords r) = (Run.andThen x f s).mapState _
  simp only [Run.andThen, hx.withRecords s r]
  cases x s with
  | done a t => exact (hf a).withRecords t r
  | failed e t => rfl
  | exhausted => rfl

/-- A choice is quiet if both computations are. -/
theorem ite {c : Prop} [Decidable c] {x y : Run σ α} (hx : Quiet x) (hy : Quiet y) :
    Quiet (if c then x else y) := by
  by_cases h : c
  · rw [if_pos h]
    exact hx
  · rw [if_neg h]
    exact hy

end Run.Quiet

namespace Run.Quiet

/-! ## Actions of the evaluator -/

/-- Placing a failure of a host is quiet if the fault of one that breaks down is. -/
theorem hostFailed {info : Info} {broken : String → Run σ α} (h : ∀ text, Quiet (broken text))
    (f : HostFailure) : Quiet (Primer.hostFailed info broken f) := by
  rcases f with text | (f | text | b) | text
  · exact raiseFrom ..
  · exact ⟨fun _ _ => rfl, fun _ _ _ => nofun⟩
  · exact raiseFrom ..
  · exact h b.text
  · exact h text

/-- Reading a variable of the hosts is quiet. -/
theorem readHost (cfg : Setting σ) (e : Expr) (v : HostVariable) : Quiet (Primer.readHost cfg e v) := by
  have hfailed (f : HostFailure) : Quiet (Primer.hostFailed e.info
      (fun text => Run.raise .host e.info ("Reading <var>" ++ e.code ++ "</var> failed: " ++ text)) f
      : Run σ Value) := hostFailed (fun _ => raise ..) f
  constructor
  · intro s r
    simp only [Primer.readHost, RunState.withRecords]
    rcases (cfg.hosts.get v.key s.host s.memory).1 with f | w
    · exact (hfailed f).withRecords
        { s with host := (cfg.hosts.get v.key s.host s.memory).2.1,
                 memory := (cfg.hosts.get v.key s.host s.memory).2.2 } r
    · rfl
  · intro s b t
    simp only [Primer.readHost]
    rcases (cfg.hosts.get v.key s.host s.memory).1 with f | w
    · exact (hfailed f).unbroken _ b t
    · exact nofun

/-- Taking a value without checks is quiet. -/
theorem takeUnchecked (cfg : Setting σ) (e : Expr) (v : Value) :
    Quiet (Primer.takeUnchecked cfg e v) := by
  cases v
  case hostVariable h => exact readHost cfg e h
  case cell ref => exact asks fun _ _ => rfl
  case arrayLength a => exact asks fun _ _ => rfl
  all_goals exact pure _

/-- Taking a value with checks is quiet. -/
theorem takeChecked (cfg : Setting σ) (e : Expr) (v : Value) : Quiet (Primer.takeChecked cfg e v) := by
  cases v
  case hostVariable h => exact readHost cfg e h
  case arrayLength a => exact asks fun _ _ => rfl
  case number x => exact ite (pure _) (raise ..)
  case absent | undefined | null | pending => exact raise ..
  all_goals exact pure _

/-- Taking a value is quiet. -/
theorem take (cfg : Setting σ) (e : Expr) (v : Value) : Quiet (Primer.take cfg e v) :=
  ite (takeUnchecked cfg e v) ⟨fun s r => (takeChecked cfg e (opened s.memory v)).withRecords s r,
    fun s => (takeChecked cfg e (opened s.memory v)).unbroken s⟩

/-- Taking several values is quiet. -/
theorem takeAll (cfg : Setting σ) (es : List Expr) (vs : List Value) :
    Quiet (Primer.takeAll cfg es vs) := by
  fun_induction Primer.takeAll cfg es vs with
  | case1 e es v vs ih => exact bind (take cfg e v) fun _ => bind ih fun _ => pure _
  | case2 => exact pure _

/-- Refusing to assign is quiet. -/
theorem cannotAssign (info : Info) (target : Expr) (v : Value) :
    Quiet (Primer.cannotAssign info target v : Run σ α) := by
  rw [cannotAssign_eq]
  exact ⟨fun _ _ => rfl, fun _ _ _ => nofun⟩

/-- Writing to a place that does not belong to the hosts is quiet. -/
theorem assignPlace (info : Info) (target : Expr) (place v : Value) :
    Quiet (Primer.assignPlace info target place v : Run σ Unit) := by
  cases place
  case cell ref => exact update fun _ _ => rfl
  case pending a i =>
    rw [assignPlace_eq]
    constructor
    · intro s r
      simp only [RunState.withRecords]
      cases s.memory.setSlot a i v <;> rfl
    · intro s
      simp only
      cases s.memory.setSlot a i v <;> exact fun _ _ => nofun
  case arrayLength a =>
    rw [assignPlace_eq]
    constructor
    · intro s r
      simp only [RunState.withRecords]
      rcases s.memory.setLength a v with (_ | _) | _ <;> rfl
    · intro s
      simp only
      rcases s.memory.setLength a v with (_ | _) | _ <;> exact fun _ _ => nofun
  all_goals exact cannotAssign info target v

/-- Working out the value of an operator between two operands is quiet. -/
theorem binaryValue (cfg : Setting σ) (info : Info) (symbol : String) (a b : Value) :
    Quiet (Primer.binaryValue cfg info symbol a b) := by
  refine ite (asks fun _ _ => rfl) ?_
  refine bind (asks fun _ _ => rfl) ?_
  intro result
  cases result with
  | ok v => exact pure v
  | error r => exact raise ..

/-- Working out the value of an operator before an operand is quiet. -/
theorem unaryValue (cfg : Setting σ) (info : Info) (symbol : String) (x : Value) :
    Quiet (Primer.unaryValue cfg info symbol x) := by
  refine ite (asks fun _ _ => rfl) ?_
  refine bind (asks fun _ _ => rfl) ?_
  intro result
  cases result with
  | ok v => exact pure v
  | error r => exact raise ..

/-- Looking at the value of a condition is quiet. -/
theorem testValue (cfg : Setting σ) (info : Info) (tag : String) (v : Value) :
    Quiet (Primer.testValue cfg info tag v) := by
  refine ite (asks fun _ _ => rfl) ?_
  cases v
  case boolean b => exact pure b
  all_goals exact bind (asks fun _ _ => rfl) fun _ => raise ..

/-- Working out a number that is counted up or down is quiet. -/
theorem bumped (cfg : Setting σ) (info : Info) (symbol : String) (v : Value) :
    Quiet (Primer.bumped cfg info symbol v) := by
  refine ite (asks fun _ _ => rfl) ?_
  cases v
  case number x => exact pure _
  all_goals exact ⟨fun _ _ => rfl, fun _ _ _ => nofun⟩

/-- Looking up a name is quiet. -/
theorem nameAction (info : Info) (name : String) : Quiet (Primer.nameAction info name : Run σ Value) := by
  constructor
  · intro s r
    simp only [Primer.nameAction]
    rw [show (s.withRecords r).find? name = s.find? name from rfl]
    cases s.find? name <;> rfl
  · intro s
    simp only [Primer.nameAction]
    cases s.find? name <;> exact fun _ _ => nofun

/-- Looking up a member is quiet. -/
theorem memberAction (cfg : Setting σ) (info : Info) (object : Expr) (property : String) (o : Value) :
    Quiet (Primer.memberAction cfg info object property o) := by
  apply bind (take cfg object o)
  intro v
  refine bind (asks ?_) ?_
  · intro s r
    cases v <;> rfl
  · intro found
    rcases found with _ | (_ | m)
    · exact raise ..
    · exact ite (pure _) (raise ..)
    · exact pure m

/-- Finding the place of an element is quiet. -/
theorem elementAction (cfg : Setting σ) (info : Info) (array position : Expr) (a i : Value) :
    Quiet (Primer.elementAction cfg info array position a i) := by
  rw [elementAction_eq]
  apply bind (take cfg array a)
  intro v
  apply bind (take cfg position i)
  intro p
  have notWhole : Quiet (if cfg.isRaw then Pure.pure .undefined
      else Run.raise .type info ("Index <var>" ++ position.code ++ "</var> is not an integer")
      : Run σ Value) := ite (pure _) (raise ..)
  cases p
  case number x =>
    refine ite notWhole (ite (ite (pure _) (raise ..)) ?_)
    cases v
    case array ref => exact onMemory _
    all_goals exact raise ..
  all_goals exact notWhole

/-- Making an array is quiet. -/
theorem arrayAction (values : List Value) : Quiet (Primer.arrayAction values : Run σ Value) :=
  onMemory _

/-- Declaring a name is quiet. -/
theorem declareName (name : String) (v : Value) : Quiet (Primer.declareName name v : Run σ Unit) := by
  apply update
  intro s r
  rcases s with ⟨memory, host, globals, frames, calls, commands, steps, ticks, asked⟩
  cases frames <;> rfl

/-- Starting a call is quiet. -/
theorem enterCall (cfg : Setting σ) (info : Info) : Quiet (Primer.enterCall cfg info) := by
  constructor
  · intro s r
    show (if cfg.limits.callDepth ≤ s.calls.length then _ else _) =
      Outcome.mapState _ (if cfg.limits.callDepth ≤ s.calls.length then _ else _)
    split <;> rfl
  · intro s b t
    show (if cfg.limits.callDepth ≤ s.calls.length then _ else _) ≠ _
    split <;> exact nofun

/-- Ending a call is quiet. -/
theorem leaveCall : Quiet (Primer.leaveCall : Run σ Unit) := update fun _ _ => rfl

/-- Finding the argument for a parameter is quiet. -/
theorem bindParam (cfg : Setting σ) (info : Info) (p : String) (v : Value) :
    Quiet (Primer.bindParam cfg info p v) := by
  refine ite (pure _) ?_
  cases v <;> first | exact raise .. | exact pure _

/-- Finding the arguments of a function is quiet. -/
theorem bindParams (cfg : Setting σ) (info : Info) (ps : List String) (args : List Value) :
    Quiet (Primer.bindParams cfg info ps args) := by
  induction ps generalizing args with
  | nil => exact pure _
  | cons p ps ih =>
    apply bind (bindParam ..)
    intro _
    exact bind (ih args.tail) fun _ => pure _

/-- Pushing a frame is quiet. -/
theorem pushFrame (f : UserFunction) (bound : List (String × Value)) (label : String) :
    Quiet (Run.update (Primer.pushFrame f bound label) : Run σ Unit) := update fun _ _ => rfl

end Run.Quiet

end Primer
