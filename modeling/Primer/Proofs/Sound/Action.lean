import Primer.Proofs.Sound.Indexing
import Primer.Proofs.Sound.Writing
import Primer.Run.Evaluator

/-!
# Actions never break down

Every value can be written and every element found, so the places of a run where something could break down are
plain ones: `written` reads the memory, `narrating` narrates, and an operand that is written out is left as it is.
Each action is rewritten here without them. The equations are what everything else knows about these places.
-/

set_option autoImplicit false

namespace Primer

open Run

variable {σ α : Type}

/-! ## Texts -/

/-- What can be worked out from every memory is read off the state. -/
theorem Run.written_eq {f : Memory → Except Breakdown α} {g : Memory → α} (h : ∀ m, f m = .ok (g m)) :
    (written f : Run σ α) = asks fun s => g s.memory := by
  funext s
  simp only [written, h]
  rfl

/-- Writing operands out does nothing else. -/
theorem Run.writeOut_bind (operands : List Value) (x : Run σ α) :
    ((written fun m => m.writeOut? operands) >>= fun _ => x) = x := by
  rw [written_eq fun m => m.writeOut?_eq operands]
  rfl

/-- A step whose text can be worked out is narrated. -/
theorem narrating_eq (cfg : Setting σ) (category : Category) (node : NodeId)
    {message : Memory → Except Breakdown String} {text : Memory → String} (h : ∀ m, message m = .ok (text m))
    (changes : Unit → List Change) :
    narrating cfg category node message changes = narrate cfg category node text changes := by
  rw [narrating, written_eq h]
  funext s
  simp only [narrate, bind, andThen, asks]
  split <;> rfl

/-- The label of a call can be worked out. -/
theorem callLabel?_eq (m : Memory) (name : String) (args : List Value) :
    callLabel? m name args = .ok (callLabel m name args) := by
  rw [callLabel?, mapM_eq m.describe?_eq]
  rfl

/-- The label of a call is read off the state. -/
theorem written_callLabel (name : String) (args : List Value) :
    (written fun m => callLabel? m name args : Run σ String) = asks fun s => callLabel s.memory name args :=
  written_eq fun m => callLabel?_eq m name args

/-- A step that shows one value is narrated. -/
theorem narrating_described (cfg : Setting σ) (category : Category) (node : NodeId) (before after : String)
    (v : Value) (changes : Unit → List Change) :
    narrating cfg category node
      (fun m => do
        let shown ← m.describe? v
        .ok (before ++ shown ++ after))
      changes = narrate cfg category node (fun m => before ++ m.describe v ++ after) changes := by
  refine narrating_eq cfg category node ?_ changes
  intro m
  rw [m.describe?_eq]
  rfl

/-- A target with its new value is narrated. -/
theorem narrateAssigned_eq (cfg : Setting σ) (info : Info) (target : Expr) (v : Value) :
    narrateAssigned cfg info target v = narrate cfg .inline info.id
      (fun m => "<var>" ++ target.code ++ "</var> = <var>" ++ m.describe v ++ "</var>")
      (fun _ => [⟨info.id, target.code⟩]) :=
  narrating_described ..

/-! ## Operators and tests -/

/-- Applying an operator between operands is recording it and working out its value. -/
theorem applyBinary_eq (cfg : Setting σ) (info : Info) (symbol : String) (a b : Value) :
    applyBinary cfg info symbol a b = (do
      record cfg info (operatorTag symbol a b)
      binaryValue cfg info symbol a b) := by
  unfold applyBinary
  simp only [writeOut_bind]

/-- The value of an operator between operands, with the step that tells it. -/
theorem binaryAction_eq (cfg : Setting σ) (info : Info) (left : Expr) (symbol : String) (right : Expr)
    (a b : Value) :
    binaryAction cfg info left symbol right a b = (do
      let (x, y) ← takeOperands cfg info symbol left right a b
      let v ← applyBinary cfg info symbol x y
      narrate cfg .inline info.id
        (fun m => "<var>" ++ m.describe x ++ "</var> " ++ symbol ++ " <var>" ++ m.describe y ++
          "</var> = <var>" ++ m.describe v ++ "</var>")
        (fun _ => [])
      pure v) := by
  have hnarrating (x y v : Value) :
      narrating cfg .inline info.id
        (fun m => do
          let left ← m.describe? x
          let right ← m.describe? y
          let result ← m.describe? v
          .ok ("<var>" ++ left ++ "</var> " ++ symbol ++ " <var>" ++ right ++ "</var> = <var>" ++ result ++ "</var>"))
        (fun _ => []) =
      narrate cfg .inline info.id
        (fun m => "<var>" ++ m.describe x ++ "</var> " ++ symbol ++ " <var>" ++ m.describe y ++
          "</var> = <var>" ++ m.describe v ++ "</var>")
        (fun _ => []) := by
    refine narrating_eq cfg .inline info.id ?_ _
    intro m
    rw [m.describe?_eq, m.describe?_eq, m.describe?_eq]
    rfl
  unfold binaryAction
  simp only [hnarrating]

/-- The value of an operator before an operand, with the step that tells it. -/
theorem unaryAction_eq (cfg : Setting σ) (info : Info) (symbol : String) (operand : Expr) (a : Value) :
    unaryAction cfg info symbol operand a = (do
      record cfg info (if symbol = "!" then "!" else "+")
      let x ← take cfg operand a
      let v ← unaryValue cfg info symbol x
      narrate cfg .inline info.id
        (fun m => "<var>" ++ symbol ++ m.describe x ++ "</var> = <var>" ++ m.describe v ++ "</var>")
        (fun _ => [])
      pure v) := by
  have hnarrating (x v : Value) :
      narrating cfg .inline info.id
        (fun m => do
          let operand ← m.describe? x
          let result ← m.describe? v
          .ok ("<var>" ++ symbol ++ operand ++ "</var> = <var>" ++ result ++ "</var>"))
        (fun _ => []) =
      narrate cfg .inline info.id
        (fun m => "<var>" ++ symbol ++ m.describe x ++ "</var> = <var>" ++ m.describe v ++ "</var>")
        (fun _ => []) := by
    refine narrating_eq cfg .inline info.id ?_ _
    intro m
    rw [m.describe?_eq, m.describe?_eq]
    rfl
  unfold unaryAction
  simp only [writeOut_bind, hnarrating]

/-- Counting up or down is recording it and working out the number. -/
theorem bumpAction_eq (cfg : Setting σ) (info : Info) (target : Expr) (symbol : String) (place : Value) :
    bumpAction cfg info target symbol place = (do
      record cfg info "++"
      let x ← take cfg target place
      bumped cfg info symbol x) := by
  unfold bumpAction
  simp only [writeOut_bind]

/-- Testing a condition is recording the construct and looking at the value. -/
theorem testAction_eq (cfg : Setting σ) (info : Info) (tag : String) (e : Expr) (cond : Value) :
    testAction cfg info tag e cond = (do
      record cfg info tag
      let v ← take cfg e cond
      testValue cfg info tag v) := by
  unfold testAction
  simp only [writeOut_bind]

/-! ## Places -/

/-- The fault of a target that cannot be assigned to shows the value. -/
theorem cannotAssign_eq (info : Info) (target : Expr) (v : Value) :
    (cannotAssign info target v : Run σ α) = fun s => raise .assignment info
      ("Cannot assign <var>" ++ s.memory.describe v ++ "</var> to <var>" ++ target.code ++ "</var>") s := by
  rw [cannotAssign, written_eq fun m => m.describe?_eq v]
  rfl

/-- Writing an element ends with the new memory or with the fault of an array that gets too long. -/
theorem assignElement_eq (info : Info) (a : ArrayRef) (i : Nat) (v : Value) :
    (assignElement info a i v : Run σ Unit) = fun s =>
      match s.memory.setSlot a i v with
      | some m => .done () { s with memory := m }
      | none => raise .limit info arrayTooLong s := by
  funext s
  simp only [assignElement, Memory.setSlot?_eq]
  cases s.memory.setSlot a i v <;> rfl

/-- Writing a length ends with the new memory or with the fault of a length that is refused. -/
theorem assignLength_eq (info : Info) (target : Expr) (a : ArrayRef) (v : Value) :
    (assignLength info target a v : Run σ Unit) = fun s =>
      match s.memory.setLength a v with
      | .ok m => .done () { s with memory := m }
      | .error .tooLong => raise .limit info (s.memory.lengthRefusal v .tooLong) s
      | .error .invalid => raise .value info (s.memory.lengthRefusal v .invalid) s := by
  funext s
  simp only [assignLength, Memory.setLength?_eq, Memory.lengthRefusal?_eq]
  rcases s.memory.setLength a v with (_ | _) | m <;> rfl

/-- Writing to a place that does not belong to the hosts changes the memory, or it is refused. -/
theorem assignPlace_eq (info : Info) (target : Expr) (place v : Value) :
    (assignPlace info target place v : Run σ Unit) =
      match place with
      | .cell r => update fun s => { s with memory := s.memory.write r v }
      | .pending a i => fun s =>
        match s.memory.setSlot a i v with
        | some m => .done () { s with memory := m }
        | none => raise .limit info arrayTooLong s
      | .arrayLength a => fun s =>
        match s.memory.setLength a v with
        | .ok m => .done () { s with memory := m }
        | .error .tooLong => raise .limit info (s.memory.lengthRefusal v .tooLong) s
        | .error .invalid => raise .value info (s.memory.lengthRefusal v .invalid) s
      | _ => cannotAssign info target v := by
  cases place with
  | cell r => rfl
  | pending a i =>
    show assignElement info a i v = _
    exact assignElement_eq info a i v
  | arrayLength a =>
    show assignLength info target a v = _
    exact assignLength_eq info target a v
  | _ => rfl

/-- The place of an element is found in the memory. -/
theorem elementAt_eq (a : ArrayRef) (i : Nat) : (elementAt a i : Run σ Value) = onMemory fun m => m.slot a i := by
  funext s
  simp only [elementAt, Memory.slot?_eq]
  rfl

/-- A number that is not negative stands for the same index either way. -/
theorem integerIndex_eq {x : Float} (h : ¬ x < 0.0) : integerIndex x = indexOf x := by
  unfold integerIndex indexOf
  split
  · exact if_neg h
  · rfl

/-- The place of an element of an evaluated array is found in the memory, or the index is refused. -/
theorem elementAction_eq (cfg : Setting σ) (info : Info) (array position : Expr) (a i : Value) :
    elementAction cfg info array position a i = (do
      let v ← take cfg array a
      let p ← take cfg position i
      let notWhole : Run σ Value :=
        if cfg.isRaw then pure .undefined
        else raise .type info ("Index <var>" ++ position.code ++ "</var> is not an integer")
      match p with
      | .number x =>
        if !Number.isWhole x then notWhole
        else if x < 0.0 then
          if cfg.isRaw then pure .undefined
          else raise .type info ("Index <var>" ++ position.code ++ "</var> is negative")
        else
          match v with
          | .array ref => onMemory fun m => m.slot ref (indexOf x)
          | _ => raise .type info ("Variable <var>" ++ array.code ++ "</var> is not an array")
      | _ => notWhole) := by
  unfold elementAction
  refine congrArg (take cfg array a >>= ·) (funext fun v => congrArg (take cfg position i >>= ·) (funext fun p => ?_))
  cases p with
  | number x =>
    by_cases hnegative : x < 0.0
    · simp only [if_pos hnegative]
    · cases v <;> simp only [if_neg hnegative, integerIndex_eq hnegative, elementAt_eq]
  | _ => rfl

/-! ## Functions -/

/-- Starting the body of a function, with the label read off the state. -/
theorem enterFunction_eq (cfg : Setting σ) (info : Info) (f : UserFunction) (args : List Value) :
    enterFunction cfg info f args = (if !cfg.isRaw && args.length < f.params.length then
        raise .arity info ("Function <var>" ++ f.name ++ "</var> expects <var>" ++
          toString f.params.length ++ "</var> arguments, but got only <var>" ++ toString args.length ++ "</var>")
      else do
        let bound ← bindParams cfg info f.params args
        let label ← asks fun s => callLabel s.memory f.name args
        narrate cfg .block f.info.id (fun _ => "entering <var>" ++ label ++ "</var>") (fun _ => [])
        update (pushFrame f bound label)) := by
  unfold enterFunction
  simp only [written_callLabel]

end Primer
