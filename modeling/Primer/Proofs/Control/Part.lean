import Primer.Proofs.Control.Steady

/-!
# What plans are made of

The plans of the evaluator are put together from a fixed list of actions (`Run.Part`), from marks and narration,
from uses of hosts, and from further tasks. `Plan.Made` says so of a plan, and `Task.plan_made` says it of the
plans of all tasks but calls and the functions that they enter, which are taken apart by hand at the end. The
tasks in such a plan are smaller than the task that it belongs to, unless it is a loop, and only the tasks of
statements declare names.
-/

set_option autoImplicit false

namespace Primer

open Run

variable {σ α β : Type}

/-! ## Parts -/

/-- The actions that plans are put together from. -/
inductive Run.Part (cfg : Setting σ) : {α : Type} → Run σ α → Prop where
  | value {α : Type} (a : α) : Part cfg (Run.value a)
  | asks {α : Type} (f : RunState σ → α) : Part cfg (Run.asks f)
  | raise {α : Type} {kind : FaultClass} (hkind : kind ≠ .internal ∧ kind ≠ .limit) (info : Info) (message : String) :
      Part cfg (Run.raise kind info message : Run σ α)
  | raiseLimit {α : Type} {message : String} (hmessage : message.toList[8]? ≠ some 's') (info : Info) :
      Part cfg (Run.raise .limit info message : Run σ α)
  | failText {α : Type} (message : String) : Part cfg (Run.failText message : Run σ α)
  | take (e : Expr) (v : Value) : Part cfg (Primer.take cfg e v)
  | takeUnchecked (e : Expr) (v : Value) : Part cfg (Primer.takeUnchecked cfg e v)
  | nameAction (info : Info) (name : String) : Part cfg (Primer.nameAction info name)
  | memberAction (info : Info) (object : Expr) (property : String) (o : Value) :
      Part cfg (Primer.memberAction cfg info object property o)
  | elementAction (info : Info) (array position : Expr) (a i : Value) :
      Part cfg (Primer.elementAction cfg info array position a i)
  | binaryValue (info : Info) (symbol : String) (a b : Value) : Part cfg (Primer.binaryValue cfg info symbol a b)
  | unaryValue (info : Info) (symbol : String) (x : Value) : Part cfg (Primer.unaryValue cfg info symbol x)
  | bumped (info : Info) (symbol : String) (v : Value) : Part cfg (Primer.bumped cfg info symbol v)
  | testValue (info : Info) (tag : String) (v : Value) : Part cfg (Primer.testValue cfg info tag v)
  | assignPlace (info : Info) (target : Expr) (place v : Value) : Part cfg (Primer.assignPlace info target place v)
  | onMemory {α : Type} (f : Memory → α × Memory) : Part cfg (Run.onMemory f)

/-- All parts are steady, if internal failures are allowed. -/
theorem Run.Part.steady {cfg : Setting σ} {E : Failure → Prop} (hE : Allows cfg E)
    (hinternal : ∀ f : Fault, f.kind = .internal → E (.fault f)) (htext : ∀ message, E (.text message))
    {x : Run σ α} (h : x.Part cfg) : x.Steady E := by
  cases h with
  | value a => exact .value a
  | asks f => exact .asks f
  | raise hkind info message => exact .raise hE hkind info message
  | raiseLimit hmessage info => exact .raiseLimit hE hmessage info
  | failText message => exact ⟨fun _ => .failed rfl (htext message)⟩
  | take e v => exact .take hE e v
  | takeUnchecked e v => exact .takeUnchecked hE e v
  | nameAction info name => exact .nameAction hE info name
  | memberAction info object property o => exact .memberAction hE info object property o
  | elementAction info array position a i => exact .elementAction hE info array position a i
  | binaryValue info symbol a b => exact .binaryValue hE info (.inr hinternal) a b
  | unaryValue info symbol x => exact .unaryValue hE info symbol x
  | bumped info symbol v => exact .bumped hE info symbol v
  | testValue info tag v => exact .testValue hE info tag v
  | assignPlace info target place v => exact .assignPlace hE info target place v
  | onMemory f => exact .onMemory f

/-! ## Plans made of parts -/

/-- A plan is put together from parts, marks and narration, uses of hosts, tasks with a property, and the
declaration of names if there may be any. -/
inductive Plan.Made (cfg : Setting σ) (declares : Bool) (asked : (α : Type) → Task σ α → Prop) :
    {α : Type} → Plan σ α → Prop where
  | act {α : Type} {x : Run σ α} {quiet : x.Quiet} (h : x.Part cfg) : Made cfg declares asked (.act x quiet)
  | declareName {name : String} {v : Value} {quiet : (Primer.declareName name v : Run σ Unit).Quiet}
      (h : declares = true) : Made cfg declares asked (.act (Primer.declareName name v) quiet)
  | mark (place : Mark) : Made cfg declares asked (.mark place)
  | narrate (category : Category) (node : NodeId) (message : Memory → String)
      (changes : Unit → List Change) : Made cfg declares asked (.narrate category node message changes)
  | ask {α : Type} {t : Task σ α} (h : asked α t) : Made cfg declares asked (.ask t)
  | hostCall (depth : Nat) (info : Info) (callee : Expr) (key : FunctionKey) (args : List Value) :
      Made cfg declares asked (.hostCall depth info callee key args)
  | hostSet (depth : Nat) (info : Info) (target : Expr) (key : VariableKey) (v : Value) :
      Made cfg declares asked (.hostSet depth info target key v)
  | bind {α β : Type} {x : Plan σ α} {f : α → Plan σ β} (hx : Made cfg declares asked x)
      (hf : ∀ a, Made cfg declares asked (f a)) : Made cfg declares asked (.bind x f)
  | recorded {α : Type} {x : Run σ α} {quiet : x.Quiet} (h : x.Part cfg) (info : Info)
      (tag : String) : Made cfg declares asked (.recorded x quiet info tag)

namespace Plan.Made

variable {cfg : Setting σ} {declares : Bool} {asked : (α : Type) → Task σ α → Prop}

/-- A plan that asks for some tasks asks for more of them. -/
theorem imp {asked' : (α : Type) → Task σ α → Prop} (himp : ∀ {α : Type} {t : Task σ α}, asked α t → asked' α t)
    {p : Plan σ α} (h : p.Made cfg declares asked) : p.Made cfg declares asked' := by
  induction h with
  | act h => exact .act h
  | declareName h => exact .declareName h
  | mark place => exact .mark place
  | narrate category node message changes => exact .narrate category node message changes
  | ask h => exact .ask (himp h)
  | hostCall depth info callee key args => exact .hostCall depth info callee key args
  | hostSet depth info target key v => exact .hostSet depth info target key v
  | bind _ _ ihx ihf => exact .bind ihx ihf
  | recorded h info tag => exact .recorded h info tag

/-- A plan that gives a value is made of parts. -/
theorem pure (a : α) : Made cfg declares asked (Pure.pure a : Plan σ α) := .act (.value a)

/-- A sequence of plans made of parts is so too. -/
theorem andThen {x : Plan σ α} {f : α → Plan σ β} (hx : Made cfg declares asked x)
    (hf : ∀ a, Made cfg declares asked (f a)) : Made cfg declares asked (x >>= f) := .bind hx hf

/-- A choice between plans made of parts is so too. -/
theorem ite {c : Prop} [Decidable c] {x y : Plan σ α} (hx : Made cfg declares asked x)
    (hy : Made cfg declares asked y) : Made cfg declares asked (if c then x else y) := by
  by_cases h : c
  · rw [if_pos h]
    exact hx
  · rw [if_neg h]
    exact hy

/-- Taking the operands of an operation is made of parts. -/
theorem operands (info : Info) (symbol : String) (left right : Expr) (a b : Value) :
    Made cfg declares asked (Plan.operands cfg info symbol left right a b) := by
  apply andThen (.recorded (.take left a) info _)
  intro _
  exact andThen (.recorded (.take right b) info _) fun _ => pure _

/-- An operation is made of parts. -/
theorem operator (info : Info) (symbol : String) (a b : Value) :
    Made cfg declares asked (Plan.operator cfg info symbol a b) :=
  andThen (.mark _) fun _ => .act (.binaryValue info symbol a b)

/-- A binary operation is made of parts. -/
theorem binary (info : Info) (left : Expr) (symbol : String) (right : Expr) (a b : Value) :
    Made cfg declares asked (Plan.binary cfg info left symbol right a b) := by
  apply andThen (operands info symbol left right a b)
  intro _
  apply andThen (operator info symbol _ _)
  intro _
  exact andThen (.narrate ..) fun _ => pure _

/-- A sign is made of parts. -/
theorem unary (info : Info) (symbol : String) (operand : Expr) (a : Value) :
    Made cfg declares asked (Plan.unary cfg info symbol operand a) := by
  apply andThen (.mark _)
  intro _
  apply andThen (.act (.take operand a))
  intro x
  apply andThen (.act (.unaryValue info symbol x))
  intro _
  exact andThen (.narrate ..) fun _ => pure _

/-- An assignment is made of parts. -/
theorem assigned (a : Assignment) (place given : Value) :
    Made cfg declares asked (Plan.assigned cfg a place given) :=
  ite (andThen (.mark _) fun _ => .act (.take a.value given))
    (andThen (operands a.info a.symbol a.target a.value place given) fun _ => operator a.info a.symbol _ _)

/-- An increment or decrement is made of parts. -/
theorem bump (info : Info) (target : Expr) (symbol : String) (place : Value) :
    Made cfg declares asked (Plan.bump cfg info target symbol place) := by
  apply andThen (.mark _)
  intro _
  apply andThen (.act (.take target place))
  intro x
  exact .act (.bumped info symbol x)

/-- A test is made of parts. -/
theorem test (info : Info) (tag : String) (e : Expr) (cond : Value) :
    Made cfg declares asked (Plan.test cfg info tag e cond) := by
  apply andThen (.mark _)
  intro _
  apply andThen (.act (.take e cond))
  intro v
  exact .act (.testValue info tag v)

/-- A declaration is made of parts, one of which declares. -/
theorem declared (d : Declared) : Made cfg true asked (Plan.declared cfg d) := by
  apply andThen (.mark _)
  intro _
  apply andThen (.act (.asks _))
  intro _
  exact ite (pure _) (andThen (.declareName rfl) fun _ => ite (.narrate ..) (pure _))

/-- The declaration of a function is made of parts, one of which declares. -/
theorem function (info : Info) (name : String) (params : List String) (body : List Stmt) :
    Made cfg true asked (Plan.function cfg info name params body) := by
  have hbind : Made cfg true asked (Plan.bindFunction info name params body) :=
    andThen (.act (.onMemory _)) fun _ => andThen (.declareName rfl) fun _ => .narrate ..
  apply andThen (.mark _)
  intro _
  apply andThen (.act (.asks _))
  intro existing?
  cases existing? with
  | none => exact hbind
  | some existing => exact ite hbind (.act (.raise (by decide) ..))

end Plan.Made

/-! ## The plans of the tasks -/

/-- Whether a task can declare names where it runs: the tasks of statements can, and those of expressions and
calls cannot. -/
def Task.declares : {α : Type} → Task σ α → Bool
  | _, .execAll .. | _, .exec .. | _, .execDeclared .. | _, .execCond .. | _, .execLoop .. => true
  | _, _ => false

/-- The size of the part of the tree that a task works on. A call has its parts behind it, and the body of the
function that it enters is not one of them. -/
noncomputable def Task.size : {α : Type} → Task σ α → Nat
  | _, .eval _ e => sizeOf e
  | _, .evalAll _ es => sizeOf es
  | _, .evalTaken _ es => sizeOf es
  | _, .evalLogical _ left _ right => 1 + sizeOf left + sizeOf right
  | _, .call .. => 1
  | _, .callFunction _ _ f _ => 1 + sizeOf f.body
  | _, .store .. => 0
  | _, .execAll _ body => sizeOf body
  | _, .exec _ stmt => sizeOf stmt
  | _, .execDeclared _ names => sizeOf names
  | _, .execAssign _ a => sizeOf a
  | _, .execCond _ _ test body branch => 1 + sizeOf test + sizeOf body + sizeOf branch
  | _, .execLoop _ _ _ test update body => sizeOf test + sizeOf update + sizeOf body
  | _, .execReturn _ _ value => sizeOf value

/-- A task works on less than another one, and declares no names if that one does not. -/
structure Task.Below (t : Task σ α) (t' : Task σ β) : Prop where
  size : t.size < t'.size
  declares : t'.declares = false → t.declares = false

/-- A place has a size. -/
theorem Info.sizeOf_pos (info : Info) : 0 < sizeOf info := by
  cases info
  simp only [Info.mk.sizeOf_spec]
  omega

open Plan.Made (andThen pure ite)

variable (cfg : Setting σ)

/-- The plan of an expression asks for its parts. -/
theorem Expr.plan_made (depth : Nat) (e : Expr) :
    (e.plan cfg depth).Made cfg false fun _ t => t.Below (Task.eval depth e : Task σ Value) := by
  cases e with
  | number | string | boolean | null => exact pure _
  | name info x => exact .act (.nameAction info x)
  | member info object property =>
    refine andThen (.ask ⟨?_, fun _ => rfl⟩) fun o => .act (.memberAction info object property o)
    simp only [Task.size, Expr.member.sizeOf_spec]
    omega
  | element info base position =>
    refine andThen (.ask ⟨?_, fun _ => rfl⟩) fun a => andThen (.ask ⟨?_, fun _ => rfl⟩) fun i =>
      .act (.elementAction info base position a i)
    all_goals
      simp only [Task.size, Expr.element.sizeOf_spec]
      omega
  | call info callee args =>
    refine andThen (.ask ⟨?_, fun _ => rfl⟩) fun f => andThen (.ask ⟨?_, fun _ => rfl⟩) fun vs =>
      .ask ⟨?_, fun _ => rfl⟩
    all_goals
      have := info.sizeOf_pos
      simp only [Task.size, Expr.call.sizeOf_spec]
      omega
  | array info items =>
    refine ite (.act (.raiseLimit (by decide +kernel) info)) (andThen (.ask ⟨?_, fun _ => rfl⟩) fun vs =>
      .act (.onMemory _))
    simp only [Task.size, Expr.array.sizeOf_spec]
    omega
  | binary info left symbol right =>
    refine ite (.ask ⟨?_, fun _ => rfl⟩) (andThen (.ask ⟨?_, fun _ => rfl⟩) fun a =>
      andThen (.ask ⟨?_, fun _ => rfl⟩) fun b => .binary info left symbol right a b)
    all_goals
      have := info.sizeOf_pos
      simp only [Task.size, Expr.binary.sizeOf_spec]
      omega
  | unary info symbol operand =>
    refine andThen (.ask ⟨?_, fun _ => rfl⟩) fun a => .unary info symbol operand a
    simp only [Task.size, Expr.unary.sizeOf_spec]
    omega

/-- The plan of a statement asks for its parts. -/
theorem Stmt.plan_made (depth : Nat) (stmt : Stmt) :
    (stmt.plan cfg depth).Made cfg true fun _ t => t.Below (Task.exec depth stmt : Task σ (Option Value)) := by
  cases stmt with
  | var info names =>
    refine andThen (.ask ⟨?_, nofun⟩) fun _ => pure _
    simp only [Task.size, Stmt.var.sizeOf_spec]
    omega
  | assign a =>
    refine andThen (.ask ⟨?_, nofun⟩) fun _ => pure _
    simp only [Task.size, Stmt.assign.sizeOf_spec]
    omega
  | bump info target symbol =>
    refine andThen (.ask ⟨?_, nofun⟩) fun p => andThen (.bump info target symbol p) fun v =>
      andThen (.ask ⟨?_, nofun⟩) fun _ => andThen (.narrate ..) fun _ => pure _
    all_goals
      simp only [Task.size, Stmt.bump.sizeOf_spec]
      omega
  | call info c =>
    refine andThen (.ask ⟨?_, nofun⟩) fun _ => pure _
    cases c
    simp only [Task.size, Call.toExpr, Call.mk.sizeOf_spec, Expr.call.sizeOf_spec, Stmt.call.sizeOf_spec]
    omega
  | cond info test body branch =>
    refine .ask ⟨?_, nofun⟩
    have := info.sizeOf_pos
    simp only [Task.size, Stmt.cond.sizeOf_spec]
    omega
  | «while» info test body =>
    refine .ask ⟨?_, nofun⟩
    have := info.sizeOf_pos
    simp only [Task.size, Stmt.«while».sizeOf_spec, Option.none.sizeOf_spec]
    omega
  | «for» info first test update body =>
    cases first with
    | none =>
      refine .ask ⟨?_, nofun⟩
      simp only [Task.size, Stmt.«for».sizeOf_spec, Option.none.sizeOf_spec]
      omega
    | some s =>
      refine andThen (.ask ⟨?_, nofun⟩) fun _ => .ask ⟨?_, nofun⟩
      all_goals
        simp only [Task.size, Stmt.«for».sizeOf_spec, Option.some.sizeOf_spec]
        omega
  | function info name params body => exact andThen (.function info name params body) fun _ => pure _
  | «return» info value =>
    refine .ask ⟨?_, nofun⟩
    simp only [Task.size, Stmt.«return».sizeOf_spec]
    omega
  | declared d => exact .act (.failText _)
  | elseIf => exact .act (.failText _)
  | orElse => exact .act (.failText _)

/-- The plan of a round of a loop, behind its tick. -/
def Plan.round (depth : Nat) (info : Info) (tag : String) (test : Expr) (update : Option Stmt)
    (body : List Stmt) : Plan σ (Option Value) := do
  let c ← .ask (.eval depth test)
  let holds ← .test cfg info tag test c
  if holds then
    match ← .ask (.execAll depth body) with
    | some v => pure (some v)
    | none =>
      match update with
      | none => .ask (.execLoop depth info tag test update body)
      | some s =>
        let _ ← .ask (.exec depth s)
        .ask (.execLoop depth info tag test update body)
  else pure none

/-- A loop is a counted statement and a round. -/
theorem Task.plan_execLoop (depth : Nat) (info : Info) (tag : String) (test : Expr) (update : Option Stmt)
    (body : List Stmt) : (Task.execLoop depth info tag test update body).plan cfg =
      Plan.tick info >>= fun _ => Plan.round cfg depth info tag test update body := rfl

/-- The plan of a round asks for tasks of any size, the loop itself among them. -/
theorem Plan.round_made (depth : Nat) (info : Info) (tag : String) (test : Expr) (update : Option Stmt)
    (body : List Stmt) :
    (Plan.round cfg depth info tag test update body).Made cfg true fun _ _ => True := by
  apply andThen (.ask trivial)
  intro c
  apply andThen (.test info tag test c)
  intro holds
  refine ite ?_ (pure _)
  apply andThen (.ask trivial)
  intro returned
  cases returned with
  | some v => exact pure _
  | none =>
    cases update with
    | none => exact .ask trivial
    | some s => exact andThen (.ask trivial) fun _ => .ask trivial

/-- Whether a task calls a function, or is the body of one. -/
def Task.isCall : {α : Type} → Task σ α → Bool
  | _, .call .. | _, .callFunction .. => true
  | _, _ => false

/-- Whether a task is a loop. -/
def Task.isLoop : {α : Type} → Task σ α → Bool
  | _, .execLoop .. => true
  | _, _ => false

/-- The plans of all tasks but calls and loops ask for smaller tasks. -/
theorem Task.plan_below (t : Task σ α) (hcall : t.isCall = false) (hloop : t.isLoop = false) :
    (t.plan cfg).Made cfg t.declares fun _ t' => t'.Below t := by
  cases t with
  | eval depth e => exact ite (.act (.raiseLimit (by decide +kernel) e.info)) (e.plan_made cfg depth)
  | evalAll depth es =>
    cases es with
    | nil => exact pure _
    | cons e es =>
      refine andThen (.ask ⟨?_, fun _ => rfl⟩) fun v => andThen (.ask ⟨?_, fun _ => rfl⟩) fun vs => pure _
      all_goals
        simp only [Task.size, List.cons.sizeOf_spec]
        omega
  | evalTaken depth es =>
    cases es with
    | nil => exact pure _
    | cons e es =>
      refine andThen (.ask ⟨?_, fun _ => rfl⟩) fun v => andThen (.act (.take e v)) fun w =>
        andThen (.ask ⟨?_, fun _ => rfl⟩) fun ws => pure _
      all_goals
        simp only [Task.size, List.cons.sizeOf_spec]
        omega
  | evalLogical depth left symbol right =>
    refine andThen (.ask ⟨?_, fun _ => rfl⟩) fun a => andThen (.act (.takeUnchecked left a)) fun x =>
      andThen (.act (.asks _)) fun decided => ite (pure _) (andThen (.ask ⟨?_, fun _ => rfl⟩) fun b =>
        .act (.takeUnchecked right b))
    all_goals
      simp only [Task.size]
      omega
  | call => cases hcall
  | callFunction => cases hcall
  | store depth info target place v =>
    cases place
    case hostVariable v' => exact andThen (.hostSet ..) fun _ => pure _
    all_goals exact .act (.assignPlace info target _ v)
  | execAll depth body =>
    cases body with
    | nil => exact pure _
    | cons s rest =>
      refine andThen (.ask ⟨?_, nofun⟩) ?_
      · simp only [Task.size, List.cons.sizeOf_spec]
        omega
      · intro returned
        cases returned with
        | some v => exact pure _
        | none =>
          refine .ask ⟨?_, nofun⟩
          simp only [Task.size, List.cons.sizeOf_spec]
          omega
  | exec depth stmt => exact andThen (.mark _) fun _ => stmt.plan_made cfg depth
  | execDeclared depth names =>
    cases names with
    | nil => exact pure _
    | cons d ds =>
      apply andThen (.declared d)
      intro _
      rcases d with ⟨info, name, _ | a⟩
      · refine .ask ⟨?_, nofun⟩
        simp only [Task.size, List.cons.sizeOf_spec, Declared.mk.sizeOf_spec]
        omega
      · refine andThen (.ask ⟨?_, nofun⟩) fun _ => .ask ⟨?_, nofun⟩
        all_goals
          simp only [Task.size, List.cons.sizeOf_spec, Declared.mk.sizeOf_spec, Option.some.sizeOf_spec]
          omega
  | execAssign depth a =>
    refine andThen (.ask ⟨?_, fun _ => rfl⟩) fun p => andThen (.ask ⟨?_, fun _ => rfl⟩) fun given =>
      andThen (.assigned a p given) fun v => andThen (.ask ⟨?_, fun _ => rfl⟩) fun _ => .narrate ..
    all_goals
      cases a
      simp only [Task.size, Assignment.mk.sizeOf_spec]
      omega
  | execCond depth info test body branch =>
    refine andThen (.ask ⟨?_, nofun⟩) ?_
    · simp only [Task.size]
      omega
    · intro c
      refine andThen (.test info "if" test c) ?_
      intro holds
      refine ite (.ask ⟨?_, nofun⟩) ?_
      · simp only [Task.size]
        omega
      · rcases branch with _ | branch
        · exact pure _
        · cases branch
          case elseIf =>
            apply andThen (.mark _)
            intro _
            refine .ask ⟨?_, nofun⟩
            simp only [Task.size, Option.some.sizeOf_spec, Stmt.elseIf.sizeOf_spec]
            omega
          case orElse =>
            apply andThen (.mark _)
            intro _
            refine .ask ⟨?_, nofun⟩
            simp only [Task.size, Option.some.sizeOf_spec, Stmt.orElse.sizeOf_spec]
            omega
          all_goals exact pure _
  | execLoop => cases hloop
  | execReturn depth info value =>
    apply andThen (.mark _)
    intro _
    apply andThen (.act (.asks _))
    intro outside
    refine ite (.act (.raise (by decide) ..)) ?_
    cases value with
    | none => exact pure _
    | some e =>
      refine andThen (.ask ⟨?_, fun _ => rfl⟩) fun v => andThen (.act (.take e v)) fun w =>
        andThen (.narrate ..) fun _ => pure _
      simp only [Task.size, Option.some.sizeOf_spec]
      omega

/-- The plans of all tasks but calls are made of parts, and only those of statements declare names. -/
theorem Task.plan_made (t : Task σ α) (hcall : t.isCall = false) :
    (t.plan cfg).Made cfg t.declares fun _ t' => t.declares = false → t'.declares = false := by
  cases hloop : t.isLoop with
  | true =>
    cases t with
    | execLoop depth info tag test update body =>
      rw [plan_execLoop]
      exact andThen (.mark _) fun _ => (Plan.round_made cfg depth info tag test update body).imp fun _ h => nomatch h
    | _ => cases hloop
  | false => exact (t.plan_below cfg hcall hloop).imp fun h => h.declares

/-! ## Calls and functions -/

/-- What happens in a call before it is active: the function and its arguments are taken and narrated. -/
def callParts (info : Info) (callee : Expr) (args : List Expr) (f : Value) (given : List Value) :
    Run σ (Value × List Value × String) := do
  let f ← take cfg callee f
  let values ← takeAll cfg args given
  let label ← asks fun s => callLabel s.memory callee.code values
  narrate cfg .inline info.id (fun _ => "calling <var>" ++ label ++ "</var>") (fun _ => [])
  pure (f, values, label)

/-- What happens in a function before it has a frame: its arguments are checked, bound and narrated. -/
def functionParts (info : Info) (f : UserFunction) (args : List Value) :
    Run σ (List (String × Value) × String) :=
  if !cfg.isRaw && args.length < f.params.length then
    raise .arity info ("Function <var>" ++ f.name ++ "</var> expects <var>" ++
      toString f.params.length ++ "</var> arguments, but got only <var>" ++ toString args.length ++ "</var>")
  else do
    let bound ← bindParams cfg info f.params args
    let label ← asks fun s => callLabel s.memory f.name args
    narrate cfg .block f.info.id (fun _ => "entering <var>" ++ label ++ "</var>") (fun _ => [])
    pure (bound, label)

/-- A call is entered if there is room for it, and is then active. -/
theorem enterCall_of_lt {cfg : Setting σ} {s : RunState σ} (h : s.calls.length < cfg.limits.callDepth)
    (info : Info) : enterCall cfg info s = .done () { s with calls := info.token :: s.calls } := by
  unfold enterCall
  rw [if_neg (Nat.not_le_of_lt h)]

/-- A call that is too deep is refused. -/
theorem enterCall_of_le {cfg : Setting σ} {s : RunState σ} (h : cfg.limits.callDepth ≤ s.calls.length)
    (info : Info) : enterCall cfg info s =
      raise .limit info ("Too many nested function calls (more than <var>" ++
        toString cfg.limits.callDepth ++ "</var>)") s := by
  unfold enterCall
  rw [if_pos h]

/-- The calls of a function and of a host function go on while the call is active. -/
theorem Task.run_call (n depth : Nat) (info : Info) (callee : Expr) (args : List Expr) (f : Value)
    (given : List Value) : (Task.call depth info callee args f given).run cfg (n + 1) =
      callParts cfg info callee args f given >>= fun c => enterCall cfg info >>= fun _ =>
        (Plan.callValue depth info callee c.1 c.2.1).run cfg n >>= fun result => leaveCall >>= fun _ =>
          (Plan.callResult info c.2.2 result).run cfg n := by
  rw [Task.run_succ]
  simp only [callParts, Run.bind_assoc]
  rfl

/-- The body of a function runs in a frame of its own. -/
theorem Task.run_callFunction (n depth : Nat) (info : Info) (f : UserFunction) (args : List Value) :
    (Task.callFunction depth info f args).run cfg (n + 1) =
      functionParts cfg info f args >>= fun b => update (pushFrame f b.1 b.2) >>= fun _ =>
        Plan.framed ((Task.execAll depth f.body).run cfg n) := by
  rw [Task.run_succ]
  show (Plan.enterFunction cfg info f args).run cfg n >>=
    (fun _ => Plan.framed ((Task.execAll depth f.body).run cfg n)) = _
  rw [Plan.run_enterFunction, enterFunction_eq]
  unfold functionParts
  split
  · rfl
  · simp only [Run.bind_assoc]
    rfl

section Steady

variable {cfg} {E : Failure → Prop} (hE : Allows cfg E)

include hE

/-- What a call does before its function keeps the control. -/
theorem callParts_steady (info : Info) (callee : Expr) (args : List Expr) (f : Value) (given : List Value) :
    (callParts cfg info callee args f given).Steady E := by
  refine .bind (.take hE callee f) ?_
  intro _
  refine .bind (.takeAll hE args given) ?_
  intro _
  refine .bind (.asks _) ?_
  intro _
  exact .bind (.narrate ..) fun _ => .pure _

/-- What a function does before its body keeps the control. -/
theorem functionParts_steady (info : Info) (f : UserFunction) (args : List Value) :
    (functionParts cfg info f args).Steady E :=
  .ite (.raise hE (by decide) ..) (.bind (.bindParams hE info f.params args) fun _ => .bind (.asks _) fun _ =>
    .bind (.narrate ..) fun _ => .pure _)

omit hE in
/-- What a call does with its result keeps the control. -/
theorem Plan.callResult_steady (n : Nat) (info : Info) (label : String) (result : Value) :
    ((Plan.callResult info label result).run cfg n).Steady E := by
  have htold : (Primer.narrate cfg .inline info.id
      (fun m => "<var>" ++ label ++ "</var> = <var>" ++ m.describe result ++ "</var>") (fun _ => []) >>=
        fun _ => Pure.pure result : Run σ Value).Steady E := .bind (.narrate ..) fun _ => .pure _
  cases result
  case absent | undefined | null => exact .pure _
  all_goals exact htold

end Steady

/-- The function that is called is entered by a further task, or belongs to a host. -/
theorem Plan.callValue_made (depth : Nat) (info : Info) (callee : Expr) (f : Value) (args : List Value) :
    (Plan.callValue depth info callee f args).Made cfg false fun _ t => t.declares = false := by
  cases f
  case function g => exact andThen (.mark _) fun _ => .ask rfl
  case hostFunction g => exact andThen (.mark _) fun _ => .hostCall ..
  all_goals exact andThen (.mark _) fun _ => .act (.raise (by decide) ..)

end Primer
