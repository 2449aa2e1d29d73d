import Primer.Proofs.Lenient.Skipped

/-!
# The unchecked evaluator repeats the checked one

By induction on the bound on the recursion of the checked run: whatever it evaluates or executes with success,
the unchecked run does too, if its bound is twice as large. The lenient `&&` and `||` take a step of their
own, which is why the bounds differ.
-/

set_option autoImplicit false

namespace Primer

open Run

/-- An unchecked run can follow a checked one through a statement. -/
abbrev Stmt.Tame (stmt : Stmt) : Prop := stmt.everywhere Expr.isTame (fun s => !isLogical s) = true

/-- An unchecked run can follow a checked one through the statement that may be there. -/
abbrev Stmt.TameIn (stmt : Option Stmt) : Prop :=
  Stmt.everywhereIn Expr.isTame (fun s => !isLogical s) stmt = true

/-- What statements give on two sides: nothing, or values that agree. -/
abbrev Returned (L : Link) : Option Value → Option Value → Prop := Option.Rel (Stored L)

/-- The unchecked evaluator repeats what the checked one does within a bound. -/
structure Repeated (F : Option CommandFilter) (l : Limits) (n : Nat) : Prop where
  eval {N depth e L} {s r : RunState (HostState Unit)} : 2 * n ≤ N → Expr.isTame e = true → s.Agrees L r →
    Repeats 0 L s r (Places s r) (eval (.plain .safe F l) n depth e s) (eval (.plain .raw F l) N depth e r)
  evalAll {N depth es L} {s r : RunState (HostState Unit)} : 2 * n ≤ N → Expr.allTame es = true →
    s.Agrees L r → Repeats 0 L s r (fun L' => List.Forall₂ (Places s r L'))
      (evalAll (.plain .safe F l) n depth es s) (evalAll (.plain .raw F l) N depth es r)
  evalTaken {N depth es L} {s r : RunState (HostState Unit)} : 2 * n ≤ N → Expr.allTame es = true →
    s.Agrees L r → Repeats 0 L s r (fun L' => List.Forall₂ (Stored L'))
      (evalTaken (.plain .safe F l) n depth es s) (evalTaken (.plain .raw F l) N depth es r)
  call {N depth info callee args f f' given given' L} {s r : RunState (HostState Unit)} : 2 * n ≤ N →
    s.Agrees L r → Places s r L f f' → List.Forall₂ (Places s r L) given given' →
    Repeats 0 L s r Stored (call (.plain .safe F l) n depth info callee args f given s)
      (call (.plain .raw F l) N depth info callee args f' given' r)
  callFunction {N depth info f vs ws L} {s r : RunState (HostState Unit)} : 2 * n ≤ N →
    UserFunction.isTame f = true → s.Agrees L r → List.Forall₂ (Stored L) vs ws →
    Repeats 0 L s r Stored (callFunction (.plain .safe F l) n depth info f vs s)
      (callFunction (.plain .raw F l) N depth info f ws r)
  execAll {N depth body L} {s r : RunState (HostState Unit)} : 2 * n ≤ N → Stmt.allTame body = true →
    s.Agrees L r → Repeats 1 L s r Returned (execAll (.plain .safe F l) n depth body s)
      (execAll (.plain .raw F l) N depth body r)
  exec {N depth stmt L} {s r : RunState (HostState Unit)} : 2 * n ≤ N → Stmt.Tame stmt → s.Agrees L r →
    Repeats 1 L s r Returned (exec (.plain .safe F l) n depth stmt s) (exec (.plain .raw F l) N depth stmt r)
  execDeclared {N depth names L} {s r : RunState (HostState Unit)} : 2 * n ≤ N →
    List.all names (Declared.everywhere Expr.isTame (fun s => !isLogical s)) = true → s.Agrees L r →
    Repeats 1 L s r (fun _ _ _ => True) (execDeclared (.plain .safe F l) n depth names s)
      (execDeclared (.plain .raw F l) N depth names r)
  execAssign {N depth a L} {s r : RunState (HostState Unit)} : 2 * n ≤ N →
    Assignment.everywhere Expr.isTame (fun s => !isLogical s) a = true → s.Agrees L r →
    Repeats 0 L s r (fun _ _ _ => True) (execAssign (.plain .safe F l) n depth a s)
      (execAssign (.plain .raw F l) N depth a r)
  execCond {N depth info test body branch L} {s r : RunState (HostState Unit)} : 2 * n ≤ N →
    Expr.isTame test = true → Stmt.allTame body = true → Stmt.TameIn branch → s.Agrees L r →
    Repeats 1 L s r Returned (execCond (.plain .safe F l) n depth info test body branch s)
      (execCond (.plain .raw F l) N depth info test body branch r)
  execLoop {N depth info tag test update body L} {s r : RunState (HostState Unit)} : 2 * n ≤ N →
    Expr.isTame test = true → Stmt.TameIn update → Stmt.allTame body = true → s.Agrees L r →
    Repeats 1 L s r Returned (execLoop (.plain .safe F l) n depth info tag test update body s)
      (execLoop (.plain .raw F l) N depth info tag test update body r)
  execReturn {N depth info L} {value : Option Expr} {s r : RunState (HostState Unit)} : 2 * n ≤ N →
    Option.all Expr.isTame value = true → s.Agrees L r →
    Repeats 0 L s r Returned (execReturn (.plain .safe F l) n depth info value s)
      (execReturn (.plain .raw F l) N depth info value r)

namespace Repeated

variable {F : Option CommandFilter} {l : Limits} {n N depth : Nat} {L : Link}
  {s r : RunState (HostState Unit)}

/-- The bound of the unchecked run leaves room for a step. -/
theorem exists_pred (hN : 2 * (n + 1) ≤ N) : ∃ M, N = M + 1 ∧ 2 * n ≤ M := ⟨N - 1, by omega, by omega⟩

section Steps

variable (ih : Repeated F l n)

include ih

/-! ## Expressions -/

/-- A step of evaluating an expression is repeated without checks. -/
theorem eval_succ {e : Expr} (hN : 2 * (n + 1) ≤ N) (he : e.isTame = true) (h : s.Agrees L r) :
    Repeats 0 L s r (Places s r) (Primer.eval (.plain .safe F l) (n + 1) depth e s)
      (Primer.eval (.plain .raw F l) N depth e r) := by
  -- Two steps are set aside: the lenient `&&` and `||` spend one before they evaluate their operands.
  obtain ⟨M, rfl⟩ : ∃ M, N = M + 2 := ⟨N - 2, by omega⟩
  have hM : 2 * n ≤ M + 1 := by omega
  by_cases hdeep : maxEvalDepth ≤ depth
  · simp only [Primer.eval, if_pos hdeep]
    exact .failed
  · cases e with
    | number | string | boolean | null =>
      simp only [Primer.eval, if_neg hdeep]
      exact .value h (.value (.same trivial))
    | name info x =>
      simp only [Primer.eval, if_neg hdeep]
      exact nameAction_repeats h info x
    | member info object property =>
      simp only [Expr.isTame] at he
      simp only [Primer.eval, if_neg hdeep]
      refine (ih.eval hM he h).evaluated fun _ h' hs hr ho => ?_
      rw [← Places.eq hs hr]
      exact memberAction_repeats h' info object property ho
    | element info base position =>
      simp only [Expr.isTame, Bool.and_eq_true] at he
      simp only [Primer.eval, if_neg hdeep]
      refine (ih.eval hM he.1 h).evaluated fun _ h' hs hr ha => ?_
      rw [← Places.eq hs hr]
      refine (ih.eval hM he.2 h').evaluated fun hL h'' hs hr hi => ?_
      rw [← Places.eq hs hr]
      exact elementAction_repeats h'' info base position (ha.carry hL hs hr) hi
    | call info callee args =>
      simp only [Expr.isTame, Bool.and_eq_true] at he
      simp only [Primer.eval, if_neg hdeep]
      refine (ih.eval hM he.1 h).evaluated fun _ h' _ _ hf => ?_
      refine (ih.evalAll hM he.2 h').andThen fun hL h'' hs hr hgiven => ?_
      refine (ih.call hM h'' (hf.carry hL hs hr) ?_).places
      exact hgiven.imp fun _ _ hv => Places.eq hs hr ▸ hv
    | array info items =>
      simp only [Expr.isTame] at he
      simp only [Primer.eval, if_neg hdeep]
      by_cases hlong : maxArrayLength < items.length
      · rw [if_pos hlong]
        exact .failed
      · rw [if_neg hlong, if_neg hlong]
        refine (ih.evalTaken hM he h).bind fun _ h' _ _ hvs => ?_
        exact (arrayAction_repeats h' hvs).places
    | binary info left symbol right =>
      simp only [Expr.isTame, Bool.and_eq_true, Bool.or_eq_true, Bool.not_eq_true'] at he
      obtain ⟨⟨hleft, hright⟩, hlogical⟩ := he
      simp only [Primer.eval, if_neg hdeep]
      have hsafe : ((Setting.plain .safe F l).isRaw && (decide (symbol = "&&") || decide (symbol = "||"))) =
          false := rfl
      have hraw : ((Setting.plain .raw F l).isRaw && (decide (symbol = "&&") || decide (symbol = "||"))) =
          isLogical symbol := rfl
      simp only [hsafe, hraw]
      by_cases hsymbol : isLogical symbol = true
      · simp only [hsymbol, if_true]
        have hcalls : right.callsNothing = true := by simpa [hsymbol] using hlogical
        exact (evalLogical_repeats info hsymbol hcalls (ih.eval (by omega) hleft h)
          fun h' => ih.eval (by omega) hright h').places
      · simp only [hsymbol]
        refine (ih.eval hM hleft h).evaluated fun _ h' _ _ ha => ?_
        refine (ih.eval hM hright h').evaluated fun hL h'' hs hr hb => ?_
        have hplain : isLogical symbol = false := by simpa using hsymbol
        exact (binaryAction_repeats h'' info left right hplain (ha.carry hL hs hr) hb).places
    | unary info symbol operand =>
      simp only [Expr.isTame] at he
      simp only [Primer.eval, if_neg hdeep]
      refine (ih.eval hM he h).evaluated fun _ h' _ _ ha => ?_
      exact (unaryAction_repeats h' info symbol operand ha).places

/-- A step of evaluating several expressions is repeated without checks. -/
theorem evalAll_succ {es : List Expr} (hN : 2 * (n + 1) ≤ N) (hes : Expr.allTame es = true) (h : s.Agrees L r) :
    Repeats 0 L s r (fun L' => List.Forall₂ (Places s r L')) (Primer.evalAll (.plain .safe F l) (n + 1) depth es s)
      (Primer.evalAll (.plain .raw F l) N depth es r) := by
  obtain ⟨M, rfl, hM⟩ := exists_pred hN
  cases es with
  | nil => exact .value h .nil
  | cons e es =>
    simp only [Expr.allTame, Bool.and_eq_true] at hes
    simp only [Primer.evalAll]
    refine (ih.eval hM hes.1 h).evaluated fun _ h' hs hr hv => ?_
    rw [← Places.eq hs hr]
    refine (ih.evalAll hM hes.2 h').bind fun hL h'' _ _ hvs => ?_
    exact .value h'' (.cons (hv.mono hL) hvs)

/-- A step of evaluating and taking several expressions is repeated without checks. -/
theorem evalTaken_succ {es : List Expr} (hN : 2 * (n + 1) ≤ N) (hes : Expr.allTame es = true)
    (h : s.Agrees L r) :
    Repeats 0 L s r (fun L' => List.Forall₂ (Stored L'))
      (Primer.evalTaken (.plain .safe F l) (n + 1) depth es s) (Primer.evalTaken (.plain .raw F l) N depth es r) := by
  obtain ⟨M, rfl, hM⟩ := exists_pred hN
  cases es with
  | nil => exact .value h .nil
  | cons e es =>
    simp only [Expr.allTame, Bool.and_eq_true] at hes
    simp only [Primer.evalTaken]
    refine (ih.eval hM hes.1 h).evaluated fun _ h' _ _ hv => ?_
    refine (take_repeats h' e hv).bind fun _ h'' _ _ hw => ?_
    refine (ih.evalTaken hM hes.2 h'').bind fun hL h''' _ _ hws => ?_
    exact .value h''' (.cons (hw.mono hL) hws)

/-! ## Calls -/

/-- A step of a call is repeated without checks. -/
theorem call_succ {info : Info} {callee : Expr} {args : List Expr} {f f' : Value} {given given' : List Value}
    (hN : 2 * (n + 1) ≤ N) (h : s.Agrees L r) (hf : Places s r L f f')
    (hgiven : List.Forall₂ (Places s r L) given given') :
    Repeats 0 L s r Stored (Primer.call (.plain .safe F l) (n + 1) depth info callee args f given s)
      (Primer.call (.plain .raw F l) N depth info callee args f' given' r) := by
  obtain ⟨M, rfl, hM⟩ := exists_pred hN
  simp only [Primer.call, written_callLabel, narrating_described]
  -- Each step may link more arrays, so the values at hand are carried to the new link every time.
  refine (take_repeats h callee hf).bind fun {_ _ _ f f'} hL h hs hr hf => ?_
  have hgiven := hgiven.imp fun _ _ hv => hv.carry hL hs hr
  refine (takeAll_repeats h args hgiven).bind fun {_ _ _ vs ws} hL h _ _ hvs => ?_
  have hf := hf.mono hL
  refine (asks_repeats (Q := fun _ _ _ => True) h trivial).bind fun {_ _ _ label label'} hL h _ _ _ => ?_
  have hf := hf.mono hL
  have hvs := hvs.imp fun _ _ hv => hv.mono hL
  refine (narrate_repeats h ..).bind fun hL h _ _ _ => ?_
  have hf := hf.mono hL
  have hvs := hvs.imp fun _ _ hv => hv.mono hL
  refine (enterCall_repeats h info).bind fun {_ s r _ _} hL h _ _ _ => ?_
  have hf := hf.mono hL
  have hvs := hvs.imp fun _ _ hv => hv.mono hL
  refine Repeats.bind (P := Stored) ?_ fun {_ _ _ x y} _ h _ _ hx => ?_
  · -- A function is the same on both sides; of what may differ, arrays, nothing can be called.
    rcases hf.cases with ⟨rfl, htame⟩ | ⟨a, b, rfl, rfl, -⟩
    · cases f' with
      | function g =>
        refine (record_repeats h info "call").bind fun hL h _ _ _ => ?_
        exact ih.callFunction hM htame h (hvs.imp fun _ _ hv => hv.mono hL)
      | hostFunction g =>
        refine (record_repeats h info g.tag).bind fun hL h _ _ _ => ?_
        exact hostCall_repeats h (by omega) depth info callee g.key (hvs.imp fun _ _ hv => hv.mono hL)
      | _ => exact (record_repeats h info "call").bind fun _ _ _ _ _ => .failed
    · exact (record_repeats h info "call").bind fun _ _ _ _ _ => .failed
  · refine (leaveCall_repeats h).bind fun {L _ _ _ _} hL h _ _ _ => ?_
    have hx := hx.mono hL
    have hundefined : Stored L .undefined .undefined := ⟨.same trivial, rfl⟩
    rcases hx.cases with ⟨rfl, -⟩ | ⟨a, b, rfl, rfl, -⟩
    · cases y with
      | absent | undefined | null => exact .value h hundefined
      | _ => exact (narrate_repeats h ..).bind fun hL h _ _ _ => .value h (hx.mono hL)
    · exact (narrate_repeats h ..).bind fun hL h _ _ _ => .value h (hx.mono hL)

/-- A step of calling a function is repeated without checks. -/
theorem callFunction_succ {info : Info} {f : UserFunction} {vs ws : List Value} (hN : 2 * (n + 1) ≤ N)
    (hf : f.isTame = true) (h : s.Agrees L r) (hvs : List.Forall₂ (Stored L) vs ws) :
    Repeats 0 L s r Stored (Primer.callFunction (.plain .safe F l) (n + 1) depth info f vs s)
      (Primer.callFunction (.plain .raw F l) N depth info f ws r) := by
  obtain ⟨M, rfl, hM⟩ := exists_pred hN
  rw [callFunction_succ_eq, callFunction_succ_eq]
  exact enterFunction_repeats h info f hvs fun _ h' => ih.execAll hM hf h'

/-! ## Statements -/

/-- A step of executing a body is repeated without checks. -/
theorem execAll_succ {body : List Stmt} (hN : 2 * (n + 1) ≤ N) (hbody : Stmt.allTame body = true)
    (h : s.Agrees L r) :
    Repeats 1 L s r Returned (Primer.execAll (.plain .safe F l) (n + 1) depth body s)
      (Primer.execAll (.plain .raw F l) N depth body r) := by
  obtain ⟨M, rfl, hM⟩ := exists_pred hN
  cases body with
  | nil => exact .value h .none
  | cons stmt rest =>
    simp only [Stmt.allTame, Stmt.everywhereAll, Bool.and_eq_true] at hbody
    simp only [Primer.execAll]
    refine (ih.exec hM hbody.1 h).bind fun _ h' _ _ hreturned => ?_
    cases hreturned with
    | some hv => exact .value h' (.some hv)
    | none => exact ih.execAll hM hbody.2 h'

/-- A step of an assignment is repeated without checks. -/
theorem execAssign_succ {a : Assignment} (hN : 2 * (n + 1) ≤ N)
    (ha : a.everywhere Expr.isTame (fun s => !isLogical s) = true) (h : s.Agrees L r) :
    Repeats 0 L s r (fun _ _ _ => True) (Primer.execAssign (.plain .safe F l) (n + 1) depth a s)
      (Primer.execAssign (.plain .raw F l) N depth a r) := by
  obtain ⟨M, rfl, hM⟩ := exists_pred hN
  simp only [Assignment.everywhere, Bool.and_eq_true, Bool.not_eq_true'] at ha
  obtain ⟨⟨hsymbol, htarget⟩, hvalue⟩ := ha
  simp only [Primer.execAssign, narrateAssigned_eq]
  refine (ih.eval hM htarget h).evaluated fun _ h _ _ hp => ?_
  refine (ih.eval hM hvalue h).evaluated fun hL h hs hr hgiven => ?_
  have hp := hp.carry hL hs hr
  refine (assignedAction_repeats h hsymbol hp hgiven).bind fun hL h hs hr hv => ?_
  refine (store_repeats h (by omega) depth a.info a.target (hp.carry hL hs hr) hv).bind fun _ h _ _ _ => ?_
  exact narrate_repeats h ..

/-- A step of declaring names is repeated without checks. -/
theorem execDeclared_succ {names : List Declared} (hN : 2 * (n + 1) ≤ N)
    (hnames : names.all (Declared.everywhere Expr.isTame (fun s => !isLogical s)) = true) (h : s.Agrees L r) :
    Repeats 1 L s r (fun _ _ _ => True) (Primer.execDeclared (.plain .safe F l) (n + 1) depth names s)
      (Primer.execDeclared (.plain .raw F l) N depth names r) := by
  obtain ⟨M, rfl, hM⟩ := exists_pred hN
  cases names with
  | nil => exact .value h trivial
  | cons d names =>
    simp only [List.all_cons, Bool.and_eq_true] at hnames
    simp only [Primer.execDeclared]
    refine (declaredAction_repeats h d).bind fun _ h _ _ _ => ?_
    have hfirst := hnames.1
    unfold Declared.everywhere at hfirst
    cases hd : d.first with
    | none => exact ih.execDeclared hM hnames.2 h
    | some a =>
      rw [hd] at hfirst
      exact (ih.execAssign hM hfirst h).andThen fun _ h _ _ _ => ih.execDeclared hM hnames.2 h

/-- A step of a `return` is repeated without checks. -/
theorem execReturn_succ {info : Info} {value : Option Expr} (hN : 2 * (n + 1) ≤ N)
    (hvalue : value.all Expr.isTame = true) (h : s.Agrees L r) :
    Repeats 0 L s r Returned (Primer.execReturn (.plain .safe F l) (n + 1) depth info value s)
      (Primer.execReturn (.plain .raw F l) N depth info value r) := by
  obtain ⟨M, rfl, hM⟩ := exists_pred hN
  simp only [Primer.execReturn, narrating_described]
  refine (record_repeats h info "return").bind fun {L s r _ _} _ h _ _ _ => ?_
  have houtside : r.frames.isEmpty = s.frames.isEmpty := by
    have hlength := h.frames_length
    generalize s.frames = fs at hlength ⊢
    generalize r.frames = fs' at hlength ⊢
    cases fs <;> cases fs' <;> first | rfl | cases hlength
  refine (asks_repeats (Q := fun _ b b' => b' = b) h houtside).bind fun {_ _ _ outside _} _ h _ _ hb => ?_
  rw [hb]
  cases outside with
  | true => exact .failed
  | false =>
    have hundefined {L : Link} : Stored L .undefined .undefined := ⟨.same trivial, rfl⟩
    cases value with
    | none => exact .value h (.some hundefined)
    | some e =>
      refine (ih.eval hM hvalue h).evaluated fun _ h _ _ hv => ?_
      refine (take_repeats h e hv).bind fun _ h _ _ hw => ?_
      refine (narrate_repeats h ..).bind fun hL h _ _ _ => ?_
      exact .value h (.some (hw.mono hL))

/-- A condition is evaluated and tested alike. -/
theorem test_repeats {info : Info} {tag : String} {test : Expr} {M : Nat} (hM : 2 * n ≤ M)
    (htest : test.isTame = true) (h : s.Agrees L r) :
    Repeats 0 L s r (fun _ b b' => b' = b)
      ((Primer.eval (.plain .safe F l) n depth test >>= testAction (.plain .safe F l) info tag test) s)
      ((Primer.eval (.plain .raw F l) M depth test >>= testAction (.plain .raw F l) info tag test) r) :=
  (ih.eval hM htest h).evaluated fun _ h _ _ hc => testAction_repeats h info tag test hc

/-- A step of an `if` is repeated without checks. -/
theorem execCond_succ {info : Info} {test : Expr} {body : List Stmt} {branch : Option Stmt}
    (hN : 2 * (n + 1) ≤ N) (htest : test.isTame = true) (hbody : Stmt.allTame body = true)
    (hbranch : Stmt.TameIn branch) (h : s.Agrees L r) :
    Repeats 1 L s r Returned (Primer.execCond (.plain .safe F l) (n + 1) depth info test body branch s)
      (Primer.execCond (.plain .raw F l) N depth info test body branch r) := by
  obtain ⟨M, rfl, hM⟩ := exists_pred hN
  simp only [Primer.execCond]
  rw [← Run.bind_assoc, ← Run.bind_assoc]
  refine (ih.test_repeats hM htest h).andThen fun {_ _ _ holds _} _ h _ _ hb => ?_
  rw [hb]
  cases holds with
  | true => exact ih.execAll hM hbody h
  | false =>
    have hnothing : Repeats 1 _ _ _ Returned (.done none _) (.done none _) := .value h .none
    rcases branch with _ | branch
    · exact hnothing
    · simp only [Stmt.TameIn, Stmt.everywhereIn] at hbranch
      cases branch with
      | elseIf outer inner test body branch =>
        simp only [Stmt.everywhere, Bool.and_eq_true] at hbranch
        obtain ⟨⟨htest, hbody⟩, hbranch⟩ := hbranch
        exact (record_repeats h outer "else").andThen fun _ h _ _ _ => ih.execCond hM htest hbody hbranch h
      | orElse outer body =>
        exact (record_repeats h outer "else").andThen fun _ h _ _ _ => ih.execAll hM hbranch h
      | _ => exact hnothing

/-- A step of a loop is repeated without checks. -/
theorem execLoop_succ {info : Info} {tag : String} {test : Expr} {update : Option Stmt} {body : List Stmt}
    (hN : 2 * (n + 1) ≤ N) (htest : test.isTame = true) (hupdate : Stmt.TameIn update)
    (hbody : Stmt.allTame body = true) (h : s.Agrees L r) :
    Repeats 1 L s r Returned (Primer.execLoop (.plain .safe F l) (n + 1) depth info tag test update body s)
      (Primer.execLoop (.plain .raw F l) N depth info tag test update body r) := by
  obtain ⟨M, rfl, hM⟩ := exists_pred hN
  simp only [Primer.execLoop]
  refine (tick_repeats h info).andThen fun _ h _ _ _ => ?_
  rw [← Run.bind_assoc, ← Run.bind_assoc]
  refine (ih.test_repeats hM htest h).andThen fun {_ _ _ holds _} _ h _ _ hb => ?_
  rw [hb]
  cases holds with
  | false => exact .value h .none
  | true =>
    refine (ih.execAll hM hbody h).bind fun _ h _ _ hreturned => ?_
    cases hreturned with
    | some hv => exact .value h (.some hv)
    | none =>
      cases update with
      | none => exact ih.execLoop hM htest hupdate hbody h
      | some stmt =>
        exact (ih.exec hM hupdate h).bind fun _ h _ _ _ => ih.execLoop hM htest hupdate hbody h

/-- A step of executing a statement is repeated without checks. -/
theorem exec_succ {stmt : Stmt} (hN : 2 * (n + 1) ≤ N) (hstmt : Stmt.Tame stmt) (h : s.Agrees L r) :
    Repeats 1 L s r Returned (Primer.exec (.plain .safe F l) (n + 1) depth stmt s)
      (Primer.exec (.plain .raw F l) N depth stmt r) := by
  obtain ⟨M, rfl, hM⟩ := exists_pred hN
  simp only [Primer.exec, narrateAssigned_eq]
  refine (tick_repeats h stmt.info).andThen fun _ h _ _ _ => ?_
  cases stmt with
  | var info names => exact (ih.execDeclared hM hstmt h).bind fun _ h _ _ _ => .value h .none
  | assign a => exact (ih.execAssign hM hstmt h).andThen fun _ h _ _ _ => .value h .none
  | bump info target symbol =>
    refine (ih.eval hM hstmt h).evaluated fun _ h _ _ hp => ?_
    refine (bumpAction_repeats h info target symbol hp).andThen fun hL h hs hr hv => ?_
    refine (store_repeats h (by omega) depth info target (hp.carry hL hs hr) hv).andThen fun _ h _ _ _ => ?_
    exact (narrate_repeats h ..).andThen fun _ h _ _ _ => .value h .none
  | call info c => exact (ih.eval hM hstmt h).andThen fun _ h _ _ _ => .value h .none
  | cond info test body branch =>
    simp only [Stmt.Tame, Stmt.everywhere, Bool.and_eq_true] at hstmt
    exact ih.execCond hM hstmt.1.1 hstmt.1.2 hstmt.2 h
  | «while» info test body =>
    simp only [Stmt.Tame, Stmt.everywhere, Bool.and_eq_true] at hstmt
    exact ih.execLoop hM hstmt.1 rfl hstmt.2 h
  | «for» info first test update body =>
    simp only [Stmt.Tame, Stmt.everywhere, Bool.and_eq_true] at hstmt
    obtain ⟨⟨⟨hfirst, htest⟩, hupdate⟩, hbody⟩ := hstmt
    cases first with
    | none => exact ih.execLoop hM htest hupdate hbody h
    | some first =>
      exact (ih.exec hM hfirst h).bind fun _ h _ _ _ => ih.execLoop hM htest hupdate hbody h
  | function info name params body =>
    exact (functionAction_repeats h info name params hstmt).bind fun _ h _ _ _ => .value h .none
  | «return» info value =>
    refine (ih.execReturn hM ?_ h).weaken
    cases value with
    | none => rfl
    | some e => exact hstmt
  | declared | elseIf | orElse => exact .failed

end Steps

/-! ## All bounds -/

/-- A run without fuel is done with nothing that would have to be repeated. -/
theorem zero (F : Option CommandFilter) (l : Limits) : Repeated F l 0 where
  eval _ _ _ := .exhausted
  evalAll _ _ _ := .exhausted
  evalTaken _ _ _ := .exhausted
  call _ _ _ _ := .exhausted
  callFunction _ _ _ _ := .exhausted
  execAll _ _ _ := .exhausted
  exec _ _ _ := .exhausted
  execDeclared _ _ _ := .exhausted
  execAssign _ _ _ := .exhausted
  execCond _ _ _ _ _ := .exhausted
  execLoop _ _ _ _ _ := .exhausted
  execReturn _ _ _ := .exhausted

/-- With one more unit of fuel everything is repeated without checks. -/
theorem succ (ih : Repeated F l n) : Repeated F l (n + 1) where
  eval := ih.eval_succ
  evalAll := ih.evalAll_succ
  evalTaken := ih.evalTaken_succ
  call := ih.call_succ
  callFunction := ih.callFunction_succ
  execAll := ih.execAll_succ
  exec := ih.exec_succ
  execDeclared := ih.execDeclared_succ
  execAssign := ih.execAssign_succ
  execCond := ih.execCond_succ
  execLoop := ih.execLoop_succ
  execReturn := ih.execReturn_succ

/-- The unchecked evaluator repeats what the checked one does within any bound. -/
theorem all (F : Option CommandFilter) (l : Limits) (n : Nat) : Repeated F l n := by
  induction n with
  | zero => exact zero F l
  | succ n ih => exact ih.succ

end Repeated

end Primer
