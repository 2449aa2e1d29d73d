import Primer.Proofs.Element.Program
import Primer.Proofs.Locals.Program
import Primer.Proofs.Operand.Moment
import Primer.Proofs.Print.Tree

/-!
# Operands of raw runs

In a run, names are bound to cells that are there, and so are the cells in arrays. Names, members and elements are the
only expressions that give places (`eval_stored`), and what they give is there (`isThere_of_eval`). So the operands of
an operation can be followed through a whole run without checks: it is what their places hold in the end that counts.
-/

set_option autoImplicit false

namespace Primer

open Run
open Plan.Keeps (andThen act pure ite)

variable {σ : Type} {cfg : Setting σ} {K : Reserve} {H : Holding σ} {n ℓ depth : Nat} {s t u : RunState σ} {e : Expr}
  {v : Value}

/-! ## Expressions that give values -/

section Values

variable (hhosts : cfg.hosts.Apart) (hK : K.checked = !cfg.isRaw) (hraw : cfg.isRaw = true)

include hhosts hK

/-- A call gives a value. -/
theorem Plan.Keeps.call (depth : Nat) (i : Info) (callee : Expr) (args : List Expr) {f : Value} (hf : f.Given K)
    {given : List Value} (hgiven : ∀ w ∈ given, w.Given K) :
    (Plan.ask (.call depth i callee args f given)).KeepsAt cfg n K ℓ (Value.Stored K) := by
  have hkeeps := Task.keeps hhosts hK n ℓ (.call depth i callee args f given) ⟨hf, hgiven⟩
  refine ⟨?_, hkeeps.begins⟩
  intro s hs
  cases n with
  | zero => exact .exhausted
  | succ n =>
    have hasks {α : Type} (ℓ : Nat) (t : Task σ α) (ht : t.Within K ℓ) := Task.keeps hhosts hK n ℓ t ht
    show ((Task.call depth i callee args f given).run cfg (n + 1) s).Keeps K ℓ ℓ _
    rw [Task.run_succ]
    refine (andThen (.take hhosts hK callee hf) ?_).run s hs
    intro f hf
    apply andThen (act (.takeAll hhosts hK args hgiven))
    intro values hvalues
    apply andThen .asks
    intro label _
    apply andThen (.narrate ..)
    intro _ _
    apply andThen (act (.enterCall cfg i))
    intro _ _
    apply andThen (.callValue hhosts hasks depth i callee hf.toStored hvalues)
    intro result hresult
    exact andThen (act .leaveCall) fun _ _ => .callResult i label hresult

include hraw

/-- The operators that may leave their right operand out give values. -/
theorem Plan.Keeps.logical (depth : Nat) {left : Expr} (hleft : left.Within (K.names ℓ)) (symbol : String)
    {right : Expr} (hright : right.Within (K.names ℓ)) :
    (Plan.ask (.evalLogical depth left symbol right)).KeepsAt cfg n K ℓ (Value.Stored K) := by
  have hunchecked : K.checked = false := by rw [hK, hraw, Bool.not_true]
  have hkeeps := Task.keeps hhosts hK n ℓ (.evalLogical depth left symbol right) ⟨hunchecked, hleft, hright⟩
  refine ⟨?_, hkeeps.begins⟩
  intro s hs
  cases n with
  | zero => exact .exhausted
  | succ n =>
    have hasks {α : Type} (ℓ : Nat) (t : Task σ α) (ht : t.Within K ℓ) := Task.keeps hhosts hK n ℓ t ht
    show ((Task.evalLogical depth left symbol right).run cfg (n + 1) s).Keeps K ℓ ℓ _
    rw [Task.run_succ]
    refine (andThen (hasks ℓ (.eval depth left) hleft) ?_).run s hs
    intro a ha
    apply andThen (act (.takeUnchecked hhosts hK hraw left ha))
    intro x hx
    apply andThen .asks
    intro decided _
    refine ite (fun _ => pure hx.toStored) ?_
    intro _
    apply andThen (hasks ℓ (.eval depth right) hright)
    intro b hb
    apply (act (.takeUnchecked hhosts hK hraw right hb)).imp
    intro v hv
    exact hv.toStored

/-- An expression that is not the name of a place gives a value. -/
theorem eval_stored (he : e.isPlace = false) (hwithin : e.Within (K.names ℓ)) (hs : s.Guards K ℓ)
    (h : eval cfg n depth e s = .done v u) : v.Stored K := by
  cases n with
  | zero => cases h
  | succ n =>
    have hasks {α : Type} (ℓ : Nat) (t : Task σ α) (ht : t.Within K ℓ) := Task.keeps hhosts hK n ℓ t ht
    have hplan : (e.plan cfg depth).KeepsAt cfg n K ℓ (Value.Stored K) := by
      cases e with
      | name | member | element => cases he
      | number | string | boolean => exact pure ⟨rfl, trivial⟩
      | null => exact pure ⟨by rw [Value.isStored, hK, hraw, Bool.not_true, Bool.not_false], trivial⟩
      | call i callee args =>
        refine andThen (hasks ℓ (.eval (depth + 1) callee) hwithin.1) ?_
        intro f hf
        refine andThen (hasks ℓ (.evalAll (depth + 1) args) hwithin.2) ?_
        intro vs hvs
        exact .call hhosts hK (depth + 1) i callee args hf hvs
      | array i items =>
        refine ite (fun _ => .raise ..) ?_
        intro _
        refine andThen (hasks ℓ (.evalTaken (depth + 1) items) hwithin) ?_
        intro vs hvs
        exact act (.onMemory (fun m => m.grown_newArray fun v hv => (hvs v hv).toStored) fun s _ => .array _)
      | binary i left symbol right =>
        refine ite ?_ ?_
        · intro _
          exact .logical hhosts hK hraw (depth + 1) hwithin.1 symbol hwithin.2
        · intro _
          refine andThen (hasks ℓ (.eval (depth + 1) left) hwithin.1) ?_
          intro a ha
          refine andThen (hasks ℓ (.eval (depth + 1) right) hwithin.2) ?_
          intro b hb
          exact .binary hhosts hK i left symbol right ha hb
      | unary i symbol operand =>
        refine andThen (hasks ℓ (.eval (depth + 1) operand) hwithin) ?_
        intro a ha
        exact .unary hhosts hK i symbol operand ha
    have htask : ((Task.eval depth e).plan cfg).KeepsAt cfg n K ℓ (Value.Stored K) :=
      ite (fun _ => .raise ..) fun _ => hplan
    have hends := htask.run s hs
    rw [← Task.run_succ] at hends
    change (eval cfg (n + 1) depth e s).Keeps _ _ _ _ at hends
    rw [h] at hends
    cases hends with
    | done _ hv => exact hv

end Values

/-! ## Places that are there -/

/-- Where nothing is set apart all names may be mentioned. -/
theorem Expr.within_nothing (e : Expr) (ℓ : Nat) : e.Within ((Reserve.nothing false).names ℓ) :=
  e.within_all (Reserve.names_nothing false ℓ)

section Places

variable (hraw : cfg.isRaw = true) (hapart : cfg.hosts.Apart) (horderly : cfg.hosts.Orderly H)

include hraw hapart

/-- Evaluating an expression leaves the reserve of nothing guarded. -/
theorem guards_of_eval (hs : s.Guards (.nothing false) ℓ) (h : eval cfg n depth e s = .done v u) :
    u.Guards (.nothing false) ℓ := by
  have hunchecked : (Reserve.nothing false).checked = !cfg.isRaw := by
    rw [hraw]
    rfl
  have hends := (Task.keeps hapart hunchecked n ℓ (.eval depth e) (e.within_nothing ℓ)).run s hs
  change (eval cfg n depth e s).Keeps _ _ _ _ at hends
  rw [h] at hends
  cases hends with
  | done hu _ => exact hu

/-- An expression that is no place does not evaluate to one. -/
theorem eval_not_place (he : e.isPlace = false) (hs : s.Guards (.nothing false) ℓ)
    (h : eval cfg n depth e s = .done v u) : v.isPlace = false := by
  have hunchecked : (Reserve.nothing false).checked = !cfg.isRaw := by
    rw [hraw]
    rfl
  have hkind := (eval_stored hapart hunchecked hraw he (e.within_nothing ℓ) hs h).kind
  cases v
  case cell | hostVariable | arrayLength | textLength | pending => cases hkind
  all_goals rfl

include horderly

/-- What an expression evaluates to is there. -/
theorem isThere_of_eval (hs : s.Guards (.nothing false) ℓ) (hsettled : s.Settled H)
    (h : eval cfg n depth e s = .done v u) : v.IsThere u.memory := by
  have hu := guards_of_eval hraw hapart hs h
  have hplain (hv : v.isPlace = false) : v.IsThere u.memory := by
    cases v
    case cell | arrayLength => cases hv
    all_goals exact trivial
  cases n with
  | zero => cases h
  | succ n =>
    have hdeep := not_deep_of_eval h
    cases e with
    | name info x =>
      simp only [eval, if_neg hdeep, nameAction] at h
      cases hx : s.find? x with
      | none =>
        rw [hx] at h
        cases h
      | some p =>
        rw [hx] at h
        cases h
        rcases s.binding_of_find hx with hbinding | hbinding
        all_goals
          obtain ⟨r, rfl, hr⟩ := hs.separate.bound _ _ _ hbinding
          exact hr
    | element info base position =>
      rcases Expr.finds_of_eval h with rfl | ⟨a, i, hfinds⟩
      · exact trivial
      · cases hfinds.placeOf horderly hsettled with
        | inside hhas => exact hu.separate.linked _ hhas.linked
        | behind => exact trivial
    | member info object property =>
      simp only [eval, if_neg hdeep] at h
      obtain ⟨o, s₁, ho, haction⟩ := Run.bind_eq_done h
      obtain ⟨hs₁, hspares, -⟩ := eval_carries horderly hsettled.start ho
      obtain ⟨x, hx, rfl | hmember⟩ := memberAction_eq_done hraw haction
      · exact trivial
      · obtain ⟨-, hsettles⟩ := (Carries.take horderly object hspares).done hs₁ hx
        cases x with
        | object key =>
          simp only [memberOf?, Option.some.injEq] at hmember
          rcases hapart.member _ _ property v hmember with ⟨f, rfl⟩ | ⟨w, rfl, -⟩
          · exact trivial
          · exact trivial
        | array a =>
          simp only [memberOf?, Option.some.injEq] at hmember
          split at hmember
          · cases hmember
            exact hsettles
          · cases hmember
        | string text =>
          simp only [memberOf?, Option.some.injEq] at hmember
          split at hmember
          · cases hmember
            exact trivial
          · cases hmember
        | _ => cases hmember
    | number | string | boolean | null | call | array | binary | unary =>
      exact hplain (eval_not_place hraw hapart rfl hs h)

/-- What operands evaluate to is there at their moments. -/
theorem Evaluates.isThere {es : List Expr} {ms : List (Moment σ)} (h : Evaluates cfg depth es s ms t)
    (hs : s.Guards (.nothing false) ℓ) (hsettled : s.Settled H) : ∀ m ∈ ms, m.place.IsThere m.state.memory := by
  induction h with
  | nil => exact nofun
  | @cons n e es s u t p ms hfirst _ ih =>
    have hu := guards_of_eval hraw hapart hs hfirst
    obtain ⟨hcarries, -, -⟩ := eval_carries horderly hsettled.start hfirst
    intro m hm
    rcases List.mem_cons.mp hm with rfl | hm
    · exact isThere_of_eval hraw hapart horderly hs hsettled hfirst
    · exact ih hu hcarries.settled m hm

end Places

/-! ## Runs with the standard hosts -/

/-- The variables of the standard hosts are read without effect. -/
theorem Hosts.readsOnly_standard : (Hosts.standard Extras.none).ReadsOnly := by
  intro key host
  cases key with
  | color | math => exact ⟨_, fun _ => rfl⟩
  | extra n => exact ⟨_, fun _ => rfl⟩

section Plain

variable (filter : Option CommandFilter) (limits : Limits) {s t : RunState (HostState Unit)}

/-- All places show something with the standard hosts. -/
theorem exists_shows (t : RunState (HostState Unit)) (p : Value) : ∃ w, t.Shows (.plain .raw filter limits) p w := by
  cases p with
  | hostVariable g =>
    obtain ⟨key, name⟩ := g
    cases key <;> exact ⟨_, fun _ => rfl⟩
  | _ => exact ⟨_, fun _ => rfl⟩

/-- All operands show some values. -/
theorem exists_all_shows (t : RunState (HostState Unit)) (ms : List (Moment (HostState Unit))) :
    ∃ ws, List.Forall₂ (fun (m : Moment _) w => t.Shows (.plain .raw filter limits) m.place w) ms ws := by
  induction ms with
  | nil => exact ⟨[], .nil⟩
  | cons m ms ih =>
    obtain ⟨w, hw⟩ := exists_shows filter limits t m.place
    obtain ⟨ws, hws⟩ := ih
    exact ⟨w :: ws, .cons hw hws⟩

/-- A run starts in a settled state. -/
theorem RunState.settled_plain : RunState.plain.Settled (.unknown (HostState Unit)) := by
  refine RunState.settled_initialState Memory.settled_empty ?_ trivial
  intro g hg
  simp only [List.mem_cons, List.not_mem_nil, or_false] at hg
  rcases hg with rfl | rfl <;> exact trivial

/-- Without checks, for every program, filter and limits, and every binary operation or call that is evaluated in any
state of the run: when its operands have been evaluated, the operation combines the values that their places show then,
after the last one. What an operand contributes is what it showed at its own moment if it is no place that can change,
or if all operands behind it call nothing. -/
theorem operands_read_last (body : List Stmt) {n k depth : Nat}
    {e : Expr} (hbegun : (Plan.ask (.execAll 0 body)).Begins (.plain .raw filter limits) n .plain k
      (.ask (.eval depth e)) s) (hoperands : e.operands ≠ []) {ms : List (Moment (HostState Unit))}
    (h : Evaluates (.plain .raw filter limits) (depth + 1) e.operands s ms t) :
    ∃ ws, List.Forall₂ (fun (m : Moment _) w => t.Shows (.plain .raw filter limits) m.place w) ms ws ∧
      (∃ N, ∀ n ≥ N, eval (.plain .raw filter limits) (n + 2) depth e s =
        e.combine (.plain .raw filter limits) n (depth + 1) ws t) ∧
      ∀ i m w, ms[i]? = some m → ws[i]? = some w →
        (m.place.isLive = false ∨ ∀ later ∈ ms.drop (i + 1), later.operand.callsNothing = true) →
          m.state.Shows (.plain .raw filter limits) m.place w := by
  obtain ⟨ℓ, -, -, hs, -⟩ := hbegun.bears_nothing
  have hsettled : s.Settled (.unknown (HostState Unit)) :=
    hbegun.reaches.settled Hosts.orderly_standard trivial RunState.settled_plain
  have hthere := h.isThere rfl Hosts.apart_standard Hosts.orderly_standard hs hsettled
  obtain ⟨ws, hws⟩ := exists_all_shows filter limits t ms
  refine ⟨ws, hws, eval_combines rfl hoperands h hws, ?_⟩
  intro i m w hm hw hkept
  obtain ⟨hi, rfl⟩ := List.getElem?_eq_some_iff.mp hm
  obtain ⟨hi', rfl⟩ := List.getElem?_eq_some_iff.mp hw
  have hsplit : ms = ms.take i ++ ms[i] :: ms.drop (i + 1) := by
    rw [← List.drop_eq_getElem_cons hi, List.take_append_drop]
  have hshows : t.Shows (.plain .raw filter limits) ms[i].place ws[i] := hws.get hi hi'
  rw [hsplit] at h
  exact h.shows rfl Hosts.readsOnly_standard (hthere _ (List.getElem_mem hi)) hkept hshows

end Plain

/-- The program `var x = 1; x = x + 2;`. -/
def addition : List Stmt :=
  let place (id : NodeId) (lexeme : String) (column : Nat) : Info := ⟨id, ⟨lexeme, 1, column⟩⟩
  [.var (place 1 "var" 1) [⟨place 2 "x" 5, "x",
      some ⟨place 3 "x" 5, .name (place 4 "x" 5) "x", "=", .number (place 5 "1" 9) 1 "1"⟩⟩],
    .assign ⟨place 6 "x" 12, .name (place 7 "x" 12) "x", "=",
      .binary (place 8 "x" 16) (.name (place 9 "x" 16) "x") "+" (.number (place 10 "2" 20) 2 "2")⟩]

/-- In `x + 2` the left operand is a variable, and it contributes what it held at its own moment, since the operand
behind it calls nothing. -/
theorem operands_read_last_addition : ∃ (e : Expr) (s t : RunState (HostState Unit)) (ms : List (Moment _))
    (ws : List Value),
    (Plan.ask (.execAll 0 addition)).Begins (.plain .raw none .none) 13 .plain 9 (.ask (.eval 0 e)) s ∧
      e.operands ≠ [] ∧ Evaluates (.plain .raw none .none) 1 e.operands s ms t ∧ ws[0]? = some (.number 1) ∧
      ∀ m, ms[0]? = some m → m.place.isLive = true ∧
        m.state.Shows (.plain .raw none .none) m.place (.number 1) := by
  let place (id : NodeId) (lexeme : String) (column : Nat) : Info := ⟨id, ⟨lexeme, 1, column⟩⟩
  let x : Expr := .name (place 9 "x" 16) "x"
  let e : Expr := .binary (place 8 "x" 16) x "+" (.number (place 10 "2" 20) 2 "2")
  obtain ⟨s, hvar, hx, hread⟩ : ∃ s, (Plan.ask (.exec 0 addition[0])).run (.plain .raw none .none) 12 .plain =
      .done none s ∧ s.find? "x" = some (.cell 2) ∧ s.memory.read 2 = .number 1 := ⟨_, rfl, rfl, rfl⟩
  let u : RunState (HostState Unit) := { s with ticks := s.ticks + 1 }
  have hname (info : Info) (n depth : Nat) (hdepth : ¬ maxEvalDepth ≤ depth) :
      eval (.plain .raw none .none) (n + 1) depth (.name info "x") u = .done (.cell 2) u := by
    have hfound : u.find? "x" = some (.cell 2) := hx
    simp only [eval, if_neg hdepth, nameAction, hfound]
  have hbegun : (Plan.ask (.execAll 0 addition)).Begins (.plain .raw none .none) 13 .plain 9 (.ask (.eval 0 e)) u := by
    have htick : (Plan.tick addition[1].info).run (.plain .raw none .none) 10 s = .done () u := rfl
    have htarget : (Plan.ask (.eval 0 (.name (place 7 "x" 12) "x"))).run (.plain .raw none .none) 9 u =
        .done (.cell 2) u := hname _ 8 0 (by decide)
    exact .ask (.next hvar (.ask (.first (.ask (.next htick (.first (.ask (.next htarget (.first .here)))))))))
  have hevaluated : Evaluates (.plain .raw none .none) 1 e.operands u
      [⟨x, .cell 2, u⟩, ⟨.number (place 10 "2" 20) 2 "2", .number 2, u⟩] u :=
    .cons (hname _ 0 1 (by decide)) (.cons (n := 1) rfl .nil)
  obtain ⟨ws, hws, -, hkept⟩ := operands_read_last none .none addition hbegun (by decide) hevaluated
  cases hws with
  | @cons _ w _ rest hw hrest =>
    have hshown : take (.plain .raw none .none) x (.cell 2) u = .done w u := hw x
    rw [take_of_raw rfl] at hshown
    have hopened : (takeUnchecked (.plain .raw none .none) x (.cell 2) u : Outcome _ Value) = .done (.number 1) u :=
      congrArg (fun v => Outcome.done (present v) u) hread
    rw [hopened] at hshown
    cases hshown
    refine ⟨e, u, u, _, .number 1 :: rest, hbegun, by decide, hevaluated, rfl, ?_⟩
    intro m hm
    have hlive : m.place.isLive = true := by cases hm; rfl
    refine ⟨hlive, ?_⟩
    exact hkept 0 m (.number 1) hm rfl (.inr (by cases hm; simp; rfl))

/-- The function `function f() { x = 5; return 1; }`. -/
def setsVariable : UserFunction :=
  ⟨0, .nowhere, "f", [], [.assign ⟨.nowhere, .name .nowhere "x", "=", .number .nowhere 5 "5"⟩,
    .return .nowhere (some (.number .nowhere 1 "1"))]⟩

/-- A state in which `x` is 1 and `f` is that function. -/
def RunState.beforeSum : RunState (HostState Unit) :=
  initialState ⟨Console.empty, ()⟩ Memory.empty [("x", .number 1), ("f", .function setsVariable)]

/-- The program `var x = 1; function f() { x = 5; return 1; } console.log(x + f());`. -/
def sumSource : String :=
  "var x = 1;\nfunction f() \x7b\n  x = 5;\n  return 1;\n\x7d\nconsole.log(x + f());"

/-- In `x + f()` the left operand shows 1 at its own moment and contributes 5, and the program above writes 6. -/
theorem operand_changed_by_later_call :
    (∃ ms t, Evaluates (.plain .raw none .none) 1
        (Expr.binary .nowhere (.name .nowhere "x") "+" (.call .nowhere (.name .nowhere "f") [])).operands
          RunState.beforeSum ms t ∧
        ∃ m, ms[0]? = some m ∧ m.state.Shows (.plain .raw none .none) m.place (.number 1) ∧
          t.Shows (.plain .raw none .none) m.place (.number 5)) ∧
      ∃ program f, parse "sum.js" sumSource = .ok program ∧ Ends (.plain .raw none .none) program.body .plain f ∧
        f.result.fault = none ∧ f.state.host.console.output = "6\n" := by
  refine ⟨⟨_, _, .cons (n := 1) rfl (.cons (n := 10) rfl .nil), _, rfl, fun _ => rfl, fun _ => rfl⟩, ?_⟩
  obtain ⟨program, hparse, hprogram⟩ : ∃ program, parse "sum.js" sumSource = .ok program ∧
      ((runBounded (.plain .raw none .none) 20 program.body .plain).any fun f =>
        f.result.fault.isNone && f.state.host.console.output == "6\n") = true :=
    exists_parse_of_any (by decide +kernel)
  obtain ⟨f, hf, hchecked⟩ := Ends.exists_of_any 20 hprogram
  simp only [Bool.and_eq_true, Option.isNone_iff_eq_none, beq_iff_eq] at hchecked
  exact ⟨program, f, hparse, hf, hchecked.1, hchecked.2⟩

end Primer
