import Primer.Proofs.Locals.Action
import Primer.Proofs.Realm.Plan

/-!
# Plans beside a reserve

`Plan.Begins` relates a run to the plans that are begun in it, each with the state where it is begun and what is left
of the bound on the recursion; the states that a run comes by are where these plans are begun and where they end. A
plan keeps a reserve if it does so from its first state to its last one, and if every plan that is begun in it works
with what is not set apart (`Plan.Keeps`). There is one rule for each way to put plans together.
-/

set_option autoImplicit false

namespace Primer

open Run

variable {σ α β : Type} {cfg : Setting σ} {K : Reserve}

/-! ## The plans that are begun in a run -/

/-- A plan that is begun in a run, with the state and the bound with which it is begun. -/
inductive Plan.Begins (cfg : Setting σ) :
    Nat → {α : Type} → Plan σ α → RunState σ → Nat → {β : Type} → Plan σ β → RunState σ → Prop where
  | here {n α} {p : Plan σ α} {s} : Begins cfg n p s n p s
  | first {n α β γ} {x : Plan σ α} {f : α → Plan σ β} {s k} {q : Plan σ γ} {u} (h : Begins cfg n x s k q u) :
      Begins cfg n (.bind x f) s k q u
  | next {n α β γ} {x : Plan σ α} {f : α → Plan σ β} {s a t k} {q : Plan σ γ} {u} (hx : x.run cfg n s = .done a t)
      (h : Begins cfg n (f a) t k q u) : Begins cfg n (.bind x f) s k q u
  | noted {n α γ} {x : Run σ α} {quiet info tag s e t k} {q : Plan σ γ} {u} (hx : x s = .failed e t)
      (h : Begins cfg n (.mark (.record info tag)) t k q u) : Begins cfg n (.recorded x quiet info tag) s k q u
  | inFrame {n γ} {x : Plan σ (Option Value)} {s k} {q : Plan σ γ} {u} (h : Begins cfg n x s k q u) :
      Begins cfg n (.inFrame x) s k q u
  | ask {n α γ} {t : Task σ α} {s k} {q : Plan σ γ} {u} (h : Begins cfg n (t.plan cfg) s k q u) :
      Begins cfg (n + 1) (.ask t) s k q u
  | hostCall {n γ depth info callee key args s m f fargs t k} {q : Plan σ γ} {u}
      (reached : HostReaches cfg depth n (cfg.hosts.call key (s.view cfg.strategy) s.host s.memory args) s
        m f fargs t)
      (h : Begins cfg m (.ask (.callFunction depth f.info f fargs)) t k q u) :
      Begins cfg n (.hostCall depth info callee key args) s k q u
  | hostSet {n γ depth info target key v action s m f fargs t k} {q : Plan σ γ} {u}
      (hset : cfg.hosts.set key (s.view cfg.strategy) s.host s.memory v = some action)
      (reached : HostReaches cfg depth n action s m f fargs t)
      (h : Begins cfg m (.ask (.callFunction depth f.info f fargs)) t k q u) :
      Begins cfg n (.hostSet depth info target key v) s k q u

/-- The states that a run comes by are where the plans in it are begun and where they end. -/
theorem Plan.Reaches.begun {n : Nat} {p : Plan σ α} {s u : RunState σ} {e : Option Failure}
    (h : p.Reaches cfg n s e u) :
    ∃ (k : Nat) (γ : Type) (q : Plan σ γ) (t : RunState σ), p.Begins cfg n s k q t ∧ q.Borders cfg k t e u := by
  induction h with
  | border h => exact ⟨_, _, _, _, .here, h⟩
  | first _ ih =>
    obtain ⟨k, γ, q, t, hbegun, hborder⟩ := ih
    exact ⟨k, γ, q, t, .first hbegun, hborder⟩
  | next hx _ ih =>
    obtain ⟨k, γ, q, t, hbegun, hborder⟩ := ih
    exact ⟨k, γ, q, t, .next hx hbegun, hborder⟩
  | noted hx _ ih =>
    obtain ⟨k, γ, q, t, hbegun, hborder⟩ := ih
    exact ⟨k, γ, q, t, .noted hx hbegun, hborder⟩
  | inFrame _ ih =>
    obtain ⟨k, γ, q, t, hbegun, hborder⟩ := ih
    exact ⟨k, γ, q, t, .inFrame hbegun, hborder⟩
  | ask _ ih =>
    obtain ⟨k, γ, q, t, hbegun, hborder⟩ := ih
    exact ⟨k, γ, q, t, .ask hbegun, hborder⟩
  | hostCall reached _ ih =>
    obtain ⟨k, γ, q, t, hbegun, hborder⟩ := ih
    exact ⟨k, γ, q, t, .hostCall reached hbegun, hborder⟩
  | hostSet hset reached _ ih =>
    obtain ⟨k, γ, q, t, hbegun, hborder⟩ := ih
    exact ⟨k, γ, q, t, .hostSet hset reached hbegun, hborder⟩

/-! ## Finding a call

Which calls a run makes can be computed. -/

section Search

variable (cfg : Setting σ)
  (accepts : Nat → Nat → Info → UserFunction → List Value → RunState σ → Bool)

/-- Whether a plan makes a call that is accepted, if it is known which tasks do. -/
def Plan.makesCall (asked : {α : Type} → Task σ α → RunState σ → Bool) (n : Nat) :
    {α : Type} → Plan σ α → RunState σ → Bool
  | _, .ask t, s => asked t s
  | _, .bind x f, s => x.makesCall asked n s ||
    match x.run cfg n s with
    | .done a t => (f a).makesCall asked n t
    | _ => false
  | _, .inFrame x, s => x.makesCall asked n s
  | _, _, _ => false

/-- Whether a task is the call of a function that is accepted. -/
def Task.isAccepted (k : Nat) : {α : Type} → Task σ α → RunState σ → Bool
  | _, .callFunction depth info f args, s => accepts k depth info f args s
  | _, _, _ => false

/-- Whether a task makes a call that is accepted. -/
def Task.makesCall : Nat → {α : Type} → Task σ α → RunState σ → Bool
  | 0, _, _, _ => false
  | n + 1, _, t, s => t.isAccepted accepts (n + 1) s || (t.plan cfg).makesCall cfg (makesCall n) n s

variable {cfg} {accepts}

/-- A plan that is seen to make a call begins it. -/
theorem Plan.begins_of_makesCall {asked : {α : Type} → Task σ α → RunState σ → Bool} {n : Nat}
    (hasked : ∀ {α : Type} (t : Task σ α) s, asked t s = true → ∃ k depth info f args u,
      (Plan.ask t).Begins cfg n s k (.ask (.callFunction depth info f args)) u ∧ accepts k depth info f args u = true)
    {p : Plan σ α} {s : RunState σ} (h : p.makesCall cfg asked n s = true) : ∃ k depth info f args u,
      p.Begins cfg n s k (.ask (.callFunction depth info f args)) u ∧ accepts k depth info f args u = true := by
  -- A plan is searched like it is run: the second part only if the first part is done.
  induction p generalizing s with
  | ask t => exact hasked t s h
  | bind x f ihx ihf =>
    simp only [makesCall, Bool.or_eq_true] at h
    rcases h with hfirst | hnext
    · obtain ⟨k, depth, info, g, args, u, hbegun, haccepted⟩ := ihx hfirst
      exact ⟨k, depth, info, g, args, u, .first hbegun, haccepted⟩
    · cases hrun : x.run cfg n s with
      | done a t =>
        rw [hrun] at hnext
        obtain ⟨k, depth, info, g, args, u, hbegun, haccepted⟩ := ihf a hnext
        exact ⟨k, depth, info, g, args, u, .next hrun hbegun, haccepted⟩
      | failed e t =>
        rw [hrun] at hnext
        cases hnext
      | exhausted =>
        rw [hrun] at hnext
        cases hnext
  | inFrame x ih =>
    obtain ⟨k, depth, info, g, args, u, hbegun, haccepted⟩ := ih h
    exact ⟨k, depth, info, g, args, u, .inFrame hbegun, haccepted⟩
  | act | mark | narrate | hostCall | hostSet | recorded => cases h

/-- A call that is found is begun. -/
theorem Task.begins_of_makesCall {n : Nat} {t : Task σ α} {s : RunState σ}
    (h : t.makesCall cfg accepts n s = true) : ∃ k depth info f args u, (Plan.ask t).Begins cfg n s k
      (.ask (.callFunction depth info f args)) u ∧ accepts k depth info f args u = true := by
  induction n generalizing α t s with
  | zero => cases h
  | succ n ih =>
    simp only [makesCall, Bool.or_eq_true] at h
    rcases h with hself | hplan
    · cases t
      case callFunction depth info f args => exact ⟨_, depth, info, f, args, s, .here, hself⟩
      all_goals cases hself
    · obtain ⟨k, depth, info, f, args, u, hbegun, haccepted⟩ := Plan.begins_of_makesCall (fun t s ht => ih ht) hplan
      exact ⟨k, depth, info, f, args, u, .ask hbegun, haccepted⟩

end Search

/-! ## Tasks and plans that use nothing that is set apart -/

/-- A task that mentions only names which may be mentioned, and works with places and values that are not set apart. -/
def Task.Within (K : Reserve) (ℓ : Nat) : {α : Type} → Task σ α → Prop
  | _, .eval _ e => e.Within (K.names ℓ)
  | _, .evalAll _ es | _, .evalTaken _ es => Expr.AllWithin (K.names ℓ) es
  | _, .evalLogical _ left _ right => K.checked = false ∧ left.Within (K.names ℓ) ∧ right.Within (K.names ℓ)
  | _, .call _ _ _ _ f given => f.Given K ∧ ∀ v ∈ given, v.Given K
  | _, .callFunction _ _ f args => K.function f ∧ ∀ v ∈ args, v.Taken K
  | _, .store _ _ _ place v => place.Given K ∧ v.Stored K
  | _, .execAll _ body => Stmt.AllWithin (K.names ℓ) K.body body
  | _, .exec _ stmt => stmt.Within (K.names ℓ) K.body
  | _, .execDeclared _ names => ∀ d ∈ names, d.Within (K.names ℓ)
  | _, .execAssign _ a => a.Within (K.names ℓ)
  | _, .execCond _ _ test body branch =>
    test.Within (K.names ℓ) ∧ Stmt.AllWithin (K.names ℓ) K.body body ∧ Stmt.PartWithin (K.names ℓ) K.body branch
  | _, .execLoop _ _ _ test update body =>
    test.Within (K.names ℓ) ∧ Stmt.PartWithin (K.names ℓ) K.body update ∧ Stmt.AllWithin (K.names ℓ) K.body body
  | _, .execReturn _ _ value => ∀ e ∈ value, e.Within (K.names ℓ)

/-- What such a task gives. What a function returns by an expression was taken. -/
def Task.Leaves (K : Reserve) : {α : Type} → Task σ α → α → Prop
  | _, .eval .. | _, .evalLogical .. | _, .call .. => Value.Given K
  | _, .callFunction .. => Value.Stored K
  | _, .evalAll .. => fun vs => ∀ v ∈ vs, v.Given K
  | _, .evalTaken .. => fun vs => ∀ v ∈ vs, v.Taken K
  | _, .store .. | _, .execDeclared .. | _, .execAssign .. => Anything
  | _, .execAll .. | _, .exec .. | _, .execCond .. | _, .execLoop .. | _, .execReturn _ _ none =>
    fun returned => ∀ v ∈ returned, v.Stored K
  | _, .execReturn _ _ (some _) => fun returned => ∀ v ∈ returned, v.Taken K

/-- A plan that works with what is not set apart. -/
def Plan.Within (K : Reserve) (ℓ : Nat) : {α : Type} → Plan σ α → Prop
  | _, .ask t => t.Within K ℓ
  | _, .hostCall _ _ _ _ args => ∀ v ∈ args, v.Taken K
  | _, _ => True

/-- A plan is begun in a state that guards a reserve, works with what is not set apart, and leaves such a state behind. -/
def Reserve.Bears (K : Reserve) (cfg : Setting σ) (k : Nat) (q : Plan σ α) (u : RunState σ) : Prop :=
  ∃ ℓ done failed, u.Guards K ℓ ∧ q.Within K ℓ ∧ (q.run cfg k u).Keeps K done failed Anything

/-- A plan that keeps a reserve from the level where it starts to the one where it is done, or the one where it fails. -/
structure Plan.Keeps (cfg : Setting σ) (n : Nat) (K : Reserve) (start done failed : Nat) (p : Plan σ α)
    (Q : α → Prop) : Prop where
  run : ∀ s, s.Guards K start → (p.run cfg n s).Keeps K done failed Q
  begins : ∀ s k (γ : Type) (q : Plan σ γ) u, s.Guards K start → p.Begins cfg n s k q u → K.Bears cfg k q u

/-- A plan that keeps a reserve and stays at its level. -/
abbrev Plan.KeepsAt (cfg : Setting σ) (n : Nat) (K : Reserve) (ℓ : Nat) (p : Plan σ α) (Q : α → Prop) : Prop :=
  p.Keeps cfg n K ℓ ℓ ℓ Q

/-- An outcome that guards a reserve does so with every weaker condition. -/
theorem Outcome.Keeps.imp {done failed : Nat} {P Q : α → Prop} {o : Outcome σ α} (h : o.Keeps K done failed P)
    (hPQ : ∀ a, P a → Q a) : o.Keeps K done failed Q := by
  cases h with
  | done hs ha => exact .done hs (hPQ _ ha)
  | failed hs => exact .failed hs
  | exhausted => exact .exhausted

namespace Plan.Keeps

variable {n ℓ start middle done failed : Nat} {P : α → Prop} {Q : β → Prop}

/-- A plan is the first one that is begun in its run. -/
theorem bears {p : Plan σ α} {s : RunState σ} (hs : s.Guards K start) (hrun : (p.run cfg n s).Keeps K done failed P)
    (hwithin : p.Within K start) : K.Bears cfg n p s :=
  ⟨_, _, _, hs, hwithin, hrun.imp fun _ _ => trivial⟩

/-- A plan that guards a reserve does so with every weaker condition. -/
theorem imp {p : Plan σ α} {P' : α → Prop} (h : p.Keeps cfg n K start done failed P) (hP : ∀ a, P a → P' a) :
    p.Keeps cfg n K start done failed P' := ⟨fun s hs => (h.run s hs).imp hP, h.begins⟩

/-! ## Rules for the ways to put plans together -/

/-- A plan of one step guards a reserve if the step does. -/
theorem leaf {p : Plan σ α} (hp : p.isLeaf = true)
    (hrun : ∀ s, s.Guards K start → (p.run cfg n s).Keeps K done failed P) : p.Keeps cfg n K start done failed P := by
  refine ⟨hrun, ?_⟩
  intro s k γ q u hs h
  cases h with
  | here =>
    refine bears hs (hrun s hs) ?_
    cases p
    case ask | hostCall => cases hp
    all_goals exact trivial
  | first | next | noted | inFrame | ask | hostCall | hostSet => cases hp

/-- An action as a plan guards a reserve if the action does. -/
theorem act {x : Run σ α} {quiet : x.Quiet} (hx : x.Keeps K ℓ P) : (Plan.act x quiet).KeepsAt cfg n K ℓ P :=
  leaf rfl hx.run

/-- Recording a command guards every reserve. -/
theorem record (i : Info) (tag : String) : (Plan.record i tag : Plan σ Unit).KeepsAt cfg n K ℓ Anything :=
  leaf rfl (Run.Keeps.record cfg i tag).run

/-- Counting a statement guards every reserve. -/
theorem tick (i : Info) : (Plan.tick i : Plan σ Unit).KeepsAt cfg n K ℓ Anything :=
  leaf rfl (Run.Keeps.tick cfg i).run

/-- Narrating a step guards every reserve. -/
theorem narrate (category : Category) (node : NodeId) (message : Memory → String) (changes : Unit → List Change) :
    (Plan.narrate category node message changes : Plan σ Unit).KeepsAt cfg n K ℓ Anything :=
  leaf rfl (Run.Keeps.narrate cfg category node message changes).run

/-- A plan that gives a value guards every reserve. -/
theorem pure {a : α} (h : P a) : (Pure.pure a : Plan σ α).KeepsAt cfg n K ℓ P := act (.value h)

/-- A plan that fails guards every reserve. -/
theorem raise (kind : FaultClass) (i : Info) (message : String) :
    (Plan.raise kind i message : Plan σ α).KeepsAt cfg n K ℓ P := act .fails

/-- A plan that reads off the state guards every reserve. -/
theorem asks {f : RunState σ → α} {quiet : (Run.asks f).Quiet} :
    (Plan.act (Run.asks f) quiet).KeepsAt cfg n K ℓ Anything := act (.asks fun _ _ => trivial)

/-- A sequence of plans guards a reserve if each of them does from where the one before left it. -/
theorem andThen {x : Plan σ α} {f : α → Plan σ β} (hx : x.Keeps cfg n K start middle failed P)
    (hf : ∀ a, P a → (f a).Keeps cfg n K middle done failed Q) : (x >>= f).Keeps cfg n K start done failed Q := by
  have hrun (s : RunState σ) (hs : s.Guards K start) : ((x >>= f).run cfg n s).Keeps K done failed Q := by
    have hxs := hx.run s hs
    show (Run.andThen (x.run cfg n) (fun a => (f a).run cfg n) s).Keeps K done failed Q
    unfold Run.andThen
    generalize x.run cfg n s = o at hxs
    cases hxs with
    | done hu ha => exact (hf _ ha).run _ hu
    | failed hu => exact .failed hu
    | exhausted => exact .exhausted
  refine ⟨hrun, ?_⟩
  intro s k γ q u hs h
  cases h with
  | here => exact bears hs (hrun s hs) trivial
  | first h => exact hx.begins s k γ q u hs h
  | next hdone h =>
    have hxs := hx.run s hs
    rw [hdone] at hxs
    cases hxs with
    | done ht ha => exact (hf _ ha).begins _ k γ q u ht h

/-- A choice between plans guards a reserve if both sides do. -/
theorem ite {c : Prop} [Decidable c] {x y : Plan σ α} (hx : c → x.Keeps cfg n K start done failed P)
    (hy : ¬ c → y.Keeps cfg n K start done failed P) : (if c then x else y).Keeps cfg n K start done failed P := by
  by_cases h : c
  · rw [if_pos h]
    exact hx h
  · rw [if_neg h]
    exact hy h

/-- An action with a recorded command guards a reserve if the action does. -/
theorem recorded {x : Run σ α} {quiet : x.Quiet} (hx : x.Keeps K ℓ P) (i : Info) (tag : String) :
    (Plan.recorded x quiet i tag).KeepsAt cfg n K ℓ P := by
  have hrun := (hx.onFailure (.record cfg i tag)).run
  refine ⟨hrun, ?_⟩
  intro s k γ q u hs h
  cases h with
  | here => exact bears hs (hrun s hs) trivial
  | noted hfailed h =>
    have hxs := hx.run s hs
    rw [hfailed] at hxs
    cases hxs with
    | failed ht => exact (record i tag).begins _ k γ q u ht h

/-- The frame of a function is taken away again. -/
theorem inFrame {x : Plan σ (Option Value)} (hℓ : K.level ≤ ℓ)
    (hx : x.KeepsAt cfg n K (ℓ + 1) fun returned => ∀ v ∈ returned, v.Stored K) :
    (Plan.inFrame x).Keeps cfg n K (ℓ + 1) ℓ ℓ (Value.Stored K) := by
  have hrun (s : RunState σ) (hs : s.Guards K (ℓ + 1)) :
      ((Plan.inFrame x).run cfg n s).Keeps K ℓ ℓ (Value.Stored K) := by
    have hxs := hx.run s hs
    show (Plan.framed (x.run cfg n) s).Keeps K ℓ ℓ (Value.Stored K)
    unfold Plan.framed
    generalize x.run cfg n s = o at hxs
    cases hxs with
    | @done returned u hu hreturned =>
      refine .done (hu.leaveFunction hℓ) ?_
      cases returned with
      | none => exact .undefined
      | some v => exact hreturned v rfl
    | failed hu => exact .failed (hu.leaveFunction hℓ)
    | exhausted => exact .exhausted
  refine ⟨hrun, ?_⟩
  intro s k γ q u hs h
  cases h with
  | here => exact bears hs (hrun s hs) trivial
  | inFrame h => exact hx.begins s k γ q u hs h

/-! ## Hosts -/

section Hosts

variable (hhosts : cfg.hosts.Apart)

include hhosts

/-- The call of a host with taken arguments guards a reserve. -/
theorem hostCall (depth : Nat) (i : Info) (callee : Expr) (key : FunctionKey) {args : List Value}
    (hargs : ∀ v ∈ args, v.Taken K) : (Plan.hostCall depth i callee key args : Plan σ Value).KeepsAt cfg n K ℓ
      fun v => v = .absent ∨ v.Stored K := by
  have hrun (s : RunState σ) (hs : s.Guards K ℓ) : ((Plan.hostCall depth i callee key args).run cfg n s).Keeps K ℓ ℓ
      fun v => v = .absent ∨ v.Stored K := by
    obtain ⟨answer, host, hcall, hanswer⟩ := hhosts.call key (s.view cfg.strategy) s.host s.memory args
    show (Primer.runHost cfg n depth i (.call callee) (cfg.hosts.call key (s.view cfg.strategy) s.host s.memory args)
      s).Keeps K ℓ ℓ _
    rw [hcall]
    apply Run.Keeps.finish n depth _ host hs
    intro v hv
    exact (hanswer v hv).imp_right .of_isBasic
  refine ⟨hrun, ?_⟩
  intro s k γ q u hs h
  cases h with
  | here => exact bears hs (hrun s hs) hargs
  | hostCall reached h =>
    obtain ⟨answer, host, hcall, -⟩ := hhosts.call key (s.view cfg.strategy) s.host s.memory args
    rw [hcall] at reached
    exact absurd trivial reached.not_finished

/-- Writing a host variable guards a reserve. -/
theorem hostSet (depth : Nat) (i : Info) (target : Expr) (key : VariableKey) (v : Value) :
    (Plan.hostSet depth i target key v : Plan σ Value).KeepsAt cfg n K ℓ Anything := by
  have hrun (s : RunState σ) (hs : s.Guards K ℓ) :
      ((Plan.hostSet depth i target key v : Plan σ Value).run cfg n s).Keeps K ℓ ℓ Anything := by
    simp only [Plan.run]
    cases haction : cfg.hosts.set key (s.view cfg.strategy) s.host s.memory v with
    | none => exact (Run.Keeps.cannotAssign i target v).run s hs
    | some action =>
      obtain ⟨answer, host, rfl⟩ := hhosts.set key (s.view cfg.strategy) s.host s.memory v action haction
      exact Run.Keeps.finish n depth _ host hs fun _ _ => trivial
  refine ⟨hrun, ?_⟩
  intro s k γ q u hs h
  cases h with
  | here => exact bears hs (hrun s hs) trivial
  | hostSet haction reached =>
    obtain ⟨answer, host, rfl⟩ := hhosts.set key (s.view cfg.strategy) s.host s.memory v _ haction
    exact absurd trivial reached.not_finished

/-! ## The plans of the actions that leave a record -/

variable (hK : K.checked = !cfg.isRaw)

include hK

/-- Taking a given place gives a value that may be taken. -/
theorem take (e : Expr) {v : Value} (hv : v.Given K) : (Plan.take cfg e v).KeepsAt cfg n K ℓ (Value.Taken K) :=
  act (.take hhosts hK e hv)

/-- Taking the operands of an operation guards a reserve. -/
theorem operands (i : Info) (symbol : String) (left right : Expr) {a b : Value} (ha : a.Given K) (hb : b.Given K) :
    (Plan.operands cfg i symbol left right a b).KeepsAt cfg n K ℓ Anything := by
  apply andThen (recorded (.take hhosts hK left ha) i _)
  intro _ _
  exact andThen (recorded (.take hhosts hK right hb) i _) fun _ _ => pure trivial

omit hhosts hK in
/-- An operation on taken operands gives a value that may be stored. -/
theorem operator (i : Info) (symbol : String) (a b : Value) :
    (Plan.operator cfg i symbol a b).KeepsAt cfg n K ℓ (Value.Stored K) :=
  andThen (record i _) fun _ _ => act (.binaryValue cfg i symbol a b)

/-- A binary operation gives a value that may be stored. -/
theorem binary (i : Info) (left : Expr) (symbol : String) (right : Expr) {a b : Value} (ha : a.Given K)
    (hb : b.Given K) : (Plan.binary cfg i left symbol right a b).KeepsAt cfg n K ℓ (Value.Stored K) := by
  apply andThen (operands hhosts hK i symbol left right ha hb)
  intro _ _
  apply andThen (operator i symbol _ _)
  intro _ hv
  exact andThen (narrate ..) fun _ _ => pure hv

/-- A sign gives a value that may be stored. -/
theorem unary (i : Info) (symbol : String) (operand : Expr) {a : Value} (ha : a.Given K) :
    (Plan.unary cfg i symbol operand a).KeepsAt cfg n K ℓ (Value.Stored K) := by
  apply andThen (record i _)
  intro _ _
  apply andThen (take hhosts hK operand ha)
  intro x _
  apply andThen (act (.unaryValue cfg i symbol x))
  intro _ hv
  exact andThen (narrate ..) fun _ _ => pure hv

/-- The value of an assignment may be stored. -/
theorem assigned (a : Assignment) {place given : Value} (hplace : place.Given K) (hgiven : given.Given K) :
    (Plan.assigned cfg a place given).KeepsAt cfg n K ℓ (Value.Stored K) := by
  refine ite ?_ ?_
  · intro _
    refine andThen (record ..) ?_
    intro _ _
    exact (take hhosts hK a.value hgiven).imp fun _ hv => hv.toStored
  · intro _
    exact andThen (operands hhosts hK a.info a.symbol a.target a.value hplace hgiven) fun _ _ => operator ..

/-- The value of an increment or decrement may be stored. -/
theorem bump (i : Info) (target : Expr) (symbol : String) {place : Value} (hplace : place.Given K) :
    (Plan.bump cfg i target symbol place).KeepsAt cfg n K ℓ (Value.Stored K) := by
  apply andThen (record ..)
  intro _ _
  apply andThen (take hhosts hK target hplace)
  intro x _
  exact act (.bumped cfg i symbol x)

/-- A test guards a reserve. -/
theorem test (i : Info) (tag : String) (e : Expr) {cond : Value} (hcond : cond.Given K) :
    (Plan.test cfg i tag e cond).KeepsAt cfg n K ℓ Anything := by
  apply andThen (record ..)
  intro _ _
  apply andThen (take hhosts hK e hcond)
  intro v _
  exact act (.testValue cfg i tag v)

end Hosts

/-- A declaration of a name of its level guards a reserve. -/
theorem declared {d : Declared} (hd : K.names ℓ d.name) : (Plan.declared cfg d).KeepsAt cfg n K ℓ Anything := by
  apply andThen (record ..)
  intro _ _
  apply andThen asks
  intro _ _
  refine ite (fun _ => pure trivial) ?_
  intro _
  apply andThen (act (.declareName hd .undefined))
  intro _ _
  exact ite (fun _ => narrate ..) fun _ => pure trivial

/-- The declaration of a function of its level guards a reserve. -/
theorem function (i : Info) {name : String} (hname : K.names ℓ name) (params : List String) {body : List Stmt}
    (hbody : K.body body) : (Plan.function cfg i name params body).KeepsAt cfg n K ℓ Anything := by
  have hbind : (Plan.bindFunction i name params body : Plan σ Unit).KeepsAt cfg n K ℓ Anything := by
    refine andThen (P := Anything) (act (.onMemory ?_ fun _ _ => trivial)) ?_
    · intro m
      exact (Memory.Grown.refl m).withArrays rfl fun r hr => .inl hr
    · intro ref _
      have hfunction : (Value.function ⟨ref, i, name, params, body⟩).Stored K := ⟨rfl, hbody⟩
      exact andThen (act (.declareName hname hfunction)) fun _ _ => narrate ..
  apply andThen (record ..)
  intro _ _
  apply andThen asks
  intro existing? _
  cases existing? with
  | none => exact hbind
  | some existing => exact ite (fun _ => hbind) fun _ => raise ..

/-- A function is entered at the next level. -/
theorem enterFunction (i : Info) (f : UserFunction) {args : List Value} (hargs : ∀ v ∈ args, v.Taken K) :
    (Plan.enterFunction cfg i f args).Keeps cfg n K ℓ (ℓ + 1) ℓ Anything := by
  refine ite (fun _ => leaf rfl fun s hs => .failed hs) ?_
  intro _
  apply andThen (act (.bindParams cfg i f.params fun v hv => (hargs v hv).toStored))
  intro bound hbound
  apply andThen asks
  intro label _
  apply andThen (narrate ..)
  intro _ _
  apply leaf rfl
  intro s hs
  exact .done (hs.pushFrame f hbound label) trivial

/-- The result of a call may be stored. -/
theorem callResult (i : Info) (label : String) {result : Value} (hresult : result = .absent ∨ result.Stored K) :
    (Plan.callResult i label result : Plan σ Value).KeepsAt cfg n K ℓ (Value.Stored K) := by
  rcases hresult with rfl | hstored
  · exact pure .undefined
  · cases result
    case absent | undefined | null => exact pure .undefined
    all_goals exact andThen (narrate ..) fun _ _ => pure hstored

end Plan.Keeps

end Primer
