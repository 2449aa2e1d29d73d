import Primer.Proofs.Locals.Plan
import Primer.Proofs.Vocabulary.Action

/-!
# Plans and the tags that they record

A tag is one of the language or that of a function of the hosts. `Plan.Speaks` is what a plan has to satisfy so that
nothing else is recorded in it: if all functions in the state are known, then the tasks that are begun in it are about
trees that the engine handles, and every command that is recorded has a tag of the language, or it is recorded for the
call of a host function whose tag it is, at the node of that call.

The tags of operators are computed from the symbol and the operands; for the symbols that the engine knows these are
tags of the language (`operatorTag_mem`).
-/

set_option autoImplicit false

namespace Primer

open Run

variable {σ α β : Type}

/-! ## Tags of operators -/

/-- Only a sum records another tag for some operands. -/
theorem operatorTag_eq (symbol : String) (a b : Value) :
    operatorTag symbol a b = "+s" ∨ operatorTag symbol a b = operatorTag symbol .absent .absent := by
  unfold operatorTag
  split
  · split
    · exact .inl rfl
    · exact .inr rfl
  · split
    · exact .inl rfl
    · exact .inr rfl
  all_goals exact .inr rfl

/-- An operator that the engine knows records a tag of the language, whatever its operands are. -/
theorem operatorTag_mem {symbol : String} (h : isOperator symbol = true) (a b : Value) :
    operatorTag symbol a b ∈ languageTags := by
  have hall : ∀ s ∈ Memory.numericSymbols ++ ["+", "+=", "&&", "||", "==", "!="],
      operatorTag s .absent .absent ∈ languageTags := by decide
  have hmem : symbol ∈ Memory.numericSymbols ++ ["+", "+=", "&&", "||", "==", "!="] := by
    rcases Bool.or_eq_true_iff.mp h with h | h
    · exact List.mem_append_left _ (List.contains_iff_mem.mp h)
    · exact List.mem_append_right _ (List.contains_iff_mem.mp h)
  rcases operatorTag_eq symbol a b with htext | hplain
  · rw [htext]
    decide
  · rw [hplain]
    exact hall symbol hmem

/-- The tag of an operator before an operand. -/
theorem unaryTag_mem (symbol : String) : (if symbol = "!" then "!" else "+") ∈ languageTags := by
  split <;> decide

/-! ## What is known -/

/-- The values among which functions of the program have bodies that the engine handles, and functions of the hosts
are of a kind. -/
def Value.Kind.known (H : HostFunction → Prop) : Value.Kind where
  has
    | .function f => Stmt.allHandled f.body = true
    | .hostFunction g => H g
    | _ => True
  plain v hv := by
    cases v
    case function | hostFunction => cases hv
    all_goals exact trivial

/-- What a task works on is known: trees that the engine handles, and values among which functions are known. -/
def Task.Known (H : HostFunction → Prop) : {α : Type} → Task σ α → Prop
  | _, .eval _ e => e.isHandled = true
  | _, .evalAll _ es | _, .evalTaken _ es => Expr.allHandled es = true
  | _, .evalLogical _ left _ right => left.isHandled = true ∧ right.isHandled = true
  | _, .call _ _ _ _ f given => (Value.Kind.known H).has f ∧ ∀ v ∈ given, (Value.Kind.known H).has v
  | _, .callFunction _ _ f args => Stmt.allHandled f.body = true ∧ ∀ v ∈ args, (Value.Kind.known H).has v
  | _, .store _ _ _ _ v => (Value.Kind.known H).has v
  | _, .execAll _ body => Stmt.allHandled body = true
  | _, .exec _ stmt => stmt.isHandled = true
  | _, .execDeclared _ names => names.all Declared.isHandled = true
  | _, .execAssign _ a => a.isHandled = true
  | _, .execCond _ _ test body branch =>
    test.isHandled = true ∧ Stmt.allHandled body = true ∧ Stmt.isHandledBranch branch = true
  | _, .execLoop _ _ tag test update body =>
    tag ∈ languageTags ∧ test.isHandled = true ∧ Stmt.isHandledPart update = true ∧ Stmt.allHandled body = true
  | _, .execReturn _ _ value => ∀ e ∈ value, e.isHandled = true

/-- What a task gives is known. -/
def Task.Finds (H : HostFunction → Prop) : {α : Type} → Task σ α → α → Prop
  | _, .eval .. | _, .evalLogical .. | _, .call .. | _, .callFunction .. => (Value.Kind.known H).has
  | _, .evalAll .. | _, .evalTaken .. => fun vs => ∀ v ∈ vs, (Value.Kind.known H).has v
  | _, .store .. | _, .execDeclared .. | _, .execAssign .. => Anything
  | _, .execAll .. | _, .exec .. | _, .execCond .. | _, .execLoop .. | _, .execReturn .. =>
    fun returned => ∀ v ∈ returned, (Value.Kind.known H).has v

/-! ## What is recorded -/

variable {cfg : Setting σ} {H : HostFunction → Prop}

/-- A tag is one of the language, or that of a host function that is called in a run at the node for which the tag is
recorded. -/
def Plan.Explains (cfg : Setting σ) (H : HostFunction → Prop) (n : Nat) (p : Plan σ α) (s : RunState σ) (k : Nat)
    (info : Info) (tag : String) (u : RunState σ) : Prop :=
  tag ∈ languageTags ∨ ∃ depth callee g args, H g ∧ g.tag = tag ∧
    p.Begins cfg n s k (Plan.callValue depth info callee (.hostFunction g) args) u

/-- A plan that is begun in a run is accounted for: what a task works on is known, and a tag that is recorded is
explained. -/
def Plan.Accounts (cfg : Setting σ) (H : HostFunction → Prop) (n : Nat) (p : Plan σ α) (s : RunState σ) (k : Nat) :
    {γ : Type} → Plan σ γ → RunState σ → Prop
  | _, .ask t, _ => t.Known H
  | _, .mark (.record info tag), u => p.Explains cfg H n s k info tag u
  | _, _, _ => True

/-- If all that is begun in a plan is also begun in another one, that one accounts for as much. -/
theorem Plan.Accounts.imp {γ : Type} {n n' k : Nat} {p : Plan σ α} {p' : Plan σ β} {q : Plan σ γ}
    {s s' u : RunState σ} (h : p.Accounts cfg H n s k q u)
    (hbegins : ∀ q : Plan σ Value, p.Begins cfg n s k q u → p'.Begins cfg n' s' k q u) :
    p'.Accounts cfg H n' s' k q u := by
  cases q
  case mark place =>
    cases place with
    | record info tag =>
      refine Or.imp_right ?_ h
      rintro ⟨depth, callee, g, args, hg, htag, hcall⟩
      exact ⟨depth, callee, g, args, hg, htag, hbegins _ hcall⟩
    | tick info => exact trivial
  case ask t => exact h
  all_goals exact trivial

/-- A plan that gives something known where all is known, and accounts for all plans that are begun in it. -/
structure Plan.Speaks (cfg : Setting σ) (n : Nat) (H : HostFunction → Prop) (p : Plan σ α) (Q : α → Prop) : Prop where
  gives : (p.run cfg n).Gives (.known H) Q
  begins : ∀ s k (γ : Type) (q : Plan σ γ) u, s.OfKind (.known H) → p.Begins cfg n s k q u →
    p.Accounts cfg H n s k q u

namespace Plan.Speaks

variable {n : Nat} {P : α → Prop} {Q : β → Prop}

/-! ## Rules for the ways to put plans together -/

/-- A plan that has no others in it is all that is begun in it. -/
theorem begins_leaf {p : Plan σ α} (hp : p.isLeaf = true) {s u : RunState σ} {k : Nat} {γ : Type} {q : Plan σ γ}
    (h : p.Begins cfg n s k q u) {motive : (k : Nat) → (γ : Type) → Plan σ γ → RunState σ → Prop}
    (hself : motive n α p s) : motive k γ q u := by
  cases h with
  | here => exact hself
  | first | next | noted | inFrame | ask | hostCall | hostSet => cases hp

/-- A plan that has no others in it speaks if it accounts for itself. -/
theorem leaf {p : Plan σ α} (hp : p.isLeaf = true) (hself : ∀ s k u, p.Accounts cfg H n s k p u)
    (hgives : (p.run cfg n).Gives (.known H) P) : p.Speaks cfg n H P := by
  refine ⟨hgives, ?_⟩
  intro s k γ q u hs h
  exact begins_leaf hp h (motive := fun k _ q u => p.Accounts cfg H n s k q u) (hself s n s)

/-- An action as a plan records nothing. -/
theorem act {x : Run σ α} {quiet : x.Quiet} (hx : x.Gives (.known H) P) : (Plan.act x quiet).Speaks cfg n H P :=
  leaf rfl (fun _ _ _ => trivial) hx

/-- A recorded tag of the language is in the vocabulary. -/
theorem record (i : Info) {tag : String} (htag : tag ∈ languageTags) :
    (Plan.record i tag : Plan σ Unit).Speaks cfg n H Anything := leaf rfl (fun _ _ _ => .inl htag) (.mark cfg _)

/-- Counting a statement records no command. -/
theorem tick (i : Info) : (Plan.tick i : Plan σ Unit).Speaks cfg n H Anything :=
  leaf rfl (fun _ _ _ => trivial) (.mark cfg _)

/-- Narrating a step records no command. -/
theorem narrate (category : Category) (node : NodeId) (message : Memory → String) (changes : Unit → List Change) :
    (Plan.narrate category node message changes : Plan σ Unit).Speaks cfg n H Anything :=
  leaf rfl (fun _ _ _ => trivial) (.narrate ..)

/-- A plan that gives a value of the kind records nothing. -/
theorem pure {a : α} (h : P a) : (Pure.pure a : Plan σ α).Speaks cfg n H P := act (.value h)

/-- A plan that fails records nothing. -/
theorem raise (kind : FaultClass) (i : Info) (message : String) :
    (Plan.raise kind i message : Plan σ α).Speaks cfg n H P := act (.raise ..)

/-- A plan that reads off the state records nothing. -/
theorem asks {f : RunState σ → α} {quiet : (Run.asks f).Quiet} :
    (Plan.act (Run.asks f) quiet).Speaks cfg n H Anything := act (.asks fun _ _ => trivial)

/-- A sequence of plans keeps to the vocabulary if each of them does. -/
theorem andThen {x : Plan σ α} {f : α → Plan σ β} (hx : x.Speaks cfg n H P)
    (hf : ∀ a, P a → (f a).Speaks cfg n H Q) : (x >>= f).Speaks cfg n H Q := by
  refine ⟨.bind hx.gives fun a ha => (hf a ha).gives, ?_⟩
  intro s k γ q u hs h
  cases h with
  | here => exact trivial
  | first h => exact (hx.begins s k γ q u hs h).imp fun _ => .first
  | next hdone h =>
    obtain ⟨ht, ha⟩ := hx.gives.run _ _ _ hs hdone
    exact ((hf _ ha).begins _ k γ q u ht h).imp fun _ => .next hdone

/-- A choice between plans keeps to the vocabulary if both sides do. -/
theorem ite {c : Prop} [Decidable c] {x y : Plan σ α} (hx : x.Speaks cfg n H P) (hy : y.Speaks cfg n H P) :
    (if c then x else y).Speaks cfg n H P := by
  split
  · exact hx
  · exact hy

/-- An action that is recorded with a tag of the language keeps to the vocabulary. -/
theorem recorded {x : Run σ α} {quiet : x.Quiet} (hx : x.Gives (.known H) P) (i : Info) {tag : String}
    (htag : tag ∈ languageTags) : (Plan.recorded x quiet i tag).Speaks cfg n H P := by
  refine ⟨⟨?_⟩, ?_⟩
  · intro s a t hs hdone
    change Run.onFailure x _ s = _ at hdone
    unfold Run.onFailure at hdone
    cases hxs : x s with
    | done b u =>
      rw [hxs] at hdone
      cases hdone
      exact hx.run s _ _ hs hxs
    | failed e u =>
      rw [hxs] at hdone
      simp only at hdone
      split at hdone <;> cases hdone
    | exhausted =>
      rw [hxs] at hdone
      cases hdone
  · intro s k γ q u hs h
    cases h with
    | here => exact trivial
    | noted _ h =>
      exact begins_leaf rfl h (motive := fun k _ q u => (Plan.recorded x quiet i tag).Accounts cfg H n s k q u)
        (.inl htag)

/-- The frame of a function is taken away again. -/
theorem inFrame {x : Plan σ (Option Value)}
    (hx : x.Speaks cfg n H fun returned => ∀ v ∈ returned, (Value.Kind.known H).has v) :
    (Plan.inFrame x).Speaks cfg n H (Value.Kind.known H).has := by
  refine ⟨⟨?_⟩, ?_⟩
  · intro s a t hs hdone
    change Plan.framed (x.run cfg n) s = _ at hdone
    unfold Plan.framed at hdone
    cases hxs : x.run cfg n s with
    | done returned u =>
      rw [hxs] at hdone
      cases hdone
      obtain ⟨hu, hreturned⟩ := hx.gives.run s _ _ hs hxs
      refine ⟨hu.congr rfl rfl (List.tail_suffix _), ?_⟩
      cases returned with
      | none => exact Value.Kind.undefined
      | some v => exact hreturned v rfl
    | failed e u =>
      rw [hxs] at hdone
      cases hdone
    | exhausted =>
      rw [hxs] at hdone
      cases hdone
  · intro s k γ q u hs h
    cases h with
    | here => exact trivial
    | inFrame h => exact (hx.begins s k γ q u hs h).imp fun _ => .inFrame

/-! ## Hosts -/

section Hosts

variable (hhosts : cfg.hosts.Give (.known H))

include hhosts

/-- The call of a host gives a value of the kind. -/
theorem hostCall (depth : Nat) (i : Info) (callee : Expr) (key : FunctionKey) (args : List Value) :
    (Plan.hostCall depth i callee key args : Plan σ Value).Speaks cfg n H (Value.Kind.known H).has := by
  refine ⟨.runHost hhosts n depth i callee key args, ?_⟩
  intro s k γ q u hs h
  cases h with
  | here => exact trivial
  | hostCall reached h =>
    obtain ⟨answer, host, hcall, -⟩ := hhosts.call key (s.view cfg.strategy) s.host s.memory args
    rw [hcall] at reached
    exact absurd trivial reached.not_finished

/-- Writing a host variable keeps to the vocabulary. -/
theorem hostSet (depth : Nat) (i : Info) (target : Expr) (key : VariableKey) (v : Value) :
    (Plan.hostSet depth i target key v : Plan σ Value).Speaks cfg n H Anything := by
  refine ⟨.setHost hhosts n depth i target key v, ?_⟩
  intro s k γ q u hs h
  cases h with
  | here => exact trivial
  | hostSet haction reached =>
    obtain ⟨answer, host, rfl⟩ := hhosts.set key (s.view cfg.strategy) s.host s.memory v _ haction
    exact absurd trivial reached.not_finished

/-- The call of a host function is what explains its tag. -/
theorem callHost (depth : Nat) (i : Info) (callee : Expr) {g : HostFunction} (hg : H g) (args : List Value) :
    (Plan.callValue depth i callee (.hostFunction g) args : Plan σ Value).Speaks cfg n H
      (Value.Kind.known H).has := by
  have hcall := hostCall (n := n) hhosts depth i callee g.key args
  refine ⟨.bind (.mark cfg (.record i g.tag)) fun _ _ => hcall.gives, ?_⟩
  intro s k γ q u hs h
  cases h with
  | here => exact trivial
  | first h =>
    let call : Plan σ Value := Plan.callValue depth i callee (.hostFunction g) args
    exact begins_leaf rfl h (motive := fun k _ q u => call.Accounts cfg H n s k q u)
      (.inr ⟨depth, callee, g, args, hg, rfl, .here⟩)
  | next hdone h =>
    obtain ⟨ht, -⟩ := (Run.Gives.mark cfg (.record i g.tag)).run _ _ _ hs hdone
    apply (hcall.begins _ k γ q u ht h).imp
    intro q hq
    exact Plan.Begins.next (f := fun _ => .hostCall depth i callee g.key args) hdone hq

/-! ## The plans of the actions that leave a record -/

/-- Taking a place gives a value of the kind. -/
theorem take (e : Expr) {v : Value} (hv : (Value.Kind.known H).has v) :
    (Plan.take cfg e v).Speaks cfg n H (Value.Kind.known H).has := act (.take hhosts e hv)

/-- Taking the operands of an operator keeps to the vocabulary. -/
theorem operands (i : Info) {symbol : String} (hsymbol : isOperator symbol = true) (left right : Expr) {a b : Value}
    (ha : (Value.Kind.known H).has a) (hb : (Value.Kind.known H).has b) :
    (Plan.operands cfg i symbol left right a b).Speaks cfg n H Anything := by
  apply andThen (recorded (.take hhosts left ha) i (operatorTag_mem hsymbol _ _))
  intro _ _
  exact andThen (recorded (.take hhosts right hb) i (operatorTag_mem hsymbol _ _)) fun _ _ => pure trivial

omit hhosts in
/-- An operator gives a value of the kind. -/
theorem operator (i : Info) {symbol : String} (hsymbol : isOperator symbol = true) (a b : Value) :
    (Plan.operator cfg i symbol a b).Speaks cfg n H (Value.Kind.known H).has :=
  andThen (record i (operatorTag_mem hsymbol a b)) fun _ _ => act (.binaryValue cfg i symbol a b)

/-- A binary operation gives a value of the kind. -/
theorem binary (i : Info) (left : Expr) {symbol : String} (hsymbol : isOperator symbol = true) (right : Expr)
    {a b : Value} (ha : (Value.Kind.known H).has a) (hb : (Value.Kind.known H).has b) :
    (Plan.binary cfg i left symbol right a b).Speaks cfg n H (Value.Kind.known H).has := by
  apply andThen (operands hhosts i hsymbol left right ha hb)
  intro _ _
  apply andThen (operator i hsymbol _ _)
  intro _ hv
  exact andThen (narrate ..) fun _ _ => pure hv

/-- A sign gives a value of the kind. -/
theorem unary (i : Info) (symbol : String) (operand : Expr) {a : Value} (ha : (Value.Kind.known H).has a) :
    (Plan.unary cfg i symbol operand a).Speaks cfg n H (Value.Kind.known H).has := by
  apply andThen (record i (unaryTag_mem symbol))
  intro _ _
  apply andThen (take hhosts operand ha)
  intro x _
  apply andThen (act (.unaryValue cfg i symbol x))
  intro _ hv
  exact andThen (narrate ..) fun _ _ => pure hv

/-- The value of an assignment is of the kind. -/
theorem assigned {a : Assignment} (hsymbol : isAssignment a.symbol = true) {place given : Value}
    (hplace : (Value.Kind.known H).has place) (hgiven : (Value.Kind.known H).has given) :
    (Plan.assigned cfg a place given).Speaks cfg n H (Value.Kind.known H).has := by
  unfold Plan.assigned
  split
  · exact andThen (record _ (by decide)) fun _ _ => take hhosts a.value hgiven
  case isFalse hplain =>
    have hoperator := isOperator_of_isAssignment hsymbol hplain
    apply andThen (operands hhosts a.info hoperator a.target a.value hplace hgiven)
    intro _ _
    exact operator a.info hoperator _ _

/-- The value of an increment or decrement is of the kind. -/
theorem bump (i : Info) (target : Expr) (symbol : String) {place : Value}
    (hplace : (Value.Kind.known H).has place) :
    (Plan.bump cfg i target symbol place).Speaks cfg n H (Value.Kind.known H).has := by
  apply andThen (record i (by decide))
  intro _ _
  apply andThen (take hhosts target hplace)
  intro x _
  exact act (.bumped cfg i symbol x)

/-- A test with a tag of the language keeps to the vocabulary. -/
theorem test (i : Info) {tag : String} (htag : tag ∈ languageTags) (e : Expr) {cond : Value}
    (hcond : (Value.Kind.known H).has cond) : (Plan.test cfg i tag e cond).Speaks cfg n H Anything := by
  apply andThen (record i htag)
  intro _ _
  apply andThen (take hhosts e hcond)
  intro v _
  exact act (.testValue cfg i tag v)

end Hosts

/-- A declaration keeps to the vocabulary. -/
theorem declared (d : Declared) : (Plan.declared cfg d).Speaks cfg n H Anything := by
  apply andThen (record _ (by decide))
  intro _ _
  apply andThen asks
  intro _ _
  exact ite (pure trivial) <| andThen (act (.declareName d.name Value.Kind.undefined)) fun _ _ => ite (narrate ..)
    (pure trivial)

/-- The declaration of a function with a handled body keeps to the vocabulary. -/
theorem function (i : Info) (name : String) (params : List String) {body : List Stmt}
    (hbody : Stmt.allHandled body = true) : (Plan.function cfg i name params body).Speaks cfg n H Anything := by
  have hbind : (Plan.bindFunction i name params body : Plan σ Unit).Speaks cfg n H Anything := by
    apply andThen (P := Anything) (act (.onMemory fun m hm => ⟨trivial, hm⟩))
    intro ref _
    have hfunction : (Value.Kind.known H).has (.function ⟨ref, i, name, params, body⟩) := hbody
    exact andThen (act (.declareName name hfunction)) fun _ _ => narrate ..
  apply andThen (record i (by decide))
  intro _ _
  apply andThen asks
  intro existing? _
  cases existing? with
  | none => exact hbind
  | some existing => exact ite hbind (raise ..)

/-- Entering a function keeps to the vocabulary. -/
theorem enterFunction (i : Info) (f : UserFunction) {args : List Value}
    (hargs : ∀ v ∈ args, (Value.Kind.known H).has v) : (Plan.enterFunction cfg i f args).Speaks cfg n H Anything := by
  refine ite (raise ..) (andThen (act (.bindParams cfg i f.params hargs)) ?_)
  intro bound hbound
  apply andThen asks
  intro label _
  apply andThen (narrate ..)
  intro _ _
  exact act (.update fun s hs => hs.pushFrame f hbound label)

/-- The result of a call is of the kind. -/
theorem callResult (i : Info) (label : String) {result : Value} (hresult : (Value.Kind.known H).has result) :
    (Plan.callResult i label result : Plan σ Value).Speaks cfg n H (Value.Kind.known H).has := by
  cases result
  case absent | undefined | null => exact pure Value.Kind.undefined
  all_goals exact andThen (narrate ..) fun _ _ => pure hresult

end Plan.Speaks

end Primer
