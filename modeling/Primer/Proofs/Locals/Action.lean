import Primer.Proofs.Locals.Length
import Primer.Proofs.Locals.Reserve
import Primer.Proofs.Realm.Basic

/-!
# Actions beside a reserve

An action of the evaluator that is given values and places which are not set apart keeps the reserve of a state, and
gives such values and places again: what is taken out of a place may be stored, what an operator gives is a number, a
text or a boolean, and an element that is looked at lies in an array. The hosts have to be such that they answer at
once and leave memory alone, as the standard ones do.
-/

set_option autoImplicit false

namespace Primer

open Run

variable {σ α β : Type} {K : Reserve} {ℓ : Nat}

/-- An outcome in whose state a reserve is guarded: at one level if a computation is done, and at another if it fails. -/
inductive Outcome.Keeps (K : Reserve) (done failed : Nat) (Q : α → Prop) : Outcome σ α → Prop where
  | done {a s} (hs : s.Guards K done) (ha : Q a) : Keeps K done failed Q (.done a s)
  | failed {e s} (hs : s.Guards K failed) : Keeps K done failed Q (.failed e s)
  | exhausted : Keeps K done failed Q .exhausted

/-- A computation that leaves a reserve guarded, at the level where it runs. -/
structure Run.Keeps (K : Reserve) (ℓ : Nat) (x : Run σ α) (Q : α → Prop) : Prop where
  run : ∀ s, s.Guards K ℓ → (x s).Keeps K ℓ ℓ Q

namespace Run.Keeps

variable {P : α → Prop} {Q : β → Prop}

/-- A value that meets the condition is given, and the reserve stays guarded. -/
theorem value {a : α} (h : P a) : Keeps K ℓ (Run.value a : Run σ α) P := ⟨fun _ hs => .done hs h⟩

/-- A value that meets the condition is given, and the reserve stays guarded. -/
theorem pure {a : α} (h : P a) : Keeps K ℓ (Pure.pure a : Run σ α) P := value h

/-- What is read off a guarded state meets the condition that all of them give. -/
theorem asks {f : RunState σ → α} (h : ∀ s, s.Guards K ℓ → P (f s)) : Keeps K ℓ (Run.asks f) P :=
  ⟨fun s hs => .done hs (h s hs)⟩

/-- A failure leaves the reserve guarded. -/
theorem fails {f : RunState σ → Failure} : Keeps K ℓ (fun s => .failed (f s) s : Run σ α) P := ⟨fun _ hs => .failed hs⟩

/-- A step that lets the memory grow leaves the reserve guarded. -/
theorem onMemory {f : Memory → α × Memory} (hmemory : ∀ m : Memory, m.Grown (Value.Stored K) (f m).2)
    (hvalue : ∀ s : RunState σ, s.Guards K ℓ → P (f s.memory).1) : Keeps K ℓ (Run.onMemory f : Run σ α) P :=
  ⟨fun s hs => .done (hs.onMemory (hmemory s.memory)) (hvalue s hs)⟩

/-- A sequence of steps leaves the reserve guarded if each of them does. -/
theorem bind {x : Run σ α} {f : α → Run σ β} (hx : Keeps K ℓ x P) (hf : ∀ a, P a → Keeps K ℓ (f a) Q) :
    Keeps K ℓ (x >>= f) Q := by
  constructor
  intro s hs
  have hxs := hx.run s hs
  show (Run.andThen x f s).Keeps K ℓ ℓ Q
  unfold Run.andThen
  generalize x s = o at hxs
  cases hxs with
  | done hu ha => exact (hf _ ha).run _ hu
  | failed hu => exact .failed hu
  | exhausted => exact .exhausted

/-- A choice leaves the reserve guarded if both sides do. -/
theorem ite {c : Prop} [Decidable c] {x y : Run σ α} (hx : c → Keeps K ℓ x P) (hy : ¬ c → Keeps K ℓ y P) :
    Keeps K ℓ (if c then x else y) P := by
  by_cases h : c
  · rw [if_pos h]
    exact hx h
  · rw [if_neg h]
    exact hy h

/-- What a computation does in a state may be what another one does there. -/
theorem of_eq {x : Run σ α} {y : RunState σ → Run σ α} (hy : ∀ s, s.Guards K ℓ → Keeps K ℓ (y s) P)
    (h : ∀ s, x s = y s s) : Keeps K ℓ x P := by
  constructor
  intro s hs
  rw [h]
  exact (hy s hs).run s hs

/-- A note that is made on a failure leaves the reserve guarded if it does so itself. -/
theorem onFailure {x : Run σ α} {note : Run σ Unit} {N : Unit → Prop} (hx : Keeps K ℓ x P)
    (hnote : Keeps K ℓ note N) : Keeps K ℓ (Run.onFailure x note) P := by
  constructor
  intro s hs
  have hxs := hx.run s hs
  unfold Run.onFailure
  generalize x s = o at hxs
  cases hxs with
  | done hu ha => exact .done hu ha
  | @failed e u hu =>
    have hnoted := hnote.run u hu
    simp only
    generalize note u = o at hnoted
    cases hnoted with
    | done hv _ => exact .failed hv
    | failed hv => exact .failed hv
    | exhausted => exact .exhausted
  | exhausted => exact .exhausted

/-- A computation that changes records only. -/
theorem aside {x : Run σ Unit} (h : ∀ s, ∃ u : RunState σ, (x s = .done () u ∨ ∃ e, x s = .failed e u) ∧
    u.memory = s.memory ∧ u.frames = s.frames ∧ u.globals = s.globals) : Keeps K ℓ x Anything := by
  constructor
  intro s hs
  obtain ⟨u, hu | ⟨e, hu⟩, hmemory, hframes, hglobals⟩ := h s
  · rw [hu]
    exact .done (hs.congr hmemory hframes hglobals) trivial
  · rw [hu]
    exact .failed (hs.congr hmemory hframes hglobals)

end Run.Keeps

/-! ## Hosts -/

/-- Hosts that hand out nothing but their own functions and variables, numbers, texts and booleans, and that leave
memory alone. A call may also give nothing. -/
structure Hosts.Apart (hosts : Hosts σ) : Prop where
  member : ∀ host o name v, hosts.member host o name = some v →
    (∃ f, v = .hostFunction f) ∨ ∃ w : HostVariable, v = .hostVariable w ∧ w.key.isStandard = true
  call : ∀ key view host memory args, ∃ answer host', hosts.call key view host memory args =
    .finish answer host' memory ∧ ∀ v, answer = .ok v → v = .absent ∨ v.isBasic = true
  get : ∀ key host memory, key.isStandard = true → ∃ answer host', hosts.get key host memory = (answer, host', memory) ∧
    ∀ v, answer = .ok v → v.isBasic = true ∧ v.isUsable = true
  set : ∀ key view host memory v action, hosts.set key view host memory v = some action →
    ∃ answer host', action = .finish answer host' memory

/-- The constants of `Math` are finite. -/
theorem MathConstant.isFinite_value (c : MathConstant) : Number.isFinite c.value = true := by
  cases c <;> decide +kernel

/-- The standard hosts are of this kind. -/
theorem Hosts.apart_standard : (Hosts.standard Extras.none).Apart where
  member host o name v hv := by
    cases o with
    | console =>
      simp only [Hosts.standard, Console.member?] at hv
      split at hv <;> cases hv
      case h_4 => exact .inr ⟨_, rfl, rfl⟩
      all_goals exact .inl ⟨_, rfl⟩
    | math =>
      simp only [Hosts.standard, mathMember?] at hv
      split at hv
      · cases hv
        exact .inl ⟨_, rfl⟩
      · split at hv <;> cases hv
        all_goals exact .inr ⟨_, rfl, rfl⟩
    | extra n => cases hv
  call key view host memory args := by
    cases key with
    | console f =>
      rw [Hosts.call_console]
      cases host.console.call memory f args with
      | ok c =>
        refine ⟨_, _, rfl, ?_⟩
        intro v hv
        cases hv
        exact .inl rfl
      | error text =>
        refine ⟨_, _, rfl, ?_⟩
        intro v hv
        cases hv
    | math f =>
      rw [Hosts.call_math]
      cases hcall : f.call (view.strategy != .raw) memory args with
      | ok w =>
        refine ⟨_, _, rfl, ?_⟩
        intro v hv
        cases hv
        simp only [MathFunction.call, bind, Except.bind] at hcall
        split at hcall
        · cases hcall
        · split at hcall
          · cases hcall
          · cases hcall
            exact .inr rfl
      | error text =>
        refine ⟨_, _, rfl, ?_⟩
        intro v hv
        cases hv
    | extra n =>
      refine ⟨_, _, rfl, ?_⟩
      intro v hv
      cases hv
      exact .inl rfl
  get key host memory hkey := by
    cases key with
    | color => exact ⟨_, _, rfl, fun v hv => by cases hv; exact ⟨rfl, rfl⟩⟩
    | math c => exact ⟨_, _, rfl, fun v hv => by cases hv; exact ⟨rfl, c.isFinite_value⟩⟩
    | extra n => cases hkey
  set key view host memory v action haction := by
    cases key with
    | color =>
      rw [Hosts.set_color] at haction
      generalize host.console.setColor memory v = result at haction
      cases result <;> (cases haction; exact ⟨_, _, rfl⟩)
    | math c =>
      cases haction
      exact ⟨_, _, rfl⟩
    | extra n => cases haction

/-! ## Actions of the evaluator -/

namespace Run.Keeps

variable {i : Info} {cfg : Setting σ}

/-- The failure of a host leaves the reserve guarded, however a breakdown is reported. -/
theorem hostFailed (i : Info) {P : α → Prop} {broken : String → Run σ α} (hbroken : ∀ text, Keeps K ℓ (broken text) P)
    (f : HostFailure) : Keeps K ℓ (Primer.hostFailed i broken f) P := by
  rcases f with text | (f | text | b) | text
  · exact fails
  · exact fails
  · exact fails
  · exact hbroken b.text
  · exact hbroken text

/-- A host that answers at once. -/
theorem finish (n depth : Nat) (use : HostUse) {answer : Except HostFailure Value} (host : σ) {s : RunState σ}
    (hs : s.Guards K ℓ) {P : Value → Prop} (hanswer : ∀ v, answer = .ok v → P v) :
    (runHost cfg n depth i use (.finish answer host s.memory) s).Keeps K ℓ ℓ P := by
  cases n with
  | zero => exact .exhausted
  | succ n =>
    have hs' : ({ s with host := host } : RunState σ).Guards K ℓ := hs.congr rfl rfl rfl
    cases answer with
    | ok v => exact .done hs' (hanswer v rfl)
    | error f =>
      have hbroken (text : String) : Keeps K ℓ (use.broken i text : Run σ Value) P := by
        cases use <;> exact fails
      exact (hostFailed i hbroken f).run _ hs'

/-- Recording a command leaves the reserve guarded. -/
theorem record (cfg : Setting σ) (i : Info) (tag : String) : Keeps K ℓ (Primer.record cfg i tag) Anything := by
  refine ite (fun _ => pure trivial) ?_
  intro _
  refine bind (P := Anything) (aside ?_) ?_
  · intro s
    exact ⟨_, .inl rfl, rfl, rfl, rfl⟩
  · intro _ _
    exact ite (fun _ => pure trivial) fun _ => fails

/-- Narrating a step leaves the reserve guarded. -/
theorem narrate (cfg : Setting σ) (category : Category) (node : NodeId) (message : Memory → String)
    (changes : Unit → List Change) : Keeps K ℓ (Primer.narrate cfg category node message changes) Anything :=
  ite (fun _ => aside fun _ => ⟨_, .inl rfl, rfl, rfl, rfl⟩) fun _ => pure trivial

/-- Counting a statement leaves the reserve guarded. -/
theorem tick (cfg : Setting σ) (i : Info) : Keeps K ℓ (Primer.tick cfg i) Anything := by
  apply aside
  intro s
  unfold Primer.tick
  cases cfg.limits.stopped s.ticks with
  | some reason => exact ⟨_, .inr ⟨_, rfl⟩, rfl, rfl, rfl⟩
  | none =>
    simp only
    split
    · exact ⟨_, .inr ⟨_, rfl⟩, rfl, rfl, rfl⟩
    · split
      · exact ⟨_, .inl rfl, rfl, rfl, rfl⟩
      · split
        · exact ⟨_, .inl rfl, rfl, rfl, rfl⟩
        · exact ⟨_, .inr ⟨_, rfl⟩, rfl, rfl, rfl⟩

/-- Entering a call leaves the reserve guarded. -/
theorem enterCall (cfg : Setting σ) (i : Info) : Keeps K ℓ (Primer.enterCall cfg i) Anything := by
  apply aside
  intro s
  unfold Primer.enterCall
  split
  · exact ⟨_, .inr ⟨_, rfl⟩, rfl, rfl, rfl⟩
  · exact ⟨_, .inl rfl, rfl, rfl, rfl⟩

/-- Leaving a call leaves the reserve guarded. -/
theorem leaveCall : Keeps K ℓ (Primer.leaveCall : Run σ Unit) Anything :=
  aside fun _ => ⟨_, .inl rfl, rfl, rfl, rfl⟩

/-! ### Values out of places -/

section Hosts

variable (hhosts : cfg.hosts.Apart) (hK : K.checked = !cfg.isRaw)

include hhosts

/-- What a standard host variable holds may be taken. -/
theorem readHost (e : Expr) {w : HostVariable} (hw : w.key.isStandard = true) :
    Keeps K ℓ (Primer.readHost cfg e w) (Value.Taken K) := by
  constructor
  intro s hs
  obtain ⟨answer, host, hget, hanswer⟩ := hhosts.get w.key s.host s.memory hw
  have hs' : ({ s with host := host } : RunState σ).Guards K ℓ := hs.congr rfl rfl rfl
  unfold Primer.readHost
  rw [hget]
  cases answer with
  | ok v =>
    obtain ⟨hbasic, husable⟩ := hanswer v rfl
    refine .done hs' ?_
    cases v
    case number | string | boolean => exact .of_isUsable husable trivial
    all_goals cases hbasic
  | error f => exact (hostFailed e.info (fun _ => fails) f).run _ hs'

include hK

/-- Without checks a given place gives a value that may be taken. -/
theorem takeUnchecked (hraw : cfg.isRaw = true) (e : Expr) {v : Value} (hv : v.Given K) :
    Keeps K ℓ (Primer.takeUnchecked cfg e v) (Value.Taken K) := by
  have hfalse : K.checked = false := by rw [hK, hraw, Bool.not_true]
  have htaken {w : Value} (hw : w.Stored K) : w.Taken K := ⟨hw, fun h => absurd (hfalse.symm.trans h) Bool.false_ne_true⟩
  have hnull : (Value.null).Stored K := ⟨by rw [hfalse]; rfl, trivial⟩
  cases v
  case absent => exact absurd rfl hv.present
  case hostVariable w => exact readHost hhosts e (hv.standard w rfl)
  case cell r =>
    apply asks
    intro s hs
    refine htaken ?_
    rcases hs.read (hv.free r rfl) with habsent | hstored
    · rw [habsent]
      exact .undefined
    · generalize s.memory.read r = w at hstored
      cases w
      case absent => exact .undefined
      all_goals exact hstored
  case arrayLength a => exact asks fun _ _ => htaken (.of_isBasic rfl)
  case textLength t => exact pure (htaken (.of_isBasic rfl))
  case null => exact pure (htaken hnull)
  case undefined | pending => exact pure (htaken .undefined)
  case function f => exact pure (htaken ⟨rfl, hv.only⟩)
  all_goals exact pure (htaken ⟨rfl, trivial⟩)

omit hK in
/-- With checks a given value, or the absence of one, gives a value that may be taken. -/
theorem takeChecked (e : Expr) {v : Value} (hv : v.Given K ∨ v = .absent) (hcell : ∀ r, v ≠ .cell r) :
    Keeps K ℓ (Primer.takeChecked cfg e v) (Value.Taken K) := by
  rcases hv with hv | rfl
  · cases v
    case cell r => exact absurd rfl (hcell r)
    case hostVariable w => exact readHost hhosts e (hv.standard w rfl)
    case arrayLength a =>
      apply asks
      intro s _
      exact .of_isUsable (Number.isFinite_ofLength _) trivial
    case textLength t => exact pure (.of_isUsable (Number.isFinite_ofLength _) trivial)
    case number x =>
      refine ite (fun hfinite => pure (.of_isUsable hfinite trivial)) ?_
      intro _
      exact fails
    case absent | undefined | null | pending => exact fails
    case function f => exact pure (.of_isUsable rfl hv.only)
    all_goals exact pure (.of_isUsable rfl trivial)
  · exact fails

/-- What is taken out of a place may be stored, and with checks it is usable. -/
theorem take (e : Expr) {v : Value} (hv : v.Given K) : Keeps K ℓ (Primer.take cfg e v) (Value.Taken K) := by
  refine ite (fun hraw => takeUnchecked hhosts hK hraw e hv) ?_
  intro _
  refine of_eq (y := fun s => Primer.takeChecked cfg e (opened s.memory v)) ?_ fun _ => rfl
  intro s hs
  cases v
  case cell r =>
    have hread := hs.read (hv.free r rfl)
    apply takeChecked hhosts e (hread.symm.imp_left Value.Stored.given)
    intro r' hr'
    change s.memory.read r = .cell r' at hr'
    rw [hr'] at hread
    rcases hread with habsent | hstored
    · cases habsent
    · cases hstored.kind
  all_goals exact takeChecked hhosts e (.inl hv) nofun

/-- Given places that are taken one after the other give values that may be taken. -/
theorem takeAll (es : List Expr) {vs : List Value} (hvs : ∀ v ∈ vs, v.Given K) :
    Keeps K ℓ (Primer.takeAll cfg es vs) fun ws => ∀ w ∈ ws, w.Taken K := by
  fun_induction Primer.takeAll cfg es vs with
  | case1 e es v vs ih =>
    obtain ⟨hv, hvs⟩ := List.forall_mem_cons.mp hvs
    apply bind (take hhosts hK e hv)
    intro w hw
    apply bind (ih hvs)
    intro ws hws
    exact pure (List.forall_mem_cons.mpr ⟨hw, hws⟩)
  | case2 => exact pure fun w hw => absurd hw List.not_mem_nil

/-! ### Places -/

/-- A member of a given object is given. -/
theorem memberAction (i : Info) (object : Expr) (property : String) {o : Value} (ho : o.Given K) :
    Keeps K ℓ (Primer.memberAction cfg i object property o) (Value.Given K) := by
  apply bind (take hhosts hK object ho)
  intro v hv
  clear hv
  have hmember : Keeps K ℓ (Run.asks fun s => memberOf? cfg s property v)
      fun found => ∀ m, found = some (some m) → m.Given K := by
    apply asks
    intro s _ m hm
    cases v
    case object key =>
      rcases hhosts.member s.host key property m (Option.some.inj hm) with ⟨f, rfl⟩ | ⟨w, rfl, hw⟩
      · exact .plain nofun nofun nofun nofun
      · refine ⟨nofun, trivial, nofun, ?_⟩
        rintro _ ⟨⟩
        exact hw
    case array ref =>
      simp only [memberOf?, Option.some.injEq] at hm
      split at hm <;> cases hm
      exact .plain nofun nofun nofun nofun
    case string t =>
      simp only [memberOf?, Option.some.injEq] at hm
      split at hm <;> cases hm
      exact .plain nofun nofun nofun nofun
    all_goals cases hm
  apply bind hmember
  intro found hfound
  rcases found with _ | (_ | m)
  · exact fails
  · refine ite (fun _ => pure (.plain nofun nofun nofun nofun)) ?_
    intro _
    exact fails
  · exact pure (hfound m rfl)

/-- An element that is looked at lies in an array, or behind its end. -/
theorem elementAction (i : Info) (base position : Expr) {a j : Value} (ha : a.Given K) (hj : j.Given K) :
    Keeps K ℓ (Primer.elementAction cfg i base position a j) (Value.Given K) := by
  rw [elementAction_eq]
  apply bind (take hhosts hK base ha)
  intro v hv
  apply bind (take hhosts hK position hj)
  intro p hp
  clear hv hp
  have hundefined : (Value.undefined).Given K := .plain nofun nofun nofun nofun
  have hrefused (message : String) : Keeps K ℓ
      (if cfg.isRaw then Pure.pure .undefined else Run.raise .type i message : Run σ Value) (Value.Given K) :=
    ite (fun _ => pure hundefined) fun _ => fails
  cases p
  case number x =>
    refine ite (fun _ => hrefused _) ?_
    intro _
    refine ite (fun _ => hrefused _) ?_
    intro _
    cases v
    case array ref =>
      apply onMemory (fun m => (m.grown_slot .undefined ref (indexOf x)).1)
      intro s hs
      obtain ⟨hgrown, hplace⟩ := s.memory.grown_slot (Q := Value.Stored K) .undefined ref (indexOf x)
      have hkept := hs.onMemory hgrown
      have hfree (r : CellRef) (hr : (s.memory.slot ref (indexOf x)).1 = .cell r) : K.cell r = none := by
        rcases hplace r hr with hlinked | hnew
        · exact hkept.unlinked r hlinked
        · exact hs.cell_of_size_le hnew
      clear hplace hgrown hkept
      unfold Memory.slot at hfree ⊢
      split
      · exact .plain nofun nofun nofun nofun
      · rename_i r hslot
        rw [hslot] at hfree
        refine ⟨nofun, trivial, ?_, nofun⟩
        rintro _ ⟨⟩
        exact hfree r rfl
      · rename_i hslot
        rw [hslot] at hfree
        refine ⟨nofun, trivial, ?_, nofun⟩
        rintro _ ⟨⟩
        exact hfree _ rfl
    all_goals exact fails
  all_goals exact hrefused _

end Hosts

/-- Refusing to assign fails. -/
theorem cannotAssign {P : α → Prop} (i : Info) (target : Expr) (v : Value) :
    Keeps K ℓ (Primer.cannotAssign i target v : Run σ α) P := by
  rw [cannotAssign_eq]
  exact fails

/-- A place that is not set apart can be assigned to. -/
theorem assignPlace (i : Info) (target : Expr) {place v : Value} (hplace : place.Given K) (hv : v.Stored K) :
    Keeps K ℓ (Primer.assignPlace i target place v : Run σ Unit) Anything := by
  rw [assignPlace_eq]
  cases place
  case cell r => exact ⟨fun s hs => .done (hs.write (hplace.free r rfl) hv) trivial⟩
  case pending a j =>
    constructor
    intro s hs
    simp only
    cases hset : s.memory.setSlot a j v with
    | none => exact .failed hs
    | some m => exact .done (hs.onMemory (Memory.grown_setSlot hv hset)) trivial
  case arrayLength a =>
    constructor
    intro s hs
    simp only
    cases hset : s.memory.setLength a v with
    | error f => cases f <;> exact .failed hs
    | ok m => exact .done (hs.onMemory (Memory.grown_setLength hset)) trivial
  all_goals exact cannotAssign i target v

/-- A name of the level gives a given place. -/
theorem nameAction (i : Info) {x : String} (hx : K.names ℓ x) :
    Keeps K ℓ (Primer.nameAction i x : Run σ Value) (Value.Given K) := by
  constructor
  intro s hs
  unfold Primer.nameAction
  cases hfound : s.find? x with
  | some v => exact .done hs (hs.find hx hfound)
  | none => exact .failed hs

/-- A name of the level may be declared with a value that may be stored. -/
theorem declareName {x : String} (hx : K.names ℓ x) {v : Value} (hv : v.Stored K) :
    Keeps K ℓ (Primer.declareName x v : Run σ Unit) Anything := by
  have hplace : v.isPlace = false := by
    have hkind := hv.kind
    cases v
    case cell | hostVariable | arrayLength | textLength | pending => cases hkind
    all_goals rfl
  constructor
  intro s hs
  have hdeclared := hs.declare hx hv
  unfold Primer.declareName Scope.declare Memory.place
  rw [hplace]
  exact .done hdeclared trivial

/-! ### Operators and tests -/

/-- The value of a binary operation may be stored. -/
theorem binaryValue (cfg : Setting σ) (i : Info) (symbol : String) (a b : Value) :
    Keeps K ℓ (Primer.binaryValue cfg i symbol a b) (Value.Stored K) := by
  refine ite ?_ ?_
  · intro _
    refine asks ?_
    intro s _
    rcases s.memory.isBasic_unchecked symbol a b with hbasic | hundefined
    · exact .of_isBasic hbasic
    · rw [hundefined]
      exact .undefined
  · intro _
    refine bind (P := fun result => ∀ v, result = .ok v → v.Stored K)
      (asks fun s _ v hv => .of_isBasic (Memory.isBasic_of_checked hv)) ?_
    rintro (r | v) hvalue
    · exact fails
    · exact pure (hvalue v rfl)

/-- The value of a sign may be stored. -/
theorem unaryValue (cfg : Setting σ) (i : Info) (symbol : String) (x : Value) :
    Keeps K ℓ (Primer.unaryValue cfg i symbol x) (Value.Stored K) := by
  refine ite (fun _ => asks fun s _ => .of_isBasic (s.memory.isBasic_uncheckedUnary symbol x)) ?_
  intro _
  refine bind (P := fun result => ∀ v, result = .ok v → v.Stored K)
    (asks fun s _ v hv => .of_isBasic (Memory.isBasic_of_checkedUnary hv)) ?_
  rintro (r | v) hvalue
  · exact fails
  · exact pure (hvalue v rfl)

/-- The value that an increment or decrement writes may be stored. -/
theorem bumped (cfg : Setting σ) (i : Info) (symbol : String) (v : Value) :
    Keeps K ℓ (Primer.bumped cfg i symbol v) (Value.Stored K) := by
  refine ite (fun _ => asks fun _ _ => .of_isBasic rfl) ?_
  intro _
  cases v
  case number x => exact pure (.of_isBasic rfl)
  all_goals exact fails

/-- A test only reads. -/
theorem testValue (cfg : Setting σ) (i : Info) (tag : String) (v : Value) :
    Keeps K ℓ (Primer.testValue cfg i tag v) Anything := by
  refine ite (fun _ => asks fun _ _ => trivial) ?_
  intro _
  cases v
  case boolean b => exact pure trivial
  all_goals exact bind (P := Anything) (asks fun _ _ => trivial) fun _ _ => fails

/-- What is bound to a parameter was given for it, or is undefined. -/
theorem bindParams (cfg : Setting σ) (i : Info) (ps : List String) {args : List Value}
    (hargs : ∀ v ∈ args, v.Stored K) :
    Keeps K ℓ (Primer.bindParams cfg i ps args) fun bound => ∀ e ∈ bound, e.2.Stored K := by
  induction ps generalizing args with
  | nil => exact pure fun e he => absurd he List.not_mem_nil
  | cons p ps ih =>
    have hfirst : (args.headD .undefined).Stored K := by
      cases args with
      | nil => exact .undefined
      | cons v vs => exact hargs v List.mem_cons_self
    have hparam : Keeps K ℓ (bindParam cfg i p (args.headD .undefined)) (Value.Stored K) := by
      refine ite (fun _ => pure hfirst) ?_
      intro _
      generalize args.headD .undefined = v at hfirst
      cases v <;> first | exact fails | exact pure hfirst
    apply bind hparam
    intro v hv
    apply bind (ih fun w hw => hargs w (List.mem_of_mem_tail hw))
    intro rest hrest
    exact pure (List.forall_mem_cons.mpr ⟨hv, hrest⟩)

end Run.Keeps

end Primer
