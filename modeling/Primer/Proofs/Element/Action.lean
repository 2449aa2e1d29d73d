import Primer.Host.Standard
import Primer.Proofs.Element.Memory
import Primer.Proofs.Locals.State
import Primer.Proofs.Realm.Basic

/-!
# Actions that leave elements in their cells

What an action takes out of a place is settled: it is never a pending element, and it is no array that memory does not
have. So nothing else gets into memory, and nothing else is bound to a name. As more arrays come up in a run, more
values are settled; what is said of the result of a computation depends on the number of arrays at its end.

All actions of the evaluator carry along what is watched, with two exceptions that the assignment to a place comes
down to (`Run.Carries.assignPlace`): the place must not be the pending one of the element that is watched, and the
length that an array is given must leave room for it. Hosts may change memory and call functions back. They are orderly
if they hand out settled values only, and move no element out of its cell but by cutting off its array.
-/

set_option autoImplicit false

namespace Primer

open Run

variable {σ α β : Type} {W : Watch σ}

/-! ## States -/

/-- Memory is settled, and so is all that names are bound to and what hosts hold. -/
structure RunState.Settled (H : Holding σ) (s : RunState σ) : Prop where
  memory : s.memory.Settled
  bound : ∀ ℓ x v, s.binding ℓ x = some v → v.Settled s.memory.arrays.size
  hosts : H.holds s.host s.memory.arrays.size

/-- A settled state with what is watched in its memory. -/
structure RunState.Carries (W : Watch σ) (s : RunState σ) : Prop where
  memory : s.memory.Carries W
  bound : ∀ ℓ x v, s.binding ℓ x = some v → v.Settled s.memory.arrays.size
  hosts : W.hosts.holds s.host s.memory.arrays.size

/-- What is watched may be chosen in any settled state. -/
theorem RunState.Settled.carries {s : RunState σ} (h : s.Settled W.hosts) (harrays : W.arrays ≤ s.memory.arrays.size)
    (helement : ∀ x ∈ W.element, s.memory.Has x) : s.Carries W := ⟨⟨h.memory, harrays, helement⟩, h.bound, h.hosts⟩

/-- It may be that nothing but hosts is watched. -/
theorem RunState.Settled.start {H : Holding σ} {s : RunState σ} (h : s.Settled H) : s.Carries (.ofArrays 0 H) :=
  h.carries (Nat.zero_le _) nofun

namespace RunState.Carries

variable {s u : RunState σ}

/-- All arrays that are there may be watched. -/
theorem upTo (h : s.Carries W) : s.Carries (W.upTo s.memory.arrays.size) :=
  ⟨⟨h.memory.settled, Nat.le_refl _, h.memory.element⟩, h.bound, h.hosts⟩

/-- A state that keeps to a watch up to a later number of arrays keeps to the watch. -/
theorem of_upTo {k : Nat} (h : s.Carries (W.upTo k)) (hk : W.arrays ≤ k) : s.Carries W :=
  ⟨⟨h.memory.settled, Nat.le_trans hk h.memory.arrays, h.memory.element⟩, h.bound, h.hosts⟩

variable (h : s.Carries W)

include h

/-- In a state that keeps to a watch every value is settled. -/
theorem settled : s.Settled W.hosts := ⟨h.memory.settled, h.bound, h.hosts⟩

/-- Hosts change what they hold, and memory. -/
theorem onHosts {host : σ} {m : Memory} (hm : m.Carries W) (harrays : s.memory.arrays.size ≤ m.arrays.size)
    (hhost : W.hosts.holds host m.arrays.size) : ({ s with host := host, memory := m } : RunState σ).Carries W :=
  ⟨hm, fun ℓ x v hx => (h.bound ℓ x v hx).mono harrays, hhost⟩

/-- A memory that keeps to the watch and loses no array may take the place of the old one. -/
theorem onMemory {m : Memory} (hm : m.Carries W) (harrays : s.memory.arrays.size ≤ m.arrays.size) :
    ({ s with memory := m } : RunState σ).Carries W := h.onHosts hm harrays (W.hosts.mono _ _ _ harrays h.hosts)

/-- A memory that only advanced keeps to the watch. -/
theorem advances {m : Memory} (hm : s.memory.Advances m) : ({ s with memory := m } : RunState σ).Carries W :=
  h.onMemory (h.memory.advances hm) hm.arrays

/-- Only memory, names and hosts count. -/
theorem congr (hmemory : u.memory = s.memory) (hframes : u.frames = s.frames) (hglobals : u.globals = s.globals)
    (hhost : u.host = s.host) : u.Carries W := by
  refine ⟨?_, ?_, ?_⟩
  · rw [hmemory]
    exact h.memory
  · intro ℓ x v hx
    rw [hmemory]
    rw [binding, levels, hframes, hglobals] at hx
    exact h.bound ℓ x v hx
  · rw [hmemory, hhost]
    exact h.hosts

/-- What a name is found to mean is settled. -/
theorem find {name : String} {v : Value} (hv : s.find? name = some v) : v.Settled s.memory.arrays.size := by
  rcases s.binding_of_find hv with hactive | hglobal
  · exact h.bound _ _ _ hactive
  · exact h.bound _ _ _ hglobal

/-- The active scope gets a name for a settled value. -/
theorem bind (name : String) {v : Value} (hv : v.Settled s.memory.arrays.size) :
    (s.withScope (s.scope.bind name v)).Carries W := by
  have hmemory : (s.withScope (s.scope.bind name v)).memory = s.memory := by
    unfold RunState.withScope
    cases s.frames <;> rfl
  have hhost : (s.withScope (s.scope.bind name v)).host = s.host := by
    unfold RunState.withScope
    cases s.frames <;> rfl
  refine ⟨?_, ?_, ?_⟩
  · rw [hmemory]
    exact h.memory
  · intro ℓ x w hx
    rw [hmemory]
    rw [binding_withScope, Scope.find?_bind, ← s.binding_active] at hx
    split at hx
    · split at hx
      · cases hx
        exact hv
      · exact h.bound _ _ _ hx
    · exact h.bound _ _ _ hx
  · rw [hmemory, hhost]
    exact h.hosts

/-- A name may be declared with a settled value. -/
theorem declare (name : String) {v : Value} (hv : v.Settled s.memory.arrays.size) :
    (({ s with memory := (s.scope.declare s.memory name v).2 } : RunState σ).withScope
      (s.scope.declare s.memory name v).1).Carries W := by
  unfold Scope.declare Memory.place
  cases v.isPlace with
  | true => exact h.bind name hv
  | false => exact (h.advances (s.memory.advances_alloc hv)).bind name trivial

/-- A frame may be entered whose names mean settled values. -/
theorem pushFrame (f : UserFunction) {bound : List (String × Value)}
    (hbound : ∀ e ∈ bound, e.2.Settled s.memory.arrays.size) (label : String) :
    (Primer.pushFrame f bound label s).Carries W := by
  have hvalues : ∀ v ∈ bound.map Prod.snd, v.Settled s.memory.arrays.size := by
    intro v hv
    obtain ⟨e, he, rfl⟩ := List.mem_map.mp hv
    exact hbound e he
  refine ⟨h.memory.advances (s.memory.advances_allocAll hvalues), ?_, h.hosts⟩
  intro ℓ x v hx
  let refs := (s.memory.allocAll (bound.map Prod.snd)).1
  let scope := ((bound.map Prod.fst).zip refs).foldl (fun sc e => sc.bind e.1 (.cell e.2)) Scope.empty
  have hcons := s.binding_cons ⟨scope, label, s.calls.headD f.info.token⟩
    (s.memory.allocAll (bound.map Prod.snd)).2 ℓ x
  have hfound := hcons.symm.trans hx
  split at hfound
  case isTrue =>
    rcases Moves.find_bindCells hfound with ⟨r, -, rfl⟩ | hempty
    · exact trivial
    · cases hempty
  case isFalse => exact h.bound _ _ _ hfound

/-- Leaving a function keeps to the watch. -/
theorem leaveFunction : (Primer.leaveFunction s).Carries W :=
  ⟨h.memory, fun ℓ x v hx => h.bound ℓ x v (s.binding_leaveFunction hx), h.hosts⟩

/-- What is taken out of a cell is settled. -/
theorem spares_opened {v : Value} (hv : v.Spares W) :
    (opened s.memory v).Spares (W.upTo s.memory.arrays.size) := by
  cases v
  case cell r => exact (h.memory.settled.read r).spares
  case array a => exact Nat.lt_of_lt_of_le hv h.memory.arrays
  all_goals exact hv

end RunState.Carries

/-! ## Computations -/

/-- An outcome whose state carries what is watched. What is said of its value may depend on the number of arrays. -/
inductive Outcome.Carries (W : Watch σ) (Q : Nat → α → Prop) : Outcome σ α → Prop where
  | done {a s} (hs : s.Carries W) (ha : Q s.memory.arrays.size a) : Carries W Q (.done a s)
  | failed {e s} (hs : s.Carries W) : Carries W Q (.failed e s)
  | exhausted : Carries W Q .exhausted

/-- An outcome that keeps to a watch up to a later number of arrays keeps to the watch. -/
theorem Outcome.Carries.of_upTo {Q : Nat → α → Prop} {o : Outcome σ α} {k : Nat} (h : o.Carries (W.upTo k) Q)
    (hk : W.arrays ≤ k) : o.Carries W Q := by
  cases h with
  | done hs ha => exact .done (hs.of_upTo hk) ha
  | failed hs => exact .failed (hs.of_upTo hk)
  | exhausted => exact .exhausted

/-- A computation that carries along what is watched. -/
structure Run.Carries (W : Watch σ) (x : Run σ α) (Q : Nat → α → Prop) : Prop where
  run : ∀ s, s.Carries W → (x s).Carries W Q

namespace Run.Carries

variable {P : Nat → α → Prop} {Q : Nat → β → Prop}

/-- What is done from a state that keeps to the watch leaves one that does. -/
theorem done {x : Run σ α} (hx : Carries W x P) {s u : RunState σ} {a : α} (hs : s.Carries W) (h : x s = .done a u) :
    u.Carries W ∧ P u.memory.arrays.size a := by
  have hxs := hx.run s hs
  rw [h] at hxs
  cases hxs with
  | done hu ha => exact ⟨hu, ha⟩

/-- A value that meets the condition is given without touching the state. -/
theorem value {a : α} (h : ∀ k, W.arrays ≤ k → P k a) : Carries W (Run.value a : Run σ α) P :=
  ⟨fun _ hs => .done hs (h _ hs.memory.arrays)⟩

/-- A value that meets the condition is given without touching the state. -/
theorem pure {a : α} (h : ∀ k, W.arrays ≤ k → P k a) : Carries W (Pure.pure a : Run σ α) P := value h

/-- What is read off a state meets the condition that all states give. -/
theorem asks {f : RunState σ → α} (h : ∀ s, s.Carries W → P s.memory.arrays.size (f s)) :
    Carries W (Run.asks f) P := ⟨fun s hs => .done hs (h s hs)⟩

/-- A failure keeps the state. -/
theorem fails {f : RunState σ → Failure} : Carries W (fun s => .failed (f s) s : Run σ α) P :=
  ⟨fun _ hs => .failed hs⟩

/-- A step of the memory that advances it keeps to the watch. -/
theorem onMemory {f : Memory → α × Memory}
    (h : ∀ m : Memory, m.Carries W → m.Advances (f m).2 ∧ P (f m).2.arrays.size (f m).1) :
    Carries W (Run.onMemory f : Run σ α) P := by
  constructor
  intro s hs
  obtain ⟨hadvances, hvalue⟩ := h s.memory hs.memory
  exact .done (hs.advances hadvances) hvalue

/-- What follows a computation may rely on the arrays that are there by then. -/
theorem bind {x : Run σ α} {f : α → Run σ β} (hx : Carries W x P)
    (hf : ∀ k, W.arrays ≤ k → ∀ a, P k a → Carries (W.upTo k) (f a) Q) : Carries W (x >>= f) Q := by
  constructor
  intro s hs
  have hxs := hx.run s hs
  show (Run.andThen x f s).Carries W Q
  unfold Run.andThen
  generalize x s = o at hxs
  cases hxs with
  | done hu ha => exact ((hf _ hu.memory.arrays _ ha).run _ hu.upTo).of_upTo hu.memory.arrays
  | failed hu => exact .failed hu
  | exhausted => exact .exhausted

/-- A choice keeps to the watch if both sides do. -/
theorem ite {c : Prop} [Decidable c] {x y : Run σ α} (hx : Carries W x P) (hy : Carries W y P) :
    Carries W (if c then x else y) P := by
  by_cases h : c
  · rw [if_pos h]
    exact hx
  · rw [if_neg h]
    exact hy

/-- What a computation does in a state may be what another one does there. -/
theorem of_eq {x : Run σ α} {y : RunState σ → Run σ α}
    (hy : ∀ s, s.Carries W → Carries (W.upTo s.memory.arrays.size) (y s) P) (h : ∀ s, x s = y s s) :
    Carries W x P := by
  constructor
  intro s hs
  rw [h]
  exact ((hy s hs).run s hs.upTo).of_upTo hs.memory.arrays

/-- A note that is made on a failure keeps to the watch if the note does. -/
theorem onFailure {x : Run σ α} {note : Run σ Unit} {N : Nat → Unit → Prop} (hx : Carries W x P)
    (hnote : Carries W note N) : Carries W (Run.onFailure x note) P := by
  constructor
  intro s hs
  have hxs := hx.run s hs
  unfold Run.onFailure
  generalize x s = o at hxs
  cases hxs with
  | done hu ha => exact .done hu ha
  | @failed e u hu =>
    have hnoted := hnote.run u hu
    simp only
    generalize note u = o at hnoted
    cases hnoted with
    | done hv _ => exact .failed hv
    | failed hv => exact .failed hv
    | exhausted => exact .exhausted
  | exhausted => exact .exhausted

/-- A computation that leaves memory, names and hosts as they are. -/
theorem aside {x : Run σ Unit} (h : ∀ s, ∃ u : RunState σ, (x s = .done () u ∨ ∃ e, x s = .failed e u) ∧
    u.memory = s.memory ∧ u.frames = s.frames ∧ u.globals = s.globals ∧ u.host = s.host) :
    Carries W x fun _ => Anything := by
  constructor
  intro s hs
  obtain ⟨u, hu | ⟨e, hu⟩, hmemory, hframes, hglobals, hhost⟩ := h s
  · rw [hu]
    exact .done (hs.congr hmemory hframes hglobals hhost) trivial
  · rw [hu]
    exact .failed (hs.congr hmemory hframes hglobals hhost)

end Run.Carries

/-! ## Hosts -/

/-- An answer that is settled, if it is a value. -/
abbrev Settles (k : Nat) {ε : Type} (answer : Except ε Value) : Prop := ∀ v, answer = .ok v → v.Settled k

/-- A settled value is a settled answer. -/
theorem settles_ok {k : Nat} {ε : Type} {v : Value} (h : v.Settled k) : Settles k (Except.ok v : Except ε Value) := by
  rintro _ ⟨⟩
  exact h

/-- A refusal has no value that would have to be settled. -/
theorem settles_error {k : Nat} {ε : Type} (e : ε) : Settles k (Except.error e) := by
  intro v h
  cases h

/-- What a host does, from a memory on: it hands out settled values, elements lose their cells only where it cuts off
their array, and what is known of the arrays that it holds stays true. -/
def HostAction.Orderly (H : Holding σ) : HostAction σ → Memory → Prop
  | .finish answer host memory, m =>
    Settles memory.arrays.size answer ∧ m.Trims memory ∧ H.holds host memory.arrays.size
  | .callBack _ args host memory next, m =>
    (∀ v ∈ args, v.Settled memory.arrays.size) ∧ m.Trims memory ∧ H.holds host memory.arrays.size ∧
      ∀ answer view host memory, Settles memory.arrays.size answer → H.holds host memory.arrays.size →
        (next answer view host memory).Orderly H memory

/-- Hosts that hand out settled values. Their functions may cut off arrays but move no element that is left, and reading
their variables leaves all elements where they are. Something is known of the arrays that they hold, and it stays
true. -/
structure Hosts.Orderly (H : Holding σ) (hosts : Hosts σ) : Prop where
  member : ∀ host o name v k, H.holds host k → hosts.member host o name = some v → v.Settled k
  call : ∀ key view host memory args, H.holds host memory.arrays.size →
    (∀ v ∈ args, v.Settled memory.arrays.size) → (hosts.call key view host memory args).Orderly H memory
  get : ∀ key host memory, H.holds host memory.arrays.size → ∃ answer host' memory',
    hosts.get key host memory = (answer, host', memory') ∧ Settles memory'.arrays.size answer ∧
      memory.Advances memory' ∧ H.holds host' memory'.arrays.size
  set : ∀ key view host memory v, H.holds host memory.arrays.size → v.Settled memory.arrays.size →
    ∀ action ∈ hosts.set key view host memory v, action.Orderly H memory

/-! ## Actions of the evaluator -/

namespace Run.Carries

variable {cfg : Setting σ} {P : Nat → α → Prop}

/-- The failure of a host keeps to the watch, however a breakdown is reported. -/
theorem hostFailed (i : Info) {broken : String → Run σ α} (hbroken : ∀ text, Carries W (broken text) P)
    (f : HostFailure) : Carries W (Primer.hostFailed i broken f) P := by
  rcases f with text | (f | text | b) | text
  · exact fails
  · exact fails
  · exact fails
  · exact hbroken b.text
  · exact hbroken text

/-- A host that is finished. -/
theorem finish (n depth : Nat) (i : Info) (use : HostUse) {answer : Except HostFailure Value} {host : σ}
    {memory : Memory} {s : RunState σ} (hs : ({ s with host := host, memory := memory } : RunState σ).Carries W)
    (hanswer : Settles memory.arrays.size answer) :
    (runHost cfg (n + 1) depth i use (.finish answer host memory) s).Carries W Value.Settled := by
  cases answer with
  | ok v => exact .done hs (hanswer v rfl)
  | error f =>
    have hbroken (text : String) : Carries W (use.broken i text : Run σ Value) Value.Settled := by
      cases use <;> exact fails
    exact (hostFailed i hbroken f).run _ hs

/-! ### Records -/

/-- Recording a command leaves the memory alone. -/
theorem record (cfg : Setting σ) (i : Info) (tag : String) :
    Carries W (Primer.record cfg i tag) fun _ => Anything := by
  refine ite (pure fun _ _ => trivial) (bind (P := fun _ => Anything) (aside ?_) ?_)
  · intro s
    exact ⟨_, .inl rfl, rfl, rfl, rfl, rfl⟩
  · intro _ _ _ _
    exact ite (pure fun _ _ => trivial) fails

/-- Narrating a step leaves the memory alone. -/
theorem narrate (cfg : Setting σ) (category : Category) (node : NodeId) (message : Memory → String)
    (changes : Unit → List Change) :
    Carries W (Primer.narrate cfg category node message changes) fun _ => Anything :=
  ite (aside fun _ => ⟨_, .inl rfl, rfl, rfl, rfl, rfl⟩) (pure fun _ _ => trivial)

/-- Counting a statement leaves the memory alone. -/
theorem tick (cfg : Setting σ) (i : Info) : Carries W (Primer.tick cfg i) fun _ => Anything := by
  apply aside
  intro s
  unfold Primer.tick
  cases cfg.limits.stopped s.ticks with
  | some reason => exact ⟨_, .inr ⟨_, rfl⟩, rfl, rfl, rfl, rfl⟩
  | none =>
    simp only
    split
    · exact ⟨_, .inr ⟨_, rfl⟩, rfl, rfl, rfl, rfl⟩
    · split
      · exact ⟨_, .inl rfl, rfl, rfl, rfl, rfl⟩
      · split
        · exact ⟨_, .inl rfl, rfl, rfl, rfl, rfl⟩
        · exact ⟨_, .inr ⟨_, rfl⟩, rfl, rfl, rfl, rfl⟩

/-- Entering a call leaves the memory alone. -/
theorem enterCall (cfg : Setting σ) (i : Info) : Carries W (Primer.enterCall cfg i) fun _ => Anything := by
  apply aside
  intro s
  unfold Primer.enterCall
  split
  · exact ⟨_, .inr ⟨_, rfl⟩, rfl, rfl, rfl, rfl⟩
  · exact ⟨_, .inl rfl, rfl, rfl, rfl, rfl⟩

/-- Leaving a call leaves the memory alone. -/
theorem leaveCall : Carries W (Primer.leaveCall : Run σ Unit) fun _ => Anything :=
  aside fun _ => ⟨_, .inl rfl, rfl, rfl, rfl, rfl⟩

/-! ### Values out of places -/

/-- A settled value is settled as it is presented. -/
theorem settled_present {k : Nat} {v : Value} (h : v.Settled k) : (present v).Settled k := by
  cases v
  case absent => exact trivial
  all_goals exact h

section Hosts

variable (hhosts : cfg.hosts.Orderly W.hosts)

include hhosts

/-- What a host variable holds is settled. -/
theorem readHost (e : Expr) (w : HostVariable) : Carries W (Primer.readHost cfg e w) Value.Settled := by
  constructor
  intro s hs
  obtain ⟨answer, host, memory, hget, hanswer, hmemory, hhost⟩ := hhosts.get w.key s.host s.memory hs.hosts
  unfold Primer.readHost
  rw [hget]
  have hs' := hs.onHosts (hs.memory.advances hmemory) hmemory.arrays hhost
  cases answer with
  | ok v => exact .done hs' (settled_present (hanswer v rfl))
  | error f => exact (hostFailed e.info (fun _ => fails) f).run _ hs'

/-- A place that is taken without checks gives a settled value. -/
theorem takeUnchecked (e : Expr) {v : Value} (hv : v.Spares W) :
    Carries W (Primer.takeUnchecked cfg e v) Value.Settled := by
  cases v
  case hostVariable w => exact readHost hhosts e w
  case cell r => exact asks fun s hs => settled_present (hs.memory.settled.read r)
  case arrayLength a => exact asks fun _ _ => trivial
  case array a => exact pure fun _ hk => Nat.lt_of_lt_of_le hv hk
  all_goals exact pure fun _ _ => trivial

/-- A place that is taken with checks gives a settled value. -/
theorem takeChecked (e : Expr) {v : Value} (hv : v.Spares W) :
    Carries W (Primer.takeChecked cfg e v) Value.Settled := by
  cases v
  case hostVariable w => exact readHost hhosts e w
  case arrayLength a => exact asks fun _ _ => trivial
  case number x => exact ite (pure fun _ _ => trivial) fails
  case array a => exact pure fun _ hk => Nat.lt_of_lt_of_le hv hk
  case absent | undefined | null | pending => exact fails
  all_goals exact pure fun _ _ => trivial

/-- What is taken out of a place is settled, whatever the place is. -/
theorem take (e : Expr) {v : Value} (hv : v.Spares W) : Carries W (Primer.take cfg e v) Value.Settled :=
  ite (takeUnchecked hhosts e hv)
    (of_eq (y := fun s => Primer.takeChecked cfg e (opened s.memory v))
      (fun s hs => takeChecked (W := W.upTo s.memory.arrays.size) hhosts e (hs.spares_opened hv)) fun _ => rfl)

/-- Places that are taken one after the other give settled values. -/
theorem takeAll (es : List Expr) (vs : List Value) (hvs : ∀ v ∈ vs, v.Spares W) :
    Carries W (Primer.takeAll cfg es vs) fun k ws => ∀ w ∈ ws, w.Settled k := by
  fun_induction Primer.takeAll cfg es vs generalizing W with
  | case1 e es v vs ih =>
    obtain ⟨hv, hvs⟩ := List.forall_mem_cons.mp hvs
    apply bind (take hhosts e hv)
    intro k hk w hw
    apply bind (ih (W := W.upTo k) hhosts fun v hv => (hvs v hv).mono hk)
    intro k' hk' ws hws
    apply pure
    intro k'' hk''
    exact List.forall_mem_cons.mpr ⟨hw.mono (Nat.le_trans hk' hk''), fun w hw => (hws w hw).mono hk''⟩
  | case2 => exact pure fun _ _ w hw => absurd hw List.not_mem_nil

/-! ### Places -/

/-- A member of an object is settled. -/
theorem memberAction (i : Info) (object : Expr) (property : String) {o : Value} (ho : o.Spares W) :
    Carries W (Primer.memberAction cfg i object property o) Value.Settled := by
  apply bind (take hhosts object ho)
  intro k hk v hv
  clear hv
  have hmember : Carries (W.upTo k) (Run.asks fun s => memberOf? cfg s property v)
      fun k' found => ∀ m, found = some (some m) → m.Settled k' := by
    apply asks
    intro s hs m hm
    cases v
    case object key => exact hhosts.member s.host key property m _ hs.hosts (Option.some.inj hm)
    case array ref =>
      simp only [memberOf?, Option.some.injEq] at hm
      split at hm <;> cases hm
      exact trivial
    case string t =>
      simp only [memberOf?, Option.some.injEq] at hm
      split at hm <;> cases hm
      exact trivial
    all_goals cases hm
  apply bind hmember
  intro k' _ found hfound
  rcases found with _ | (_ | m)
  · exact fails
  · exact ite (pure fun _ _ => trivial) fails
  · exact pure fun _ hk'' => (hfound m rfl).mono hk''

/-- The place of an element is not the pending one of the element that is watched, which has its cell. -/
theorem elementAction (i : Info) (base position : Expr) {a j : Value} (ha : a.Spares W) (hj : j.Spares W) :
    Carries W (Primer.elementAction cfg i base position a j) fun k => Value.Spares (W.upTo k) := by
  rw [elementAction_eq]
  apply bind (take hhosts base ha)
  intro k hk v hv
  apply bind (take (W := W.upTo k) hhosts position (hj.mono hk))
  intro k' _ p hp
  clear hv hp
  have hrefused (message : String) : Carries (W.upTo k')
      (if cfg.isRaw then Pure.pure .undefined else Run.raise .type i message : Run σ Value)
      fun k => Value.Spares (W.upTo k) :=
    ite (pure fun _ _ => trivial) fails
  cases p
  case number x =>
    refine ite (hrefused _) (ite (hrefused _) ?_)
    cases v
    case array ref =>
      apply onMemory
      intro m hm
      exact ⟨m.advances_slot ref (indexOf x), hm.spares_slot ref (indexOf x) _⟩
    all_goals exact fails
  all_goals exact hrefused _

end Hosts

/-- Refusing to assign fails. -/
theorem cannotAssign (i : Info) (target : Expr) (v : Value) : Carries W (Primer.cannotAssign i target v : Run σ α) P := by
  rw [cannotAssign_eq]
  exact fails

/-- A value is written to a place. The element that is watched stays in its cell unless its array is cut off. -/
theorem assignPlace (i : Info) (target : Expr) {place v : Value} (hplace : place.Spares W) (hv : v.Settled W.arrays)
    {s : RunState σ} (hs : s.Carries W) (hinside : ∀ u, Primer.assignPlace i target place v s = .done () u →
      ∀ x ∈ W.element, x.index < u.memory.size x.array) :
    (Primer.assignPlace i target place v s).Carries W fun _ => Anything := by
  have hthere := hv.mono hs.memory.arrays
  rw [assignPlace_eq] at hinside ⊢
  cases place
  case cell r => exact .done (hs.advances (s.memory.advances_write r hthere)) trivial
  case pending a j =>
    simp only
    cases hset : s.memory.setSlot a j v with
    | none => exact .failed hs
    | some m =>
      have harrays := Nat.le_of_eq (Memory.size_arrays_setSlot hset).symm
      exact .done (hs.onMemory (hs.memory.setSlot hplace hthere hset) harrays) trivial
  case arrayLength a =>
    simp only at hinside ⊢
    cases hset : s.memory.setLength a v with
    | error f => cases f <;> exact .failed hs
    | ok m =>
      rw [hset] at hinside
      have htrims := Memory.trims_setLength hset
      exact .done (hs.onMemory (hs.memory.trims htrims (hinside _ rfl)) htrims.arrays) trivial
  all_goals exact (cannotAssign i target v).run s hs

/-- A name gives a settled place. -/
theorem nameAction (i : Info) (name : String) : Carries W (Primer.nameAction i name : Run σ Value) Value.Settled := by
  constructor
  intro s hs
  unfold Primer.nameAction
  cases hfound : s.find? name with
  | some v => exact .done hs (hs.find hfound)
  | none => exact .failed hs

/-- A new array of settled values is settled. -/
theorem arrayAction {values : List Value} (hvalues : ∀ v ∈ values, v.Settled W.arrays) :
    Carries W (Primer.arrayAction values : Run σ Value) Value.Settled := by
  apply onMemory
  intro m hm
  refine ⟨m.advances_newArray fun v hv => (hvalues v hv).mono hm.arrays, ?_⟩
  show m.arrays.size < (m.newArray values).2.arrays.size
  rw [m.size_arrays_newArray]
  exact Nat.lt_succ_self _

/-- Declaring a name with a settled value keeps to the watch. -/
theorem declareName (name : String) {v : Value} (hv : v.Settled W.arrays) :
    Carries W (Primer.declareName name v : Run σ Unit) fun _ => Anything :=
  ⟨fun _ hs => .done (hs.declare name (hv.mono hs.memory.arrays)) trivial⟩

/-! ### Operators and tests -/

/-- A basic value refers to no array, so it is settled. -/
theorem settled_of_isBasic {k : Nat} {v : Value} (h : v.isBasic = true) : v.Settled k := by
  cases v
  case number | string | boolean => exact trivial
  all_goals cases h

/-- The value of a binary operation is settled. -/
theorem binaryValue (cfg : Setting σ) (i : Info) (symbol : String) (a b : Value) :
    Carries W (Primer.binaryValue cfg i symbol a b) Value.Settled := by
  refine ite (asks ?_) ?_
  · intro s _
    rcases s.memory.isBasic_unchecked symbol a b with hbasic | hundefined
    · exact settled_of_isBasic hbasic
    · rw [hundefined]
      exact trivial
  · refine bind (P := fun k result => ∀ v, result = .ok v → v.Settled k)
      (asks fun s _ v hv => settled_of_isBasic (Memory.isBasic_of_checked hv)) ?_
    rintro k - (r | v) hvalue
    · exact fails
    · exact pure fun _ hk => (hvalue v rfl).mono hk

/-- The value of a sign is settled. -/
theorem unaryValue (cfg : Setting σ) (i : Info) (symbol : String) (x : Value) :
    Carries W (Primer.unaryValue cfg i symbol x) Value.Settled := by
  refine ite (asks fun s _ => settled_of_isBasic (s.memory.isBasic_uncheckedUnary symbol x)) ?_
  refine bind (P := fun k result => ∀ v, result = .ok v → v.Settled k)
    (asks fun s _ v hv => settled_of_isBasic (Memory.isBasic_of_checkedUnary hv)) ?_
  rintro k - (r | v) hvalue
  · exact fails
  · exact pure fun _ hk => (hvalue v rfl).mono hk

/-- The value that an increment or decrement writes is settled. -/
theorem bumped (cfg : Setting σ) (i : Info) (symbol : String) (v : Value) :
    Carries W (Primer.bumped cfg i symbol v) Value.Settled := by
  refine ite (asks fun _ _ => trivial) ?_
  cases v
  case number x => exact pure fun _ _ => trivial
  all_goals exact fails

/-- A test only reads. -/
theorem testValue (cfg : Setting σ) (i : Info) (tag : String) (v : Value) :
    Carries W (Primer.testValue cfg i tag v) fun _ => Anything := by
  refine ite (asks fun _ _ => trivial) ?_
  cases v
  case boolean b => exact pure fun _ _ => trivial
  all_goals exact bind (P := fun _ => Anything) (asks fun _ _ => trivial) fun _ _ _ _ => fails

/-- What is bound to a parameter was given for it, or is undefined. -/
theorem bindParams (cfg : Setting σ) (i : Info) (ps : List String) {args : List Value}
    (hargs : ∀ v ∈ args, v.Settled W.arrays) :
    Carries W (Primer.bindParams cfg i ps args) fun k bound => ∀ e ∈ bound, e.2.Settled k := by
  induction ps generalizing W args with
  | nil => exact pure fun _ _ e he => absurd he List.not_mem_nil
  | cons p ps ih =>
    have hfirst : (args.headD .undefined).Settled W.arrays := by
      cases args with
      | nil => exact trivial
      | cons v vs => exact hargs v List.mem_cons_self
    have hparam : Carries W (bindParam cfg i p (args.headD .undefined)) Value.Settled := by
      refine ite (pure fun _ hk => hfirst.mono hk) ?_
      generalize args.headD .undefined = v at hfirst
      cases v <;> first | exact fails | exact pure fun _ hk => hfirst.mono hk
    apply bind hparam
    intro k hk v hv
    apply bind (ih fun w hw => (hargs w (List.mem_of_mem_tail hw)).mono hk)
    intro k' hk' rest hrest
    apply pure
    intro k'' hk''
    exact List.forall_mem_cons.mpr ⟨hv.mono (Nat.le_trans hk' hk''), fun e he => (hrest e he).mono hk''⟩

end Run.Carries

end Primer
