import Primer.Run.Action

/-!
# Values of a kind in a state

What a running program calls it has met before: as a value in a cell, under a name, or as a member of a host. A
`Value.Kind` is a property that all values have which cannot be called, so that it only restricts functions. If all
values in memory and in the scopes of a state are of a kind, then memory and scopes keep it so, and nothing else
comes out of them.
-/

set_option autoImplicit false

namespace Primer

variable {σ : Type}

/-- A kind of values, to which all values belong that cannot be called. -/
structure Value.Kind where
  has : Value → Prop
  plain : ∀ v, v.isCallable = false → has v

variable {K : Value.Kind}

/-- The undefined value is of every kind. -/
theorem Value.Kind.undefined : K.has .undefined := K.plain _ rfl

/-- All values in memory are of a kind. -/
def Memory.OfKind (K : Value.Kind) (m : Memory) : Prop := ∀ v ∈ m.cells, K.has v

/-- All values that names are bound to are of a kind. -/
def Scope.OfKind (K : Value.Kind) (s : Scope) : Prop := ∀ name v, s.find? name = some v → K.has v

/-- All values in memory and in the scopes are of a kind. -/
structure RunState.OfKind (K : Value.Kind) (s : RunState σ) : Prop where
  memory : s.memory.OfKind K
  globals : s.globals.OfKind K
  frames : ∀ f ∈ s.frames, f.scope.OfKind K

/-! ## Memory -/

/-- The empty memory is of every kind. -/
theorem Memory.OfKind.empty : Memory.empty.OfKind K := fun v hv => absurd hv (Array.not_mem_empty v)

namespace Memory.OfKind

variable {m : Memory} (h : m.OfKind K)

include h

/-- What is read from a memory is of its kind. -/
theorem read (r : CellRef) : K.has (m.read r) := by
  unfold Memory.read
  cases hr : m.cells[r]? with
  | none => exact K.plain _ rfl
  | some v => exact h v (Array.mem_of_getElem? hr)

/-- A place that is opened is of the kind of the memory. -/
theorem opened {v : Value} (hv : K.has v) : K.has (opened m v) := by
  cases v
  case cell r => exact h.read r
  all_goals exact hv

/-- A new cell with a value of the kind keeps the memory in it. -/
theorem alloc {v : Value} (hv : K.has v) : (m.alloc v).2.OfKind K := by
  intro w hw
  rcases Array.mem_push.mp hw with hw | rfl
  · exact h w hw
  · exact hv

/-- Writing a value of the kind keeps the memory in it. -/
theorem write (r : CellRef) {v : Value} (hv : K.has v) : (m.write r v).OfKind K := by
  intro w hw
  rcases Array.mem_or_eq_of_mem_setIfInBounds hw with hw | rfl
  · exact h w hw
  · exact hv

/-- New cells with values of the kind keep the memory in it. -/
theorem allocAll {values : List Value} (hvalues : ∀ v ∈ values, K.has v) : (m.allocAll values).2.OfKind K := by
  intro w hw
  rcases Array.mem_append.mp hw with hw | hw
  · exact h w hw
  · exact hvalues w (List.mem_toArray.mp hw)

/-- A place in an array cannot be called, and a hole that gets a cell gets nothing else. -/
theorem slot (a : ArrayRef) (i : Nat) : K.has (m.slot a i).1 ∧ (m.slot a i).2.OfKind K := by
  unfold Memory.slot
  rcases (m.slots a)[i]? with _ | _ | r
  · exact ⟨K.plain _ rfl, h⟩
  · exact ⟨K.plain _ rfl, h.alloc K.undefined⟩
  · exact ⟨K.plain _ rfl, h⟩

/-- Setting an element to a value of the kind keeps the memory in it. -/
theorem setSlot {a : ArrayRef} {i : Nat} {v : Value} (hv : K.has v) {m' : Memory}
    (hset : m.setSlot a i v = some m') : m'.OfKind K := by
  unfold Memory.setSlot at hset
  split at hset
  · cases hset
  · cases hset
    split
    · exact OfKind.alloc (m := m.resize a (i + 1)) h hv
    · exact h.alloc hv

/-- Setting a length keeps the memory in its kind. -/
theorem setLength {a : ArrayRef} {v : Value} {m' : Memory} (hset : m.setLength a v = .ok m') : m'.OfKind K := by
  cases v
  case number x =>
    simp only [Memory.setLength] at hset
    split at hset
    · cases hset
    · split at hset
      · cases hset
      · cases hset
        exact h
  all_goals cases hset

end Memory.OfKind

/-! ## Scopes -/

/-- The empty scope is of every kind. -/
theorem Scope.OfKind.empty : Scope.empty.OfKind K := fun _ _ h => nomatch h

/-- Binding a value of the kind keeps the scope in it. -/
theorem Scope.OfKind.bind {s : Scope} (h : s.OfKind K) (name : String) {v : Value} (hv : K.has v) :
    (s.bind name v).OfKind K := by
  intro x w hx
  rw [Scope.find?_bind] at hx
  split at hx
  · cases hx
    exact hv
  · exact h x w hx

/-- Binding cells keeps the scope in its kind. -/
theorem Scope.OfKind.bindCells {s : Scope} (h : s.OfKind K) (entries : List (String × CellRef)) :
    (entries.foldl (fun scope e => scope.bind e.1 (.cell e.2)) s).OfKind K := by
  induction entries generalizing s with
  | nil => exact h
  | cons e rest ih => exact ih (h.bind e.1 (K.plain _ rfl))

/-- Declaring a name with a value of the kind keeps scope and memory in it. -/
theorem Scope.OfKind.declare {s : Scope} {m : Memory} (hs : s.OfKind K) (hm : m.OfKind K) (name : String)
    {v : Value} (hv : K.has v) : (s.declare m name v).1.OfKind K ∧ (s.declare m name v).2.OfKind K := by
  unfold Scope.declare Memory.place
  cases hplace : v.isPlace with
  | true => exact ⟨hs.bind name hv, hm⟩
  | false => exact ⟨hs.bind name (K.plain _ rfl), hm.alloc hv⟩

/-- Declaring names with values of the kind keeps scope and memory in it. -/
theorem Scope.OfKind.declareAll {s : Scope} {m : Memory} (hs : s.OfKind K) (hm : m.OfKind K)
    (names : List (String × Value)) (hnames : ∀ e ∈ names, K.has e.2) :
    (s.declareAll m names).1.OfKind K ∧ (s.declareAll m names).2.OfKind K := by
  induction names generalizing s m with
  | nil => exact ⟨hs, hm⟩
  | cons e rest ih =>
    have hdeclared := hs.declare hm e.1 (hnames e List.mem_cons_self)
    apply ih hdeclared.1 hdeclared.2
    intro e' he'
    exact hnames e' (List.mem_cons_of_mem e he')

/-! ## States -/

namespace RunState.OfKind

variable {s : RunState σ} (h : s.OfKind K)

include h

/-- Memory and hosts may change. -/
theorem onMemory {m : Memory} (hm : m.OfKind K) (host : σ) :
    ({ s with host := host, memory := m } : RunState σ).OfKind K := ⟨hm, h.globals, h.frames⟩

/-- Only memory and scopes matter. -/
theorem congr {t : RunState σ} (hmemory : t.memory = s.memory) (hglobals : t.globals = s.globals)
    (hframes : t.frames <:+ s.frames) : t.OfKind K := by
  refine ⟨?_, ?_, fun f hf => h.frames f (hframes.subset hf)⟩
  · rw [hmemory]
    exact h.memory
  · rw [hglobals]
    exact h.globals

/-- The active scope of a state is of its kind. -/
theorem scope : s.scope.OfKind K := by
  have hglobals := h.globals
  have hframes := h.frames
  unfold RunState.scope
  cases hs : s.frames with
  | nil => exact hglobals
  | cons f rest => exact hframes f (by rw [hs]; exact List.mem_cons_self)

/-- Another scope of the kind keeps the state in it. -/
theorem withScope {scope : Scope} (hscope : scope.OfKind K) : (s.withScope scope).OfKind K := by
  have hframes := h.frames
  unfold RunState.withScope
  cases hs : s.frames with
  | nil => exact ⟨h.memory, hscope, fun g hg => absurd hg List.not_mem_nil⟩
  | cons f rest =>
    refine ⟨h.memory, h.globals, ?_⟩
    intro g hg
    rcases List.mem_cons.mp hg with rfl | hg
    · exact hscope
    · exact hframes g (by rw [hs]; exact List.mem_cons_of_mem f hg)

/-- What a name is found to mean is of the kind of the state. -/
theorem find {name : String} {v : Value} (hv : s.find? name = some v) : K.has v := by
  unfold RunState.find? Scope.findIn? at hv
  simp only [List.findSome?] at hv
  split at hv
  case h_1 w hw =>
    cases hv
    exact h.scope name _ hw
  case h_2 =>
    split at hv
    case h_1 w hw =>
      cases hv
      exact h.globals name _ hw
    case h_2 => cases hv

/-- Declaring a name with a value of the kind keeps the state in it. -/
theorem declare (name : String) {v : Value} (hv : K.has v) :
    ({ s with memory := (s.scope.declare s.memory name v).2 }.withScope
      (s.scope.declare s.memory name v).1).OfKind K := by
  obtain ⟨hscope, hmemory⟩ := h.scope.declare h.memory name hv
  exact (h.onMemory hmemory s.host).withScope hscope

/-- Entering a frame with values of the kind keeps the state in it. -/
theorem pushFrame (f : UserFunction) {bound : List (String × Value)} (hbound : ∀ e ∈ bound, K.has e.2)
    (label : String) : (Primer.pushFrame f bound label s).OfKind K := by
  refine ⟨h.memory.allocAll ?_, h.globals, ?_⟩
  · intro v hv
    obtain ⟨e, he, rfl⟩ := List.mem_map.mp hv
    exact hbound e he
  · intro frame hframe
    rcases List.mem_cons.mp hframe with rfl | hframe
    · exact .bindCells .empty _
    · exact h.frames frame hframe

end RunState.OfKind

end Primer
