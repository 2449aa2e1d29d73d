import Primer.Host.Standard
import Primer.Proofs.Locals.State

/-!
# What is set apart from a run

A `Reserve` names cells that a piece of work can neither read nor write, together with what they hold. It says which
names the piece of work may mention instead: in the scope at the level where it runs, and in the functions that it
calls. It also says which functions there are. A state guards a reserve if the cells hold what they should and nothing
that may be mentioned, no array and no value leads to them.

The reserve of nothing, under which all names may be mentioned, leaves what holds of all values in a state: what is
stored is neither absent nor a place, and is null only where nothing is checked.
-/

set_option autoImplicit false

namespace Primer

variable {σ : Type}

/-! ## Kinds of values -/

/-- Whether a value may lie in a cell. -/
def Value.isStored (checked : Bool) : Value → Bool
  | .absent => false
  | .null => !checked
  | v => !v.isPlace

/-- Whether a value can take part in an operation that is checked. -/
def Value.isUsable : Value → Bool
  | .undefined => false
  | .number x => Number.isFinite x
  | v => v.isStored true

/-- Whether a variable belongs to one of the standard hosts. -/
def VariableKey.isStandard : VariableKey → Bool
  | .extra _ => false
  | _ => true

/-- A usable value may be stored with and without checks. -/
theorem Value.isStored_of_isUsable {v : Value} (h : v.isUsable = true) (checked : Bool) :
    v.isStored checked = true := by
  cases v
  case null | absent | undefined => cases h
  all_goals first | rfl | exact h

/-! ## Reserves -/

/-- What is set apart from a piece of work, and what it may use. -/
structure Reserve where
  /-- Whether operations are checked. -/
  checked : Bool
  /-- The level of the scope in which the piece of work runs. -/
  level : Nat
  /-- The names that may be mentioned at that level. -/
  outer : String → Prop
  /-- The names that may be mentioned in the functions that are called. -/
  inner : String → Prop
  /-- What the other names are bound to in the scope at that level. -/
  binding : String → Option Value
  /-- The cells that are set apart, with what they hold. -/
  cell : CellRef → Option Value
  /-- The bodies of functions. -/
  body : List Stmt → Prop
  /-- The frames that lie below the piece of work and that it never changes. -/
  suspended : List Frame
  closed : ∀ b, body b → Stmt.AllWithin inner body b
  beneath : suspended.length ≤ level
  room : ∀ x, outer x → suspended = [] ∨ suspended.length < level

namespace Reserve

/-- No frame lies below what runs in the global scope. -/
theorem beneath_global : ([] : List Frame).length ≤ 0 := Nat.le_refl 0

/-- Without frames there is always room. -/
theorem room_global : ∀ _ : String, True → ([] : List Frame) = [] ∨ ([] : List Frame).length < 0 :=
  fun _ _ => .inl rfl

/-- The names that may be mentioned where a piece of work runs. -/
def names (K : Reserve) (ℓ : Nat) (x : String) : Prop := if ℓ = K.level then K.outer x else K.inner x

/-- The names by which the scope at a level can be reached: its own, and all if it is the global one. -/
def Sees (K : Reserve) (ℓ : Nat) (x : String) : Prop :=
  (ℓ = K.level ∧ K.outer x) ∨ (K.level < ℓ ∧ K.inner x) ∨ (ℓ = 0 ∧ (K.outer x ∨ K.inner x))

/-- A function that may be called. -/
def function (K : Reserve) (f : UserFunction) : Prop := K.body f.body

/-- A reserve sees the names of its level, and globally. -/
theorem sees_of_names {K : Reserve} {ℓ : Nat} {x : String} (hℓ : K.level ≤ ℓ) (h : K.names ℓ x) :
    K.Sees ℓ x ∧ K.Sees 0 x := by
  unfold names at h
  split at h
  case isTrue heq => exact ⟨.inl ⟨heq, h⟩, .inr (.inr ⟨rfl, .inl h⟩)⟩
  case isFalse hne => exact ⟨.inr (.inl ⟨by omega, h⟩), .inr (.inr ⟨rfl, .inr h⟩)⟩

/-- Where a name may be mentioned there is a scope above the frames that are suspended. -/
theorem room_of_names {K : Reserve} {ℓ : Nat} {x : String} (hℓ : K.level ≤ ℓ) (h : K.names ℓ x) :
    K.suspended = [] ∨ K.suspended.length < ℓ := by
  unfold names at h
  split at h
  case isTrue heq =>
    rw [heq]
    exact K.room x h
  case isFalse hne =>
    have hlength := K.beneath
    exact .inr (by omega)

/-- In a function that is called its own names may be mentioned. -/
theorem names_of_lt {K : Reserve} {ℓ : Nat} (hℓ : K.level < ℓ) : K.names ℓ = K.inner := by
  funext x
  exact if_neg (Nat.ne_of_gt hℓ)

end Reserve

/-- A value that may lie in a cell. -/
structure Value.Stored (K : Reserve) (v : Value) : Prop where
  kind : v.isStored K.checked = true
  only : v.Only K.function

/-- A value that takes part in an operation. -/
structure Value.Taken (K : Reserve) (v : Value) : Prop extends Value.Stored K v where
  usable : K.checked = true → v.isUsable = true

/-- What an expression may give: a value, or a place that is not set apart. -/
structure Value.Given (K : Reserve) (v : Value) : Prop where
  present : v ≠ .absent
  only : v.Only K.function
  free : ∀ r, v = .cell r → K.cell r = none
  standard : ∀ h, v = .hostVariable h → h.key.isStandard = true

variable {K : Reserve}

/-- A value that may be stored is given. -/
theorem Value.Stored.given {v : Value} (h : v.Stored K) : v.Given K := by
  have hkind := h.kind
  refine ⟨?_, h.only, ?_, ?_⟩
  · rintro rfl
    cases hkind
  · rintro r rfl
    cases hkind
  · rintro r rfl
    cases hkind

/-- The undefined value may be stored. -/
theorem Value.Stored.undefined : Value.undefined.Stored K := ⟨rfl, trivial⟩

/-- A basic value may be stored. -/
theorem Value.Stored.of_isBasic {v : Value} (h : v.isBasic = true) : v.Stored K := by
  cases v
  case number | string | boolean => exact ⟨rfl, trivial⟩
  all_goals cases h

/-- An array may be stored. -/
theorem Value.Stored.array (a : ArrayRef) : (Value.array a).Stored K := ⟨rfl, trivial⟩

/-- A value that is no place and not a function of the program. -/
theorem Value.Given.plain {v : Value} (hpresent : v ≠ .absent) (hplace : ∀ r, v ≠ .cell r)
    (hhost : ∀ h, v ≠ .hostVariable h) (hfunction : ∀ f, v ≠ .function f) : v.Given K := by
  refine ⟨hpresent, ?_, fun r h => absurd h (hplace r), fun w h => absurd h (hhost w)⟩
  cases v
  case function f => exact absurd rfl (hfunction f)
  all_goals exact trivial

/-- What is usable is neither undefined nor null, and is there. -/
theorem bindParam_of_isUsable (cfg : Setting σ) (info : Info) (p : String) {v : Value} (h : v.isUsable = true) :
    bindParam cfg info p v = pure v := by
  unfold bindParam
  split
  · rfl
  · cases v
    case absent | undefined | null => cases h
    all_goals rfl

/-- What lies in a cell without checks, or with them, is what may lie there. -/
theorem Value.Taken.of_isUsable {v : Value} (hv : v.isUsable = true) (honly : v.Only K.function) : v.Taken K :=
  ⟨⟨Value.isStored_of_isUsable hv K.checked, honly⟩, fun _ => hv⟩

/-! ## States that guard a reserve -/

/-- Suspended frames are still there when the active one is left. -/
theorem suffix_tail {suspended frames : List Frame} (h : suspended <:+ frames)
    (hroom : suspended = [] ∨ suspended.length < frames.length) : suspended <:+ frames.tail := by
  rcases hroom with rfl | hlt
  · exact List.nil_suffix
  · obtain ⟨above, rfl⟩ := h
    cases above with
    | nil => exact absurd hlt (Nat.lt_irrefl _)
    | cons frame above => exact List.suffix_append above suspended

/-- A state in which a reserve is set apart from what runs at a level. -/
structure RunState.Guards (K : Reserve) (ℓ : Nat) (s : RunState σ) : Prop where
  level : K.level ≤ ℓ
  frames : s.frames.length = ℓ
  separate : s.Separate
  stored : ∀ r v, s.memory.cells[r]? = some v → K.cell r = none → v.Stored K
  holds : ∀ r v, K.cell r = some v → s.memory.cells[r]? = some v
  unlinked : ∀ r, s.memory.Linked r → K.cell r = none
  reached : ∀ i x r, K.Sees i x → s.binding i x = some (.cell r) → K.cell r = none
  bound : ∀ x, ¬ K.outer x → s.binding K.level x = K.binding x
  below : K.suspended <:+ s.frames

namespace RunState.Guards

variable {ℓ ℓ' : Nat} {s u : RunState σ}

/-- A cell that is not there yet is not set apart. -/
theorem cell_of_size_le (h : s.Guards K ℓ) {r : CellRef} (hr : s.memory.cells.size ≤ r) : K.cell r = none := by
  cases hcell : K.cell r with
  | none => rfl
  | some v =>
    have hlt := (Array.getElem?_eq_some_iff.mp (h.holds r v hcell)).1
    omega

/-- Making cells and binding names to them leaves a reserve guarded. -/
theorem moves (h : s.Guards K ℓ) (hu : s.Moves (Value.Stored K) u) (hframes : u.frames.length = ℓ')
    (hℓ : K.level ≤ ℓ') (hbound : ∀ x, ¬ K.outer x → u.binding K.level x = s.binding K.level x)
    (hbelow : K.suspended <:+ u.frames) : u.Guards K ℓ' := by
  refine ⟨hℓ, hframes, h.separate.moves hu, ?_, fun r v hr => hu.grown.kept (h.holds r v hr), ?_, ?_, fun x hx =>
    (hbound x hx).trans (h.bound x hx), hbelow⟩
  · intro r v hv hr
    rcases hu.grown.cases hv with hold | ⟨-, hnew⟩
    · exact h.stored r v hold hr
    · exact hnew
  · intro r hr
    rcases hu.grown.linked r hr with hold | ⟨hnew, -⟩
    · exact h.unlinked r hold
    · exact h.cell_of_size_le hnew
  · intro i x r hsees hx
    rcases hu.bound i x _ hx with hold | ⟨r', heq, hnew, -⟩
    · exact h.reached i x r hsees hold
    · cases heq
      exact h.cell_of_size_le hnew

/-- Hosts, records and active calls do not matter. -/
theorem congr (h : s.Guards K ℓ) (hmemory : u.memory = s.memory) (hframes : u.frames = s.frames)
    (hglobals : u.globals = s.globals) : u.Guards K ℓ := by
  rcases s with ⟨memory, host, globals, frames, calls, commands, steps, ticks, asked⟩
  rcases u with ⟨memory', host', globals', frames', calls', commands', steps', ticks', asked'⟩
  cases hmemory
  cases hframes
  cases hglobals
  exact ⟨h.level, h.frames, ⟨h.separate.bound, h.separate.owner, h.separate.unlinked, h.separate.linked⟩, h.stored,
    h.holds, h.unlinked, h.reached, h.bound, h.below⟩

/-- A memory that has grown leaves the reserve guarded. -/
theorem onMemory (h : s.Guards K ℓ) {memory : Memory} (hmemory : s.memory.Grown (Value.Stored K) memory) :
    ({ s with memory := memory } : RunState σ).Guards K ℓ :=
  h.moves (.onMemory h.separate hmemory) h.frames h.level (fun _ _ => rfl) h.below

/-- A cell that is not set apart can be written. -/
theorem write (h : s.Guards K ℓ) {r : CellRef} (hr : K.cell r = none) {v : Value} (hv : v.Stored K) :
    ({ s with memory := s.memory.write r v } : RunState σ).Guards K ℓ := by
  have hsize : (s.memory.write r v).cells.size = s.memory.cells.size := Array.size_setIfInBounds
  have hcells (i : CellRef) (hi : r ≠ i) : (s.memory.write r v).cells[i]? = s.memory.cells[i]? :=
    Array.getElem?_setIfInBounds_ne hi
  have hsep := h.separate
  refine ⟨h.level, h.frames, ⟨?_, hsep.owner, hsep.unlinked, ?_⟩, ?_, ?_, h.unlinked, h.reached, h.bound, h.below⟩
  · intro ℓ x w hx
    obtain ⟨i, rfl, hi⟩ := hsep.bound ℓ x w hx
    refine ⟨i, rfl, ?_⟩
    show i < (s.memory.write r v).cells.size
    rw [hsize]
    exact hi
  · intro i hi
    show i < (s.memory.write r v).cells.size
    rw [hsize]
    exact hsep.linked i hi
  · intro i w hw hi
    change (s.memory.write r v).cells[i]? = some w at hw
    by_cases heq : r = i
    · subst heq
      have hlt := (Array.getElem?_eq_some_iff.mp hw).1
      rw [hsize] at hlt
      have hself : (s.memory.write r v).cells[r]? = some v := Array.getElem?_setIfInBounds_self_of_lt hlt
      rw [hself] at hw
      cases hw
      exact hv
    · rw [hcells i heq] at hw
      exact h.stored i w hw hi
  · intro i w hi
    show (s.memory.write r v).cells[i]? = some w
    have hne : r ≠ i := by
      rintro rfl
      rw [hr] at hi
      cases hi
    rw [hcells i hne]
    exact h.holds i w hi

/-- A name that may be mentioned can be declared. -/
theorem declare (h : s.Guards K ℓ) {x : String} (hx : K.names ℓ x) {v : Value} (hv : v.Stored K) :
    (({ s with memory := (s.memory.alloc v).2 } : RunState σ).withScope
      (s.scope.bind x (.cell s.memory.cells.size))).Guards K ℓ := by
  have hbelow := suffix_tail h.below (by rw [h.frames]; exact Reserve.room_of_names h.level hx)
  refine h.moves (.declare h.separate x hv) ?_ h.level ?_ ?_
  · rw [← h.frames]
    unfold RunState.withScope
    cases s.frames <;> rfl
  · intro y hy
    rw [binding_withScope]
    split
    case isTrue hlevel =>
      have hne : y ≠ x := by
        rintro rfl
        rw [h.frames] at hlevel
        unfold Reserve.names at hx
        rw [if_pos hlevel.symm] at hx
        exact hy hx
      rw [Scope.find?_bind, if_neg hne, hlevel, binding_active]
    case isFalse => rfl
  · unfold RunState.withScope
    cases hframes : s.frames with
    | nil =>
      rw [hframes] at hbelow
      exact hbelow
    | cons frame frames =>
      rw [hframes] at hbelow
      exact hbelow.trans (List.suffix_cons _ frames)

/-- A frame with values that may be stored leaves the reserve guarded. -/
theorem pushFrame (h : s.Guards K ℓ) (f : UserFunction) {bound : List (String × Value)}
    (hbound : ∀ e ∈ bound, e.2.Stored K) (label : String) : (Primer.pushFrame f bound label s).Guards K (ℓ + 1) := by
  have hlevel := h.level
  refine h.moves (.pushFrame h.separate f hbound label) (congrArg (· + 1) h.frames) (Nat.le_succ_of_le hlevel)
    (fun x _ => ?_) (h.below.trans (List.suffix_cons _ s.frames))
  let refs := (s.memory.allocAll (bound.map Prod.snd)).1
  let scope := ((bound.map Prod.fst).zip refs).foldl (fun sc e => sc.bind e.1 (.cell e.2)) Scope.empty
  have hcons := s.binding_cons ⟨scope, label, s.calls.headD f.info.token⟩ (s.memory.allocAll (bound.map Prod.snd)).2
    K.level x
  refine hcons.trans (if_neg ?_)
  rw [h.frames]
  omega

/-- The function that runs at a level above that of the reserve ends. -/
theorem leaveFunction (h : s.Guards K (ℓ + 1)) (hℓ : K.level ≤ ℓ) : (Primer.leaveFunction s).Guards K ℓ := by
  have hframes : (Primer.leaveFunction s).frames.length = ℓ := by
    show s.frames.tail.length = ℓ
    rw [List.length_tail, h.frames]
    rfl
  have hroom : K.suspended.length < s.frames.length := by
    have hlength := K.beneath
    rw [h.frames]
    omega
  refine h.moves (.leaveFunction h.separate) hframes hℓ ?_ (suffix_tail h.below (.inr hroom))
  intro x _
  have hsame := h.frames
  rcases s with ⟨m, host, globals, _ | ⟨frame, frames⟩, calls, commands, steps, ticks, asked⟩
  · cases hsame
  · let below : RunState σ := ⟨m, host, globals, frames, calls, commands, steps, ticks, asked⟩
    have hlength : frames.length = ℓ := Nat.succ.inj hsame
    refine ((below.binding_cons frame m K.level x).trans (if_neg ?_)).symm
    show K.level ≠ frames.length + 1
    omega

/-- What a name that may be mentioned is bound to is not set apart. -/
theorem find (h : s.Guards K ℓ) {x : String} (hx : K.names ℓ x) {v : Value} (hv : s.find? x = some v) : v.Given K := by
  obtain ⟨hactive, hglobal⟩ := Reserve.sees_of_names h.level hx
  have hcell {i : Nat} (hi : K.Sees i x) (hbinding : s.binding i x = some v) : v.Given K := by
    obtain ⟨r, rfl, -⟩ := h.separate.bound i x v hbinding
    refine ⟨nofun, trivial, ?_, nofun⟩
    rintro _ ⟨⟩
    exact h.reached i x r hi hbinding
  rcases s.binding_of_find hv with hbinding | hbinding
  · rw [h.frames] at hbinding
    exact hcell hactive hbinding
  · exact hcell hglobal hbinding

/-- The content of a cell that is not set apart, if it is there. -/
theorem read (h : s.Guards K ℓ) {r : CellRef} (hr : K.cell r = none) :
    s.memory.read r = .absent ∨ (s.memory.read r).Stored K := by
  unfold Memory.read
  cases hv : s.memory.cells[r]? with
  | none => exact .inl rfl
  | some v => exact .inr (h.stored r v hv hr)

end RunState.Guards

end Primer
