import Primer.Proofs.Run.Store

/-!
# The functions in a state

A running program meets statements of its own again as the bodies of functions, which live in values: in the
cells of the memory, in the scopes, and in whatever is on its way between two actions. A value, a memory, a
scope or a state has only functions of a kind if all functions in it are of that kind, and what the program
does with memory and scopes keeps it so. The kind is left open.
-/

set_option autoImplicit false

namespace Primer

variable {σ : Type} {F : UserFunction → Prop}

/-- If a value is a function, it is one of a kind. -/
def Value.Only (F : UserFunction → Prop) : Value → Prop
  | .function f => F f
  | _ => True

/-- All functions in memory are of a kind. -/
def Memory.Only (F : UserFunction → Prop) (m : Memory) : Prop := ∀ v ∈ m.cells, v.Only F

/-- All functions that names are bound to are of a kind. -/
def Scope.Only (F : UserFunction → Prop) (s : Scope) : Prop := ∀ name v, s.find? name = some v → v.Only F

/-- All functions in memory and in the scopes are of a kind. -/
structure RunState.Only (F : UserFunction → Prop) (s : RunState σ) : Prop where
  memory : s.memory.Only F
  globals : s.globals.Only F
  frames : ∀ f ∈ s.frames, f.scope.Only F

/-- All functions in a list of values are of a kind. -/
abbrev Values.Only (F : UserFunction → Prop) (vs : List Value) : Prop := ∀ v ∈ vs, v.Only F

/-- No values hold no function. -/
theorem Values.only_nil : Values.Only F [] := fun _ hv => absurd hv List.not_mem_nil

/-- Several values hold only some functions if each of them does. -/
theorem Values.only_cons {v : Value} {vs : List Value} (hv : v.Only F) (hvs : Values.Only F vs) :
    Values.Only F (v :: vs) := by
  intro w hw
  rcases List.mem_cons.mp hw with rfl | hw
  · exact hv
  · exact hvs w hw

/-- The function that a list of statements returns, if it returns one, is of a kind. -/
abbrev Returned.Only (F : UserFunction → Prop) (returned : Option Value) : Prop := ∀ v ∈ returned, v.Only F

/-- Nothing returned holds no function. -/
theorem Returned.only_none : Returned.Only F none := fun _ hv => nomatch hv

/-- A returned value holds the functions that the value does. -/
theorem Returned.only_some {v : Value} (hv : v.Only F) : Returned.Only F (some v) := by
  rintro _ ⟨⟩
  exact hv

/-- The values among which all functions are of a kind. -/
def Value.Kind.ofFunctions (F : UserFunction → Prop) : Value.Kind where
  has := Value.Only F
  plain v hv := by
    cases v
    case function => cases hv
    all_goals exact trivial

/-- Holding only some functions is a kind of states. -/
theorem RunState.only_iff_ofKind {s : RunState σ} : s.Only F ↔ s.OfKind (.ofFunctions F) :=
  ⟨fun h => ⟨h.memory, h.globals, h.frames⟩, fun h => ⟨h.memory, h.globals, h.frames⟩⟩

/-! ## Memory -/

/-- The empty memory holds no function. -/
theorem Memory.Only.empty : Memory.empty.Only F := Memory.OfKind.empty (K := .ofFunctions F)

namespace Memory.Only

variable {m : Memory} (h : m.Only F)

include h

/-- What is read from a memory holds only its functions. -/
theorem read (r : CellRef) : (m.read r).Only F := OfKind.read (K := .ofFunctions F) h r

/-- A place that is opened holds only the functions of the memory. -/
theorem opened {v : Value} (hv : v.Only F) : (opened m v).Only F := OfKind.opened (K := .ofFunctions F) h hv

/-- Writing a value keeps a memory to its functions. -/
theorem write (r : CellRef) {v : Value} (hv : v.Only F) : (m.write r v).Only F :=
  OfKind.write (K := .ofFunctions F) h r hv

/-- New cells keep a memory to its functions. -/
theorem allocAll {values : List Value} (hvalues : Values.Only F values) : (m.allocAll values).2.Only F :=
  OfKind.allocAll (K := .ofFunctions F) h hvalues

/-- A new array keeps a memory to its functions. -/
theorem newArray {values : List Value} (hvalues : Values.Only F values) : (m.newArray values).2.Only F :=
  h.allocAll hvalues

/-- Asking for a slot keeps a memory to its functions. -/
theorem slot (a : ArrayRef) (i : Nat) : (m.slot a i).1.Only F ∧ (m.slot a i).2.Only F :=
  OfKind.slot (K := .ofFunctions F) h a i

/-- Setting an element keeps a memory to its functions. -/
theorem setSlot {a : ArrayRef} {i : Nat} {v : Value} (hv : v.Only F) {m' : Memory}
    (hset : m.setSlot a i v = some m') : m'.Only F := OfKind.setSlot (K := .ofFunctions F) h hv hset

/-- Setting a length keeps a memory to its functions. -/
theorem setLength {a : ArrayRef} {v : Value} {m' : Memory} (hset : m.setLength a v = .ok m') : m'.Only F :=
  OfKind.setLength (K := .ofFunctions F) h hset

end Memory.Only

/-! ## Scopes -/

/-- The empty scope means no function. -/
theorem Scope.Only.empty : Scope.empty.Only F := Scope.OfKind.empty (K := .ofFunctions F)

/-- Declaring names keeps scope and memory to their functions. -/
theorem Scope.Only.declareAll {s : Scope} {m : Memory} (hs : s.Only F) (hm : m.Only F)
    (names : List (String × Value)) (hnames : ∀ e ∈ names, e.2.Only F) :
    (s.declareAll m names).1.Only F ∧ (s.declareAll m names).2.Only F :=
  Scope.OfKind.declareAll (K := .ofFunctions F) hs hm names hnames

/-! ## States -/

namespace RunState.Only

variable {s : RunState σ} (h : s.Only F)

include h

/-- What a name is found to mean holds only the functions of the state. -/
theorem find {name : String} {v : Value} (hv : s.find? name = some v) : v.Only F := (only_iff_ofKind.mp h).find hv

/-- Declaring a name keeps a state to its functions. -/
theorem declare (name : String) {v : Value} (hv : v.Only F) :
    ({ s with memory := (s.scope.declare s.memory name v).2 }.withScope
      (s.scope.declare s.memory name v).1).Only F :=
  only_iff_ofKind.mpr (OfKind.declare (K := .ofFunctions F) (only_iff_ofKind.mp h) name hv)

/-- Entering a frame keeps a state to its functions. -/
theorem pushFrame (f : UserFunction) {bound : List (String × Value)} (hbound : ∀ e ∈ bound, e.2.Only F)
    (label : String) : (Primer.pushFrame f bound label s).Only F :=
  only_iff_ofKind.mpr (OfKind.pushFrame (K := .ofFunctions F) (only_iff_ofKind.mp h) f hbound label)

end RunState.Only

/-! ## Operators -/

/-- Whether a value is a number, a text or a boolean. -/
def Value.isBasic : Value → Bool
  | .number _ | .string _ | .boolean _ => true
  | _ => false

/-- A basic value holds no function. -/
theorem Value.only_of_isBasic {v : Value} (h : v.isBasic = true) : v.Only F := by
  cases v
  case function => cases h
  all_goals exact trivial

/-- The value of a numeric operation is basic. -/
theorem Memory.isBasic_numeric (symbol : String) (x y : Float) : (numeric symbol x y).isBasic = true := by
  unfold numeric
  split <;> rfl

/-- The value of an addition is basic. -/
theorem Memory.isBasic_add (m : Memory) (a b : Value) : (m.add a b).isBasic = true := by
  unfold add
  split <;> rfl

/-- What a checked operator gives is a number, a text or a boolean. -/
theorem Memory.isBasic_of_checked {m : Memory} {symbol : String} {a b v : Value}
    (h : m.checked symbol a b = .ok v) : v.isBasic = true := by
  unfold checked at h
  split at h
  case isTrue =>
    cases ha : m.finiteNumber symbol a with
    | error r =>
      rw [ha] at h
      cases h
    | ok x =>
      cases hb : m.finiteNumber symbol b with
      | error r =>
        rw [ha, hb] at h
        cases h
      | ok y =>
        rw [ha, hb] at h
        simp only [bind, Except.bind] at h
        split at h
        · cases h
        · cases h
          exact isBasic_numeric symbol x y
  case isFalse =>
    split at h
    · split at h
      · cases h
      · split at h
        · cases h
        · cases h
          exact m.isBasic_add a b
    · split at h
      · split at h
        · cases h
          rfl
        · cases h
        · cases h
      · split at h
        · cases h
          rfl
        · split at h
          · cases h
            rfl
          · cases h

/-- What an unchecked operator gives is a number, a text or a boolean, or undefined if there is no such operator. -/
theorem Memory.isBasic_unchecked (m : Memory) (symbol : String) (a b : Value) :
    (m.unchecked symbol a b).isBasic = true ∨ m.unchecked symbol a b = .undefined := by
  unfold unchecked
  split
  · split
    · exact .inl (m.isBasic_add _ _)
    · exact .inl (m.isBasic_add _ _)
  case h_12 => exact .inr rfl
  all_goals exact .inl rfl

/-- The value of a checked sign is basic. -/
theorem Memory.isBasic_of_checkedUnary {m : Memory} {symbol : String} {v w : Value}
    (h : m.checkedUnary symbol v = .ok w) : w.isBasic = true := by
  unfold checkedUnary at h
  split at h
  · split at h
    · cases h
      rfl
    · cases h
  · split at h
    · cases h
    · split at h
      · cases h
        rfl
      · cases h
        rfl
  · cases h

/-- The value of an unchecked sign is basic. -/
theorem Memory.isBasic_uncheckedUnary (m : Memory) (symbol : String) (v : Value) :
    (m.uncheckedUnary symbol v).isBasic = true := by
  unfold uncheckedUnary
  split
  · rfl
  · split <;> rfl

/-- The value of an unchecked operation holds no function. -/
theorem Memory.only_unchecked (m : Memory) (symbol : String) (a b : Value) :
    (m.unchecked symbol a b).Only F := by
  rcases m.isBasic_unchecked symbol a b with hbasic | hundefined
  · exact Value.only_of_isBasic hbasic
  · rw [hundefined]
    exact trivial

end Primer
