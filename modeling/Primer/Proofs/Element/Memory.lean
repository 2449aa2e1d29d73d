import Primer.Proofs.Locals.Memory

/-!
# Elements of arrays

An element lies in a cell if the slot of the element names the cell. Slots that have a cell keep it in most of what a
run does with memory (`Memory.Advances`). Two operations are different. An array that is cut off loses the elements
behind its new end, and only these (`Memory.Trims`). What is written to a pending element gets a new cell, even if the
slot has one by then; but there are no pending elements in memory (`Memory.Settled`), so nothing is written to one but
by the statement that found it. And all arrays in memory are arrays that it has.
-/

set_option autoImplicit false

namespace Primer

/-- An element of an array with a cell for it. -/
structure Element where
  array : ArrayRef
  index : Nat
  cell : CellRef

/-- A value that is no pending element, and no array but one of the first `k`. -/
def Value.Settled (k : Nat) : Value → Prop
  | .pending _ _ => False
  | .array a => a < k
  | _ => True

/-- A settled value stays settled when arrays are added. -/
theorem Value.Settled.mono {k k' : Nat} {v : Value} (h : v.Settled k) (hk : k ≤ k') : v.Settled k' := by
  cases v
  case array a => exact Nat.lt_of_lt_of_le h hk
  all_goals exact h

namespace Memory

variable {m m' m'' : Memory} {x : Element} {a : ArrayRef} {i : Nat} {v : Value}

/-! ## Settled memory -/

/-- The contents of cells are settled, and the cells that arrays have are there. -/
structure Settled (m : Memory) : Prop where
  contents : ∀ (r : CellRef) v, m.cells[r]? = some v → v.Settled m.arrays.size
  linked : ∀ r, m.Linked r → r < m.cells.size

/-- The empty memory is settled. -/
theorem settled_empty : Memory.empty.Settled := by
  constructor
  · intro r v hv
    simp [Memory.empty] at hv
  · rintro r ⟨a, i, hslot⟩
    simp [slots, Memory.empty] at hslot

namespace Settled

variable (h : m.Settled)

include h

/-- New cells may be made and put into arrays. -/
theorem grown (hgrown : m.Grown (Value.Settled m'.arrays.size) m') (harrays : m.arrays.size ≤ m'.arrays.size) :
    m'.Settled where
  contents r v hv := by
    rcases hgrown.cases hv with hold | ⟨-, hnew⟩
    · exact (h.contents r v hold).mono harrays
    · exact hnew
  linked r hr := by
    rcases hgrown.linked r hr with hold | ⟨-, hnew⟩
    · exact Nat.lt_of_lt_of_le (h.linked r hold) hgrown.size
    · exact hnew

/-- Writing a settled value keeps a memory settled. -/
theorem write (r : CellRef) (hv : v.Settled m.arrays.size) : (m.write r v).Settled := by
  constructor
  · intro r' w hw
    change (m.cells.setIfInBounds r v)[r']? = some w at hw
    rw [Array.getElem?_setIfInBounds] at hw
    by_cases hsame : r = r'
    · rw [if_pos hsame] at hw
      split at hw
      · cases hw
        exact hv
      · cases hw
    · rw [if_neg hsame] at hw
      exact h.contents r' w hw
  · intro r' hr'
    have hlt := h.linked r' hr'
    simp only [Memory.write, Array.size_setIfInBounds]
    exact hlt

/-- What is read from a settled memory is settled. -/
theorem read (r : CellRef) : (m.read r).Settled m.arrays.size := by
  unfold Memory.read
  cases hr : m.cells[r]? with
  | none => exact trivial
  | some v => exact h.contents r v hr

end Settled

/-! ## Elements that keep their cells -/

/-- An element lies in its cell. -/
def Has (m : Memory) (x : Element) : Prop := (m.slots x.array)[x.index]? = some (some x.cell)

/-- The index of an element is below the size of its array. -/
theorem Has.lt_size (h : m.Has x) : x.index < m.size x.array := (Array.getElem?_eq_some_iff.mp h).1

/-- The cell of an element is linked. -/
theorem Has.linked (h : m.Has x) : m.Linked x.cell := ⟨_, _, h⟩

/-- An array that has an element is there. -/
theorem Has.array_lt (h : m.Has x) : x.array < m.arrays.size := by
  by_cases hthere : x.array < m.arrays.size
  · exact hthere
  · have hempty : m.slots x.array = #[] := by
      unfold slots
      rw [Array.getElem?_eq_none (Nat.le_of_not_lt hthere)]
      rfl
    rw [Has, hempty] at h
    cases h

/-- Memory stays settled, arrays stay there, and elements stay in their cells. -/
structure Advances (m m' : Memory) : Prop where
  settled : m.Settled → m'.Settled
  arrays : m.arrays.size ≤ m'.arrays.size
  has : ∀ x, m.Has x → m'.Has x

/-- Memory stays settled, arrays stay there, and elements that are not cut off stay in their cells. -/
structure Trims (m m' : Memory) : Prop where
  settled : m.Settled → m'.Settled
  arrays : m.arrays.size ≤ m'.arrays.size
  has : ∀ x, m.Has x → x.index < m'.size x.array → m'.Has x

/-- A memory that does not change advances. -/
theorem Advances.refl (m : Memory) : m.Advances m := ⟨id, Nat.le_refl _, fun _ hx => hx⟩

/-- A memory that does not change is trimmed. -/
theorem Trims.refl (m : Memory) : m.Trims m := ⟨id, Nat.le_refl _, fun _ hx _ => hx⟩

/-- Where slots do not change, elements stay in their cells. -/
theorem has_of_arrays_eq (harrays : m'.arrays = m.arrays) (h : m.Has x) : m'.Has x := by
  unfold Has slots
  rw [harrays]
  exact h

/-- Writing a settled value advances a memory. -/
theorem advances_write (m : Memory) (r : CellRef) (hv : v.Settled m.arrays.size) : m.Advances (m.write r v) :=
  ⟨fun h => h.write r hv, Nat.le_refl _, fun _ hx => has_of_arrays_eq rfl hx⟩

/-- New cells with settled values advance a memory. -/
theorem advances_allocAll (m : Memory) {values : List Value} (hvalues : ∀ v ∈ values, v.Settled m.arrays.size) :
    m.Advances (m.allocAll values).2 :=
  ⟨fun h => h.grown (m.grown_allocAll hvalues) (Nat.le_refl _), Nat.le_refl _, fun _ hx => has_of_arrays_eq rfl hx⟩

/-- A new cell with a settled value advances a memory. -/
theorem advances_alloc (m : Memory) (hv : v.Settled m.arrays.size) : m.Advances (m.alloc v).2 :=
  ⟨fun h => h.grown (m.grown_alloc hv) (Nat.le_refl _), Nat.le_refl _, fun _ hx => has_of_arrays_eq rfl hx⟩

/-- A new array is one array more. -/
theorem size_arrays_newArray (m : Memory) (values : List Value) :
    (m.newArray values).2.arrays.size = m.arrays.size + 1 := Array.size_push _

/-- A new array of settled values advances a memory. -/
theorem advances_newArray (m : Memory) {values : List Value} (hvalues : ∀ v ∈ values, v.Settled m.arrays.size) :
    m.Advances (m.newArray values).2 := by
  have hsize := m.size_arrays_newArray values
  have harrays : m.arrays.size ≤ (m.newArray values).2.arrays.size := by
    rw [hsize]
    exact Nat.le_succ _
  refine ⟨fun h => h.grown (m.grown_newArray fun v hv => (hvalues v hv).mono harrays) harrays, harrays, ?_⟩
  intro x hx
  show ((m.arrays.push _)[x.array]?.getD #[])[x.index]? = _
  rw [Array.getElem?_push, if_neg (Nat.ne_of_lt hx.array_lt)]
  exact hx

/-- A cell that is put into another slot leaves the element where it is. -/
theorem Has.putSlot (h : m.Has x) {r : CellRef} (hother : x.array = a → x.index ≠ i) : (m.putSlot a i r).Has x := by
  unfold Has Memory.putSlot
  rw [slots_modify]
  split
  case isTrue hsame =>
    rw [Array.getElem?_setIfInBounds_ne]
    · exact h
    · exact (hother hsame.1.symm).symm
  case isFalse => exact h

/-- Asking for a slot adds no array. -/
theorem size_arrays_slot (m : Memory) (a : ArrayRef) (i : Nat) : (m.slot a i).2.arrays.size = m.arrays.size := by
  unfold slot
  split
  · rfl
  · rfl
  · show (m.arrays.modify a _).size = m.arrays.size
    rw [Array.size_modify]

/-- Looking at an element may give a cell to a hole, which leaves all elements where they are. -/
theorem advances_slot (m : Memory) (a : ArrayRef) (i : Nat) : m.Advances (m.slot a i).2 := by
  have harrays : m.arrays.size ≤ (m.slot a i).2.arrays.size := Nat.le_of_eq (m.size_arrays_slot a i).symm
  refine ⟨fun h => h.grown (m.grown_slot trivial a i).1 harrays, harrays, ?_⟩
  intro x hx
  unfold slot
  split
  case h_1 | h_2 => exact hx
  case h_3 hhole =>
    have hx' : (m.alloc .undefined).2.Has x := has_of_arrays_eq rfl hx
    apply hx'.putSlot
    intro harray hindex
    subst harray hindex
    rw [Has, hhole] at hx
    cases hx

/-- An array that gets another length keeps the elements that have room. -/
theorem Has.resize (h : m.Has x) {n : Nat} (hroom : x.array = a → x.index < n) : (m.resize a n).Has x := by
  unfold Has Memory.resize
  rw [slots_modify]
  split
  case isTrue hsame =>
    have hlt : x.index < (m.slots x.array).size := h.lt_size
    split
    · rw [Array.getElem?_extract, Nat.zero_add, if_pos]
      · exact h
      · have hroom := hroom hsame.1.symm
        omega
    · rw [Array.getElem?_append_left hlt]
      exact h
  case isFalse => exact h

/-- A new array leaves the sizes of the others. -/
theorem size_newArray {m : Memory} {a : ArrayRef} (ha : a < m.arrays.size) (values : List Value) :
    (m.newArray values).2.size a = m.size a := by
  show ((m.arrays.push _)[a]?.getD #[]).size = _
  rw [Array.getElem?_push, if_neg (Nat.ne_of_lt ha)]
  rfl

/-- Putting a cell into a slot leaves all sizes. -/
theorem size_putSlot (m : Memory) (a : ArrayRef) (i : Nat) (r : CellRef) (b : ArrayRef) :
    (m.putSlot a i r).size b = m.size b := by
  unfold size putSlot
  rw [slots_modify]
  split
  · exact Array.size_setIfInBounds
  · rfl

/-- Asking for a slot leaves all sizes. -/
theorem size_slot (m : Memory) (a : ArrayRef) (i : Nat) (b : ArrayRef) : (m.slot a i).2.size b = m.size b := by
  unfold slot
  split
  · rfl
  · rfl
  · exact size_putSlot ..

/-- Resizing changes the size of its array only. -/
theorem size_resize (m : Memory) (a : ArrayRef) (n : Nat) (b : ArrayRef) :
    (m.resize a n).size b = if a = b ∧ b < m.arrays.size then n else m.size b := by
  unfold size resize
  rw [slots_modify]
  split
  case isTrue =>
    split
    · rw [Array.size_extract]
      omega
    · rw [Array.size_append, Array.size_replicate]
      omega
  case isFalse => rfl

/-- Resizing trims a memory. -/
theorem trims_resize (m : Memory) (a : ArrayRef) (n : Nat) : m.Trims (m.resize a n) := by
  have harrays : m.arrays.size ≤ (m.resize a n).arrays.size := Nat.le_of_eq Array.size_modify.symm
  refine ⟨fun h => h.grown (m.grown_resize a n) harrays, harrays, ?_⟩
  intro x hx hinside
  apply hx.resize
  intro harray
  rw [size_resize, if_pos ⟨harray.symm, hx.array_lt⟩] at hinside
  exact hinside

/-- Setting a length trims a memory. -/
theorem trims_setLength (h : m.setLength a v = .ok m') : m.Trims m' := by
  cases v
  case number x =>
    simp only [setLength] at h
    split at h
    · cases h
    · split at h
      · cases h
      · cases h
        exact m.trims_resize ..
  all_goals cases h

/-! ## Writing to an element -/

/-- The place of an element: the cell that it lies in, or the pending element of an array. -/
inductive PlaceOf (m : Memory) (a : ArrayRef) (i : Nat) : Value → Prop where
  | inside {r} (h : m.Has ⟨a, i, r⟩) : PlaceOf m a i (.cell r)
  | behind (harray : a < m.arrays.size) : PlaceOf m a i (.pending a i)

/-- An array has an element that holds a value. -/
def ElementIs (m : Memory) (a : ArrayRef) (i : Nat) (v : Value) : Prop :=
  ∃ r, m.Has ⟨a, i, r⟩ ∧ m.cells[r]? = some v

/-- An element that is known is within its array. -/
theorem ElementIs.lt_size (h : m.ElementIs a i v) : i < m.size a := by
  obtain ⟨r, hr, -⟩ := h
  exact hr.lt_size

/-- What is looked at is the place of an element. -/
theorem placeOf_slot (i : Nat) (harray : a < (m.slot a i).2.arrays.size) :
    (m.slot a i).2.PlaceOf a i (m.slot a i).1 := by
  rw [size_arrays_slot] at harray
  unfold slot
  split
  case h_1 => exact .behind harray
  case h_2 r hslot => exact .inside hslot
  case h_3 hhole =>
    refine .inside ?_
    have hlt : i < (m.slots a).size := (Array.getElem?_eq_some_iff.mp hhole).1
    show ((m.alloc .undefined).2.putSlot a i _ |>.slots a)[i]? = _
    unfold putSlot
    rw [slots_modify, if_pos ⟨rfl, harray⟩]
    exact Array.getElem?_setIfInBounds_self_of_lt hlt

/-- What is written into the cell of an element is the element. -/
theorem elementIs_write (h : m.Settled) {r : CellRef} (hr : m.Has ⟨a, i, r⟩) (v : Value) :
    (m.write r v).ElementIs a i v := by
  refine ⟨r, has_of_arrays_eq rfl hr, ?_⟩
  exact Array.getElem?_setIfInBounds_self_of_lt (h.linked r hr.linked)

/-- A write to a cell that an element does not lie in leaves the element as it is. -/
theorem elementIs_write_iff {r : CellRef} (hr : ¬ m.Has ⟨a, i, r⟩) (v w : Value) :
    (m.write r v).ElementIs a i w ↔ m.ElementIs a i w := by
  have hcell {r' : CellRef} (hr' : m.Has ⟨a, i, r'⟩) : (m.write r v).cells[r']? = m.cells[r']? := by
    refine Array.getElem?_setIfInBounds_ne fun hsame => ?_
    rw [← hsame] at hr'
    exact hr hr'
  constructor
  · rintro ⟨r', hr', hw⟩
    rw [hcell hr'] at hw
    exact ⟨r', hr', hw⟩
  · rintro ⟨r', hr', hw⟩
    rw [← hcell hr'] at hw
    exact ⟨r', hr', hw⟩

/-- A pending element gets a cell of its own, and no other element loses the one that it has. -/
theorem setSlot_eq_some (h : m.setSlot a i v = some m') : ∃ grown : Memory, m.Advances grown ∧
    grown.arrays.size = m.arrays.size ∧ (i < grown.size a ∨ m.arrays.size ≤ a) ∧
    m' = (grown.alloc v).2.putSlot a i grown.cells.size := by
  unfold setSlot at h
  split at h
  · cases h
  · cases h
    by_cases hbehind : m.size a ≤ i
    · rw [if_pos hbehind]
      have htrims := m.trims_resize a (i + 1)
      refine ⟨m.resize a (i + 1), ⟨htrims.settled, htrims.arrays, ?_⟩, Array.size_modify, ?_, rfl⟩
      · intro x hx
        apply hx.resize
        intro harray
        have hlt := hx.lt_size
        rw [harray] at hlt
        omega
      · by_cases hthere : a < m.arrays.size
        · rw [size_resize, if_pos ⟨rfl, hthere⟩]
          exact .inl (Nat.lt_succ_self i)
        · exact .inr (Nat.le_of_not_lt hthere)
    · rw [if_neg hbehind]
      exact ⟨m, .refl m, rfl, .inl (Nat.lt_of_not_le hbehind), rfl⟩

/-- Setting an element adds no array. -/
theorem size_arrays_setSlot (h : m.setSlot a i v = some m') : m'.arrays.size = m.arrays.size := by
  obtain ⟨grown, -, harrays, -, rfl⟩ := setSlot_eq_some h
  show (grown.arrays.modify a _).size = _
  rw [Array.size_modify, harrays]

/-- A set element is what it was set to. -/
theorem elementIs_setSlot (harray : a < m.arrays.size) (h : m.setSlot a i v = some m') : m'.ElementIs a i v := by
  obtain ⟨grown, hgrown, -, hroom, rfl⟩ := setSlot_eq_some h
  have hlt : i < grown.size a := hroom.resolve_right (Nat.not_le_of_lt harray)
  refine ⟨grown.cells.size, ?_, ?_⟩
  · unfold Has putSlot
    rw [slots_modify, if_pos ⟨rfl, Nat.lt_of_lt_of_le harray hgrown.arrays⟩]
    exact Array.getElem?_setIfInBounds_self_of_lt hlt
  · exact Array.getElem?_push_size

end Memory

/-! ## What is watched -/

/-- What is known of the arrays that hosts hold: a property of their state and the number of arrays, which does not
mind more arrays. -/
structure Holding (σ : Type) where
  holds : σ → Nat → Prop
  mono : ∀ host k k', k ≤ k' → holds host k → holds host k'

/-- Nothing is known of what hosts hold. -/
def Holding.unknown (σ : Type) : Holding σ := ⟨fun _ _ => True, fun _ _ _ _ _ => trivial⟩

/-- What is watched in a run: the first arrays, what hosts hold, and perhaps an element. -/
structure Watch (σ : Type) where
  arrays : Nat
  hosts : Holding σ
  element : Option Element

namespace Watch

variable {σ : Type}

/-- Only arrays and hosts are watched. -/
abbrev ofArrays (k : Nat) (hosts : Holding σ) : Watch σ := ⟨k, hosts, none⟩

/-- More arrays are watched. -/
abbrev upTo (W : Watch σ) (k : Nat) : Watch σ := ⟨k, W.hosts, W.element⟩

end Watch

/-- A value that does not lead to a new cell for the element that is watched, and if it is an array, it is watched. -/
def Value.Spares {σ : Type} (W : Watch σ) : Value → Prop
  | .pending a i => ∀ x ∈ W.element, a = x.array → i ≠ x.index
  | .array a => a < W.arrays
  | _ => True

/-- A settled value spares the watched element. -/
theorem Value.Settled.spares {σ : Type} {W : Watch σ} {v : Value} (h : v.Settled W.arrays) : v.Spares W := by
  cases v
  case pending => exact h.elim
  all_goals exact h

/-- A value that spares the watched element does so later. -/
theorem Value.Spares.mono {σ : Type} {W : Watch σ} {v : Value} (h : v.Spares W) {k : Nat} (hk : W.arrays ≤ k) :
    v.Spares (W.upTo k) := by
  cases v
  case array a => exact Nat.lt_of_lt_of_le h hk
  all_goals exact h

/-- Memory is settled, the arrays that are watched are there, and the element that is watched lies in its cell. -/
structure Memory.Carries {σ : Type} (W : Watch σ) (m : Memory) : Prop where
  settled : m.Settled
  arrays : W.arrays ≤ m.arrays.size
  element : ∀ x ∈ W.element, m.Has x

namespace Memory.Carries

variable {σ : Type} {W : Watch σ} {m m' : Memory} (h : m.Carries W)

include h

/-- A memory that advanced keeps to the watch. -/
theorem advances (hadvances : m.Advances m') : m'.Carries W :=
  ⟨hadvances.settled h.settled, Nat.le_trans h.arrays hadvances.arrays, fun x hx => hadvances.has x (h.element x hx)⟩

/-- A memory that was trimmed keeps to the watch if the watched element is still there. -/
theorem trims (htrims : m.Trims m') (hinside : ∀ x ∈ W.element, x.index < m'.size x.array) : m'.Carries W :=
  ⟨htrims.settled h.settled, Nat.le_trans h.arrays htrims.arrays,
    fun x hx => htrims.has x (h.element x hx) (hinside x hx)⟩

/-- Setting an element that is not watched keeps to the watch. -/
theorem setSlot {a : ArrayRef} {i : Nat} {v : Value} (hspares : (Value.pending a i).Spares W)
    (hv : v.Settled m.arrays.size) (hset : m.setSlot a i v = some m') : m'.Carries W := by
  have harrays : m.arrays.size ≤ m'.arrays.size := Nat.le_of_eq (size_arrays_setSlot hset).symm
  have hsettled := h.settled.grown (grown_setSlot (hv.mono harrays) hset) harrays
  refine ⟨hsettled, Nat.le_trans h.arrays harrays, ?_⟩
  intro x hx
  obtain ⟨grown, hgrown, -, -, rfl⟩ := setSlot_eq_some hset
  have hkept : (grown.alloc v).2.Has x := has_of_arrays_eq rfl (hgrown.has x (h.element x hx))
  apply hkept.putSlot
  intro harray hindex
  exact hspares x hx harray.symm hindex.symm

/-- No pending element is found for an element that has a cell. -/
theorem spares_slot (a : ArrayRef) (i k : Nat) : (m.slot a i).1.Spares (W.upTo k) := by
  unfold slot
  split
  case h_1 hbehind =>
    intro x hx harray hindex
    have hhas := h.element x hx
    rw [Has, ← harray, ← hindex, hbehind] at hhas
    cases hhas
  case h_2 | h_3 => exact trivial

end Memory.Carries

end Primer
