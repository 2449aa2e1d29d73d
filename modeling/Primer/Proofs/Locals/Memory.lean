import Primer.Run.Action

/-!
# How memory grows

A run changes its memory in two ways. It writes to a cell that is there, or it makes new cells, with values of its
own, and puts some of them into arrays. The second is what all other operations on memory do (`Memory.Grown`): the
cells from before keep their contents, and an array has only such cells in it as were in some array before, or new
ones. Variables live in cells that are in no array, and these operations leave them there.
-/

set_option autoImplicit false

namespace Primer

variable {Q : Value → Prop}

namespace Memory

/-- A cell that is in an array. -/
def Linked (m : Memory) (r : CellRef) : Prop := ∃ (a : ArrayRef) (i : Nat), (m.slots a)[i]? = some (some r)

/-- A memory that came out of another one by making cells, whose first contents have a property. -/
structure Grown (Q : Value → Prop) (m m' : Memory) : Prop where
  size : m.cells.size ≤ m'.cells.size
  old : ∀ r < m.cells.size, m'.cells[r]? = m.cells[r]?
  new : ∀ r v, m.cells.size ≤ r → m'.cells[r]? = some v → Q v
  linked : ∀ r, m'.Linked r → m.Linked r ∨ (m.cells.size ≤ r ∧ r < m'.cells.size)

namespace Grown

variable {m m' m'' : Memory}

/-- A memory has grown out of itself. -/
theorem refl (m : Memory) : Grown Q m m := by
  refine ⟨Nat.le_refl _, fun _ _ => rfl, ?_, fun _ h => .inl h⟩
  intro r v hr hv
  have hlt := (Array.getElem?_eq_some_iff.mp hv).1
  omega

/-- Growing passes on. -/
theorem trans (h : Grown Q m m') (h' : Grown Q m' m'') : Grown Q m m'' where
  size := Nat.le_trans h.size h'.size
  old r hr := (h'.old r (Nat.lt_of_lt_of_le hr h.size)).trans (h.old r hr)
  new r v hr hv := by
    by_cases hold : r < m'.cells.size
    · rw [h'.old r hold] at hv
      exact h.new r v hr hv
    · exact h'.new r v (Nat.le_of_not_lt hold) hv
  linked r hr := by
    rcases h'.linked r hr with hmiddle | hnew
    · rcases h.linked r hmiddle with hold | hnew
      · exact .inl hold
      · exact .inr ⟨hnew.1, Nat.lt_of_lt_of_le hnew.2 h'.size⟩
    · exact .inr ⟨Nat.le_trans h.size hnew.1, hnew.2⟩

/-- A cell from before that holds something holds it still. -/
theorem kept (h : Grown Q m m') {r : CellRef} {v : Value} (hv : m.cells[r]? = some v) : m'.cells[r]? = some v := by
  rw [h.old r (Array.getElem?_eq_some_iff.mp hv).1, hv]

/-- What lies in a cell lay there before, or has the property. -/
theorem cases (h : Grown Q m m') {r : CellRef} {v : Value} (hv : m'.cells[r]? = some v) :
    m.cells[r]? = some v ∨ (m.cells.size ≤ r ∧ Q v) := by
  by_cases hr : r < m.cells.size
  · rw [h.old r hr] at hv
    exact .inl hv
  · exact .inr ⟨Nat.le_of_not_lt hr, h.new r v (Nat.le_of_not_lt hr) hv⟩

end Grown

/-! ## The operations -/

/-- New cells let a memory grow. -/
theorem grown_allocAll (m : Memory) {values : List Value} (hvalues : ∀ v ∈ values, Q v) :
    Grown Q m (m.allocAll values).2 := by
  have hcells : (m.allocAll values).2.cells = m.cells ++ values.toArray := rfl
  refine ⟨?_, ?_, ?_, fun r hr => .inl hr⟩
  · rw [hcells, Array.size_append]
    exact Nat.le_add_right _ _
  · intro r hr
    rw [hcells, Array.getElem?_append_left hr]
  · intro r v hr hv
    rw [hcells, Array.getElem?_append_right hr] at hv
    exact hvalues v (List.mem_toArray.mp (Array.mem_of_getElem? hv))

/-- Each new cell is one more. -/
theorem size_allocAll (m : Memory) (values : List Value) :
    (m.allocAll values).2.cells.size = m.cells.size + values.length := by
  show (m.cells ++ values.toArray).size = _
  simp only [Array.size_append, List.size_toArray]

/-- The cells that are made for several values are new ones. -/
theorem mem_allocAll {m : Memory} {values : List Value} {r : CellRef} (h : r ∈ (m.allocAll values).1) :
    m.cells.size ≤ r ∧ r < (m.allocAll values).2.cells.size := by
  obtain ⟨i, hi, rfl⟩ := List.mem_map.mp h
  rw [size_allocAll]
  exact ⟨Nat.le_add_right _ _, Nat.add_lt_add_left (List.mem_range.mp hi) _⟩

/-- New cells are numbered behind the old ones. -/
theorem getElem_allocAll (m : Memory) (values : List Value) {i : Nat} (h : i < (m.allocAll values).1.length) :
    (m.allocAll values).1[i] = m.cells.size + i := by
  simp only [allocAll, List.getElem_map, List.getElem_range]

/-- A new cell is a list of one. -/
theorem alloc_eq_allocAll (m : Memory) (v : Value) : (m.alloc v).2 = (m.allocAll [v]).2 := by
  unfold alloc allocAll
  rw [Array.push_eq_append]

/-- A new cell lets a memory grow. -/
theorem grown_alloc (m : Memory) {v : Value} (hv : Q v) : Grown Q m (m.alloc v).2 := by
  rw [alloc_eq_allocAll]
  apply m.grown_allocAll
  intro w hw
  rw [List.mem_singleton.mp hw]
  exact hv

/-- A new cell is one more. -/
theorem size_alloc (m : Memory) (v : Value) : (m.alloc v).2.cells.size = m.cells.size + 1 := Array.size_push _

/-- Arrays change, and a cell that is in one afterwards was in one before or is a new one. -/
theorem Grown.withArrays {m m' : Memory} (h : Grown Q m m') {m'' : Memory} (hcells : m''.cells = m'.cells)
    (hlinked : ∀ r, m''.Linked r → m'.Linked r ∨ (m.cells.size ≤ r ∧ r < m'.cells.size)) : Grown Q m m'' := by
  refine ⟨?_, ?_, ?_, ?_⟩
  · rw [hcells]
    exact h.size
  · rw [hcells]
    exact h.old
  · rw [hcells]
    exact h.new
  · intro r hr
    rw [hcells]
    rcases hlinked r hr with hold | hnew
    · exact h.linked r hold
    · exact .inr hnew

/-- A new array lets a memory grow. -/
theorem grown_newArray (m : Memory) {values : List Value} (hvalues : ∀ v ∈ values, Q v) :
    Grown Q m (m.newArray values).2 := by
  refine (m.grown_allocAll hvalues).withArrays rfl ?_
  rintro r ⟨a, i, hslot⟩
  have hslots : (m.newArray values).2.slots a =
      (m.arrays.push ((m.allocAll values).1.map some).toArray)[a]?.getD #[] := rfl
  rw [hslots, Array.getElem?_push] at hslot
  split at hslot
  case isTrue =>
    have hmem := Array.mem_of_getElem? hslot
    simp only [Option.getD_some, List.mem_toArray, List.mem_map, Option.some.injEq, exists_eq_right] at hmem
    exact .inr (mem_allocAll hmem)
  case isFalse => exact .inl ⟨a, i, hslot⟩

/-- Changing one array changes its slots only. -/
theorem slots_modify (m : Memory) (a : ArrayRef) (f : Array (Option CellRef) → Array (Option CellRef)) (b : ArrayRef) :
    ({ m with arrays := m.arrays.modify a f } : Memory).slots b =
      if a = b ∧ b < m.arrays.size then f (m.slots b) else m.slots b := by
  unfold slots
  dsimp only
  rw [Array.getElem?_modify]
  by_cases hab : a = b
  · subst hab
    by_cases ha : a < m.arrays.size
    · rw [if_pos rfl, if_pos ⟨rfl, ha⟩, Array.getElem?_eq_getElem ha]
      rfl
    · rw [if_pos rfl, if_neg fun h => ha h.2, Array.getElem?_eq_none (Nat.le_of_not_lt ha)]
      rfl
  · rw [if_neg hab, if_neg fun h => hab h.1]

/-- An array that is cut off or filled up with holes has no cells in it that were not there. -/
theorem linked_resize {m : Memory} {a : ArrayRef} {n : Nat} {r : CellRef} (h : (m.resize a n).Linked r) :
    m.Linked r := by
  obtain ⟨b, i, hslot⟩ := h
  unfold resize at hslot
  rw [slots_modify] at hslot
  split at hslot
  case isTrue =>
    split at hslot
    case isTrue =>
      rw [Array.getElem?_extract] at hslot
      split at hslot
      · exact ⟨b, _, hslot⟩
      · cases hslot
    case isFalse =>
      rw [Array.getElem?_append] at hslot
      split at hslot
      · exact ⟨b, i, hslot⟩
      · rw [Array.getElem?_replicate] at hslot
        split at hslot <;> cases hslot
  case isFalse => exact ⟨b, i, hslot⟩

/-- Putting a cell into a slot links that cell at most. -/
theorem linked_putSlot {m : Memory} {a : ArrayRef} {i : Nat} {r r' : CellRef} (h : (m.putSlot a i r).Linked r') :
    m.Linked r' ∨ r' = r := by
  obtain ⟨b, j, hslot⟩ := h
  unfold putSlot at hslot
  rw [slots_modify] at hslot
  split at hslot
  case isTrue =>
    rw [Array.getElem?_setIfInBounds] at hslot
    split at hslot
    · split at hslot
      · cases hslot
        exact .inr rfl
      · cases hslot
    · exact .inl ⟨b, j, hslot⟩
  case isFalse => exact .inl ⟨b, j, hslot⟩

/-- Resizing lets a memory grow. -/
theorem grown_resize (m : Memory) (a : ArrayRef) (n : Nat) : Grown Q m (m.resize a n) :=
  (Grown.refl m).withArrays rfl fun _ hr => .inl (linked_resize hr)

/-- A new cell is put into an array. -/
theorem grown_putSlot (m : Memory) {v : Value} (hv : Q v) (a : ArrayRef) (i : Nat) :
    Grown Q m ((m.alloc v).2.putSlot a i (m.alloc v).1) := by
  refine (m.grown_alloc hv).withArrays rfl ?_
  intro r hr
  apply (linked_putSlot hr).imp_right
  intro hnew
  subst hnew
  refine ⟨Nat.le_refl _, ?_⟩
  rw [size_alloc]
  exact Nat.lt_succ_self _

/-- Looking at an element: it is a cell in an array, or a place behind the end. -/
theorem grown_slot (m : Memory) (hundefined : Q .undefined) (a : ArrayRef) (i : Nat) :
    Grown Q m (m.slot a i).2 ∧ ∀ r, (m.slot a i).1 = .cell r → (m.slot a i).2.Linked r ∨ m.cells.size ≤ r := by
  unfold slot
  cases hslot : (m.slots a)[i]? with
  | none => exact ⟨.refl m, nofun⟩
  | some entry =>
    cases entry with
    | some r =>
      refine ⟨.refl m, ?_⟩
      rintro _ ⟨⟩
      exact .inl ⟨a, i, hslot⟩
    | none =>
      refine ⟨m.grown_putSlot hundefined a i, ?_⟩
      rintro _ ⟨⟩
      exact .inr (Nat.le_refl _)

/-- Setting an element lets a memory grow. -/
theorem grown_setSlot {m m' : Memory} {a : ArrayRef} {i : Nat} {v : Value} (hv : Q v)
    (h : m.setSlot a i v = some m') : Grown Q m m' := by
  unfold setSlot at h
  split at h
  · cases h
  · cases h
    split
    · exact (m.grown_resize a (i + 1)).trans (grown_putSlot _ hv a i)
    · exact m.grown_putSlot hv a i

/-- Setting a length lets a memory grow. -/
theorem grown_setLength {m m' : Memory} {a : ArrayRef} {v : Value} (h : m.setLength a v = .ok m') : Grown Q m m' := by
  cases v
  case number x =>
    simp only [setLength] at h
    split at h
    · cases h
    · split at h
      · cases h
      · cases h
        exact m.grown_resize ..
  all_goals cases h

end Memory

end Primer
