import Primer.Proofs.Array.Length
import Primer.Proofs.Element.Memory

/-!
# Arrays are bounded sequences

What a program sees of an array is a sequence of values. A hole is undefined, and looking at it, which gives it a cell,
changes nothing that can be seen. The cells of an array are its own: no two of its elements lie in one cell
(`Memory.Separate`), so that what is written to one element leaves the others alone. Each use of an array then does to
its values what it does to a plain list (`ArrayUse.runOn`), in particular

* an element that is written at or behind the end makes the array just as long as needed, with undefined elements
  between,
* a length cuts the array off or fills it up with undefined elements, so elements that were cut off stay away,
* a use is refused on the array exactly when it is refused on the list, and a refused one changes nothing.
-/

set_option autoImplicit false

namespace Primer

/-! ## Uses of an array -/

/-- The first `n` values of a list, with undefined ones where it is too short. -/
def resized (values : List Value) (n : Nat) : List Value :=
  (List.range n).map fun j => values.getD j .undefined

/-- Up to its new length a resized sequence has the old values, then undefined ones. -/
theorem getElem?_resized (values : List Value) (n j : Nat) :
    (resized values n)[j]? = if j < n then some (values.getD j .undefined) else none := by
  unfold resized
  rw [List.getElem?_map]
  by_cases hj : j < n
  · rw [if_pos hj, List.getElem?_range hj, Option.map_some]
  · rw [if_neg hj, List.getElem?_eq_none (by simpa using hj), Option.map_none]

/-- A resized sequence has its new length. -/
theorem length_resized (values : List Value) (n : Nat) : (resized values n).length = n := by
  simp [resized]

/-- Resizing to the old length changes nothing. -/
theorem resized_length (values : List Value) : resized values values.length = values := by
  apply List.ext_getElem?
  intro j
  rw [getElem?_resized]
  by_cases hj : j < values.length
  · simp [hj]
  · simp [hj]

/-- Values that were cut off do not come back when the list gets longer. -/
theorem resized_resized (values : List Value) {n k : Nat} (h : n ≤ k) :
    resized (resized values n) k = resized values n ++ List.replicate (k - n) .undefined := by
  apply List.ext_getElem?
  intro j
  rw [getElem?_resized, List.getD_eq_getElem?_getD, List.getElem?_append, List.getElem?_replicate, length_resized,
    getElem?_resized]
  by_cases hn : j < n
  · have hk : j < k := by omega
    simp [hn, hk]
  · by_cases hk : j < k
    · have hbehind : j - n < k - n := by omega
      simp [hn, hk, hbehind]
    · have hbehind : ¬j - n < k - n := by omega
      simp [hn, hk, hbehind]

/-- What can be done with an array: to look at an element, to write to the cell of one that has a place in the array, to
write an element wherever it is, and to write the length. -/
inductive ArrayUse where
  | look (i : Nat)
  | write (i : Nat) (v : Value)
  | put (i : Nat) (v : Value)
  | setLength (v : Value)

namespace ArrayUse

/-- What a use does to a list of values, or `none` if it is refused. -/
def runOn : ArrayUse → List Value → Option (List Value)
  | .look _, values => some values
  | .write i v, values => some (values.set i (present v))
  | .put i v, values =>
    if maxArrayLength ≤ i then none
    else some ((resized values (max values.length (i + 1))).set i (present v))
  | .setLength v, values => v.length?.map (resized values)

/-- What a use does to an array of the memory, or `none` if it is refused. -/
def run (a : ArrayRef) : ArrayUse → Memory → Option Memory
  | .look i, m => some (m.slot a i).2
  | .write i v, m =>
    match m.slot a i with
    | (.cell r, m) => some (m.write r v)
    | (_, m) => some m
  | .put i v, m => m.setSlot a i v
  | .setLength v, m => (m.setLength a v).toOption

/-- The values after several uses; a refused one leaves them as they are. -/
def runAllOn (uses : List ArrayUse) (values : List Value) : List Value :=
  uses.foldl (fun values use => (use.runOn values).getD values) values

/-- The memory after several uses of an array; a refused one leaves it as it is. -/
def runAll (a : ArrayRef) (uses : List ArrayUse) (m : Memory) : Memory :=
  uses.foldl (fun m use => (use.run a m).getD m) m

end ArrayUse

namespace Memory

variable {m : Memory} {a : ArrayRef} {i n : Nat} {r : CellRef} {v : Value}

/-! ## The values of an array -/

/-- A slot with a cell shows what the cell holds. -/
theorem slotValue_some (m : Memory) (r : CellRef) : m.slotValue (some r) = present (m.read r) := by
  unfold slotValue present
  rfl

/-- An array has as many values as slots. -/
theorem length_values (m : Memory) (a : ArrayRef) : (m.values a).length = m.size a := by
  simp [values, size]

/-- The values of an array are those of its slots. -/
theorem getElem?_values (m : Memory) (a : ArrayRef) (i : Nat) :
    (m.values a)[i]? = ((m.slots a)[i]?).map m.slotValue := by
  simp [values]

/-- The elements of an array lie in cells that are there, each in one of its own. -/
structure Separate (m : Memory) (a : ArrayRef) : Prop where
  array : a < m.arrays.size
  cell : ∀ (i : Nat) r, (m.slots a)[i]? = some (some r) → r < m.cells.size
  distinct : ∀ (i j : Nat) r, (m.slots a)[i]? = some (some r) → (m.slots a)[j]? = some (some r) → i = j

/-- Cells that are made elsewhere do not change the values of an array. -/
theorem slotValue_alloc (h : m.Separate a) (v : Value) {entry : Option CellRef} (hentry : (m.slots a)[i]? = some entry) :
    (m.alloc v).2.slotValue entry = m.slotValue entry := by
  cases entry with
  | none => rfl
  | some r =>
    have hread : (m.alloc v).2.read r = m.read r := by
      unfold read alloc
      rw [Array.getElem?_push, if_neg (Nat.ne_of_lt (h.cell i r hentry))]
    rw [slotValue_some, slotValue_some, hread]

/-! ## What a use changes -/

/-- A slot that is put refers to the new cell. -/
theorem slots_putSlot (h : m.Separate a) (v : Value) (i : Nat) :
    ((m.alloc v).2.putSlot a i (m.alloc v).1).slots a = (m.slots a).setIfInBounds i (some m.cells.size) := by
  unfold putSlot
  rw [slots_modify, if_pos ⟨rfl, h.array⟩]
  rfl

/-- An element gets a new cell. -/
theorem values_putSlot (h : m.Separate a) (v : Value) (i : Nat) :
    ((m.alloc v).2.putSlot a i (m.alloc v).1).values a = (m.values a).set i (present v) := by
  apply List.ext_getElem?
  intro j
  rw [getElem?_values, slots_putSlot h, List.getElem?_set, getElem?_values, length_values]
  by_cases hsame : i = j
  · subst hsame
    by_cases hlt : i < m.size a
    · have hnew : (m.alloc v).2.read m.cells.size = v := by
        simp [read, alloc]
      rw [if_pos rfl, if_pos hlt, Array.getElem?_setIfInBounds_self_of_lt hlt, Option.map_some]
      change some ((m.alloc v).2.slotValue (some m.cells.size)) = _
      rw [slotValue_some, hnew]
    · rw [if_pos rfl, if_neg hlt, Array.getElem?_eq_none]
      · rfl
      · rw [Array.size_setIfInBounds]
        exact Nat.le_of_not_lt hlt
  · rw [if_neg hsame, Array.getElem?_setIfInBounds_ne hsame]
    cases hentry : (m.slots a)[j]? with
    | none => rfl
    | some entry =>
      simp only [Option.map_some, Option.some.injEq]
      exact slotValue_alloc h v hentry

/-- Putting a new cell into a slot keeps the slots separate. -/
theorem separate_putSlot (h : m.Separate a) (v : Value) (i : Nat) :
    ((m.alloc v).2.putSlot a i (m.alloc v).1).Separate a := by
  have hslots := slots_putSlot h v i
  have hentry : ∀ j r, ((m.slots a).setIfInBounds i (some m.cells.size))[j]? = some (some r) →
      j = i ∧ r = m.cells.size ∨ j ≠ i ∧ (m.slots a)[j]? = some (some r) := by
    intro j r hj
    rw [Array.getElem?_setIfInBounds] at hj
    by_cases hsame : i = j
    · rw [if_pos hsame] at hj
      split at hj
      · simp only [Option.some.injEq] at hj
        exact .inl ⟨hsame.symm, hj.symm⟩
      · cases hj
    · rw [if_neg hsame] at hj
      exact .inr ⟨Ne.symm hsame, hj⟩
  constructor
  · show a < ((m.alloc v).2.arrays.modify a _).size
    rw [Array.size_modify]
    exact h.array
  · intro j r hj
    rw [hslots] at hj
    show r < (m.cells.push v).size
    rw [Array.size_push]
    rcases hentry j r hj with ⟨-, rfl⟩ | ⟨-, hold⟩
    · exact Nat.lt_succ_self _
    · exact Nat.lt_succ_of_lt (h.cell j r hold)
  · intro j k r hj hk
    rw [hslots] at hj hk
    rcases hentry j r hj with ⟨hji, hnew⟩ | ⟨-, hjold⟩
    · rcases hentry k r hk with ⟨hki, -⟩ | ⟨-, hkold⟩
      · rw [hji, hki]
      · exact absurd hnew (Nat.ne_of_lt (h.cell k r hkold))
    · rcases hentry k r hk with ⟨-, hnew⟩ | ⟨-, hkold⟩
      · exact absurd hnew (Nat.ne_of_lt (h.cell j r hjold))
      · exact h.distinct j k r hjold hkold

/-- Looking at an element changes no value. -/
theorem values_slot (h : m.Separate a) (i : Nat) : (m.slot a i).2.values a = m.values a := by
  unfold slot
  split
  case h_1 | h_2 => rfl
  case h_3 hhole =>
    rw [values_putSlot h]
    have hundefined : (m.values a)[i]? = some .undefined := by
      rw [getElem?_values, hhole]
      rfl
    obtain ⟨hlt, hvalue⟩ := List.getElem?_eq_some_iff.mp hundefined
    change (m.values a).set i .undefined = _
    rw [← hvalue, List.set_getElem_self]

/-- Asking for a slot keeps the slots separate. -/
theorem separate_slot (h : m.Separate a) (i : Nat) : (m.slot a i).2.Separate a := by
  unfold slot
  split
  case h_1 | h_2 => exact h
  case h_3 => exact separate_putSlot h .undefined i

/-- What is found at an index: the cell of the element there, or a pending element behind the end. -/
theorem slot_eq (h : m.Separate a) (i : Nat) :
    (i < m.size a ∧ ∃ r m', m.slot a i = (.cell r, m') ∧ (m'.slots a)[i]? = some (some r)) ∨
      (m.size a ≤ i ∧ m.slot a i = (.pending a i, m)) := by
  unfold slot
  split
  case h_1 hbehind => exact .inr ⟨Array.getElem?_eq_none_iff.mp hbehind, rfl⟩
  case h_2 r hslot => exact .inl ⟨(Array.getElem?_eq_some_iff.mp hslot).1, r, m, rfl, hslot⟩
  case h_3 hhole =>
    have hlt : i < m.size a := (Array.getElem?_eq_some_iff.mp hhole).1
    refine .inl ⟨hlt, m.cells.size, (m.alloc .undefined).2.putSlot a i (m.alloc .undefined).1, rfl, ?_⟩
    rw [slots_putSlot h]
    exact Array.getElem?_setIfInBounds_self_of_lt hlt

/-- A write to the cell of an element. -/
theorem values_write (h : m.Separate a) (hslot : (m.slots a)[i]? = some (some r)) (v : Value) :
    (m.write r v).values a = (m.values a).set i (present v) := by
  apply List.ext_getElem?
  intro j
  have hslots : (m.write r v).slots a = m.slots a := rfl
  rw [getElem?_values, hslots, List.getElem?_set, getElem?_values, length_values]
  by_cases hsame : i = j
  · subst hsame
    have hlt : i < m.size a := (Array.getElem?_eq_some_iff.mp hslot).1
    have hread : (m.write r v).read r = v := by
      simp [read, write, h.cell i r hslot]
    rw [if_pos rfl, if_pos hlt, hslot, Option.map_some, slotValue_some, hread]
  · rw [if_neg hsame]
    cases hentry : (m.slots a)[j]? with
    | none => rfl
    | some entry =>
      cases entry with
      | none => rfl
      | some r' =>
        have hother : r ≠ r' := by
          intro hcell
          subst hcell
          exact hsame (h.distinct i j r hslot hentry)
        have hread : (m.write r v).read r' = m.read r' := by
          unfold read write
          rw [Array.getElem?_setIfInBounds_ne hother]
        rw [Option.map_some, Option.map_some, slotValue_some, slotValue_some, hread]

/-- Writing into a cell keeps the slots separate. -/
theorem separate_write (h : m.Separate a) (r : CellRef) (v : Value) : (m.write r v).Separate a := by
  refine ⟨h.array, ?_, h.distinct⟩
  intro i r' hslot
  show r' < (m.cells.setIfInBounds r v).size
  rw [Array.size_setIfInBounds]
  exact h.cell i r' hslot

/-- An entry of an array that was cut off or filled up is an entry from before, or a hole behind them. -/
theorem getElem?_slots_resize (h : m.Separate a) (n j : Nat) : ((m.resize a n).slots a)[j]? =
    if j < n then some ((m.slots a)[j]?.getD none) else none := by
  unfold resize
  rw [slots_modify, if_pos ⟨rfl, h.array⟩]
  split
  case isTrue hle =>
    rw [Array.getElem?_extract]
    by_cases hj : j < n
    · rw [if_pos hj, if_pos (by omega), Nat.zero_add, Array.getElem?_eq_getElem (by omega)]
      rfl
    · rw [if_neg hj, if_neg (by omega)]
  case isFalse hgt =>
    rw [Array.getElem?_append, Array.getElem?_replicate]
    by_cases hold : j < (m.slots a).size
    · rw [if_pos hold, if_pos (by omega), Array.getElem?_eq_getElem hold]
      rfl
    · rw [if_neg hold, Array.getElem?_eq_none (Nat.le_of_not_lt hold)]
      by_cases hj : j < n
      · rw [if_pos hj, if_pos (by omega)]
        rfl
      · rw [if_neg hj, if_neg (by omega)]

/-- A length cuts an array off or fills it up. -/
theorem values_resize (h : m.Separate a) (n : Nat) : (m.resize a n).values a = resized (m.values a) n := by
  apply List.ext_getElem?
  intro j
  rw [getElem?_values, getElem?_slots_resize h, getElem?_resized, List.getD_eq_getElem?_getD, getElem?_values]
  by_cases hj : j < n
  · rw [if_pos hj, if_pos hj]
    cases (m.slots a)[j]? with
    | none => rfl
    | some entry => rfl
  · rw [if_neg hj, if_neg hj]
    rfl

/-- Resizing keeps the slots separate. -/
theorem separate_resize (h : m.Separate a) (n : Nat) : (m.resize a n).Separate a := by
  have hold : ∀ (j : Nat) r, ((m.resize a n).slots a)[j]? = some (some r) → (m.slots a)[j]? = some (some r) := by
    intro j r hj
    rw [getElem?_slots_resize h] at hj
    split at hj
    · cases hentry : (m.slots a)[j]? with
      | none => simp [hentry] at hj
      | some entry => simpa [hentry] using hj
    · cases hj
  constructor
  · show a < (m.arrays.modify a _).size
    rw [Array.size_modify]
    exact h.array
  · intro j r hj
    exact h.cell j r (hold j r hj)
  · intro j k r hj hk
    exact h.distinct j k r (hold j r hj) (hold k r hk)

/-! ## Uses on the array and on the list -/

/-- An element is written in a new cell, in an array that was made longer if needed. -/
theorem run_put (h : m.Separate a) (i : Nat) (v : Value) :
    ((ArrayUse.put i v).run a m).map (fun m' => m'.values a) = (ArrayUse.put i v).runOn (m.values a) := by
  have hlength := length_values m a
  dsimp only [ArrayUse.run, ArrayUse.runOn]
  unfold setSlot
  by_cases hlimit : maxArrayLength ≤ i
  · rw [if_pos hlimit, if_pos hlimit]
    rfl
  · rw [if_neg hlimit, if_neg hlimit]
    by_cases hbehind : m.size a ≤ i
    · have hmax : max (m.values a).length (i + 1) = i + 1 := by omega
      rw [if_pos hbehind, hmax, ← values_resize h, ← values_putSlot (separate_resize h (i + 1))]
      rfl
    · have hmax : max (m.values a).length (i + 1) = (m.values a).length := by omega
      rw [if_neg hbehind, hmax, resized_length, ← values_putSlot h]
      rfl

/-- A write to the cell at an index; nothing is written where there is none. -/
theorem run_write (h : m.Separate a) (i : Nat) (v : Value) :
    ∃ m', (ArrayUse.write i v).run a m = some m' ∧ m'.Separate a ∧ m'.values a = (m.values a).set i (present v) := by
  have hseparate := separate_slot h i
  have hvalues := values_slot h i
  dsimp only [ArrayUse.run]
  rcases slot_eq h i with ⟨hlt, r, looked, hslot, hentry⟩ | ⟨hbehind, hslot⟩
  · rw [hslot] at hseparate hvalues
    rw [hslot]
    refine ⟨_, rfl, separate_write hseparate r v, ?_⟩
    rw [values_write hseparate hentry, hvalues]
  · rw [hslot]
    refine ⟨_, rfl, h, ?_⟩
    rw [List.set_eq_of_length_le]
    rw [length_values]
    exact hbehind

/-- Setting an element keeps the slots separate. -/
theorem separate_setSlot (h : m.Separate a) {m' : Memory} (hset : m.setSlot a i v = some m') : m'.Separate a := by
  unfold setSlot at hset
  split at hset
  · cases hset
  · cases hset
    split
    · exact separate_putSlot (separate_resize h (i + 1)) v i
    · exact separate_putSlot h v i

/-- A use of an array does to its values what it does to the list of them. -/
theorem values_run (h : m.Separate a) (use : ArrayUse) :
    (use.run a m).map (fun m' => m'.values a) = use.runOn (m.values a) := by
  cases use with
  | look i => exact congrArg some (values_slot h i)
  | write i v =>
    obtain ⟨m', hrun, -, hvalues⟩ := run_write h i v
    rw [hrun, Option.map_some, hvalues]
    rfl
  | put i v => exact run_put h i v
  | setLength v =>
    show ((m.setLength a v).toOption).map _ = v.length?.map _
    rw [setLength_eq, Option.map_map]
    congr 1
    funext n
    exact values_resize h n

/-- Each use of an array keeps its slots separate. -/
theorem separate_run (h : m.Separate a) {use : ArrayUse} {m' : Memory} (hrun : use.run a m = some m') :
    m'.Separate a := by
  cases use with
  | look i =>
    cases hrun
    exact separate_slot h i
  | write i v =>
    obtain ⟨m'', hrun', hseparate, -⟩ := run_write h i v
    rw [hrun'] at hrun
    cases hrun
    exact hseparate
  | put i v => exact separate_setSlot h hrun
  | setLength v =>
    change (m.setLength a v).toOption = some m' at hrun
    rw [setLength_eq] at hrun
    obtain ⟨n, -, rfl⟩ := Option.map_eq_some_iff.mp hrun
    exact separate_resize h n

/-- Several uses, refused ones among them. -/
theorem values_runAll (h : m.Separate a) (uses : List ArrayUse) :
    (ArrayUse.runAll a uses m).Separate a ∧
      (ArrayUse.runAll a uses m).values a = ArrayUse.runAllOn uses (m.values a) := by
  induction uses generalizing m with
  | nil => exact ⟨h, rfl⟩
  | cons use uses ih =>
    have hvalues := values_run h use
    unfold ArrayUse.runAll ArrayUse.runAllOn
    rw [List.foldl_cons, List.foldl_cons, ← hvalues]
    cases hrun : use.run a m with
    | none => exact ih h
    | some m' => exact ih (separate_run h hrun)

end Memory

/-- A list that is no longer than arrays can be stays so. -/
theorem ArrayUse.length_runOn_le {use : ArrayUse} {values values' : List Value} (h : values.length ≤ maxArrayLength)
    (hrun : use.runOn values = some values') : values'.length ≤ maxArrayLength := by
  cases use with
  | look i =>
    cases hrun
    exact h
  | write i v =>
    cases hrun
    rw [List.length_set]
    exact h
  | put i v =>
    dsimp only [runOn] at hrun
    split at hrun
    · cases hrun
    · cases hrun
      rw [List.length_set, length_resized]
      omega
  | setLength v =>
    obtain ⟨n, hn, rfl⟩ := Option.map_eq_some_iff.mp hrun
    rw [length_resized]
    exact Value.length?_le hn

/-- No use makes a sequence longer than the bound. -/
theorem ArrayUse.length_runAllOn_le {values : List Value} (h : values.length ≤ maxArrayLength) (uses : List ArrayUse) :
    (runAllOn uses values).length ≤ maxArrayLength := by
  induction uses generalizing values with
  | nil => exact h
  | cons use uses ih =>
    unfold runAllOn
    rw [List.foldl_cons]
    apply ih
    cases hrun : use.runOn values with
    | none => exact h
    | some values' => exact length_runOn_le h hrun

/-! ## An array from its beginning -/

namespace Memory

/-- The slots of a new array: a new cell for each value. -/
theorem getElem?_slots_newArray (m : Memory) (values : List Value) (i : Nat) :
    ((m.newArray values).2.slots (m.newArray values).1)[i]? =
      if i < values.length then some (some (m.cells.size + i)) else none := by
  have hslots : (m.newArray values).2.slots (m.newArray values).1 = ((m.allocAll values).1.map some).toArray := by
    show (m.arrays.push _)[m.arrays.size]?.getD #[] = _
    rw [Array.getElem?_push_size]
    rfl
  rw [hslots]
  by_cases hi : i < values.length
  · simp [allocAll, hi]
  · simp [allocAll, hi]

/-- A new array has separate slots. -/
theorem separate_newArray (m : Memory) (values : List Value) :
    (m.newArray values).2.Separate (m.newArray values).1 := by
  constructor
  · rw [size_arrays_newArray]
    exact Nat.lt_succ_self _
  · intro i r hi
    rw [getElem?_slots_newArray] at hi
    split at hi
    · cases hi
      show m.cells.size + i < (m.allocAll values).2.cells.size
      rw [size_allocAll]
      omega
    · cases hi
  · intro i j r hi hj
    rw [getElem?_slots_newArray] at hi hj
    split at hi
    · split at hj
      · cases hi
        simp only [Option.some.injEq] at hj
        omega
      · cases hj
    · cases hi

/-- A new array has the values it was made of. -/
theorem values_newArray (m : Memory) (values : List Value) :
    (m.newArray values).2.values (m.newArray values).1 = values.map present := by
  apply List.ext_getElem?
  intro i
  rw [getElem?_values, getElem?_slots_newArray, List.getElem?_map]
  by_cases hi : i < values.length
  · have hread : (m.newArray values).2.read (m.cells.size + i) = values[i] := by
      show (m.cells ++ values.toArray)[m.cells.size + i]?.getD .absent = _
      simp [hi]
    rw [if_pos hi, Option.map_some, slotValue_some, hread, List.getElem?_eq_getElem hi]
    rfl
  · rw [if_neg hi, List.getElem?_eq_none (Nat.le_of_not_lt hi)]
    rfl

end Memory

/-- An array that was made of at most `maxArrayLength` values is, after any uses of it, what these make of the list of
the values. Its length is that of the list and never beyond the limit; at an index of the list there is a cell with the
value of the list, and only a pending element behind them; the next use is refused on both or on neither; and elements
that one length cut off are undefined when another makes the array longer again. -/
theorem array_eq_sequence (m : Memory) (given : List Value) (h : given.length ≤ maxArrayLength)
    (uses : List ArrayUse) :
    let a := (m.newArray given).1
    let m' := ArrayUse.runAll a uses (m.newArray given).2
    let values := ArrayUse.runAllOn uses (given.map present)
    m'.values a = values ∧ m'.size a = values.length ∧ values.length ≤ maxArrayLength ∧
      (∀ i < values.length, ∃ r m'', m'.slot a i = (.cell r, m'') ∧ some (present (m''.read r)) = values[i]?) ∧
      (∀ i, values.length ≤ i → m'.slot a i = (.pending a i, m')) ∧
      (∀ use : ArrayUse, (use.run a m').isSome = (use.runOn values).isSome) ∧
      ∀ v w n k, v.length? = some n → w.length? = some k → n ≤ k →
        (ArrayUse.runAll a [.setLength v, .setLength w] m').values a =
          resized values n ++ List.replicate (k - n) .undefined := by
  intro a m' values
  obtain ⟨hseparate, hvalues⟩ := Memory.values_runAll (m.separate_newArray given) uses
  rw [Memory.values_newArray] at hvalues
  change m'.Separate a at hseparate
  change m'.values a = values at hvalues
  have hsize : m'.size a = values.length := by
    rw [← hvalues, Memory.length_values]
  refine ⟨hvalues, hsize, ?_, ?_, ?_, ?_, ?_⟩
  · apply ArrayUse.length_runAllOn_le
    rw [List.length_map]
    exact h
  · intro i hi
    rcases Memory.slot_eq hseparate i with ⟨-, r, m'', hslot, hentry⟩ | ⟨hbehind, -⟩
    · have hlooked := Memory.values_slot hseparate i
      rw [hslot, hvalues] at hlooked
      refine ⟨r, m'', hslot, ?_⟩
      rw [← hlooked, Memory.getElem?_values, hentry, Option.map_some, Memory.slotValue_some]
    · omega
  · intro i hi
    rcases Memory.slot_eq hseparate i with ⟨hlt, -⟩ | ⟨-, hslot⟩
    · omega
    · exact hslot
  · intro use
    rw [← hvalues, ← Memory.values_run hseparate use, Option.isSome_map]
  · intro v w n k hn hk hle
    have hboth := (Memory.values_runAll hseparate [.setLength v, .setLength w]).2
    rw [hvalues] at hboth
    rw [hboth]
    simp only [ArrayUse.runAllOn, ArrayUse.runOn, List.foldl_cons, List.foldl_nil, hn, hk, Option.map_some,
      Option.getD_some]
    exact resized_resized values hle

/-- Three elements are written, all but one are cut off, and the array gets two places again; a write behind the limit is
refused. -/
theorem array_cut_and_filled :
    [Value.boolean true, .string "b"].length ≤ maxArrayLength ∧
      (ArrayUse.runAll 0 [.put 3 .null, .write 1 (.boolean false), .setLength (.number 1.0), .look 0,
        .setLength (.number 3.0), .put 100000 .null] (Memory.empty.newArray [.boolean true, .string "b"]).2).values 0 =
          [.boolean true, .undefined, .undefined] := by
  have hlength : [Value.boolean true, .string "b"].length ≤ maxArrayLength := by decide
  refine ⟨hlength, ?_⟩
  exact (array_eq_sequence Memory.empty [.boolean true, .string "b"] hlength [.put 3 .null, .write 1 (.boolean false),
    .setLength (.number 1.0), .look 0, .setLength (.number 3.0), .put 100000 .null]).1

end Primer
