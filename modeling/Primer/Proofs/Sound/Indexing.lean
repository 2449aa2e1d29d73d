import Primer.Value.Memory

/-!
# Finding an element never breaks down

The engine finds and writes the elements of an array by their index:

* a place that is read lies inside the slots, since anything at or behind their end is a pending element;
* a place that is written does so because the array was made longer first;
* a length is cut at a place that is not behind the end.

So `slot?`, `setSlot?` and `setLength?` give what `slot`, `setSlot` and `setLength` give, in every memory and for
every index that is not negative.
-/

set_option autoImplicit false

namespace Primer.Memory

variable {m : Memory} {a : ArrayRef}

/-- What is done to the slots of an array depends only on what these slots are. -/
theorem modify_congr {f g : Array (Option CellRef) → Array (Option CellRef)} (h : f (m.slots a) = g (m.slots a)) :
    m.arrays.modify a f = m.arrays.modify a g := by
  apply Array.ext (by simp only [Array.size_modify])
  intro i hi hi'
  simp only [Array.getElem_modify]
  split
  · rename_i hia
    subst hia
    have hbound : a < m.arrays.size := by simpa using hi
    have hslots : m.slots a = m.arrays[a] := by
      rw [slots, Array.getElem?_eq_getElem hbound, Option.getD_some]
    rwa [hslots] at h
  · rfl

/-- Slots that are made without a breakdown are put in place. -/
theorem onSlots?_eq {f : Array (Option CellRef) → Except Breakdown (Array (Option CellRef))}
    {g : Array (Option CellRef) → Array (Option CellRef)} (h : f (m.slots a) = .ok (g (m.slots a))) :
    m.onSlots? a f = .ok { m with arrays := m.arrays.modify a g } := by
  rw [onSlots?, h, ← modify_congr (f := fun _ => g (m.slots a)) rfl]
  rfl

/-- Slots can be cut off or filled up to every number that is not negative. -/
theorem resized?_eq (slots : Array (Option CellRef)) (n : Nat) :
    resized? slots n = .ok (if n ≤ slots.size then slots.extract 0 n
      else slots ++ Array.replicate (n - slots.size) none) := by
  unfold resized?
  by_cases hn : n ≤ slots.size
  · rw [if_pos (Int.ofNat_le.mpr hn), if_pos hn, keptTo_eq hn]
  · rw [if_neg (fun h => hn (Int.ofNat_le.mp h)), if_neg hn, Int.toNat_natCast]

/-- Working on the slots of an array twice is working on them once. -/
theorem modify_modify (arrays : Array (Array (Option CellRef))) (a : ArrayRef)
    (f g : Array (Option CellRef) → Array (Option CellRef)) :
    (arrays.modify a f).modify a g = arrays.modify a fun slots => g (f slots) := by
  apply Array.ext (by simp only [Array.size_modify])
  intro i hi hi'
  simp only [Array.getElem_modify]
  split <;> rfl

/-- Slots with a cell at an index, made longer before if needed. -/
def filled (slots : Array (Option CellRef)) (i : Nat) (r : CellRef) : Array (Option CellRef) :=
  (if slots.size ≤ i then slots ++ Array.replicate (i + 1 - slots.size) none else slots).setIfInBounds i (some r)

/-- A cell can be put into slots that are made longer before. -/
theorem filled?_eq (slots : Array (Option CellRef)) (i : Nat) (r : CellRef) :
    filled? slots i r = .ok (filled slots i r) := by
  unfold filled? filled
  by_cases hsize : slots.size ≤ i
  · have hlonger : ¬ i + 1 ≤ slots.size := by omega
    have hinside : i < (slots ++ Array.replicate (i + 1 - slots.size) none).size := by
      rw [Array.size_append, Array.size_replicate]
      omega
    rw [if_pos (Int.ofNat_le.mpr hsize), if_pos hsize, ← Int.natCast_succ, resized?_eq, if_neg hlonger]
    exact putAt_eq hinside _
  · rw [if_neg (fun h => hsize (Int.ofNat_le.mp h)), if_neg hsize]
    exact putAt_eq (by omega) _

/-- Writing an element puts a new cell into the slots of its array. -/
theorem setSlot_eq (m : Memory) (a : ArrayRef) (i : Nat) (v : Value) :
    m.setSlot a i v = if maxArrayLength ≤ i then none
      else some ⟨m.cells.push v, m.arrays.modify a (filled · i m.cells.size), m.functions⟩ := by
  unfold setSlot
  by_cases hi : maxArrayLength ≤ i
  · rw [if_pos hi, if_pos hi]
  · rw [if_neg hi, if_neg hi]
    by_cases hsize : m.size a ≤ i
    · have hshort : (m.slots a).size ≤ i := hsize
      have hlonger : ¬ i + 1 ≤ (m.slots a).size := by omega
      have harrays : (m.resize a (i + 1)).arrays.modify a (fun slots => slots.setIfInBounds i (some m.cells.size)) =
          m.arrays.modify a (filled · i m.cells.size) := by
        rw [resize, modify_modify]
        refine modify_congr ?_
        rw [filled, if_pos hshort, if_neg hlonger]
      rw [if_pos hsize, ← harrays]
      rfl
    · have hlong : ¬ (m.slots a).size ≤ i := hsize
      have harrays : m.arrays.modify a (fun slots => slots.setIfInBounds i (some m.cells.size)) =
          m.arrays.modify a (filled · i m.cells.size) := by
        refine modify_congr ?_
        rw [filled, if_neg hlong]
      rw [if_neg hsize, ← harrays]
      rfl

/-- The place of an element can be found. -/
theorem slot?_eq (m : Memory) (a : ArrayRef) (i : Nat) : m.slot? a i = .ok (m.slot a i) := by
  unfold slot? slot
  by_cases hi : i < (m.slots a).size
  · rw [if_pos (Int.ofNat_lt.mpr hi)]
    have hentry : (m.slots a)[i]? = some (m.slots a)[i] := Array.getElem?_eq_getElem hi
    rw [entryAt_eq hentry, hentry]
    cases (m.slots a)[i] with
    | some r => rfl
    | none =>
      have hput : putAt (m.slots a) i (some m.cells.size) =
          .ok ((m.slots a).setIfInBounds i (some m.cells.size)) := putAt_eq hi _
      show (onSlots? (m.alloc .undefined).2 a _ >>= fun m => _) = _
      rw [onSlots?_eq (m := (m.alloc .undefined).2) (g := fun slots => slots.setIfInBounds i (some m.cells.size)) hput]
      rfl
  · have hpending : (m.slots a)[i]? = none := Array.getElem?_eq_none (by omega)
    rw [if_neg (fun h => hi (Int.ofNat_lt.mp h)), hpending, Int.toNat_natCast]

/-- An element can be written. -/
theorem setSlot?_eq (m : Memory) (a : ArrayRef) (i : Nat) (v : Value) :
    m.setSlot? a i v = .ok (m.setSlot a i v) := by
  rw [setSlot_eq]
  unfold setSlot?
  by_cases hi : maxArrayLength ≤ i
  · rw [if_pos (Int.ofNat_le.mpr hi), if_pos hi]
  · rw [if_neg (fun h => hi (Int.ofNat_le.mp h)), if_neg hi]
    show ((m.alloc v).2.onSlots? a _ >>= fun m => _) = _
    rw [onSlots?_eq (g := (filled · i m.cells.size)) (filled?_eq _ i m.cells.size)]
    rfl

/-- The length of an array can be written. -/
theorem setLength?_eq (m : Memory) (a : ArrayRef) (v : Value) : m.setLength? a v = .ok (m.setLength a v) := by
  cases v with
  | number x =>
    unfold setLength? setLength
    by_cases hinvalid : (x < 0.0 || !Number.isWhole x) = true
    · simp only [if_pos hinvalid]
    · simp only [if_neg hinvalid]
      by_cases hlong : Float.ofNat maxArrayLength < x
      · simp only [if_pos hlong]
      · have hnonnegative : ¬ x < 0.0 := by
          intro h
          exact hinvalid (by rw [decide_eq_true h, Bool.true_or])
        have hpart : Number.integerPart x = Number.wholePart x := if_neg hnonnegative
        have hresized := resized?_eq (m.slots a) (Number.wholePart x)
        rw [← hpart] at hresized
        simp only [if_neg hlong]
        rw [onSlots?_eq (g := fun slots => if Number.wholePart x ≤ slots.size then slots.extract 0 (Number.wholePart x)
          else slots ++ Array.replicate (Number.wholePart x - slots.size) none) hresized]
        rfl
  | _ => rfl

end Primer.Memory
