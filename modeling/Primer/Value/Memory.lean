import Primer.Breakdown
import Primer.Value.Basic
import Primer.Number.Exact

/-!
# Memory

The cells and arrays of a run. A cell holds one value. An array is a sequence of slots, each a cell or a
hole that was never written; it has at most `maxArrayLength` slots. A write behind the end makes the
array longer and leaves holes between; a hole turns into a cell when it is first looked at.

The engine indexes and cuts the slots of an array, which can break down. `slot?`, `setSlot?` and `setLength?`
do so; where nothing breaks down they are `slot`, `setSlot` and `setLength`.
-/

set_option autoImplicit false

namespace Primer

/-- The largest number of elements of an array. -/
def maxArrayLength : Nat := 100000

/-- The message for an array that would get too long. -/
def arrayTooLong : String := "Arrays cannot have more than <var>100000</var> elements"

/-- The cells, the arrays and the number of functions declared so far. -/
structure Memory where
  cells : Array Value
  arrays : Array (Array (Option CellRef))
  functions : Nat
  deriving Inhabited

namespace Memory

/-- A memory that holds nothing. -/
def empty : Memory := ⟨#[], #[], 0⟩

/-- Makes a cell. -/
def alloc (m : Memory) (v : Value) : CellRef × Memory :=
  (m.cells.size, { m with cells := m.cells.push v })

/-- The content of a cell. -/
def read (m : Memory) (r : CellRef) : Value := m.cells[r]?.getD .absent

/-- Writes a cell. -/
def write (m : Memory) (r : CellRef) (v : Value) : Memory :=
  { m with cells := m.cells.setIfInBounds r v }

/-- The slots of an array. -/
def slots (m : Memory) (a : ArrayRef) : Array (Option CellRef) := m.arrays[a]?.getD #[]

/-- The number of slots of an array. -/
def size (m : Memory) (a : ArrayRef) : Nat := (m.slots a).size

/-- Makes a cell for each of several values. -/
def allocAll (m : Memory) (values : List Value) : List CellRef × Memory :=
  ((List.range values.length).map (m.cells.size + ·), { m with cells := m.cells ++ values.toArray })

/-- Makes an array of given values. -/
def newArray (m : Memory) (values : List Value) : ArrayRef × Memory :=
  let (refs, m) := m.allocAll values
  (m.arrays.size, { m with arrays := m.arrays.push (refs.map some).toArray })

/-- The content of a slot; a hole and a cell without a value hold undefined. -/
def slotValue (m : Memory) : Option CellRef → Value
  | none => .undefined
  | some r =>
    match m.read r with
    | .absent => .undefined
    | v => v

/-- The elements of an array. -/
def values (m : Memory) (a : ArrayRef) : List Value := (m.slots a).toList.map m.slotValue

/-- Cuts an array off or fills it up with holes. -/
def resize (m : Memory) (a : ArrayRef) (n : Nat) : Memory :=
  { m with arrays := m.arrays.modify a fun slots =>
      if n ≤ slots.size then slots.extract 0 n
      else slots ++ Array.replicate (n - slots.size) none }

/-- Puts a cell into a slot. -/
def putSlot (m : Memory) (a : ArrayRef) (i : Nat) (r : CellRef) : Memory :=
  { m with arrays := m.arrays.modify a fun slots => slots.setIfInBounds i (some r) }

/-- The place of an element: its cell, which a hole gets now, or a pending element behind the end. -/
def slot (m : Memory) (a : ArrayRef) (i : Nat) : Value × Memory :=
  match (m.slots a)[i]? with
  | none => (.pending a i, m)
  | some (some r) => (.cell r, m)
  | some none =>
    let (r, m) := m.alloc .undefined
    (.cell r, m.putSlot a i r)

/-- Writes an element into a new cell, with the array made longer if needed; `none` if it would get too
long. -/
def setSlot (m : Memory) (a : ArrayRef) (i : Nat) (v : Value) : Option Memory :=
  if maxArrayLength ≤ i then none
  else
    let m := if m.size a ≤ i then m.resize a (i + 1) else m
    let (r, m) := m.alloc v
    some (m.putSlot a i r)

/-- Why a length cannot be written. -/
inductive LengthFault where
  | invalid
  | tooLong
  deriving Repr, DecidableEq

/-- Writes the length of an array: a whole number up to the limit. -/
def setLength (m : Memory) (a : ArrayRef) : Value → Except LengthFault Memory
  | .number x =>
    if x < 0.0 || !Number.isWhole x then .error .invalid
    else if Float.ofNat maxArrayLength < x then .error .tooLong
    else .ok (m.resize a (Number.wholePart x))
  | _ => .error .invalid

/-- Puts other slots in place of those of an array, unless making them breaks down. -/
def onSlots? (m : Memory) (a : ArrayRef)
    (f : Array (Option CellRef) → Except Breakdown (Array (Option CellRef))) : Except Breakdown Memory := do
  let slots ← f (m.slots a)
  .ok { m with arrays := m.arrays.modify a fun _ => slots }

/-- Slots cut off or filled up with holes. -/
def resized? (slots : Array (Option CellRef)) (n : Int) : Except Breakdown (Array (Option CellRef)) :=
  if n ≤ slots.size then keptTo slots n
  else .ok (slots ++ Array.replicate (n.toNat - slots.size) none)

/-- Slots with a cell at an index, made longer before if needed. -/
def filled? (slots : Array (Option CellRef)) (i : Int) (r : CellRef) :
    Except Breakdown (Array (Option CellRef)) := do
  let slots ← if slots.size ≤ i then resized? slots (i + 1) else .ok slots
  putAt slots i (some r)

/-- The place of an element at an index. -/
def slot? (m : Memory) (a : ArrayRef) (i : Int) : Except Breakdown (Value × Memory) :=
  if i < (m.slots a).size then do
    match ← entryAt (m.slots a) i with
    | some r => .ok (.cell r, m)
    | none =>
      let (r, m) := m.alloc .undefined
      let m ← m.onSlots? a fun slots => putAt slots i (some r)
      .ok (.cell r, m)
  else .ok (.pending a i.toNat, m)

/-- Writes an element at an index into a new cell; `none` if the array would get too long. -/
def setSlot? (m : Memory) (a : ArrayRef) (i : Int) (v : Value) : Except Breakdown (Option Memory) :=
  if maxArrayLength ≤ i then .ok none
  else do
    let (r, m) := m.alloc v
    let m ← m.onSlots? a fun slots => filled? slots i r
    .ok (some m)

/-- Writes the length of an array, as the integer that is left of the number. -/
def setLength? (m : Memory) (a : ArrayRef) : Value → Except Breakdown (Except LengthFault Memory)
  | .number x =>
    if x < 0.0 || !Number.isWhole x then .ok (.error .invalid)
    else if Float.ofNat maxArrayLength < x then .ok (.error .tooLong)
    else do
      let m ← m.onSlots? a fun slots => resized? slots (Number.integerPart x)
      .ok (.ok m)
  | _ => .ok (.error .invalid)

/-- Follows cells to what they hold, at most `steps` of them. -/
def follow (m : Memory) : Nat → Value → Value
  | steps + 1, .cell r => follow m steps (m.read r)
  | _, v => v

/-- What a value is once it is taken out of the cells around it. -/
def settle (m : Memory) (v : Value) : Value := m.follow (m.cells.size + 1) v

end Memory

end Primer
