import Mathlib.Data.List.Perm.Subperm
import Primer.Proofs.Lenient.Text
import Primer.Proofs.Locals.Program

/-!
# The text of an array

The text of a value follows cells to what they hold, and joins the texts of an array's elements with commas. Arrays may
refer to each other and to themselves in any way. What the text is, without a word on how many steps it takes, is said
by an inductive relation (`Memory.Shows`); it carries the arrays that are just being written, and a rule says which
references to an array are cut. One that cuts nothing gives the plain recursive definition.

`Memory.text` bounds its steps by the size of the memory. The bound is never reached:

* an array that is entered is not on the path yet, so there are at most as many of them as arrays,
* a cell that is followed again leads to itself, or to an array on the path. The first does not happen in a memory
  without endless chains of cells (`Memory.Grounded`), and the second is cut sooner or later, so that the text is empty
  whatever is left of the bound.

No program comes by an endless chain of cells, since no cell of a run holds a cell (`Plan.Begins.grounded`).
-/

set_option autoImplicit false

namespace Primer

/-- The text of a value that is no cell and no array. -/
def Value.ownText? : Value → Option String
  | .absent | .undefined | .pending _ _ => some "undefined"
  | .null => some "null"
  | .number x => some (Number.render x)
  | .string s => some s
  | .boolean b => some (boolText b)
  | .object _ => some "[object Object]"
  | .function _ | .hostFunction _ => some "[function]"
  | .hostVariable _ | .arrayLength _ | .textLength _ => some "[variable]"
  | .array _ | .cell _ => none

/-- Whether a value leaves its place in the text of an array empty. -/
def Value.isBlank : Value → Bool
  | .undefined | .null => true
  | _ => false

namespace Memory

/-! ## What the text is -/

/-- The text of an array whose elements have certain texts: undefined and null elements, and holes with them, are left
empty. -/
def joined (m : Memory) (a : ArrayRef) (text : Value → String) : String :=
  String.intercalate "," ((m.values a).map fun e => if e.isBlank then "" else text e)

/-- The text of a value below the arrays of a path. A reference to an array that is to be cut is empty. -/
inductive Shows (m : Memory) (Cut : List ArrayRef → ArrayRef → Prop) : List ArrayRef → Value → String → Prop where
  | own {path : List ArrayRef} {v : Value} {s : String} (h : v.ownText? = some s) : Shows m Cut path v s
  | cell {path : List ArrayRef} {r : CellRef} {s : String} (h : Shows m Cut path (m.read r) s) :
    Shows m Cut path (.cell r) s
  | cut {path : List ArrayRef} {a : ArrayRef} (h : Cut path a) : Shows m Cut path (.array a) ""
  | array {path : List ArrayRef} {a : ArrayRef} {text : Value → String} (hkept : ¬Cut path a)
    (h : ∀ e ∈ m.values a, e.isBlank = false → Shows m Cut (a :: path) e (text e)) :
    Shows m Cut path (.array a) (m.joined a text)

/-- The text with cycles cut: a reference to an array on the path to it is empty. -/
abbrev ShowsCut (m : Memory) : List ArrayRef → Value → String → Prop := m.Shows fun path a => a ∈ path

/-- The plain recursive definition of the text: no reference is cut. -/
abbrev ShowsPlainly (m : Memory) : List ArrayRef → Value → String → Prop := m.Shows fun _ _ => False

variable {m : Memory} {Cut : List ArrayRef → ArrayRef → Prop} {path : List ArrayRef} {v w : Value} {s t : String}

/-- Only the values that are not blank matter for a joined text. -/
theorem joined_congr {a : ArrayRef} {f g : Value → String}
    (h : ∀ e ∈ m.values a, e.isBlank = false → f e = g e) : m.joined a f = m.joined a g := by
  unfold joined
  congr 1
  apply List.map_congr_left
  intro e he
  cases hblank : e.isBlank
  · simp [h e he hblank]
  · simp

/-- A value has one text at most. -/
theorem Shows.unique (hs : m.Shows Cut path v s) (ht : m.Shows Cut path v t) : s = t := by
  induction hs generalizing t with
  | own hs =>
    cases ht with
    | own ht => exact Option.some.inj (hs.symm.trans ht)
    | cell | cut | array => cases hs
  | cell _ ih =>
    cases ht with
    | own ht => cases ht
    | cell ht => exact ih ht
  | cut hcut =>
    cases ht with
    | own ht => cases ht
    | cut => rfl
    | array hkept => exact absurd hcut hkept
  | array hkept _ ih =>
    cases ht with
    | own ht => cases ht
    | cut hcut => exact absurd hcut hkept
    | array _ ht =>
      apply joined_congr
      intro e he hblank
      exact ih e he hblank (ht e he hblank)

/-! ## Where values lead -/

/-- A value is a cell that leads to another value through cells alone. -/
inductive LeadsTo (m : Memory) : Value → Value → Prop where
  | here (r : CellRef) : LeadsTo m (.cell r) (m.read r)
  | through {r : CellRef} {v : Value} (h : LeadsTo m (m.read r) v) : LeadsTo m (.cell r) v

/-- What leads to a cell leads to what it holds. -/
theorem LeadsTo.next {r : CellRef} (h : m.LeadsTo v (.cell r)) : m.LeadsTo v (m.read r) := by
  generalize hw : Value.cell r = w at h
  induction h with
  | here r' =>
    apply LeadsTo.through
    rw [← hw]
    exact .here r
  | through _ ih => exact .through (ih hw)

/-- No cell leads to itself through cells alone. -/
def Grounded (m : Memory) : Prop := ∀ r, ¬m.LeadsTo (.cell r) (.cell r)

/-- What is led to is held by a cell. -/
theorem LeadsTo.eq_read (h : m.LeadsTo v w) : ∃ r, w = m.read r := by
  induction h with
  | here r => exact ⟨r, rfl⟩
  | through _ ih => exact ih

/-- A memory whose cells hold no cells has no endless chains of them. -/
theorem grounded_of_noCells (h : ∀ v ∈ m.cells, ∀ r, v ≠ .cell r) : m.Grounded := by
  intro r hloop
  obtain ⟨r', hread⟩ := hloop.eq_read
  unfold read at hread
  cases hcell : m.cells[r']? with
  | none => simp [hcell] at hread
  | some v =>
    rw [hcell] at hread
    exact h v (Array.mem_of_getElem? hcell) r hread.symm

/-- The arrays that a text comes by: those that a value leads to, and those that their elements do. -/
inductive Reaches (m : Memory) : Value → ArrayRef → Prop where
  | array (a : ArrayRef) : Reaches m (.array a) a
  | cell {r : CellRef} {a : ArrayRef} (h : Reaches m (m.read r) a) : Reaches m (.cell r) a
  | element {a b : ArrayRef} {e : Value} (he : e ∈ m.values a) (h : Reaches m e b) : Reaches m (.array a) b

/-- An array that can be reached from one of its elements. -/
def InItself (m : Memory) (a : ArrayRef) : Prop := ∃ e ∈ m.values a, m.Reaches e a

/-- Nothing is cut below a value from which no array reaches itself, if the arrays on the path are not reached. -/
theorem ShowsCut.plainly (h : m.ShowsCut path v s) (hpath : ∀ a ∈ path, ¬m.Reaches v a)
    (hacyclic : ∀ a, m.Reaches v a → ¬m.InItself a) : m.ShowsPlainly path v s := by
  induction h with
  | own h => exact .own h
  | cell _ ih =>
    apply Shows.cell
    apply ih
    · intro a ha hreach
      exact hpath a ha (.cell hreach)
    · intro a hreach
      exact hacyclic a (.cell hreach)
  | cut hcut => exact absurd (.array _) (hpath _ hcut)
  | @array path a text hkept _ ih =>
    apply Shows.array id
    intro e he hblank
    apply ih e he hblank
    · intro b hb hreach
      rcases List.mem_cons.mp hb with rfl | hb
      · exact hacyclic b (.array b) ⟨e, he, hreach⟩
      · exact hpath b hb (.element he hreach)
    · intro b hreach
      exact hacyclic b (.element he hreach)

/-! ## The bound on the steps -/

/-- A value with a text of its own is shown by it. -/
theorem textWithin_own {n : Nat} (h : v.ownText? = some s) : m.textWithin (n + 1) path v = s := by
  cases v <;> first | cases h; rfl | cases h

/-- A cell is shown as what it holds. -/
theorem textWithin_cell (n : Nat) (r : CellRef) : m.textWithin (n + 1) path (.cell r) = m.textWithin n path (m.read r) :=
  rfl

/-- An array is shown as its joined values, and as nothing inside itself. -/
theorem textWithin_array (n : Nat) (a : ArrayRef) : m.textWithin (n + 1) path (.array a) =
    if a ∈ path then "" else m.joined a (m.textWithin n (a :: path)) := by
  unfold textWithin joined
  simp only [List.contains_iff_mem]
  split
  · rfl
  · congr 1
    apply List.map_congr_left
    intro e he
    cases e <;> rfl

/-- What leads to an array on the path is cut, however many steps are left. -/
theorem LeadsTo.cut {a : ArrayRef} (h : m.LeadsTo v (.array a)) (ha : a ∈ path) :
    m.ShowsCut path v "" ∧ ∀ n, m.textWithin n path v = "" := by
  generalize hw : Value.array a = w at h
  induction h with
  | here r =>
    constructor
    · apply Shows.cell
      rw [← hw]
      exact .cut ha
    · intro n
      cases n with
      | zero => rfl
      | succ n =>
        rw [textWithin_cell, ← hw]
        cases n with
        | zero => rfl
        | succ n => rw [textWithin_array, if_pos ha]
  | through _ ih =>
    obtain ⟨hshows, htext⟩ := ih hw
    refine ⟨.cell hshows, ?_⟩
    intro n
    cases n with
    | zero => rfl
    | succ n => rw [textWithin_cell, htext]

/-- The arrays on a path and the cells that were followed on the way to a value below it. None of them was come by
twice, and a cell led to the value or to an array on the path. -/
structure Passed (m : Memory) (path : List ArrayRef) (cells : List CellRef) (v : Value) : Prop where
  path_nodup : path.Nodup
  path_lt : ∀ a ∈ path, a < m.arrays.size
  cells_nodup : cells.Nodup
  cells_lt : ∀ r ∈ cells, r < m.cells.size
  leads : ∀ r ∈ cells, m.LeadsTo (.cell r) v ∨ ∃ a ∈ path, m.LeadsTo (.cell r) (.array a)

namespace Passed

variable {cells : List CellRef}

/-- A path without repetition is no longer than there are arrays and cells. -/
theorem length_le (h : m.Passed path cells v) : path.length ≤ m.arrays.size ∧ cells.length ≤ m.cells.size :=
  ⟨length_le_of_nodup_of_lt h.path_nodup h.path_lt, length_le_of_nodup_of_lt h.cells_nodup h.cells_lt⟩

/-- A cell is followed that was not followed before. -/
theorem follow {r : CellRef} (h : m.Passed path cells (.cell r)) (hthere : r < m.cells.size) (hnew : r ∉ cells) :
    m.Passed path (r :: cells) (m.read r) where
  path_nodup := h.path_nodup
  path_lt := h.path_lt
  cells_nodup := List.nodup_cons.mpr ⟨hnew, h.cells_nodup⟩
  cells_lt := by
    intro r' hr'
    rcases List.mem_cons.mp hr' with rfl | hr'
    · exact hthere
    · exact h.cells_lt r' hr'
  leads := by
    intro r' hr'
    rcases List.mem_cons.mp hr' with rfl | hr'
    · exact .inl (.here r')
    · rcases h.leads r' hr' with hleads | hcut
      · exact .inl hleads.next
      · exact .inr hcut

/-- An array that is not on the path is entered. -/
theorem enter {a : ArrayRef} (h : m.Passed path cells (.array a)) (hthere : a < m.arrays.size) (hnew : a ∉ path)
    (e : Value) : m.Passed (a :: path) cells e where
  path_nodup := List.nodup_cons.mpr ⟨hnew, h.path_nodup⟩
  path_lt := by
    intro b hb
    rcases List.mem_cons.mp hb with rfl | hb
    · exact hthere
    · exact h.path_lt b hb
  cells_nodup := h.cells_nodup
  cells_lt := h.cells_lt
  leads := by
    intro r hr
    rcases h.leads r hr with hleads | ⟨b, hb, hleads⟩
    · exact .inr ⟨a, List.mem_cons_self, hleads⟩
    · exact .inr ⟨b, List.mem_cons_of_mem a hb, hleads⟩

end Passed

/-- An array that has elements is there. -/
theorem lt_of_mem_values {a : ArrayRef} {e : Value} (he : e ∈ m.values a) : a < m.arrays.size := by
  by_contra hnone
  have hslots : m.slots a = #[] := by
    unfold slots
    rw [Array.getElem?_eq_none (Nat.le_of_not_lt hnone)]
    rfl
  simp [values, hslots] at he

/-- With as many steps as cells and arrays that were not come by yet, and two more, the text is what it should be. Each
step comes by one of them, or it ends at a value of its own or at a reference that is cut. -/
theorem shows_textWithin (hgrounded : m.Grounded) (n : Nat) {cells : List CellRef} (h : m.Passed path cells v)
    (hn : m.cells.size + m.arrays.size + 2 ≤ n + cells.length + path.length) :
    m.ShowsCut path v (m.textWithin n path v) := by
  have hlength := h.length_le
  -- Each step uses up a cell or an array that was not come by, so the bound is never reached.
  induction n generalizing path cells v with
  | zero => omega
  | succ n ih =>
    cases hown : v.ownText? with
    | some s =>
      rw [textWithin_own hown]
      exact .own hown
    | none =>
      cases v
      case array a =>
        rw [textWithin_array]
        by_cases hcut : a ∈ path
        · rw [if_pos hcut]
          exact .cut hcut
        · rw [if_neg hcut]
          apply Shows.array hcut
          intro e he _
          have hentered := h.enter (lt_of_mem_values he) hcut e
          apply ih hentered
          · rw [List.length_cons]
            omega
          · exact hentered.length_le
      case cell r =>
        rw [textWithin_cell]
        -- A cell that was come by before leads to an array on the path, where the text is cut.
        by_cases hseen : r ∈ cells
        · rcases h.leads r hseen with hloop | ⟨a, ha, hleads⟩
          · exact absurd hloop (hgrounded r)
          · have htext := (hleads.cut ha).2 (n + 1)
            rw [textWithin_cell] at htext
            rw [htext]
            exact (hleads.cut ha).1
        · apply Shows.cell
          by_cases hthere : r < m.cells.size
          · have hfollowed := h.follow hthere hseen
            apply ih hfollowed
            · rw [List.length_cons]
              omega
            · exact hfollowed.length_le
          · have hread : m.read r = .absent := by
              unfold read
              rw [Array.getElem?_eq_none (Nat.le_of_not_lt hthere)]
              rfl
            obtain ⟨k, rfl⟩ : ∃ k, n = k + 1 := ⟨n - 1, by omega⟩
            rw [hread]
            exact .own rfl
      all_goals cases hown

/-- The text of a value is its elements' texts with commas between them, where each reference to an array that is just
being written is empty; there is exactly one such text. If no array that is reached reaches itself, it is the one of the
plain recursive definition. -/
theorem text_shows (m : Memory) (h : m.Grounded) (v : Value) :
    (∀ s, m.ShowsCut [] v s ↔ s = m.text v) ∧
      ((∀ a, m.Reaches v a → ¬m.InItself a) → ∀ s, m.ShowsPlainly [] v s ↔ s = m.text v) := by
  have hpassed : m.Passed [] [] v := by
    constructor <;> simp
  have hcut : m.ShowsCut [] v (m.text v) := by
    apply shows_textWithin h _ hpassed
    simp
  constructor
  · intro s
    constructor
    · intro hs
      exact hs.unique hcut
    · rintro rfl
      exact hcut
  · intro hacyclic s
    have hplain : m.ShowsPlainly [] v (m.text v) := by
      apply hcut.plainly
      · simp
      · exact hacyclic
    constructor
    · intro hs
      exact hs.unique hplain
    · rintro rfl
      exact hplain

/-- Four arrays: `a = [a, "2"]`, `b = [a, a]`, `c = [d, d]` with a hole behind, and `d = ["x"]`. -/
def tangled : Memory :=
  ⟨#[.array 0, .string "2", .array 0, .array 0, .array 3, .array 3, .string "x"],
    #[#[some 0, some 1], #[some 2, some 3], #[some 4, some 5, none], #[some 6]], 0⟩

/-- An array in an array that contains itself is shown cut, and a plain one in full. -/
theorem tangled_text_shows : tangled.Grounded ∧ tangled.ShowsCut [] (.array 1) ",2,,2" ∧
    (∀ a, tangled.Reaches (.array 2) a → ¬tangled.InItself a) ∧ tangled.ShowsPlainly [] (.array 2) "x,x," := by
  have hgrounded : tangled.Grounded := by
    apply grounded_of_noCells
    intro v hv r
    simp only [tangled, List.mem_toArray, List.mem_cons, List.not_mem_nil, or_false] at hv
    rcases hv with rfl | rfl | rfl | rfl | rfl | rfl | rfl <;> exact nofun
  have hinside : ∀ e ∈ tangled.values 3, ∀ a, ¬tangled.Reaches e a := by
    intro e he a h
    rw [show tangled.values 3 = [.string "x"] from rfl, List.mem_singleton] at he
    subst he
    cases h
  have houtside : ∀ e ∈ tangled.values 2, ∀ a, tangled.Reaches e a → a = 3 := by
    intro e he a h
    have hvalues : tangled.values 2 = [.array 3, .array 3, .undefined] := rfl
    simp only [hvalues, List.mem_cons, List.not_mem_nil, or_false] at he
    rcases he with rfl | rfl | rfl <;> cases h
    all_goals first | rfl | exact absurd ‹_› (hinside _ ‹_› _)
  have hacyclic : ∀ a, tangled.Reaches (.array 2) a → ¬tangled.InItself a := by
    rintro a hreach ⟨e, he, hback⟩
    cases hreach with
    | array => exact absurd (houtside e he 2 hback) (by decide)
    | element he' hreach =>
      have hlast := houtside _ he' _ hreach
      subst hlast
      exact hinside e he _ hback
  refine ⟨hgrounded, ?_, hacyclic, ?_⟩
  · apply ((text_shows tangled hgrounded (.array 1)).1 _).mpr
    rfl
  · apply ((text_shows tangled hgrounded (.array 2)).2 hacyclic _).mpr
    rfl

end Memory

/-- With and without checks, no program comes by an endless chain of cells: the memory is grounded whatever the program
begins. -/
theorem Plan.Begins.grounded {strategy : Strategy} {filter : Option CommandFilter} {limits : Limits} {body : List Stmt}
    {n k : Nat} {β : Type} {q : Plan (HostState Unit) β} {s : RunState (HostState Unit)}
    (h : (Plan.ask (.execAll 0 body)).Begins (.plain strategy filter limits) n .plain k q s) : s.memory.Grounded := by
  obtain ⟨ℓ, -, -, hs, -⟩ := h.bears_nothing
  apply Memory.grounded_of_noCells
  rintro v hv r rfl
  obtain ⟨i, hi⟩ := Array.mem_iff_getElem?.mp hv
  have hkind := (hs.stored i (.cell r) hi rfl).kind
  cases hkind

end Primer
