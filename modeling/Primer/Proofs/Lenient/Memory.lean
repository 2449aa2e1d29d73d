import Mathlib.Data.List.Forall2
import Primer.Proofs.Lenient.Tree
import Primer.Value.Memory

/-!
# Memories that agree

A checked and an unchecked run of one program allocate differently: the unchecked one leaves out what a
skipped operand would allocate, and it keeps the cell of a variable that is declared again. A `Link` says
which arrays and which cells of arrays stand for each other, one for one. The cells of variables are linked
by a relation of their own, since the checked run may lose such a cell to a new one.

Two memories agree along a link if linked arrays have linked slots and linked cells hold values that agree.
A variable may also be undefined on the checked side, whatever it holds on the other. Each operation on
memories is shown to keep the agreement.
-/

set_option autoImplicit false

namespace Primer

/-! ## Links and values -/

/-- Which arrays and array cells of two memories stand for each other. -/
structure Link where
  arrays : ArrayRef → ArrayRef → Prop
  cells : CellRef → CellRef → Prop

/-- A link that is part of another one. -/
structure Link.Within (L L' : Link) : Prop where
  arrays : ∀ {a b}, L.arrays a b → L'.arrays a b
  cells : ∀ {c d}, L.cells c d → L'.cells c d

/-- A link is within itself. -/
theorem Link.Within.refl (L : Link) : L.Within L := ⟨id, id⟩

/-- Being within a link passes on. -/
theorem Link.Within.trans {L L' L'' : Link} (h : L.Within L') (h' : L'.Within L'') : L.Within L'' :=
  ⟨fun hab => h'.arrays (h.arrays hab), fun hcd => h'.cells (h.cells hcd)⟩

/-- A relation that pairs things one for one. -/
structure OneToOne (R : Nat → Nat → Prop) : Prop where
  right : ∀ {x y y'}, R x y → R x y' → y = y'
  left : ∀ {x x' y}, R x y → R x' y → x = x'

/-- Pairing two things that are not paired yet keeps a relation one-to-one. -/
theorem OneToOne.insert {R : Nat → Nat → Prop} (h : OneToOne R) {a b : Nat} (ha : ∀ {y}, ¬ R a y)
    (hb : ∀ {x}, ¬ R x b) : OneToOne fun x y => R x y ∨ x = a ∧ y = b := by
  constructor
  · rintro x y y' (hy | ⟨hx, hy⟩) (hy' | ⟨hx', hy'⟩)
    · exact h.right hy hy'
    · exact absurd (hx' ▸ hy) ha
    · exact absurd (hx ▸ hy') ha
    · rw [hy, hy']
  · rintro x x' y (hx | ⟨hx, hy⟩) (hx' | ⟨hx', hy'⟩)
    · exact h.left hx hx'
    · exact absurd (hy' ▸ hx) hb
    · exact absurd (hy ▸ hx') hb
    · rw [hx, hx']

/-- A value that refers to nothing in memory; a function must be fit for comparison. -/
def Value.Standalone : Value → Prop
  | .array _ | .arrayLength _ | .pending _ _ | .cell _ => False
  | .function f => f.isTame = true
  | _ => True

/-- Two values that are the same along a link. -/
inductive Value.Agrees (L : Link) : Value → Value → Prop where
  | same {v} (h : v.Standalone) : Agrees L v v
  | array {a b} (h : L.arrays a b) : Agrees L (.array a) (.array b)
  | arrayLength {a b} (h : L.arrays a b) : Agrees L (.arrayLength a) (.arrayLength b)
  | pending {a b} (i : Nat) (h : L.arrays a b) : Agrees L (.pending a i) (.pending b i)
  | cell {c d} (h : L.cells c d) : Agrees L (.cell c) (.cell d)

/-- Values that agree do so in each longer link. -/
theorem Value.Agrees.mono {L L' : Link} (hL : L.Within L') {v w : Value} (h : v.Agrees L w) :
    v.Agrees L' w := by
  cases h with
  | same h => exact .same h
  | array h => exact .array (hL.arrays h)
  | arrayLength h => exact .arrayLength (hL.arrays h)
  | pending i h => exact .pending i (hL.arrays h)
  | cell h => exact .cell (hL.cells h)

/-- What two linked cells of arrays hold: values that agree and are no places. -/
structure Stored (L : Link) (v w : Value) : Prop where
  agrees : v.Agrees L w
  settled : v.isPlace = false

/-- Stored values that correspond do so in each longer link. -/
theorem Stored.mono {L L' : Link} (hL : L.Within L') {v w : Value} (h : Stored L v w) : Stored L' v w :=
  ⟨h.agrees.mono hL, h.settled⟩

/-- What the two cells of a variable hold: the same, or nothing on the checked side. -/
inductive Held (L : Link) : Value → Value → Prop where
  | stored {v w} (h : Stored L v w) : Held L v w
  | undefined {w} : Held L .undefined w

/-- Held values that correspond do so in each longer link. -/
theorem Held.mono {L L' : Link} (hL : L.Within L') {v w : Value} (h : Held L v w) : Held L' v w := by
  cases h with
  | stored h => exact .stored (h.mono hL)
  | undefined => exact .undefined

/-- Two sequences of slots that agree: holes at the same places, and linked cells at the others. -/
structure SlotsAgree (R : CellRef → CellRef → Prop) (p q : Array (Option CellRef)) : Prop where
  size : q.size = p.size
  slot : ∀ i : Nat, Option.Rel (Option.Rel R) p[i]? q[i]?

/-- Slots that agree do so in each wider relation. -/
theorem SlotsAgree.mono {R R' : CellRef → CellRef → Prop} (hR : ∀ {c d}, R c d → R' c d)
    {p q : Array (Option CellRef)} (h : SlotsAgree R p q) : SlotsAgree R' p q := by
  refine ⟨h.size, ?_⟩
  intro i
  have hi := h.slot i
  generalize p[i]? = x at hi
  generalize q[i]? = y at hi
  cases hi with
  | none => exact .none
  | some hi =>
    cases hi with
    | none => exact .some .none
    | some hcd => exact .some (.some (hR hcd))

/-- Slots of corresponding cells agree. -/
theorem SlotsAgree.of_forall₂ {R : CellRef → CellRef → Prop} {cs ds : List CellRef}
    (h : List.Forall₂ R cs ds) : SlotsAgree R (cs.map some).toArray (ds.map some).toArray := by
  refine ⟨by simp [h.length_eq], ?_⟩
  intro i
  simp only [List.getElem?_toArray, List.getElem?_map]
  induction h generalizing i with
  | nil => exact .none
  | cons hcd _ ih =>
    cases i with
    | zero => exact .some (.some hcd)
    | succ i => exact ih i

/-- Two memories that agree along a link and a relation `V` between the cells of variables. -/
structure Memory.Agrees (L : Link) (V : CellRef → CellRef → Prop) (m m' : Memory) : Prop where
  functions : m'.functions = m.functions
  arrays : OneToOne L.arrays
  cells : OneToOne L.cells
  array : ∀ {a b}, L.arrays a b →
    ∃ p q, m.arrays[a]? = some p ∧ m'.arrays[b]? = some q ∧ SlotsAgree L.cells p q
  cell : ∀ {c d}, L.cells c d → ∃ v w, m.cells[c]? = some v ∧ m'.cells[d]? = some w ∧ Stored L v w
  var : ∀ {c d}, V c d → ∃ v w, m.cells[c]? = some v ∧ m'.cells[d]? = some w ∧ Held L v w
  apart_left : ∀ {c d d'}, L.cells c d → ¬ V c d'
  apart_right : ∀ {c c' d}, L.cells c d → ¬ V c' d

namespace Memory.Agrees

variable {L : Link} {V V' : CellRef → CellRef → Prop} {m m' : Memory}

/-- Memories agree about fewer variables too. -/
theorem mono_vars (h : Agrees L V m m') (hV : ∀ {c d}, V' c d → V c d) : Agrees L V' m m' :=
  { h with
    var := fun hcd => h.var (hV hcd)
    apart_left := fun hcd hcd' => h.apart_left hcd (hV hcd')
    apart_right := fun hcd hcd' => h.apart_right hcd (hV hcd') }

/-- The cells that stand for each other, of arrays or variables, are paired one for one. -/
theorem cell_eq_iff (h : Agrees L V m m') (hV : OneToOne V) {c d c' d' : CellRef}
    (hcd : L.cells c d ∨ V c d) (hcd' : L.cells c' d' ∨ V c' d') : c' = c ↔ d' = d := by
  rcases hcd with hcd | hcd <;> rcases hcd' with hcd' | hcd'
  · exact ⟨fun hc => h.cells.right (hc ▸ hcd') hcd, fun hd => h.cells.left (hd ▸ hcd') hcd⟩
  · exact ⟨fun hc => absurd (hc ▸ hcd') (h.apart_left hcd), fun hd => absurd (hd ▸ hcd') (h.apart_right hcd)⟩
  · exact ⟨fun hc => absurd hcd (h.apart_left (hc ▸ hcd')), fun hd => absurd hcd (h.apart_right (hd ▸ hcd'))⟩
  · exact ⟨fun hc => hV.right (hc ▸ hcd') hcd, fun hd => hV.left (hd ▸ hcd') hcd⟩

/-- Writing values that agree to cells that stand for each other. -/
theorem write (h : Agrees L V m m') (hV : OneToOne V) {c d : CellRef} (hcd : L.cells c d ∨ V c d)
    {v w : Value} (hvw : Stored L v w) : Agrees L V (m.write c v) (m'.write d w) := by
  have hwritten {c' d' : CellRef} (hcd' : L.cells c' d' ∨ V c' d') {x y : Value}
      (hx : m.cells[c']? = some x) (hy : m'.cells[d']? = some y) :
      ∃ x' y', (m.write c v).cells[c']? = some x' ∧ (m'.write d w).cells[d']? = some y' ∧
        (x' = v ∧ y' = w ∨ x' = x ∧ y' = y) := by
    have hiff := h.cell_eq_iff hV hcd hcd'
    simp only [Memory.write, Array.getElem?_setIfInBounds, hx, hy]
    by_cases hc : c' = c
    · have hd := hiff.mp hc
      subst hc hd
      have hc := (Array.getElem?_eq_some_iff.mp hx).1
      have hd := (Array.getElem?_eq_some_iff.mp hy).1
      exact ⟨v, w, by simp [hc], by simp [hd], Or.inl ⟨rfl, rfl⟩⟩
    · have hd : d' ≠ d := fun hd => hc (hiff.mpr hd)
      exact ⟨x, y, by simp [Ne.symm hc], by simp [Ne.symm hd], Or.inr ⟨rfl, rfl⟩⟩
  refine { h with cell := fun {c' d'} hcd' => ?_, var := fun {c' d'} hcd' => ?_ }
  · obtain ⟨x, y, hx, hy, hxy⟩ := h.cell hcd'
    obtain ⟨x', y', hx', hy', ⟨rfl, rfl⟩ | ⟨rfl, rfl⟩⟩ := hwritten (Or.inl hcd') hx hy
    · exact ⟨_, _, hx', hy', hvw⟩
    · exact ⟨_, _, hx', hy', hxy⟩
  · obtain ⟨x, y, hx, hy, hxy⟩ := h.var hcd'
    obtain ⟨x', y', hx', hy', ⟨rfl, rfl⟩ | ⟨rfl, rfl⟩⟩ := hwritten (Or.inr hcd') hx hy
    · exact ⟨_, _, hx', hy', .stored hvw⟩
    · exact ⟨_, _, hx', hy', hxy⟩

end Memory.Agrees

/-! ## New cells and arrays -/

/-- A link with one more pair of cells. -/
def Link.withCell (L : Link) (c d : CellRef) : Link :=
  { L with cells := fun x y => L.cells x y ∨ x = c ∧ y = d }

/-- A link is within the one with another pair of cells. -/
theorem Link.within_withCell (L : Link) (c d : CellRef) : L.Within (L.withCell c d) := ⟨id, Or.inl⟩

/-- A link with one more pair of arrays. -/
def Link.withArray (L : Link) (a b : ArrayRef) : Link :=
  { L with arrays := fun x y => L.arrays x y ∨ x = a ∧ y = b }

/-- A link is within the one with another pair of arrays. -/
theorem Link.within_withArray (L : Link) (a b : ArrayRef) : L.Within (L.withArray a b) := ⟨Or.inl, id⟩

/-- A memory that holds everything that another one does. -/
structure Memory.Extends (m m' : Memory) : Prop where
  functions : m'.functions = m.functions
  cell : ∀ {c : CellRef} {v}, m.cells[c]? = some v → m'.cells[c]? = some v
  array : ∀ {a : ArrayRef} {p}, m.arrays[a]? = some p → m'.arrays[a]? = some p

/-- A memory extends itself. -/
theorem Memory.Extends.refl (m : Memory) : m.Extends m := ⟨rfl, id, id⟩

/-- Extending a memory passes on. -/
theorem Memory.Extends.trans {m m' m'' : Memory} (h : m.Extends m') (h' : m'.Extends m'') :
    m.Extends m'' :=
  ⟨h'.functions.trans h.functions, fun hv => h'.cell (h.cell hv), fun hp => h'.array (h.array hp)⟩

/-- Adding at the end leaves the entries in front. -/
theorem getElem?_push_of_some {α : Type} {xs : Array α} {i : Nat} {x y : α} (h : xs[i]? = some x) :
    (xs.push y)[i]? = some x := by
  have hi := (Array.getElem?_eq_some_iff.mp h).1
  rw [Array.getElem?_push, if_neg (by omega), h]

/-- A new cell extends a memory. -/
theorem Memory.extends_alloc (m : Memory) (v : Value) : m.Extends (m.alloc v).2 :=
  ⟨rfl, getElem?_push_of_some, id⟩

/-- A new cell holds its value. -/
theorem Memory.getElem?_alloc (m : Memory) (v : Value) : (m.alloc v).2.cells[m.cells.size]? = some v := by
  simp [Memory.alloc]

namespace Memory.Agrees

variable {L : Link} {V V' : CellRef → CellRef → Prop} {m m' n n' : Memory}

/-- Whatever else the memories come to hold, they keep agreeing. -/
theorem grow (h : Agrees L V m m') (hn : m.Extends n) (hn' : m'.Extends n') : Agrees L V n n' :=
  { h with
    functions := by rw [hn.functions, hn'.functions, h.functions]
    array := fun hab => by
      obtain ⟨p, q, hp, hq, hpq⟩ := h.array hab
      exact ⟨p, q, hn.array hp, hn'.array hq, hpq⟩
    cell := fun hcd => by
      obtain ⟨v, w, hv, hw, hvw⟩ := h.cell hcd
      exact ⟨v, w, hn.cell hv, hn'.cell hw, hvw⟩
    var := fun hcd => by
      obtain ⟨v, w, hv, hw, hvw⟩ := h.var hcd
      exact ⟨v, w, hn.cell hv, hn'.cell hw, hvw⟩ }

/-- Cells that correspond are there. -/
theorem lt_of_cell (h : Agrees L V m m') {c d : CellRef} (hcd : L.cells c d ∨ V c d) :
    c < m.cells.size ∧ d < m'.cells.size := by
  rcases hcd with hcd | hcd
  · obtain ⟨v, w, hv, hw, -⟩ := h.cell hcd
    exact ⟨(Array.getElem?_eq_some_iff.mp hv).1, (Array.getElem?_eq_some_iff.mp hw).1⟩
  · obtain ⟨v, w, hv, hw, -⟩ := h.var hcd
    exact ⟨(Array.getElem?_eq_some_iff.mp hv).1, (Array.getElem?_eq_some_iff.mp hw).1⟩

/-- New cells for an array. -/
theorem alloc_cell (h : Agrees L V m m') {v w : Value} (hvw : Stored L v w) :
    Agrees (L.withCell m.cells.size m'.cells.size) V (m.alloc v).2 (m'.alloc w).2 := by
  have hL := L.within_withCell m.cells.size m'.cells.size
  have hgrown := h.grow (m.extends_alloc v) (m'.extends_alloc w)
  have hnew {c d : CellRef} (hcd : L.cells c d ∨ V c d) : c ≠ m.cells.size ∧ d ≠ m'.cells.size := by
    obtain ⟨hc, hd⟩ := h.lt_of_cell hcd
    exact ⟨Nat.ne_of_lt hc, Nat.ne_of_lt hd⟩
  exact {
    functions := hgrown.functions
    arrays := h.arrays
    cells := h.cells.insert (fun hcd => (hnew (Or.inl hcd)).1 rfl) (fun hcd => (hnew (Or.inl hcd)).2 rfl)
    array := fun hab => by
      obtain ⟨p, q, hp, hq, hpq⟩ := hgrown.array hab
      exact ⟨p, q, hp, hq, hpq.mono hL.cells⟩
    cell := fun hcd => by
      rcases hcd with hcd | ⟨rfl, rfl⟩
      · obtain ⟨x, y, hx, hy, hxy⟩ := hgrown.cell hcd
        exact ⟨x, y, hx, hy, hxy.mono hL⟩
      · exact ⟨v, w, m.getElem?_alloc v, m'.getElem?_alloc w, hvw.mono hL⟩
    var := fun hcd => by
      obtain ⟨x, y, hx, hy, hxy⟩ := hgrown.var hcd
      exact ⟨x, y, hx, hy, hxy.mono hL⟩
    apart_left := fun hcd hcd' => by
      rcases hcd with hcd | ⟨rfl, rfl⟩
      · exact h.apart_left hcd hcd'
      · exact (hnew (Or.inr hcd')).1 rfl
    apart_right := fun hcd hcd' => by
      rcases hcd with hcd | ⟨rfl, rfl⟩
      · exact h.apart_right hcd hcd'
      · exact (hnew (Or.inr hcd')).2 rfl }

/-- New cells for a variable on both sides. -/
theorem alloc_var (h : Agrees L V m m') {v w : Value} (hvw : Held L v w)
    (hV : ∀ {c d}, V' c d → V c d ∨ c = m.cells.size ∧ d = m'.cells.size) :
    Agrees L V' (m.alloc v).2 (m'.alloc w).2 := by
  have hgrown := h.grow (m.extends_alloc v) (m'.extends_alloc w)
  exact { hgrown with
    var := fun hcd => by
      rcases hV hcd with hcd | ⟨rfl, rfl⟩
      · exact hgrown.var hcd
      · exact ⟨v, w, m.getElem?_alloc v, m'.getElem?_alloc w, hvw⟩
    apart_left := fun hcd hcd' => by
      rcases hV hcd' with hcd' | ⟨rfl, rfl⟩
      · exact h.apart_left hcd hcd'
      · exact absurd (h.lt_of_cell (Or.inl hcd)).1 (Nat.lt_irrefl _)
    apart_right := fun hcd hcd' => by
      rcases hV hcd' with hcd' | ⟨rfl, rfl⟩
      · exact h.apart_right hcd hcd'
      · exact absurd (h.lt_of_cell (Or.inl hcd)).2 (Nat.lt_irrefl _) }

/-- A new cell for a variable on the checked side, while the other side keeps the one that it has. -/
theorem alloc_left (h : Agrees L V m m')
    (hV : ∀ {c d}, V' c d → V c d ∨ c = m.cells.size ∧ ∃ c', V c' d) :
    Agrees L V' (m.alloc .undefined).2 m' := by
  have hgrown := h.grow (m.extends_alloc .undefined) (.refl m')
  exact { hgrown with
    var := fun hcd => by
      rcases hV hcd with hcd | ⟨rfl, c', hcd⟩
      · exact hgrown.var hcd
      · obtain ⟨v, w, -, hw, -⟩ := h.var hcd
        exact ⟨.undefined, w, m.getElem?_alloc .undefined, hw, .undefined⟩
    apart_left := fun hcd hcd' => by
      rcases hV hcd' with hcd' | ⟨rfl, -⟩
      · exact h.apart_left hcd hcd'
      · exact absurd (h.lt_of_cell (Or.inl hcd)).1 (Nat.lt_irrefl _)
    apart_right := fun hcd hcd' => by
      rcases hV hcd' with hcd' | ⟨-, c', hcd'⟩
      · exact h.apart_right hcd hcd'
      · exact h.apart_right hcd hcd' }

/-- New functions on both sides. -/
theorem withFunction (h : Agrees L V m m') :
    Agrees L V { m with functions := m.functions + 1 } { m' with functions := m'.functions + 1 } :=
  { h with functions := by rw [h.functions] }

/-- Changing the slots of linked arrays alike. -/
theorem modify (h : Agrees L V m m') {a b : ArrayRef} (hab : L.arrays a b)
    {f g : Array (Option CellRef) → Array (Option CellRef)}
    (hfg : ∀ p q, SlotsAgree L.cells p q → SlotsAgree L.cells (f p) (g q)) :
    Agrees L V { m with arrays := m.arrays.modify a f } { m' with arrays := m'.arrays.modify b g } := by
  refine { h with array := fun {a' b'} hab' => ?_ }
  obtain ⟨p, q, hp, hq, hpq⟩ := h.array hab'
  simp only [Array.getElem?_modify, hp, hq]
  by_cases ha : a = a'
  · have hb : b = b' := h.arrays.right (ha ▸ hab) hab'
    exact ⟨f p, g q, by simp [ha], by simp [hb], hfg p q hpq⟩
  · have hb : b ≠ b' := fun hb => ha (h.arrays.left (hb ▸ hab) hab')
    exact ⟨p, q, by simp [ha], by simp [hb], hpq⟩

/-- New arrays on both sides. -/
theorem push (h : Agrees L V m m') {p q : Array (Option CellRef)} (hpq : SlotsAgree L.cells p q) :
    Agrees (L.withArray m.arrays.size m'.arrays.size) V { m with arrays := m.arrays.push p }
      { m' with arrays := m'.arrays.push q } := by
  have hL := L.within_withArray m.arrays.size m'.arrays.size
  have hgrown : Agrees L V { m with arrays := m.arrays.push p } { m' with arrays := m'.arrays.push q } :=
    h.grow ⟨rfl, id, getElem?_push_of_some⟩ ⟨rfl, id, getElem?_push_of_some⟩
  have hnew {a b : ArrayRef} (hab : L.arrays a b) : a ≠ m.arrays.size ∧ b ≠ m'.arrays.size := by
    obtain ⟨x, y, hx, hy, -⟩ := h.array hab
    exact ⟨Nat.ne_of_lt (Array.getElem?_eq_some_iff.mp hx).1,
      Nat.ne_of_lt (Array.getElem?_eq_some_iff.mp hy).1⟩
  exact { hgrown with
    arrays := h.arrays.insert (fun hab => (hnew hab).1 rfl) (fun hab => (hnew hab).2 rfl)
    array := fun hab => by
      rcases hab with hab | ⟨rfl, rfl⟩
      · exact hgrown.array hab
      · exact ⟨p, q, by simp, by simp, hpq⟩
    cell := fun hcd => by
      obtain ⟨x, y, hx, hy, hxy⟩ := hgrown.cell hcd
      exact ⟨x, y, hx, hy, hxy.mono hL⟩
    var := fun hcd => by
      obtain ⟨x, y, hx, hy, hxy⟩ := hgrown.var hcd
      exact ⟨x, y, hx, hy, hxy.mono hL⟩ }

/-! ## The operations of the evaluator -/

/-- Arrays that correspond have slots that agree. -/
theorem slots_agree (h : Agrees L V m m') {a b : ArrayRef} (hab : L.arrays a b) :
    SlotsAgree L.cells (m.slots a) (m'.slots b) := by
  obtain ⟨p, q, hp, hq, hpq⟩ := h.array hab
  simp only [Memory.slots, hp, hq, Option.getD_some]
  exact hpq

/-- Arrays that correspond are equally long. -/
theorem size_eq (h : Agrees L V m m') {a b : ArrayRef} (hab : L.arrays a b) : m'.size b = m.size a :=
  (h.slots_agree hab).size

/-- Linked arrays stay linked when they are cut off or filled up. -/
theorem resize (h : Agrees L V m m') {a b : ArrayRef} (hab : L.arrays a b) (n : Nat) :
    Agrees L V (m.resize a n) (m'.resize b n) := by
  apply h.modify hab
  intro p q hpq
  rw [hpq.size]
  split
  · refine ⟨by simp [hpq.size], ?_⟩
    intro i
    simp only [Array.getElem?_extract, hpq.size]
    split
    · exact hpq.slot _
    · exact .none
  · refine ⟨by simp [hpq.size], ?_⟩
    intro i
    simp only [Array.getElem?_append, hpq.size]
    split
    · exact hpq.slot i
    · simp only [Array.getElem?_replicate]
      split
      · exact .some .none
      · exact .none

/-- Putting linked cells into the same slot of linked arrays. -/
theorem putSlot (h : Agrees L V m m') {a b : ArrayRef} (hab : L.arrays a b) (i : Nat) {c d : CellRef}
    (hcd : L.cells c d) : Agrees L V (m.putSlot a i c) (m'.putSlot b i d) := by
  apply h.modify hab
  intro p q hpq
  refine ⟨by simp [hpq.size], ?_⟩
  intro j
  simp only [Array.getElem?_setIfInBounds, hpq.size]
  split
  · split
    · exact .some (.some hcd)
    · exact .none
  · exact hpq.slot j

/-- The places of an element of linked arrays. -/
theorem slot (h : Agrees L V m m') {a b : ArrayRef} (hab : L.arrays a b) (i : Nat) :
    ∃ L', L.Within L' ∧ Agrees L' V (m.slot a i).2 (m'.slot b i).2 ∧
      (m.slot a i).1.Agrees L' (m'.slot b i).1 := by
  have hi := (h.slots_agree hab).slot i
  unfold Memory.slot
  generalize (m.slots a)[i]? = x at hi
  generalize (m'.slots b)[i]? = y at hi
  cases hi with
  | none => exact ⟨L, .refl L, h, .pending i hab⟩
  | some hi =>
    cases hi with
    | some hcd => exact ⟨L, .refl L, h, .cell hcd⟩
    | none =>
      have hstored : Stored L .undefined .undefined := ⟨.same trivial, rfl⟩
      have hL := L.within_withCell m.cells.size m'.cells.size
      have hnew : (L.withCell m.cells.size m'.cells.size).cells m.cells.size m'.cells.size := Or.inr ⟨rfl, rfl⟩
      exact ⟨_, hL, (h.alloc_cell hstored).putSlot (hL.arrays hab) i hnew, .cell hnew⟩

/-- Writing an element into a new cell of linked arrays. -/
theorem setSlot (h : Agrees L V m m') {a b : ArrayRef} (hab : L.arrays a b) {i : Nat} {v w : Value}
    (hvw : Stored L v w) (hn : m.setSlot a i v = some n) :
    ∃ n' L', m'.setSlot b i w = some n' ∧ L.Within L' ∧ Agrees L' V n n' := by
  unfold Memory.setSlot at hn ⊢
  rw [h.size_eq hab]
  split at hn
  · cases hn
  · rename_i hi
    rw [if_neg hi]
    cases hn
    have hgrown : Agrees L V (if m.size a ≤ i then m.resize a (i + 1) else m)
        (if m.size a ≤ i then m'.resize b (i + 1) else m') := by
      split
      · exact h.resize hab _
      · exact h
    have hL := L.within_withCell (if m.size a ≤ i then m.resize a (i + 1) else m).cells.size
      (if m.size a ≤ i then m'.resize b (i + 1) else m').cells.size
    exact ⟨_, _, rfl, hL, (hgrown.alloc_cell hvw).putSlot (hL.arrays hab) i (Or.inr ⟨rfl, rfl⟩)⟩

end Memory.Agrees

/-- Several new cells are the first and those of the rest. -/
theorem Memory.allocAll_cons (m : Memory) (v : Value) (vs : List Value) :
    m.allocAll (v :: vs) = (m.cells.size :: ((m.alloc v).2.allocAll vs).1, ((m.alloc v).2.allocAll vs).2) := by
  simp only [Memory.allocAll, Memory.alloc, List.length_cons, List.range_succ_eq_map, List.map_cons,
    List.map_map, Array.size_push, Nat.add_zero, Prod.mk.injEq, List.cons.injEq, true_and]
  constructor
  · apply List.map_congr_left
    intro i _
    show (m.cells.size + (i + 1) : Nat) = m.cells.size + 1 + i
    omega
  · rw [Array.push_eq_append]
    simp

namespace Memory.Agrees

variable {L : Link} {V : CellRef → CellRef → Prop} {m m' : Memory}

/-- New cells for several values. -/
theorem allocAll (h : Agrees L V m m') {vs ws : List Value} (hvw : List.Forall₂ (Stored L) vs ws) :
    ∃ L', L.Within L' ∧ Agrees L' V (m.allocAll vs).2 (m'.allocAll ws).2 ∧
      List.Forall₂ L'.cells (m.allocAll vs).1 (m'.allocAll ws).1 := by
  induction vs generalizing L m m' ws with
  | nil =>
    cases hvw
    exact ⟨L, .refl L, by simpa [Memory.allocAll] using h, .nil⟩
  | cons v vs ih =>
    obtain ⟨w, ws, hv, hvs, rfl⟩ := List.forall₂_cons_left_iff.mp hvw
    have hL := L.within_withCell m.cells.size m'.cells.size
    obtain ⟨L', hL', hagrees, hcells⟩ := ih (h.alloc_cell hv) (hvs.imp fun _ _ hx => hx.mono hL)
    rw [Memory.allocAll_cons, Memory.allocAll_cons]
    exact ⟨L', hL.trans hL', hagrees, .cons (hL'.cells (Or.inr ⟨rfl, rfl⟩)) hcells⟩

/-- New arrays of values that agree. -/
theorem newArray (h : Agrees L V m m') {vs ws : List Value} (hvw : List.Forall₂ (Stored L) vs ws) :
    ∃ L', L.Within L' ∧ Agrees L' V (m.newArray vs).2 (m'.newArray ws).2 ∧
      L'.arrays (m.newArray vs).1 (m'.newArray ws).1 := by
  obtain ⟨L', hL', hagrees, hcells⟩ := h.allocAll hvw
  have hL'' := L'.within_withArray (m.allocAll vs).2.arrays.size (m'.allocAll ws).2.arrays.size
  exact ⟨_, hL'.trans hL'', hagrees.push (.of_forall₂ hcells), Or.inr ⟨rfl, rfl⟩⟩

end Memory.Agrees

end Primer
