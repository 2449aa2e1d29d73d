import Mathlib.Data.List.Perm.Subperm
import Primer.Proofs.Lenient.Memory
import Primer.Value.Equality

/-!
# Texts and comparisons in memories that agree

The text of an array goes through the arrays in it, each at most once, so the bound that `Memory.text` puts on
it is never reached. Values that agree therefore have the same text, however much the sizes of the two
memories differ, and they compare alike by `==`.
-/

set_option autoImplicit false

namespace Primer

/-! ## Elements -/

/-- Values that agree and are no places, by cases: the same value, or two linked arrays. -/
theorem Stored.cases {L : Link} {v w : Value} (h : Stored L v w) :
    w = v ∧ v.Standalone ∨ ∃ a b, v = .array a ∧ w = .array b ∧ L.arrays a b := by
  obtain ⟨hvw, hsettled⟩ := h
  cases hvw with
  | same hv => exact Or.inl ⟨rfl, hv⟩
  | array hab => exact Or.inr ⟨_, _, rfl, rfl, hab⟩
  | arrayLength => cases hsettled
  | pending => cases hsettled
  | cell => cases hsettled

/-- Slots that agree do so one by one. -/
theorem SlotsAgree.forall₂ {R : CellRef → CellRef → Prop} {p q : Array (Option CellRef)}
    (h : SlotsAgree R p q) : List.Forall₂ (Option.Rel R) p.toList q.toList := by
  apply List.forall₂_of_length_eq_of_get (by simp [h.size])
  intro i hp hq
  have hi := h.slot i
  simp only [Array.length_toList] at hp hq
  rw [Array.getElem?_eq_getElem hp, Array.getElem?_eq_getElem hq] at hi
  cases hi with
  | some hi => exact hi

namespace Memory.Agrees

variable {L : Link} {V : CellRef → CellRef → Prop} {m m' : Memory}

/-- Cells that correspond hold corresponding values. -/
theorem read_stored (h : Agrees L V m m') {c d : CellRef} (hcd : L.cells c d) :
    Stored L (m.read c) (m'.read d) := by
  obtain ⟨v, w, hv, hw, hvw⟩ := h.cell hcd
  simp only [Memory.read, hv, hw, Option.getD_some]
  exact hvw

/-- Slots that correspond show corresponding values. -/
theorem slotValue_stored (h : Agrees L V m m') {x y : Option CellRef} (hxy : Option.Rel L.cells x y) :
    Stored L (m.slotValue x) (m'.slotValue y) := by
  cases hxy with
  | none => exact ⟨.same trivial, rfl⟩
  | @some c d hcd =>
    have hstored := h.read_stored hcd
    simp only [Memory.slotValue]
    generalize m.read c = v at hstored
    generalize m'.read d = w at hstored
    rcases hstored.cases with ⟨rfl, -⟩ | ⟨a, b, rfl, rfl, -⟩
    · cases w <;> first | exact hstored | exact ⟨.same trivial, rfl⟩
    · exact hstored

/-- The elements of linked arrays agree one by one. -/
theorem values_forall₂ (h : Agrees L V m m') {a b : ArrayRef} (hab : L.arrays a b) :
    List.Forall₂ (Stored L) (m.values a) (m'.values b) := by
  unfold Memory.values
  rw [List.forall₂_map_left_iff, List.forall₂_map_right_iff]
  apply (h.slots_agree hab).forall₂.imp
  intro x y hxy
  exact h.slotValue_stored hxy

end Memory.Agrees

/-! ## Texts -/

/-- Functions that agree on corresponding entries give the same list. -/
theorem map_eq_map_of_forall₂ {α β γ : Type} {R : α → β → Prop} {f : α → γ} {g : β → γ}
    {xs : List α} {ys : List β} (h : List.Forall₂ R xs ys) (hfg : ∀ x y, R x y → f x = g y) :
    xs.map f = ys.map g := by
  induction h with
  | nil => rfl
  | cons hxy _ ih => rw [List.map_cons, List.map_cons, hfg _ _ hxy, ih]

/-- A list of distinct numbers below a bound is not longer than the bound. -/
theorem length_le_of_nodup_of_lt {xs : List Nat} {n : Nat} (hxs : xs.Nodup) (hlt : ∀ x ∈ xs, x < n) :
    xs.length ≤ n := by
  have hsub : xs ⊆ List.range n := fun x hx => List.mem_range.mpr (hlt x hx)
  have := (List.subperm_of_subset hxs hsub).length_le
  rwa [List.length_range] at this

namespace Memory.Agrees

variable {L : Link} {V : CellRef → CellRef → Prop} {m m' : Memory}

/-- Corresponding paths pass corresponding arrays. -/
theorem mem_iff (h : Agrees L V m m') {xs ys : List ArrayRef} (hxy : List.Forall₂ L.arrays xs ys)
    {a b : ArrayRef} (hab : L.arrays a b) : a ∈ xs ↔ b ∈ ys := by
  induction hxy with
  | nil => simp
  | cons hcd _ ih =>
    have hhead : a = _ ↔ b = _ := ⟨fun e => h.arrays.right (e ▸ hab) hcd, fun e => h.arrays.left (e ▸ hab) hcd⟩
    rw [List.mem_cons, List.mem_cons, ih, hhead]

/-- Linked arrays are all in their memories. -/
theorem lt_size (h : Agrees L V m m') {xs ys : List ArrayRef} (hxy : List.Forall₂ L.arrays xs ys) :
    (∀ x ∈ xs, x < m.arrays.size) ∧ ∀ y ∈ ys, y < m'.arrays.size := by
  induction hxy with
  | nil => simp
  | cons hab _ ih =>
    obtain ⟨p, q, hp, hq, -⟩ := h.array hab
    have ha := (Array.getElem?_eq_some_iff.mp hp).1
    have hb := (Array.getElem?_eq_some_iff.mp hq).1
    simp only [List.mem_cons, forall_eq_or_imp]
    exact ⟨⟨ha, ih.1⟩, hb, ih.2⟩

/-- The bound on the steps of a text is of no account as long as it exceeds the arrays that are not being
written yet. Every step into an array leaves one of them less. -/
theorem textWithin_eq (h : Agrees L V m m') {k k' : Nat} {xs ys : List ArrayRef}
    (hxy : List.Forall₂ L.arrays xs ys) (hxs : xs.Nodup) (hys : ys.Nodup)
    (hk : m.arrays.size < k + xs.length) (hk' : m'.arrays.size < k' + ys.length) {v w : Value}
    (hvw : Stored L v w) : m.textWithin k xs v = m'.textWithin k' ys w := by
  induction k generalizing k' xs ys v w with
  | zero =>
    -- All arrays would be in the middle of being written, and the value with them.
    have := length_le_of_nodup_of_lt hxs (h.lt_size hxy).1
    omega
  | succ k ih =>
    have := length_le_of_nodup_of_lt hys (h.lt_size hxy).2
    obtain ⟨k', rfl⟩ : ∃ j, k' = j + 1 := ⟨k' - 1, by omega⟩
    rcases hvw.cases with ⟨rfl, hv⟩ | ⟨a, b, rfl, rfl, hab⟩
    · cases w <;> first | rfl | exact hv.elim
    · simp only [Memory.textWithin, List.contains_eq_mem]
      by_cases ha : a ∈ xs
      · simp [ha, (h.mem_iff hxy hab).mp ha]
      · have hb : b ∉ ys := fun hb => ha ((h.mem_iff hxy hab).mpr hb)
        simp only [ha, hb, decide_false, Bool.false_eq_true, ↓reduceIte]
        congr 1
        apply map_eq_map_of_forall₂ (h.values_forall₂ hab)
        intro e e' he
        have htext : m.textWithin k (a :: xs) e = m'.textWithin k' (b :: ys) e' :=
          ih (.cons hab hxy) (List.nodup_cons.mpr ⟨ha, hxs⟩) (List.nodup_cons.mpr ⟨hb, hys⟩)
            (by simp only [List.length_cons]; omega) (by simp only [List.length_cons]; omega) he
        rcases he.cases with ⟨rfl, -⟩ | ⟨c, d, rfl, rfl, -⟩
        · cases e' <;> first | rfl | exact htext
        · exact htext

/-- Values that agree have the same text. -/
theorem text_eq (h : Agrees L V m m') {v w : Value} (hvw : Stored L v w) : m.text v = m'.text w :=
  h.textWithin_eq .nil List.nodup_nil List.nodup_nil (by simp; omega) (by simp; omega) hvw

/-! ## Comparisons -/

/-- Linked arrays are the same array on one side if and only if they are on the other. -/
theorem isSame_array (h : Agrees L V m m') {a b c d : ArrayRef} (hab : L.arrays a b) (hcd : L.arrays c d) :
    (Value.array a).isSame (.array c) = (Value.array b).isSame (.array d) := by
  have hiff : a = c ↔ b = d :=
    ⟨fun hac => h.arrays.right (hac ▸ hab) hcd, fun hbd => h.arrays.left (hbd ▸ hab) hcd⟩
  simp only [Value.isSame]
  by_cases hac : a = c
  · rw [beq_iff_eq.mpr hac, beq_iff_eq.mpr (hiff.mp hac)]
  · rw [beq_eq_false_iff_ne.mpr hac, beq_eq_false_iff_ne.mpr fun hbd => hac (hiff.mpr hbd)]

/-- Comparing an array with a value of its own does not depend on which of two corresponding arrays it is. -/
theorem operandsEqual_array_left (h : Agrees L V m m') {a b : ArrayRef} (hab : L.arrays a b) {v : Value}
    (hv : v.Standalone) : m.operandsEqual (.array a) v = m'.operandsEqual (.array b) v := by
  have htext := h.text_eq ⟨.array hab, rfl⟩
  cases v <;>
    simp only [Memory.operandsEqual, Memory.numberEquals, Memory.stringEquals, Memory.booleanEquals,
      htext, Value.isSame]
  all_goals exact hv.elim

/-- Comparing a value of its own with an array does not depend on which of two corresponding arrays it is. -/
theorem operandsEqual_array_right (h : Agrees L V m m') {a b : ArrayRef} (hab : L.arrays a b) {v : Value}
    (hv : v.Standalone) : m.operandsEqual v (.array a) = m'.operandsEqual v (.array b) := by
  have htext := h.text_eq ⟨.array hab, rfl⟩
  cases v <;>
    simp only [Memory.operandsEqual, Memory.numberEquals, Memory.stringEquals, Memory.booleanEquals,
      htext, Value.isSame]
  all_goals exact hv.elim

/-- Comparing values that refer to no array does not depend on the memory. -/
theorem operandsEqual_standalone (h : Agrees L V m m') {v w : Value} (hv : v.Standalone)
    (hw : w.Standalone) : m.operandsEqual v w = m'.operandsEqual v w := by
  have htext (o : ObjectKey) : m.text (.object o) = m'.text (.object o) := h.text_eq ⟨.same trivial, rfl⟩
  cases v <;> first
    | exact hv.elim
    | (cases w <;> first
        | exact hw.elim
        | simp only [Memory.operandsEqual, Memory.numberEquals, Memory.stringEquals,
            Memory.booleanEquals, htext])

/-- Values that agree compare alike. -/
theorem looselyEqual_eq (h : Agrees L V m m') {v w v' w' : Value} (hv : Stored L v v')
    (hw : Stored L w w') : m.looselyEqual v w = m'.looselyEqual v' w' := by
  have hoperand {x x' : Value} (hx : Stored L x x') : Stored L (m.operand x) (m'.operand x') := by
    have hsettled := hx.settled
    rcases hx.cases with ⟨rfl, -⟩ | ⟨a, b, rfl, rfl, -⟩
    · cases x' <;> first | exact hx | exact ⟨.same trivial, rfl⟩ | cases hsettled
    · exact hx
  unfold Memory.looselyEqual
  have hv := hoperand hv
  have hw := hoperand hw
  generalize m.operand v = v at hv
  generalize m'.operand v' = v' at hv
  generalize m.operand w = w at hw
  generalize m'.operand w' = w' at hw
  rcases hv.cases with ⟨rfl, hv⟩ | ⟨a, b, rfl, rfl, hab⟩ <;>
    rcases hw.cases with ⟨rfl, hw⟩ | ⟨c, d, rfl, rfl, hcd⟩
  · exact h.operandsEqual_standalone hv hw
  · exact h.operandsEqual_array_right hcd hv
  · exact h.operandsEqual_array_left hab hw
  · exact h.isSame_array hab hcd

end Memory.Agrees

end Primer
