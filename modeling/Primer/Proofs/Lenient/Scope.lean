import Primer.Proofs.Lenient.Memory
import Primer.Run.Scope

/-!
# Scopes that agree

Two runs of one program bind the same names in the same scopes, each to a cell of its own memory. A cell is
bound to one name at most, so the cells of the same variable (`Bound`) are paired one for one, and this stays
so when a name is bound to a new cell on both sides or on the checked side only.
-/

set_option autoImplicit false

namespace Primer

/-! ## Looking names up -/

namespace Scope

/-- What a name is bound to in one of several scopes. -/
def lookup (S : List Scope) (i : Nat) (x : String) : Option Value := S[i]?.bind fun sc => sc.find? x

/-- At level 0 a name is looked up in the first scope. -/
theorem lookup_zero (sc : Scope) (S : List Scope) (x : String) : lookup (sc :: S) 0 x = sc.find? x := rfl

/-- The empty scope in front moves the others one level on. -/
theorem lookup_empty (i : Nat) (x : String) (S : List Scope) :
    lookup (empty :: S) i x = if i = 0 then none else lookup S (i - 1) x := by
  cases i <;> rfl

/-- Binding a name changes its lookup at level 0 only. -/
theorem lookup_bind (sc : Scope) (S : List Scope) (x : String) (v : Value) (i : Nat) (y : String) :
    lookup (sc.bind x v :: S) i y = if i = 0 ∧ y = x then some v else lookup (sc :: S) i y := by
  cases i with
  | zero => simp only [lookup_zero, find?_bind, true_and]
  | succ i => simp [lookup]

end Scope

open Scope (lookup)

/-! ## Cells of variables -/

/-- The cells of the same variable in two stacks of scopes. -/
def Bound (S R : List Scope) (c d : CellRef) : Prop :=
  ∃ i x, lookup S i x = some (.cell c) ∧ lookup R i x = some (.cell d)

/-- No cell is bound to two names. -/
structure Separate (S : List Scope) : Prop where
  same : ∀ {i j x y c}, lookup S i x = some (.cell c) → lookup S j y = some (.cell c) → i = j ∧ x = y

/-- A cell that no name is bound to. -/
def Unbound (S : List Scope) (c : CellRef) : Prop := ∀ i x, lookup S i x ≠ some (.cell c)

/-- What a name is bound to on two sides: nothing, or a cell on each. -/
inductive Bindings : Option Value → Option Value → Prop where
  | none : Bindings none none
  | cells (c d : CellRef) : Bindings (some (.cell c)) (some (.cell d))

/-- Names that correspond are bound in both scopes or in neither. -/
theorem Bindings.isSome_eq {v w : Option Value} (h : Bindings v w) : w.isSome = v.isSome := by
  cases h <;> rfl

/-- Binding a name to an unbound cell keeps the names separate. -/
theorem Separate.rebind {sc : Scope} {S : List Scope} (h : Separate (sc :: S)) {c : CellRef}
    (hc : Unbound (sc :: S) c) (x : String) : Separate (sc.bind x (.cell c) :: S) := by
  refine ⟨fun {i j y z e} hy hz => ?_⟩
  rw [Scope.lookup_bind] at hy hz
  split at hy <;> split at hz
  · rename_i hi hj
    exact ⟨hi.1.trans hj.1.symm, hi.2.trans hj.2.symm⟩
  · cases hy
    exact absurd hz (hc j z)
  · cases hz
    exact absurd hy (hc i y)
  · exact h.same hy hz

/-- An empty scope in front keeps the names separate. -/
theorem Separate.push {S : List Scope} (h : Separate S) : Separate (Scope.empty :: S) := by
  refine ⟨fun {i j x y c} hx hy => ?_⟩
  rw [Scope.lookup_empty] at hx hy
  split at hx
  · cases hx
  · split at hy
    · cases hy
    · obtain ⟨hij, hxy⟩ := h.same hx hy
      exact ⟨by omega, hxy⟩

/-- Without the first scope the names are still separate. -/
theorem Separate.of_cons {sc : Scope} {S : List Scope} (h : Separate (sc :: S)) : Separate S := by
  refine ⟨fun {i j x y c} hx hy => ?_⟩
  obtain ⟨hij, hxy⟩ := h.same (i := i + 1) (j := j + 1) hx hy
  exact ⟨by omega, hxy⟩

/-- Two stacks of scopes that bind the same names, each to cells of their own. -/
structure Scope.Agree (S R : List Scope) : Prop where
  length : R.length = S.length
  bindings : ∀ i x, Bindings (lookup S i x) (lookup R i x)
  left : Separate S
  right : Separate R

namespace Scope.Agree

variable {S R : List Scope} {sc rc : Scope}

/-- Bound cells correspond one to one. -/
theorem oneToOne (h : Agree S R) : OneToOne (Bound S R) := by
  constructor
  · rintro c d d' ⟨i, x, hc, hd⟩ ⟨j, y, hc', hd'⟩
    obtain ⟨rfl, rfl⟩ := h.left.same hc hc'
    cases hd.symm.trans hd'
    rfl
  · rintro c c' d ⟨i, x, hc, hd⟩ ⟨j, y, hc', hd'⟩
    obtain ⟨rfl, rfl⟩ := h.right.same hd hd'
    cases hc.symm.trans hc'
    rfl

/-- Whatever one side binds to a cell, the other side does too. -/
theorem bound_of_left (h : Agree S R) {i : Nat} {x : String} {c : CellRef}
    (hc : lookup S i x = some (.cell c)) : ∃ d, Bound S R c d := by
  have hix := h.bindings i x
  rw [hc] at hix
  generalize hd : lookup R i x = w at hix
  cases hix with
  | cells c d => exact ⟨d, i, x, hc, hd⟩

/-- A cell that is bound on the right corresponds to one on the left. -/
theorem bound_of_right (h : Agree S R) {i : Nat} {x : String} {d : CellRef}
    (hd : lookup R i x = some (.cell d)) : ∃ c, Bound S R c d := by
  have hix := h.bindings i x
  rw [hd] at hix
  generalize hc : lookup S i x = v at hix
  cases hix with
  | cells c d => exact ⟨c, i, x, hc, hd⟩

/-- Binding a name to new cells on both sides. -/
theorem rebind (h : Agree (sc :: S) (rc :: R)) {c d : CellRef} (hc : Unbound (sc :: S) c)
    (hd : Unbound (rc :: R) d) (x : String) :
    Agree (sc.bind x (.cell c) :: S) (rc.bind x (.cell d) :: R) where
  length := h.length
  bindings i y := by
    rw [lookup_bind, lookup_bind]
    split
    · exact .cells c d
    · exact h.bindings i y
  left := h.left.rebind hc x
  right := h.right.rebind hd x

/-- Binding a name to a new cell on the checked side, where the other side has one already. -/
theorem rebind_left (h : Agree (sc :: S) (rc :: R)) {c d : CellRef} (hc : Unbound (sc :: S) c)
    {x : String} (hd : rc.find? x = some (.cell d)) : Agree (sc.bind x (.cell c) :: S) (rc :: R) where
  length := h.length
  bindings i y := by
    rw [lookup_bind]
    split
    · rename_i hy
      rw [hy.1, hy.2, lookup_zero, hd]
      exact .cells c d
    · exact h.bindings i y
  left := h.left.rebind hc x
  right := h.right

/-- A new scope without bindings. -/
theorem push (h : Agree S R) : Agree (empty :: S) (empty :: R) where
  length := by rw [List.length_cons, List.length_cons, h.length]
  bindings i x := by
    rw [lookup_empty, lookup_empty]
    split
    · exact .none
    · exact h.bindings _ x
  left := h.left.push
  right := h.right.push

/-- The scopes below the active one. -/
theorem of_cons (h : Agree (sc :: S) (rc :: R)) : Agree S R where
  length := by simpa using h.length
  bindings i x := h.bindings (i + 1) x
  left := h.left.of_cons
  right := h.right.of_cons

end Scope.Agree

namespace Bound

variable {S R : List Scope} {sc rc : Scope} {c d c' d' : CellRef} {x : String}

/-- After binding on both sides the bound pairs are the old ones and the new one. -/
theorem of_rebind (h : Bound (sc.bind x (.cell c) :: S) (rc.bind x (.cell d) :: R) c' d') :
    Bound (sc :: S) (rc :: R) c' d' ∨ c' = c ∧ d' = d := by
  obtain ⟨i, y, hc, hd⟩ := h
  rw [Scope.lookup_bind] at hc hd
  split at hc
  · rename_i hy
    rw [if_pos hy] at hd
    cases hc
    cases hd
    exact Or.inr ⟨rfl, rfl⟩
  · rename_i hy
    rw [if_neg hy] at hd
    exact Or.inl ⟨i, y, hc, hd⟩

/-- After binding on the left the bound pairs are old ones and those of the new cell. -/
theorem of_rebind_left (hagree : Scope.Agree (sc :: S) (rc :: R))
    (h : Bound (sc.bind x (.cell c) :: S) (rc :: R) c' d') :
    Bound (sc :: S) (rc :: R) c' d' ∨ c' = c ∧ ∃ c₀, Bound (sc :: S) (rc :: R) c₀ d' := by
  obtain ⟨i, y, hc, hd⟩ := h
  rw [Scope.lookup_bind] at hc
  split at hc
  · cases hc
    exact Or.inr ⟨rfl, hagree.bound_of_right hd⟩
  · exact Or.inl ⟨i, y, hc, hd⟩

/-- Empty scopes in front add no bound pair. -/
theorem of_push (h : Bound (Scope.empty :: S) (Scope.empty :: R) c d) : Bound S R c d := by
  obtain ⟨i, y, hc, hd⟩ := h
  rw [Scope.lookup_empty] at hc hd
  split at hc
  · cases hc
  · rename_i hi
    rw [if_neg hi] at hd
    exact ⟨_, y, hc, hd⟩

/-- Scopes in front lose no bound pair. -/
theorem of_cons (h : Bound S R c d) : Bound (sc :: S) (rc :: R) c d := by
  obtain ⟨i, y, hc, hd⟩ := h
  exact ⟨i + 1, y, hc, hd⟩

end Bound

end Primer
