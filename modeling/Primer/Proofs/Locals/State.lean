import Primer.Proofs.Locals.Memory
import Primer.Proofs.Locals.Tree
import Primer.Proofs.Realm.Value

/-!
# Variables have cells of their own

Every variable lives in a cell that no other variable and no element of an array lives in (`RunState.Separate`).
Since all that a running program can get hold of are the variables that it may mention and the elements of arrays,
some variables can be set apart: those of the functions that are suspended, say. A `Reserve` says which cells are set
apart, and which names may therefore be mentioned where. A state guards a reserve if nothing that can be reached from
its active scope, its global scope or its arrays leads to a cell of it (`RunState.Guards`).

There are three ways to change a state with memory and scopes: to write a cell that is not set apart, to make new
cells and bind names to them (`RunState.Moves`), and to take a scope away. All three leave a reserve guarded.
-/

set_option autoImplicit false

namespace Primer

variable {σ : Type}

/-! ## Bindings -/

/-- The scopes of a state, the global one first and that of the innermost function last. -/
def RunState.levels (s : RunState σ) : List Scope := s.globals :: (s.frames.map Frame.scope).reverse

/-- What a name is bound to in the scope at a level. The global scope is at level zero. -/
def RunState.binding (s : RunState σ) (ℓ : Nat) (x : String) : Option Value :=
  s.levels[ℓ]?.bind fun scope => scope.find? x

namespace RunState

variable (s : RunState σ)

/-- There is a level for each frame and the global one. -/
theorem length_levels : s.levels.length = s.frames.length + 1 := by
  simp only [levels, List.length_cons, List.length_reverse, List.length_map]

/-- The last level is the active scope. -/
theorem levels_active : s.levels[s.frames.length]? = some s.scope := by
  unfold levels RunState.scope
  cases s.frames with
  | nil => rfl
  | cons frame frames =>
    rw [List.length_cons, List.getElem?_cons_succ, List.map_cons, List.reverse_cons]
    have hlength : frames.length = (frames.map Frame.scope).reverse.length := by
      rw [List.length_reverse, List.length_map]
    rw [hlength, List.getElem?_concat_length]

/-- A name is bound at the last level as it is in the active scope. -/
theorem binding_active (x : String) : s.binding s.frames.length x = s.scope.find? x := by
  rw [binding, levels_active]
  rfl

/-- A name is bound at a level that is there. -/
theorem level_le_of_binding {ℓ : Nat} {x : String} {v : Value} (h : s.binding ℓ x = some v) : ℓ ≤ s.frames.length := by
  have hscope : ∃ scope, s.levels[ℓ]? = some scope := by
    cases hℓ : s.levels[ℓ]? with
    | none =>
      rw [binding, hℓ] at h
      cases h
    | some scope => exact ⟨scope, rfl⟩
  obtain ⟨scope, hscope⟩ := hscope
  have hlt := (List.getElem?_eq_some_iff.mp hscope).1
  rw [length_levels] at hlt
  omega

/-- A name is found in the active scope or in the global one. -/
theorem binding_of_find {x : String} {v : Value} (h : s.find? x = some v) :
    s.binding s.frames.length x = some v ∨ s.binding 0 x = some v := by
  rw [binding_active]
  unfold RunState.find? Scope.findIn? at h
  simp only [List.findSome?] at h
  cases hactive : s.scope.find? x with
  | some w =>
    rw [hactive] at h
    exact .inl h
  | none =>
    rw [hactive] at h
    cases hglobal : s.globals.find? x with
    | some w =>
      rw [hglobal] at h
      exact .inr (hglobal.trans h)
    | none =>
      rw [hglobal] at h
      cases h

/-- A state with a frame more. -/
theorem binding_cons (frame : Frame) (memory : Memory) (ℓ : Nat) (x : String) :
    ({ s with memory := memory, frames := frame :: s.frames } : RunState σ).binding ℓ x =
      if ℓ = s.frames.length + 1 then frame.scope.find? x else s.binding ℓ x := by
  have hlevels : ({ s with memory := memory, frames := frame :: s.frames } : RunState σ).levels =
      s.levels ++ [frame.scope] := by
    simp only [levels, List.map_cons, List.reverse_cons, List.cons_append]
  have hlength := s.length_levels
  unfold binding
  rw [hlevels]
  by_cases hℓ : ℓ = s.frames.length + 1
  · rw [if_pos hℓ, hℓ, ← hlength, List.getElem?_concat_length]
    rfl
  · rw [if_neg hℓ]
    by_cases hlt : ℓ < s.levels.length
    · rw [List.getElem?_append_left hlt]
    · rw [List.getElem?_eq_none (Nat.le_of_not_lt hlt), List.getElem?_eq_none]
      rw [List.length_append, List.length_singleton]
      omega

/-- A state with another active scope. -/
theorem binding_withScope (memory : Memory) (scope : Scope) (ℓ : Nat) (x : String) :
    (({ s with memory := memory } : RunState σ).withScope scope).binding ℓ x =
      if ℓ = s.frames.length then scope.find? x else s.binding ℓ x := by
  rcases s with ⟨m, host, globals, _ | ⟨frame, frames⟩, calls, commands, steps, ticks, asked⟩
  · cases ℓ with
    | zero => rfl
    | succ ℓ => rfl
  · let below : RunState σ := ⟨m, host, globals, frames, calls, commands, steps, ticks, asked⟩
    have hnew := below.binding_cons { frame with scope := scope } memory ℓ x
    have hold := below.binding_cons frame m ℓ x
    show RunState.binding ⟨memory, host, globals, { frame with scope := scope } :: frames, calls, commands, steps,
      ticks, asked⟩ ℓ x = if ℓ = frames.length + 1 then scope.find? x else
        RunState.binding ⟨m, host, globals, frame :: frames, calls, commands, steps, ticks, asked⟩ ℓ x
    refine hnew.trans ?_
    by_cases hℓ : ℓ = frames.length + 1
    · rw [if_pos hℓ, if_pos hℓ]
    · rw [if_neg hℓ, if_neg hℓ]
      exact (hold.trans (if_neg hℓ)).symm

/-- A state without the innermost frame. -/
theorem binding_leaveFunction {ℓ : Nat} {x : String} {v : Value} (h : (leaveFunction s).binding ℓ x = some v) :
    s.binding ℓ x = some v := by
  have hℓ := (leaveFunction s).level_le_of_binding h
  rcases s with ⟨m, host, globals, _ | ⟨frame, frames⟩, calls, commands, steps, ticks, asked⟩
  · exact h
  · let below : RunState σ := ⟨m, host, globals, frames, calls, commands, steps, ticks, asked⟩
    have hless : ℓ ≠ frames.length + 1 := Nat.ne_of_lt (Nat.lt_succ_of_le hℓ)
    exact (below.binding_cons frame m ℓ x).trans ((if_neg hless).trans h)

end RunState

/-! ## Variables apart -/

/-- All names are bound to cells, no two of them to the same, and to none that is in an array. -/
structure RunState.Separate (s : RunState σ) : Prop where
  bound : ∀ ℓ x v, s.binding ℓ x = some v → ∃ r, v = .cell r ∧ r < s.memory.cells.size
  owner : ∀ ℓ ℓ' x y r, s.binding ℓ x = some (.cell r) → s.binding ℓ' y = some (.cell r) → ℓ = ℓ' ∧ x = y
  unlinked : ∀ ℓ x r, s.binding ℓ x = some (.cell r) → ¬ s.memory.Linked r
  linked : ∀ r, s.memory.Linked r → r < s.memory.cells.size

/-- A state that came out of another one by making cells, of which some got names and the others may be in arrays. -/
structure RunState.Moves (Q : Value → Prop) (s u : RunState σ) : Prop where
  grown : s.memory.Grown Q u.memory
  bound : ∀ ℓ x v, u.binding ℓ x = some v → s.binding ℓ x = some v ∨
    ∃ r, v = .cell r ∧ s.memory.cells.size ≤ r ∧ r < u.memory.cells.size ∧ ¬ u.memory.Linked r
  owner : ∀ ℓ ℓ' x y r, s.memory.cells.size ≤ r → u.binding ℓ x = some (.cell r) → u.binding ℓ' y = some (.cell r) →
    ℓ = ℓ' ∧ x = y

/-- The variables stay apart. -/
theorem RunState.Separate.moves {Q : Value → Prop} {s u : RunState σ} (h : s.Separate) (hu : s.Moves Q u) :
    u.Separate := by
  have hsize := hu.grown.size
  have hold {ℓ : Nat} {x : String} {r : CellRef} (hr : r < s.memory.cells.size) (hx : u.binding ℓ x = some (.cell r)) :
      s.binding ℓ x = some (.cell r) := by
    rcases hu.bound ℓ x _ hx with hx | ⟨r', heq, hnew, -⟩
    · exact hx
    · cases heq
      exact absurd hr (Nat.not_lt_of_le hnew)
  refine ⟨?_, ?_, ?_, ?_⟩
  · intro ℓ x v hx
    rcases hu.bound ℓ x v hx with hx | ⟨r, rfl, -, hr, -⟩
    · obtain ⟨r, rfl, hr⟩ := h.bound ℓ x v hx
      exact ⟨r, rfl, Nat.lt_of_lt_of_le hr hsize⟩
    · exact ⟨r, rfl, hr⟩
  · intro ℓ ℓ' x y r hx hy
    by_cases hr : r < s.memory.cells.size
    · exact h.owner ℓ ℓ' x y r (hold hr hx) (hold hr hy)
    · exact hu.owner ℓ ℓ' x y r (Nat.le_of_not_lt hr) hx hy
  · intro ℓ x r hx hlinked
    rcases hu.bound ℓ x _ hx with hx | ⟨r', heq, -, -, hfree⟩
    · obtain ⟨r', heq, hr⟩ := h.bound ℓ x _ hx
      cases heq
      rcases hu.grown.linked r hlinked with hlinked | ⟨hnew, -⟩
      · exact h.unlinked ℓ x r hx hlinked
      · exact absurd hr (Nat.not_lt_of_le hnew)
    · cases heq
      exact hfree hlinked
  · intro r hlinked
    rcases hu.grown.linked r hlinked with hlinked | ⟨-, hr⟩
    · exact Nat.lt_of_lt_of_le (h.linked r hlinked) hsize
    · exact hr

namespace RunState.Moves

variable {Q : Value → Prop} {s : RunState σ}

/-- Only memory changes. -/
theorem onMemory (h : s.Separate) {memory : Memory} (hmemory : s.memory.Grown Q memory) :
    s.Moves Q { s with memory := memory } := by
  refine ⟨hmemory, fun ℓ x v hx => .inl hx, ?_⟩
  intro ℓ ℓ' x y r hr hx _
  obtain ⟨r', heq, hlt⟩ := h.bound ℓ x _ hx
  cases heq
  exact absurd hlt (Nat.not_lt_of_le hr)

/-- A name is bound to a new cell. -/
theorem declare (h : s.Separate) (x : String) {v : Value} (hv : Q v) :
    s.Moves Q (({ s with memory := (s.memory.alloc v).2 } : RunState σ).withScope
      (s.scope.bind x (.cell s.memory.cells.size))) := by
  have hmemory : (({ s with memory := (s.memory.alloc v).2 } : RunState σ).withScope
      (s.scope.bind x (.cell s.memory.cells.size))).memory = (s.memory.alloc v).2 := by
    unfold RunState.withScope
    cases s.frames <;> rfl
  have hbinding (ℓ : Nat) (y : String) : (({ s with memory := (s.memory.alloc v).2 } : RunState σ).withScope
      (s.scope.bind x (.cell s.memory.cells.size))).binding ℓ y =
        if ℓ = s.frames.length ∧ y = x then some (.cell s.memory.cells.size) else s.binding ℓ y := by
    rw [binding_withScope, Scope.find?_bind]
    by_cases hℓ : ℓ = s.frames.length
    · subst hℓ
      rw [if_pos rfl, binding_active]
      simp only [true_and]
    · rw [if_neg hℓ, if_neg fun hand => hℓ hand.1]
  have hnew {ℓ : Nat} {y : String} {r : CellRef} (hr : s.memory.cells.size ≤ r)
      (hy : (if ℓ = s.frames.length ∧ y = x then some (.cell s.memory.cells.size) else s.binding ℓ y) =
        some (.cell r)) : ℓ = s.frames.length ∧ y = x := by
    split at hy
    case isTrue hand => exact hand
    case isFalse =>
      obtain ⟨r', heq, hlt⟩ := h.bound ℓ y _ hy
      cases heq
      exact absurd hlt (Nat.not_lt_of_le hr)
  refine ⟨?_, ?_, ?_⟩
  · rw [hmemory]
    exact s.memory.grown_alloc hv
  · intro ℓ y w hy
    rw [hbinding] at hy
    split at hy
    case isTrue =>
      cases hy
      rw [hmemory, Memory.size_alloc]
      refine .inr ⟨s.memory.cells.size, rfl, Nat.le_refl _, Nat.lt_succ_self _, ?_⟩
      intro hlinked
      exact Nat.lt_irrefl _ (h.linked _ hlinked)
    case isFalse => exact .inl hy
  · intro ℓ ℓ' y z r hr hy hz
    rw [hbinding] at hy hz
    obtain ⟨hℓ, hyx⟩ := hnew hr hy
    obtain ⟨hℓ', hzx⟩ := hnew hr hz
    exact ⟨hℓ.trans hℓ'.symm, hyx.trans hzx.symm⟩

/-- What a scope binds whose names were bound to cells one after the other. -/
theorem find_bindCells {entries : List (String × CellRef)} {scope : Scope} {x : String} {v : Value}
    (h : (entries.foldl (fun scope e => scope.bind e.1 (.cell e.2)) scope).find? x = some v) :
    (∃ r, (x, r) ∈ entries ∧ v = .cell r) ∨ scope.find? x = some v := by
  induction entries generalizing scope with
  | nil => exact .inr h
  | cons e rest ih =>
    rcases ih h with ⟨r, hr, rfl⟩ | hbound
    · exact .inl ⟨r, List.mem_cons_of_mem e hr, rfl⟩
    · rw [Scope.find?_bind] at hbound
      split at hbound
      case isTrue hx =>
        cases hbound
        refine .inl ⟨e.2, ?_, rfl⟩
        rw [hx]
        exact List.mem_cons_self
      case isFalse => exact .inr hbound

/-- The frame of a function has new cells for its parameters. -/
theorem pushFrame (h : s.Separate) (f : UserFunction) {bound : List (String × Value)} (hbound : ∀ e ∈ bound, Q e.2)
    (label : String) : s.Moves Q (Primer.pushFrame f bound label s) := by
  have hmemory : (Primer.pushFrame f bound label s).memory = (s.memory.allocAll (bound.map Prod.snd)).2 := rfl
  have hentry {ℓ : Nat} {x : String} {v : Value} (hx : (Primer.pushFrame f bound label s).binding ℓ x = some v) :
      s.binding ℓ x = some v ∨ (ℓ = s.frames.length + 1 ∧
        ∃ r, (x, r) ∈ (bound.map Prod.fst).zip (s.memory.allocAll (bound.map Prod.snd)).1 ∧ v = .cell r) := by
    let refs := (s.memory.allocAll (bound.map Prod.snd)).1
    let scope := ((bound.map Prod.fst).zip refs).foldl (fun sc e => sc.bind e.1 (.cell e.2)) Scope.empty
    have hcons := s.binding_cons ⟨scope, label, s.calls.headD f.info.token⟩ (s.memory.allocAll (bound.map Prod.snd)).2 ℓ x
    have hfound := hcons.symm.trans hx
    split at hfound
    case isTrue hℓ =>
      rcases find_bindCells hfound with hentry | hempty
      · exact .inr ⟨hℓ, hentry⟩
      · cases hempty
    case isFalse => exact .inl hfound
  have hnew {ℓ : Nat} {x : String} {r : CellRef} (hr : s.memory.cells.size ≤ r)
      (hx : (Primer.pushFrame f bound label s).binding ℓ x = some (.cell r)) :
      ℓ = s.frames.length + 1 ∧ (x, r) ∈ (bound.map Prod.fst).zip (s.memory.allocAll (bound.map Prod.snd)).1 := by
    rcases hentry hx with hx | ⟨hℓ, r', hmem, heq⟩
    · obtain ⟨r', heq, hlt⟩ := h.bound ℓ x _ hx
      cases heq
      exact absurd hlt (Nat.not_lt_of_le hr)
    · cases heq
      exact ⟨hℓ, hmem⟩
  refine ⟨?_, ?_, ?_⟩
  · rw [hmemory]
    apply s.memory.grown_allocAll
    intro v hv
    obtain ⟨e, he, rfl⟩ := List.mem_map.mp hv
    exact hbound e he
  · intro ℓ x v hx
    rcases hentry hx with hx | ⟨-, r, hmem, rfl⟩
    · exact .inl hx
    · obtain ⟨hlower, hupper⟩ := Memory.mem_allocAll (List.of_mem_zip hmem).2
      refine .inr ⟨r, rfl, hlower, hupper, ?_⟩
      intro hlinked
      exact absurd (h.linked r hlinked) (Nat.not_lt_of_le hlower)
  · intro ℓ ℓ' x y r hr hx hy
    obtain ⟨hℓ, hmem⟩ := hnew hr hx
    obtain ⟨hℓ', hmem'⟩ := hnew hr hy
    refine ⟨hℓ.trans hℓ'.symm, ?_⟩
    obtain ⟨i, hi, hxi⟩ := List.mem_iff_getElem.mp hmem
    obtain ⟨j, hj, hyj⟩ := List.mem_iff_getElem.mp hmem'
    rw [List.getElem_zip, Prod.mk.injEq, Memory.getElem_allocAll] at hxi hyj
    have hij : i = j := Nat.add_left_cancel (hxi.2.trans hyj.2.symm)
    subst hij
    exact hxi.1.symm.trans hyj.1

/-- The innermost function ends. -/
theorem leaveFunction (h : s.Separate) : s.Moves Q (Primer.leaveFunction s) := by
  refine ⟨.refl _, fun ℓ x v hx => .inl (s.binding_leaveFunction hx), ?_⟩
  intro ℓ ℓ' x y r _ hx hy
  exact h.owner ℓ ℓ' x y r (s.binding_leaveFunction hx) (s.binding_leaveFunction hy)

end RunState.Moves

end Primer
