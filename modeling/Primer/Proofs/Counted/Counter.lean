import Primer.Proofs.Counted.Finish
import Primer.Proofs.Counted.Tree

/-!
# What counters do

A counter is a variable of the active scope that holds a small number. The statement that starts it, the test that
compares it with a bound and the step that moves it are followed through the evaluator here, with and without checks:
whenever they are done, the counter holds the number that it should.
-/

set_option autoImplicit false

namespace Primer

open Run

variable {σ α β : Type} {cfg : Setting σ} {s t u : RunState σ}

/-! ## Records -/

/-- A state with the same memory and the same scopes. -/
structure RunState.SameStore (s u : RunState σ) : Prop where
  memory : u.memory = s.memory
  frames : u.frames = s.frames
  globals : u.globals = s.globals

namespace RunState.SameStore

/-- A state has its own store. -/
theorem refl (s : RunState σ) : s.SameStore s := ⟨rfl, rfl, rfl⟩

/-- Having the same store passes on. -/
theorem trans (h : s.SameStore t) (h' : t.SameStore u) : s.SameStore u :=
  ⟨h'.memory.trans h.memory, h'.frames.trans h.frames, h'.globals.trans h.globals⟩

/-- States with the same store have the same scope. -/
theorem scope (h : s.SameStore u) : u.scope = s.scope := by
  unfold RunState.scope
  rw [h.frames, h.globals]

end RunState.SameStore

/-- Recording a command leaves the store alone. -/
theorem record_meets (info : Info) (tag : String) : (record cfg info tag s).Meets fun _ u => s.SameStore u := by
  refine meets_ite (fun _ => .refl s) ?_
  intro _
  refine meets_bind (P := fun _ u => s.SameStore u) ⟨rfl, rfl, rfl⟩ ?_
  intro _ u hu
  exact meets_ite (fun _ => hu) fun _ => trivial

/-- Narrating a step leaves the store alone. -/
theorem narrate_meets (category : Category) (node : NodeId) (message : Memory → String) (changes : Unit → List Change) :
    (narrate cfg category node message changes s).Meets fun _ u => s.SameStore u :=
  meets_ite (fun _ => ⟨rfl, rfl, rfl⟩) fun _ => .refl s

/-- Counting a statement leaves the store alone. -/
theorem tick_meets (info : Info) : (tick cfg info s).Meets fun _ u => s.SameStore u := by
  unfold tick
  cases cfg.limits.stopped s.ticks with
  | some reason => exact trivial
  | none =>
    simp only
    split
    · exact trivial
    · split
      · exact ⟨rfl, rfl, rfl⟩
      · split
        · exact ⟨rfl, rfl, rfl⟩
        · exact trivial

/-! ## Small numbers -/

namespace Number

/-- Small counts are finite numbers. -/
theorem isFinite_ofNat : ∀ j ≤ countLimit, isFinite (Float.ofNat j) = true := by decide +kernel

/-- Small counts compare as numbers as they do as counts. -/
theorem ofNat_lt_ofNat : ∀ j ≤ countLimit, ∀ k ≤ countLimit,
    (if isNaN (Float.ofNat j) || isNaN (Float.ofNat k) then false else decide (Float.ofNat j < Float.ofNat k)) =
      decide (j < k) ∧ decide (Float.ofNat j < Float.ofNat k) = decide (j < k) := by decide +kernel

/-- Adding one to a small count and taking it away again is exact. -/
theorem ofNat_succ : ∀ j < countLimit, Float.ofNat j + 1.0 = Float.ofNat (j + 1) ∧
    Float.ofNat (j + 1) + -1.0 = Float.ofNat j := by decide +kernel

end Number

/-- What a comparison of two numbers says. -/
def countHolds (symbol : String) (j k : Nat) : Bool := if symbol = "<" then decide (j < k) else decide (k < j)

/-- The checked comparison of two counts is the comparison of the counts. -/
theorem Memory.checked_counter (m : Memory) {symbol : String} (hsymbol : symbol ∈ ["<", ">"]) {j k : Nat}
    (hj : j ≤ countLimit) (hk : k ≤ countLimit) :
    m.checked symbol (.number (Float.ofNat j)) (.number (Float.ofNat k)) = .ok (.boolean (countHolds symbol j k)) := by
  have hlt := (Number.ofNat_lt_ofNat j hj k hk).2
  have hgt := (Number.ofNat_lt_ofNat k hk j hj).2
  simp only [List.mem_cons, List.not_mem_nil, or_false] at hsymbol
  rcases hsymbol with rfl | rfl
  · simp [checked, numericSymbols, finiteNumber, Number.isFinite_ofNat j hj, Number.isFinite_ofNat k hk, divides, numeric,
      countHolds, hlt, bind, Except.bind]
  · simp [checked, numericSymbols, finiteNumber, Number.isFinite_ofNat j hj, Number.isFinite_ofNat k hk, divides, numeric,
      countHolds, hgt, bind, Except.bind]

/-- The unchecked comparison of two counts is the comparison of the counts. -/
theorem Memory.unchecked_counter (m : Memory) {symbol : String} (hsymbol : symbol ∈ ["<", ">"]) {j k : Nat}
    (hj : j ≤ countLimit) (hk : k ≤ countLimit) :
    m.unchecked symbol (.number (Float.ofNat j)) (.number (Float.ofNat k)) = .boolean (countHolds symbol j k) := by
  simp only [List.mem_cons, List.not_mem_nil, or_false] at hsymbol
  rcases hsymbol with rfl | rfl
  · exact congrArg Value.boolean (Number.ofNat_lt_ofNat j hj k hk).1
  · have hgt := (Number.ofNat_lt_ofNat k hk j hj).1
    rw [Bool.or_comm] at hgt
    exact congrArg Value.boolean hgt

/-! ## Counters -/

/-- A variable of the active scope has a cell. -/
def RunState.HasCell (s : RunState σ) (x : String) (r : CellRef) : Prop :=
  s.scope.find? x = some (.cell r) ∧ r < s.memory.cells.size

/-- All variables of the active scope have cells. -/
def RunState.HasCells (s : RunState σ) : Prop :=
  ∀ x v, s.scope.find? x = some v → ∃ r, v = .cell r ∧ r < s.memory.cells.size

/-- In a separate state the bound names have cells. -/
theorem RunState.Separate.hasCells (h : s.Separate) : s.HasCells := fun x v hx =>
  h.bound _ x v ((s.binding_active x).trans hx)

/-- Whether the bound names have cells depends on the store only. -/
theorem RunState.HasCells.congr (h : s.HasCells) (hu : s.SameStore u) : u.HasCells := by
  unfold RunState.HasCells
  rw [hu.scope, hu.memory]
  exact h

/-- Whether a name has a cell depends on the store only. -/
theorem RunState.HasCell.congr {x : String} {r : CellRef} (h : s.HasCell x r) (hu : s.SameStore u) : u.HasCell x r := by
  unfold RunState.HasCell
  rw [hu.scope, hu.memory]
  exact h

/-- A variable of the active scope holds a number. -/
def RunState.Counts (s : RunState σ) (x : String) (k : Nat) : Prop :=
  ∃ r, s.scope.find? x = some (.cell r) ∧ s.memory.cells[r]? = some (.number (Float.ofNat k))

/-- What a counter counts depends on the store only. -/
theorem RunState.Counts.congr {x : String} {k : Nat} (h : s.Counts x k) (hu : s.SameStore u) : u.Counts x k := by
  unfold RunState.Counts
  rw [hu.scope, hu.memory]
  exact h

/-- What the active scope binds is found. -/
theorem RunState.find?_of_scope {x : String} {v : Value} (h : s.scope.find? x = some v) : s.find? x = some v := by
  unfold RunState.find? Scope.findIn?
  rw [List.findSome?_cons, h]

/-- A place or a value that stands for a number. -/
def RunState.StandsFor (s : RunState σ) (v : Value) (x : Float) : Prop :=
  v = .number x ∨ ∃ r, v = .cell r ∧ s.memory.cells[r]? = some (.number x)

/-- Taking what stands for a number gives the number. -/
theorem take_meets (e : Expr) {v : Value} {x : Float} (hv : s.StandsFor v x) :
    (take cfg e v s).Meets fun w u => w = .number x ∧ u = s := by
  have hread {r : CellRef} (hr : s.memory.cells[r]? = some (.number x)) : s.memory.read r = .number x := by
    rw [Memory.read, hr]
    rfl
  refine meets_ite ?_ ?_
  · intro _
    rcases hv with rfl | ⟨r, rfl, hr⟩
    · exact ⟨rfl, rfl⟩
    · exact ⟨congrArg present (hread hr), rfl⟩
  · intro _
    have hopened : opened s.memory v = .number x := by
      rcases hv with rfl | ⟨r, rfl, hr⟩
      · rfl
      · exact hread hr
    rw [hopened]
    exact meets_ite (fun _ => ⟨rfl, rfl⟩) fun _ => trivial

/-- What stands for a number depends on the store only. -/
theorem RunState.StandsFor.congr {v : Value} {x : Float} (h : s.StandsFor v x) (hu : s.SameStore u) :
    u.StandsFor v x := by
  unfold RunState.StandsFor
  rw [hu.memory]
  exact h

/-- The name of a counter stands for its number. -/
theorem eval_name_meets (n depth : Nat) (i : Info) {x : String} {r : CellRef} (h : s.scope.find? x = some (.cell r)) :
    (eval cfg n depth (.name i x) s).Meets fun v u => v = .cell r ∧ u = s := by
  cases n with
  | zero => exact trivial
  | succ n =>
    rw [eval]
    refine meets_ite (fun _ => trivial) ?_
    intro _
    simp only [nameAction, RunState.find?_of_scope h]
    exact ⟨rfl, rfl⟩

/-- A number is evaluated to itself. -/
theorem eval_number_meets (n depth : Nat) (i : Info) (x : Float) (literal : String) :
    (eval cfg n depth (.number i x literal) s).Meets fun v u => v = .number x ∧ u = s := by
  cases n with
  | zero => exact trivial
  | succ n =>
    rw [eval]
    exact meets_ite (fun _ => trivial) fun _ => ⟨rfl, rfl⟩

/-! ### The test -/

/-- A note on a failure does not matter where nothing fails. -/
theorem onFailure_meets {x : Run σ α} {note : Run σ Unit} {Q : α → RunState σ → Prop} (h : (x s).Meets Q) :
    (onFailure x note s).Meets Q := by
  unfold onFailure
  generalize x s = o at h
  cases o with
  | done a u => exact h
  | failed e u =>
    simp only
    cases note u <;> exact trivial
  | exhausted => exact trivial

/-- Taking operands that stand for numbers gives the numbers. -/
theorem takeOperands_meets (i : Info) (symbol : String) (left right : Expr) {a b : Value} {x y : Float}
    (ha : s.StandsFor a x) (hb : s.StandsFor b y) :
    (takeOperands cfg i symbol left right a b s).Meets fun w u => w = (.number x, .number y) ∧ u = s := by
  apply meets_bind (onFailure_meets (take_meets left ha))
  intro v u hu
  obtain ⟨rfl, rfl⟩ := hu
  apply meets_bind (onFailure_meets (take_meets right hb))
  intro w u hu
  obtain ⟨rfl, rfl⟩ := hu
  exact ⟨rfl, rfl⟩

/-- Comparing two counts gives the comparison. -/
theorem binaryValue_counter (i : Info) {symbol : String} (hsymbol : symbol ∈ ["<", ">"]) {j k : Nat}
    (hj : j ≤ countLimit) (hk : k ≤ countLimit) :
    (binaryValue cfg i symbol (.number (Float.ofNat j)) (.number (Float.ofNat k)) s).Meets fun v u =>
      v = .boolean (countHolds symbol j k) ∧ s.SameStore u := by
  refine meets_ite ?_ ?_
  · intro _
    exact ⟨s.memory.unchecked_counter hsymbol hj hk, .refl s⟩
  · intro _
    refine meets_bind (P := fun result u => result = .ok (.boolean (countHolds symbol j k)) ∧ u = s)
      ⟨s.memory.checked_counter hsymbol hj hk, rfl⟩ ?_
    intro result u hu
    obtain ⟨rfl, rfl⟩ := hu
    exact ⟨rfl, .refl u⟩

/-- The comparison of a counter says what it should. -/
theorem eval_comparison_meets (n depth : Nat) {test : Expr} {x symbol : String} {j k : Nat}
    (htest : test.ComparesCounter x symbol k) (hsymbol : symbol ∈ ["<", ">"]) (hj : j ≤ countLimit)
    (hk : k ≤ countLimit) (hs : s.Counts x j) :
    (eval cfg n depth test s).Meets fun v u => v = .boolean (countHolds symbol j k) ∧ s.SameStore u := by
  unfold Expr.ComparesCounter at htest
  split at htest
  case h_2 => exact htest.elim
  case h_1 i i₁ y symbol' i₂ value literal =>
    obtain ⟨rfl, rfl, rfl⟩ := htest
    obtain ⟨r, hr, hcell⟩ := hs
    cases n with
    | zero => exact trivial
    | succ n =>
      have hlogical : (symbol' = "&&" || symbol' = "||") = false := by
        simp only [List.mem_cons, List.not_mem_nil, or_false] at hsymbol
        rcases hsymbol with rfl | rfl <;> rfl
      rw [eval]
      refine meets_ite (fun _ => trivial) ?_
      intro _
      simp only [hlogical, Bool.and_false, Bool.false_eq_true, if_false, binaryAction_eq, applyBinary_eq]
      apply meets_bind (eval_name_meets n (depth + 1) i₁ hr)
      intro a u hu
      obtain ⟨rfl, rfl⟩ := hu
      apply meets_bind (eval_number_meets n (depth + 1) i₂ _ literal)
      intro b u hu
      obtain ⟨rfl, rfl⟩ := hu
      apply meets_bind (takeOperands_meets i symbol' _ _ (.inr ⟨r, rfl, hcell⟩) (.inl rfl))
      intro w u hu
      obtain ⟨rfl, rfl⟩ := hu
      refine meets_bind (P := fun v u' => v = .boolean (countHolds symbol' j k) ∧ u.SameStore u') ?_ ?_
      · apply meets_bind (record_meets i _)
        intro _ t ht
        have hvalue : (binaryValue cfg i symbol' _ _ t).Meets _ := binaryValue_counter i hsymbol hj hk
        generalize binaryValue cfg i symbol' _ _ t = o at hvalue
        cases o with
        | done v t' => exact ⟨hvalue.1, ht.trans hvalue.2⟩
        | failed | exhausted => exact trivial
      · intro v t hv
        apply meets_bind (narrate_meets ..)
        intro _ t' ht'
        exact ⟨hv.1, hv.2.trans ht'⟩

/-- A test of a truth value holds as the value does. -/
theorem testAction_meets (i : Info) (tag : String) (e : Expr) (b : Bool) :
    (testAction cfg i tag e (.boolean b) s).Meets fun holds u => holds = b ∧ s.SameStore u := by
  rw [testAction_eq]
  apply meets_bind (record_meets i tag)
  intro _ u hu
  have htake : (take cfg e (.boolean b) u).Meets fun v t => v = .boolean b ∧ t = u :=
    meets_ite (fun _ => ⟨rfl, rfl⟩) fun _ => ⟨rfl, rfl⟩
  apply meets_bind htake
  intro v t ht
  obtain ⟨rfl, rfl⟩ := ht
  exact meets_ite (fun _ => ⟨rfl, hu⟩) fun _ => ⟨rfl, hu⟩

/-! ### The step -/

/-- A number is written to a cell that is there. -/
theorem assignPlace_meets (i : Info) (target : Expr) {x : String} {r : CellRef} (h : s.HasCell x r) (k : Nat) :
    (assignPlace i target (.cell r) (.number (Float.ofNat k)) s).Meets fun _ u => u.Counts x k := by
  refine ⟨r, h.1, ?_⟩
  show (s.memory.cells.setIfInBounds r _)[r]? = _
  rw [Array.getElem?_setIfInBounds_self_of_lt h.2]

/-- Writing a count into the cell of a counter lets it count so. -/
theorem store_meets (n depth : Nat) (i : Info) (target : Expr) {x : String} {r : CellRef} (h : s.HasCell x r) (k : Nat) :
    (store cfg n depth i target (.cell r) (.number (Float.ofNat k)) s).Meets fun _ u => u.Counts x k := by
  cases n with
  | zero => exact trivial
  | succ n => exact assignPlace_meets i target h k

/-- Narrating an assignment does not touch the counter. -/
theorem narrateAssigned_meets (i : Info) (target : Expr) (v : Value) {x : String} {k : Nat} (h : s.Counts x k) :
    (narrateAssigned cfg i target v s).Meets fun _ u => u.Counts x k := by
  have hnarrate : (narrateAssigned cfg i target v s).Meets fun _ u => s.SameStore u := by
    rw [narrateAssigned_eq]
    exact narrate_meets ..
  generalize narrateAssigned cfg i target v s = o at hnarrate
  cases o with
  | done a u => exact h.congr hnarrate
  | failed | exhausted => exact trivial

/-- What a step makes of a counter. -/
def countMoved (symbol : String) (j k : Nat) : Prop :=
  (symbol = "++" ∧ k = j + 1 ∧ j < countLimit) ∨ (symbol = "--" ∧ j = k + 1 ∧ k < countLimit)

/-- An increment or decrement gives the next count. -/
theorem bumpAction_meets (i : Info) (target : Expr) {symbol : String} {j k : Nat} (hmoved : countMoved symbol j k)
    {place : Value} (hplace : s.StandsFor place (Float.ofNat j)) :
    (bumpAction cfg i target symbol place s).Meets fun v u => v = .number (Float.ofNat k) ∧ s.SameStore u := by
  have hdelta : Float.ofNat j + (if symbol = "--" then -1.0 else 1.0) = Float.ofNat k := by
    rcases hmoved with ⟨rfl, rfl, hj⟩ | ⟨rfl, rfl, hk⟩
    · exact (Number.ofNat_succ j hj).1
    · exact (Number.ofNat_succ k hk).2
  rw [bumpAction_eq]
  apply meets_bind (record_meets i _)
  intro _ u hu
  apply meets_bind (take_meets target (hplace.congr hu))
  intro w t ht
  obtain ⟨rfl, rfl⟩ := ht
  refine meets_ite ?_ ?_
  · intro _
    refine ⟨?_, hu⟩
    exact congrArg Value.number hdelta
  · intro _
    refine ⟨?_, hu⟩
    exact congrArg Value.number hdelta

/-- The step of a counter moves it. -/
theorem exec_step_meets (n depth : Nat) {stmt : Stmt} {x symbol : String} (hstmt : stmt.MovesCounter x symbol)
    {j k : Nat} (hmoved : countMoved symbol j k) (hs : s.Counts x j) :
    (exec cfg n depth stmt s).Meets fun _ u => u.Counts x k := by
  unfold Stmt.MovesCounter at hstmt
  split at hstmt
  case h_2 => exact hstmt.elim
  case h_1 i i₁ y symbol' =>
    obtain ⟨rfl, rfl⟩ := hstmt
    cases n with
    | zero => exact trivial
    | succ n =>
      rw [exec]
      apply meets_bind (tick_meets _)
      intro _ u hu
      obtain ⟨r, hr, hcell⟩ := hs.congr hu
      have hplace : u.HasCell y r := ⟨hr, (Array.getElem?_eq_some_iff.mp hcell).1⟩
      apply meets_bind (eval_name_meets n depth i₁ hr)
      intro p t hp
      obtain ⟨rfl, rfl⟩ := hp
      apply meets_bind (bumpAction_meets i _ hmoved (.inr ⟨r, rfl, hcell⟩))
      intro v t' hv
      obtain ⟨rfl, ht'⟩ := hv
      apply meets_bind (store_meets n depth i _ (hplace.congr ht') k)
      intro _ w hw
      apply meets_bind (narrateAssigned_meets i _ _ hw)
      intro _ w' hw'
      exact hw'

/-! ### The start -/

/-- A state with another active scope has it. -/
theorem RunState.scope_withScope (s : RunState σ) (scope : Scope) : (s.withScope scope).scope = scope := by
  unfold RunState.withScope RunState.scope
  cases s.frames <;> rfl

/-- A state with another active scope has the same memory. -/
theorem RunState.memory_withScope (s : RunState σ) (scope : Scope) : (s.withScope scope).memory = s.memory := by
  unfold RunState.withScope
  cases s.frames <;> rfl

/-- A declared variable has a cell: a new one, or without checks perhaps the one that it had. -/
theorem declaredAction_meets (hs : s.HasCells) (d : Declared) :
    (declaredAction cfg d s).Meets fun _ u => ∃ r, u.HasCell d.name r := by
  apply meets_bind (record_meets d.info "var")
  intro _ u hu
  have hnew : ((declareName d.name .undefined : Run σ Unit) u).Meets fun _ t => ∃ r, t.HasCell d.name r := by
    refine ⟨u.memory.cells.size, ?_, ?_⟩
    · rw [RunState.scope_withScope, Scope.declare, Memory.place]
      simp only [Value.isPlace, Bool.false_eq_true, if_false]
      rw [Scope.find?_bind, if_pos rfl]
      rfl
    · rw [RunState.memory_withScope]
      show u.memory.cells.size < (u.memory.alloc .undefined).2.cells.size
      rw [Memory.size_alloc]
      exact Nat.lt_succ_self _
  have hnarrated {t : RunState σ} (ht : ∃ r, t.HasCell d.name r) {o : Outcome σ Unit}
      (ho : o.Meets fun _ w => t.SameStore w) : o.Meets fun _ w => ∃ r, w.HasCell d.name r := by
    cases o with
    | done a w =>
      obtain ⟨r, hr⟩ := ht
      exact ⟨r, hr.congr ho⟩
    | failed | exhausted => exact trivial
  have hdeclare : ((do
      declareName d.name .undefined
      if d.first.isNone then
        narrate cfg .inline d.info.id (fun _ => "<var>" ++ d.name ++ "</var> = <var>undefined</var>")
          (fun _ => [⟨d.info.id, d.name⟩])
      else pure () : Run σ Unit) u).Meets fun _ t => ∃ r, t.HasCell d.name r := by
    refine meets_bind hnew fun _ t ht => meets_ite (fun _ => hnarrated ht (narrate_meets ..)) fun _ => ht
  by_cases hraw : cfg.isRaw = true
  · simp only [hraw, Bool.true_and]
    refine meets_bind (P := fun found t => found = (u.scope.find? d.name).isSome ∧ t = u) ⟨rfl, rfl⟩ ?_
    intro found t ht
    obtain ⟨rfl, rfl⟩ := ht
    refine meets_ite ?_ fun _ => hdeclare
    intro hfound
    obtain ⟨v, hv⟩ := Option.isSome_iff_exists.mp hfound
    obtain ⟨r, rfl, hr⟩ := hs.congr hu _ v hv
    exact ⟨r, hv, hr⟩
  · rw [Bool.not_eq_true] at hraw
    simp only [hraw, Bool.false_and, Bool.false_eq_true, if_false]
    exact meets_bind (P := fun _ t => t = u) rfl fun found t ht => by
      subst ht
      exact hdeclare

/-- Assigning a count to a counter lets it count so. -/
theorem execAssign_meets (n depth : Nat) (i i₁ i₂ : Info) {x : String} {r : CellRef} (h : s.HasCell x r) (k : Nat)
    (literal : String) : (execAssign cfg n depth ⟨i, .name i₁ x, "=", .number i₂ (Float.ofNat k) literal⟩ s).Meets
      fun _ u => u.Counts x k := by
  cases n with
  | zero => exact trivial
  | succ n =>
    rw [execAssign]
    apply meets_bind (eval_name_meets n depth i₁ h.1)
    intro p u hu
    obtain ⟨rfl, rfl⟩ := hu
    apply meets_bind (eval_number_meets n depth i₂ _ literal)
    intro v u hu
    obtain ⟨rfl, rfl⟩ := hu
    refine meets_bind (P := fun v t => v = .number (Float.ofNat k) ∧ u.SameStore t) ?_ ?_
    · refine meets_ite ?_ fun hne => absurd rfl hne
      intro _
      apply meets_bind (record_meets i _)
      intro _ t ht
      have htaken : (take cfg (.number i₂ (Float.ofNat k) literal) (.number (Float.ofNat k)) t).Meets _ :=
        take_meets _ (.inl rfl)
      generalize take cfg _ _ t = o at htaken
      cases o with
      | done w t' =>
        obtain ⟨rfl, rfl⟩ := htaken
        exact ⟨rfl, ht⟩
      | failed | exhausted => exact trivial
    · intro v t ht
      obtain ⟨rfl, ht⟩ := ht
      apply meets_bind (store_meets n depth i _ (h.congr ht) k)
      intro _ w hw
      exact narrateAssigned_meets i _ _ hw

/-- The statement that starts a counter gives it its first number. -/
theorem exec_start_meets (hs : s.HasCells) (n depth : Nat) {stmt : Stmt} {x : String} {k : Nat}
    (hstmt : stmt.StartsCounter x k) : (exec cfg n depth stmt s).Meets fun _ u => u.Counts x k := by
  unfold Stmt.StartsCounter at hstmt
  split at hstmt
  case h_2 => exact hstmt.elim
  case h_1 i i₁ y i₂ i₃ y' symbol i₄ value literal =>
    obtain ⟨rfl, rfl, rfl, rfl⟩ := hstmt
    rcases n with _ | _ | n
    · exact trivial
    · rw [exec]
      exact meets_bind (tick_meets _) fun _ u _ => trivial
    · rw [exec]
      apply meets_bind (tick_meets _)
      intro _ u hu
      refine meets_bind (P := fun _ u => u.Counts y' k) ?_ fun _ w hw => hw
      rw [execDeclared]
      apply meets_bind (declaredAction_meets (hs.congr hu) _)
      intro _ t ht
      obtain ⟨r, hr⟩ := ht
      apply meets_bind (execAssign_meets n depth i₂ i₃ i₄ hr k literal)
      intro _ w hw
      cases n with
      | zero => exact trivial
      | succ n => exact hw

end Primer
