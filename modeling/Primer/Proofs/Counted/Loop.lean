import Primer.Proofs.Counted.Counter
import Primer.Proofs.Counted.Finish

/-!
# Rounds of counted loops

The cell of a counter is set apart from the body of its loop: the body does not mention the counter, and neither do the
functions that it calls if the counter is a global one. So the counter is where it was when the body is done
(`Task.meets_counts`), and the loop comes to an end because its counter does.
-/

set_option autoImplicit false

namespace Primer

open Run

variable {σ α : Type} {cfg : Setting σ} {s u : RunState σ} {ℓ c : Nat}

/-! ## What runs beside a counter -/

/-- Nothing is set apart, and all loops count. Functions mention names of a kind only, and declare no functions. -/
def Reserve.counting (checked : Bool) (inner : String → Prop) : Reserve where
  checked := checked
  level := 0
  outer _ := True
  inner := inner
  binding _ := none
  cell _ := none
  body b := Stmt.AllWithin inner (fun _ => False) b ∧ Stmt.AllCounted (fun _ => True) none b
  suspended := []
  closed b h := Stmt.allWithin_join (fun _ h _ => h) (fun _ h _ => h.elim) b h.1 h.1
  beneath := Reserve.beneath_global
  room := Reserve.room_global

/-- The cell of a variable of the active scope is set apart, with what it holds. -/
def Reserve.beside (checked : Bool) (inner : String → Prop) (s : RunState σ) (x : String) (r : CellRef) (v : Value) :
    Reserve where
  checked := checked
  level := s.frames.length
  outer y := y ≠ x ∧ (Reserve.counting checked inner).names s.frames.length y
  inner := inner
  binding y := s.binding s.frames.length y
  cell r' := if r' = r then some v else none
  body := (Reserve.counting checked inner).body
  suspended := []
  closed := (Reserve.counting checked inner).closed
  beneath := Nat.zero_le _
  room _ _ := .inl rfl

/-- The names that can be counters at a level: a global one is not mentioned in functions. -/
def CounterAt (inner : String → Prop) (ℓ : Nat) (x : String) : Prop := ℓ = 0 → ¬ inner x

variable {checked : Bool} {inner : String → Prop}

/-- Beside a counter of its own a state guards the cell of the counter. -/
theorem RunState.Guards.beside (h : s.Guards (.counting checked inner) ℓ) {x : String} (hown : CounterAt inner ℓ x)
    {r : CellRef} {v : Value} (hx : s.scope.find? x = some (.cell r)) (hv : s.memory.cells[r]? = some v) :
    s.Guards (.beside checked inner s x r v) ℓ := by
  have hlevel := h.frames
  subst hlevel
  rw [← s.binding_active] at hx
  have hfree {r' : CellRef} (hne : r' ≠ r) : (Reserve.beside checked inner s x r v).cell r' = none := if_neg hne
  refine ⟨Nat.le_refl _, rfl, h.separate, ?_, ?_, ?_, ?_, fun _ _ => rfl, List.nil_suffix⟩
  · intro r' w hw _
    have hstored := h.stored r' w hw rfl
    exact ⟨hstored.kind, by cases w <;> first | exact trivial | exact hstored.only⟩
  · intro r' w hw
    change (if r' = r then some v else none) = some w at hw
    split at hw
    case isTrue heq =>
      cases hw
      rw [heq]
      exact hv
    case isFalse => cases hw
  · intro r' hr'
    refine hfree ?_
    rintro rfl
    exact h.separate.unlinked _ x r' hx hr'
  · intro i y r' hsees hy
    refine hfree ?_
    rintro rfl
    obtain ⟨hi, rfl⟩ := h.separate.owner i s.frames.length y x r' hy hx
    rcases hsees with ⟨-, hne, -⟩ | ⟨hlt, -⟩ | ⟨hzero, ⟨hne, -⟩ | hinner⟩
    · exact hne rfl
    · exact Nat.lt_irrefl _ (hi ▸ hlt)
    · exact hne rfl
    · exact hown (hi.symm.trans hzero) hinner

/-- What does not mention a counter leaves its number alone. -/
theorem Task.meets_counts (hhosts : cfg.hosts.Apart) (hchecked : checked = !cfg.isRaw)
    (h : s.Guards (.counting checked inner) ℓ) {x : String} (hown : CounterAt inner ℓ x) {j : Nat} (hs : s.Counts x j)
    (n : Nat) {t : Task σ α}
    (ht : ∀ r v, t.Within (.beside checked inner s x r v) ℓ) : (t.run cfg n s).Meets fun _ u => u.Counts x j := by
  obtain ⟨r, hr, hcell⟩ := hs
  have hrun := (Task.keeps hhosts hchecked n ℓ t (ht r _)).run s (h.beside hown hr hcell)
  change (t.run cfg n s).Keeps _ ℓ ℓ _ at hrun
  generalize t.run cfg n s = o at hrun
  cases hrun with
  | @done a u hu _ =>
    refine ⟨r, ?_, hu.holds r _ (if_pos rfl)⟩
    have hbound := hu.bound x fun hx => hx.1 rfl
    change u.binding s.frames.length x = s.binding s.frames.length x at hbound
    rw [← u.binding_active, hu.frames, ← h.frames, hbound, s.binding_active, hr]
  | failed | exhausted => exact trivial

/-- Beside a counter all other names of the level are allowed. -/
theorem Reserve.names_beside (hs : s.frames.length = ℓ) {x : String} {r : CellRef} {v : Value} {y : String} (hy : y ≠ x)
    (hname : (Reserve.counting checked inner).names ℓ y) : (Reserve.beside checked inner s x r v).names ℓ y := by
  subst hs
  exact (if_pos rfl : (Reserve.beside checked inner s x r v).names s.frames.length y = _).mpr ⟨hy, hname⟩

/-- Statements that avoid a counter leave its number alone. -/
theorem execAll_meets_counts (hhosts : cfg.hosts.Apart) (hchecked : checked = !cfg.isRaw)
    (h : s.Guards (.counting checked inner) ℓ) {x : String} (hown : CounterAt inner ℓ x) {j : Nat} (hs : s.Counts x j)
    {body : List Stmt}
    (hbody : Stmt.AllWithin ((Reserve.counting checked inner).names ℓ) (Reserve.counting checked inner).body body)
    (havoid : Stmt.AllAvoid x body) (n depth : Nat) :
    (execAll cfg n depth body s).Meets fun _ u => u.Counts x j := by
  apply Task.meets_counts hhosts hchecked h hown hs n (t := .execAll depth body)
  intro _ _
  exact Stmt.allWithin_join (fun _ hname hne => Reserve.names_beside h.frames hne hname) (fun _ hb _ => hb) body hbody
    havoid

/-- A statement that avoids a counter leaves its count. -/
theorem exec_meets_counts (hhosts : cfg.hosts.Apart) (hchecked : checked = !cfg.isRaw)
    (h : s.Guards (.counting checked inner) ℓ) {x : String} (hown : CounterAt inner ℓ x) {j : Nat} (hs : s.Counts x j)
    {stmt : Stmt} (hstmt : stmt.Within ((Reserve.counting checked inner).names ℓ) (Reserve.counting checked inner).body)
    (havoid : stmt.Avoids x) (n depth : Nat) :
    (exec cfg n depth stmt s).Meets fun _ u => u.Counts x j := by
  apply Task.meets_counts hhosts hchecked h hown hs n (t := .exec depth stmt)
  intro _ _
  exact stmt.within_join (fun _ hname hne => Reserve.names_beside h.frames hne hname) (fun _ hb _ => hb) hstmt havoid

/-- Statements that take a counter down at their end take it down by one. -/
theorem execAll_lowers (hhosts : cfg.hosts.Apart) (hchecked : checked = !cfg.isRaw)
    (h : s.Guards (.counting checked inner) ℓ) {x : String} (hown : CounterAt inner ℓ x) {j : Nat}
    (hj : j < countLimit) (hs : s.Counts x (j + 1)) {body : List Stmt}
    (hbody : Stmt.AllWithin ((Reserve.counting checked inner).names ℓ) (Reserve.counting checked inner).body body)
    (hlowers : Stmt.LowersCounter x body) (n depth : Nat) :
    (execAll cfg n depth body s).Meets fun returned u => returned = none → u.Counts x j := by
  induction n generalizing s body with
  | zero => exact trivial
  | succ n ih =>
    cases body with
    | nil => exact hlowers.elim
    | cons stmt rest =>
      rw [execAll]
      -- The last statement takes the counter down, and those before it do not touch it.
      cases rest with
      | nil =>
        apply meets_bind (exec_step_meets n depth hlowers (.inr ⟨rfl, rfl, hj⟩) hs)
        intro returned u hu
        cases returned with
        | some v => exact nofun
        | none =>
          cases n with
          | zero => exact trivial
          | succ n => exact fun _ => hu
      | cons stmt' rest =>
        obtain ⟨havoid, hrest⟩ := hlowers
        have hfirst := exec_meets_counts hhosts hchecked h hown hs hbody.1 havoid n depth
        have hguards := (Task.keeps hhosts hchecked n ℓ (.exec depth stmt) hbody.1).run s h
        change (exec cfg n depth stmt s).Keeps _ _ _ _ at hguards
        refine meets_bind (P := fun _ u => u.Counts x (j + 1) ∧ u.Guards (.counting checked inner) ℓ) ?_ ?_
        · generalize exec cfg n depth stmt s = o at hfirst hguards
          cases hguards with
          | done hu _ => exact ⟨hfirst, hu⟩
          | failed | exhausted => exact trivial
        · intro returned u hu
          cases returned with
          | some v => exact nofun
          | none => exact ih hu.2 hu.1 hbody.2 hrest

/-! ## Rounds -/

/-- A task that comes to an end in all states in which a reserve is set apart. -/
def Task.EndsBeside (cfg : Setting σ) (K : Reserve) (ℓ c : Nat) (t : Task σ α) : Prop :=
  ∀ u, u.Guards K ℓ → u.calls.length = c → (Plan.ask t).Finishes cfg c u

/-- A test finishes. -/
theorem Plan.Finishes.test (hhosts : cfg.hosts.Apart) (info : Info) (tag : String) (test : Expr) (v : Value)
    (hs : s.calls.length = c) : (Plan.test cfg info tag test v).Finishes cfg c s := by
  have hmade : (Plan.test cfg info tag test v).Made cfg false fun _ _ => False := .test info tag test v
  rw [← hs]
  exact hmade.finishes hhosts 0 fun _ _ _ _ _ h => h.elim

/-- What the rounds of a loop do, where `P m` says that `m` rounds are left: the test knows whether there is one, and
the body and the update leave one less. -/
structure Rounds (cfg : Setting σ) (K : Reserve) (ℓ depth : Nat) (test : Expr) (update : Option Stmt) (body : List Stmt)
    (P : Nat → RunState σ → Prop) : Prop where
  congr : ∀ m s u, P m s → s.SameStore u → P m u
  tests : ∀ m n s, P m s → (eval cfg n depth test s).Meets fun v u => v = .boolean (decide (0 < m)) ∧ s.SameStore u
  rounds : ∀ m n s, s.Guards K ℓ → P (m + 1) s → (execAll cfg n depth body s).Meets fun returned u => returned = none →
    match update with
    | none => P m u
    | some stmt => ∀ n, (exec cfg n depth stmt u).Meets fun _ w => P m w

section Rounds

variable {K : Reserve} {depth : Nat} {info : Info} {tag : String} {test : Expr} {update : Option Stmt}
  {body : List Stmt} {P : Nat → RunState σ → Prop}

section Ends

variable (hrounds : Rounds cfg K ℓ depth test update body P) (hhosts : cfg.hosts.Apart)
  (hchecked : K.checked = !cfg.isRaw) (hwithin : (Task.execLoop depth info tag test update body : Task σ _).Within K ℓ)
  (htest : (Task.eval depth test).EndsBeside cfg K ℓ c) (hbody : (Task.execAll depth body).EndsBeside cfg K ℓ c)
  (hupdate : ∀ stmt ∈ update, (Task.exec depth stmt).EndsBeside cfg K ℓ c)

include hrounds hhosts hchecked hwithin htest hbody hupdate

/-- A round comes to an end if the loop does from where there is one round less. -/
theorem Rounds.round {m : Nat} {s : RunState σ} (hs : s.Guards K ℓ) (hcalls : s.calls.length = c) (hP : P m s)
    (hrest : ∀ m', m = m' + 1 → ∀ u, u.Guards K ℓ → u.calls.length = c → P m' u →
      (Plan.ask (.execLoop depth info tag test update body)).Finishes cfg c u) :
    (Plan.ask (.execLoop depth info tag test update body)).Finishes cfg c s := by
  obtain ⟨htestWithin, hupdateWithin, hbodyWithin⟩ := hwithin
  have hkeeps (n : Nat) {γ : Type} (t : Task σ γ) (ht : t.Within K ℓ) := Task.keeps hhosts hchecked n ℓ t ht
  refine .ask ?_
  refine .andMeets (.tick info hcalls) (fun _ => .tick info) (fun _ => tick_meets info) hs ?_
  intro _ u _ hu hs hcalls
  have hP := hrounds.congr _ _ _ hP hu
  refine .andMeets (htest u hs hcalls) (fun n => hkeeps n _ htestWithin) (fun n => hrounds.tests _ n u hP) hs ?_
  rintro _ w hgiven ⟨rfl, hw⟩ hs hcalls
  have hP := hrounds.congr _ _ _ hP hw
  have htested (n : Nat) : ((Plan.test cfg info tag test (.boolean (decide (0 < m)))).run cfg n w).Meets
      fun holds u => holds = decide (0 < m) ∧ w.SameStore u := by
    rw [Plan.run_test]
    exact testAction_meets info tag test _
  refine .andMeets (.test hhosts info tag test _ hcalls) (fun _ => .test hhosts hchecked info tag test hgiven)
    htested hs ?_
  rintro _ t _ ⟨rfl, ht⟩ hs hcalls
  have hP := hrounds.congr _ _ _ hP ht
  cases m with
  | zero => exact .pure none hcalls
  | succ m =>
    refine .andMeets (hbody t hs hcalls) (fun n => hkeeps n _ hbodyWithin) (fun n => hrounds.rounds m n t hs hP) hs ?_
    intro returned w _ hw hs hcalls
    cases returned with
    | some v => exact .pure (some v) hcalls
    | none =>
      cases update with
      | none => exact hrest m rfl w hs hcalls (hw rfl)
      | some stmt =>
        refine .andMeets (hupdate stmt rfl w hs hcalls) (fun n => hkeeps n _ hupdateWithin) (hw rfl) hs ?_
        intro _ t _ hP hs hcalls
        exact hrest m rfl t hs hcalls hP

/-- A loop comes to an end if its parts do and if each round brings it nearer to its end. -/
theorem Rounds.finishes (m : Nat) {s : RunState σ} (hs : s.Guards K ℓ) (hcalls : s.calls.length = c) (hP : P m s) :
    (Plan.ask (.execLoop depth info tag test update body)).Finishes cfg c s := by
  induction m generalizing s with
  | zero => exact hrounds.round hhosts hchecked hwithin htest hbody hupdate hs hcalls hP nofun
  | succ m ih =>
    refine hrounds.round hhosts hchecked hwithin htest hbody hupdate hs hcalls hP ?_
    rintro _ ⟨⟩ u hu hcalls hP
    exact ih hu hcalls hP

end Ends

end Rounds

/-! ## Both kinds of loops -/

section Both

variable {depth : Nat} {test : Expr} {body : List Stmt} {x : String} (hhosts : cfg.hosts.Apart)
  (hchecked : checked = !cfg.isRaw) (hown : CounterAt inner ℓ x)
  (hbody : Stmt.AllWithin ((Reserve.counting checked inner).names ℓ) (Reserve.counting checked inner).body body)

include hhosts hchecked hown hbody

/-- Counting up, there are as many rounds left as the counter is below its bound. -/
theorem rounds_up {k : Nat} (hk : k ≤ countLimit) (htest : test.ComparesCounter x "<" k) {stmt : Stmt}
    (hstmt : stmt.MovesCounter x "++") (havoid : Stmt.AllAvoid x body) :
    Rounds cfg (.counting checked inner) ℓ depth test (some stmt) body fun m s => m ≤ k ∧ s.Counts x (k - m) where
  congr m s u h hu := ⟨h.1, h.2.congr hu⟩
  tests m n s h := by
    have hholds : countHolds "<" (k - m) k = decide (0 < m) := by
      have hm := h.1
      refine decide_eq_decide.mpr ⟨fun _ => ?_, fun _ => ?_⟩ <;> omega
    rw [← hholds]
    exact eval_comparison_meets n depth htest (by decide) (Nat.le_trans (Nat.sub_le k m) hk) hk h.2
  rounds m n s hs h := by
    have hkept := execAll_meets_counts hhosts hchecked hs hown h.2 hbody havoid n depth
    generalize execAll cfg n depth body s = o at hkept
    cases o with
    | done returned u =>
      intro _ n'
      have hm := h.1
      have hmoved : countMoved "++" (k - (m + 1)) (k - m) := .inl ⟨rfl, by omega, by omega⟩
      have hstep : (exec cfg n' depth stmt u).Meets _ := exec_step_meets n' depth hstmt hmoved hkept
      generalize exec cfg n' depth stmt u = o at hstep
      cases o with
      | done _ w => exact ⟨Nat.le_of_succ_le hm, hstep⟩
      | failed | exhausted => exact trivial
    | failed | exhausted => exact trivial

/-- Counting down, there are as many rounds left as the counter says. -/
theorem rounds_down (htest : test.ComparesCounter x ">" 0) (hlowers : Stmt.LowersCounter x body) :
    Rounds cfg (.counting checked inner) ℓ depth test none body fun m s => m ≤ countLimit ∧ s.Counts x m where
  congr m s u h hu := ⟨h.1, h.2.congr hu⟩
  tests m n s h := eval_comparison_meets n depth htest (by decide) h.1 (Nat.zero_le _) h.2
  rounds m n s hs h := by
    have hlowered := execAll_lowers hhosts hchecked hs hown h.1 h.2 hbody hlowers n depth
    generalize execAll cfg n depth body s = o at hlowered
    cases o with
    | done returned u => exact fun hnone => ⟨Nat.le_of_succ_le h.1, hlowered hnone⟩
    | failed | exhausted => exact trivial

end Both

end Primer
