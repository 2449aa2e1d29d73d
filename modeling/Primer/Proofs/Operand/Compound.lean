import Primer.Proofs.Counted.Counter
import Primer.Proofs.Lenient.Skipped
import Primer.Proofs.Operand.Depth
import Primer.Proofs.Run.Plain
import Primer.Proofs.Run.Reading
import Primer.Proofs.Run.Restriction

/-!
# Compound assignments

`x op= e` computes what `x op e` does and writes it to `x`. The assignment `x = x op e` takes the result of the
operation like any value that is assigned, and there it is checked once more. The two forms therefore succeed alike
but for two things:

* the operator's result is a number that is not finite, which the check of the plain form refuses,
* `e` stands one expression deeper in the plain form, and may be nested too deeply there.

Both read the same operands in the same states (`Computes`), so where both succeed they leave the same state but for
the commands that they record.
-/

set_option autoImplicit false

namespace Primer

open Run

variable {σ α β : Type}

/-- A statement that is carried out to its end and does not return. -/
def Completes (cfg : Setting σ) (depth : Nat) (stmt : Stmt) (s t : RunState σ) : Prop :=
  ∃ n, exec cfg n depth stmt s = .done none t

/-- Hosts that leave all cells in memory when their variables are read. -/
def Hosts.KeepCells (hosts : Hosts σ) : Prop :=
  ∀ key host memory, memory.cells.size ≤ (hosts.get key host memory).2.2.cells.size

/-- A sequence is done exactly when its steps are. -/
theorem Run.bind_done_iff {x : Run σ α} {f : α → Run σ β} {s t : RunState σ} {b : β} :
    (x >>= f) s = .done b t ↔ ∃ a u, x s = .done a u ∧ f a u = .done b t := by
  constructor
  · exact Run.bind_eq_done
  · rintro ⟨a, u, hx, hf⟩
    rw [Run.bind_of_done hx]
    exact hf

variable {cfg : Setting σ} {s t u : RunState σ} {e e' : Expr} {v w : Value}

/-- An expression that is done is done in one way, however large the bound on the recursion is. -/
theorem eval_unique {n n' depth : Nat} (h : eval cfg n depth e s = .done v t) (h' : eval cfg n' depth e s = .done w u) :
    v = w ∧ t = u := by
  have hmono := Task.run_mono cfg (Nat.le_max_left n n') (.eval depth e) s
  have hmono' := Task.run_mono cfg (Nat.le_max_right n n') (.eval depth e) s
  simp only [Task.run, h, h', ne_eq, reduceCtorEq, not_false_eq_true, true_implies] at hmono hmono'
  have hsame := hmono.symm.trans hmono'
  cases hsame
  exact ⟨rfl, rfl⟩

/-- An expression that is done is not nested too deeply. -/
theorem not_deep_of_eval {n depth : Nat} (h : eval cfg n depth e s = .done v t) : ¬maxEvalDepth ≤ depth := by
  intro hdeep
  cases n with
  | zero => cases h
  | succ n =>
    simp only [eval, if_pos hdeep] at h
    cases h

/-! ## Reads -/

/-- A variable of the hosts that was read: its host answered, and may have changed itself and memory. -/
theorem readHost_eq_done {g : HostVariable} (h : readHost cfg e g s = .done w t) :
    ∃ v host memory, cfg.hosts.get g.key s.host s.memory = (.ok v, host, memory) ∧ w = present v ∧
      t = { s with host := host, memory := memory } := by
  unfold readHost at h
  generalize hget : cfg.hosts.get g.key s.host s.memory = answered at h
  obtain ⟨answer, host, memory⟩ := answered
  cases answer with
  | ok v =>
    cases h
    exact ⟨v, host, memory, rfl, rfl, rfl⟩
  | error f =>
    cases f with
    | message | breakdown => cases h
    | passedOn f => cases f <;> cases h

/-- What a read gives is not a matter of the expression that it is made for. -/
theorem take_congr (hchecked : cfg.isRaw = false) (h : take cfg e v s = .done w t) : take cfg e' v s = .done w t := by
  rw [take_of_checked hchecked] at h ⊢
  generalize opened s.memory v = o at h ⊢
  cases o
  case number x =>
    rw [takeChecked_number] at h ⊢
    by_cases hfinite : Number.isFinite x = true
    · rw [if_pos hfinite] at h ⊢
      exact h
    · rw [if_neg hfinite] at h
      cases h
  case hostVariable g =>
    obtain ⟨v, host, memory, hget, rfl, rfl⟩ := readHost_eq_done h
    show readHost cfg e' g s = _
    simp [readHost, hget]
  case absent | undefined | null | pending => cases h
  all_goals exact h

/-- Reading changes nothing but the hosts and what they do to memory, where all cells stay. -/
theorem take_keeps_cells (hchecked : cfg.isRaw = false) (hhosts : cfg.hosts.KeepCells)
    (h : take cfg e v s = .done w t) : s.memory.cells.size ≤ t.memory.cells.size := by
  rw [take_of_checked hchecked] at h
  generalize opened s.memory v = o at h
  cases o
  case number x =>
    rw [takeChecked_number] at h
    split at h
    · cases h
      exact Nat.le_refl _
    · cases h
  case hostVariable g =>
    obtain ⟨v, host, memory, hget, -, rfl⟩ := readHost_eq_done h
    have hkept := hhosts g.key s.host s.memory
    rw [hget] at hkept
    exact hkept
  case absent | undefined | null | pending => cases h
  all_goals
    cases h
    exact Nat.le_refl _

/-- A cell that was read is there. -/
theorem lt_of_take_cell (hchecked : cfg.isRaw = false) {r : CellRef} (h : take cfg e (.cell r) s = .done w t) :
    r < s.memory.cells.size := by
  by_cases hthere : r < s.memory.cells.size
  · exact hthere
  · have hread : opened s.memory (.cell r) = .absent := by
      unfold opened Memory.read
      dsimp only
      rw [Array.getElem?_eq_none (Nat.le_of_not_lt hthere)]
      rfl
    rw [take_of_checked hchecked, hread] at h
    cases h

/-! ## Operations -/

/-- The arithmetic operators. -/
def arithmeticSymbols : List String := ["+", "-", "*", "/", "%"]

/-- The number that an operand has to be, if it is one. -/
def Value.finite? : Value → Option Float
  | .number x => if Number.isFinite x then some x else none
  | _ => none

/-- The finite number of a value does not depend on who asks for it. -/
theorem finiteNumber_toOption (m : Memory) (symbol : String) (v : Value) :
    (m.finiteNumber symbol v).toOption = v.finite? := by
  cases v
  case number x =>
    unfold Memory.finiteNumber Value.finite?
    dsimp only
    by_cases hfinite : Number.isFinite x = true
    · rw [if_pos hfinite, if_pos hfinite]
      rfl
    · rw [if_neg hfinite, if_neg hfinite]
      rfl
  all_goals rfl

/-- An operator that needs two finite numbers, without the words of its refusals. -/
theorem checked_numeric_toOption {symbol : String} (hsymbol : symbol ∈ Memory.numericSymbols) (m : Memory)
    (a b : Value) : (m.checked symbol a b).toOption = a.finite?.bind fun x => b.finite?.bind fun y =>
      if Memory.divides symbol && y == 0.0 then none else some (Memory.numeric symbol x y) := by
  rw [← finiteNumber_toOption m symbol a, ← finiteNumber_toOption m symbol b]
  unfold Memory.checked
  rw [if_pos (List.contains_iff_mem.mpr hsymbol)]
  cases m.finiteNumber symbol a with
  | error refusal => rfl
  | ok x =>
    cases m.finiteNumber symbol b with
    | error refusal => rfl
    | ok y =>
      show (if _ then _ else _ : Except Refusal Value).toOption = if _ then _ else _
      split <;> rfl

/-- A sum, without the words of its refusals. -/
theorem checked_sum_toOption {symbol : String} (hsymbol : symbol = "+" ∨ symbol = "+=") (m : Memory) (a b : Value) :
    (m.checked symbol a b).toOption =
      if a.isNumberOrString && b.isNumberOrString then some (m.add a b) else none := by
  have hother : ¬Memory.numericSymbols.contains symbol = true := by
    rcases hsymbol with rfl | rfl <;> decide
  unfold Memory.checked
  rw [if_neg hother, if_pos (by simpa using hsymbol)]
  cases a.isNumberOrString
  · rfl
  · cases b.isNumberOrString <;> rfl

/-- The operator of a compound assignment gives what the operator that it contains does. -/
theorem checked_compound {op : String} (hop : op ∈ arithmeticSymbols) (m : Memory) (a b : Value) :
    (m.checked (op ++ "=") a b).toOption = (m.checked op a b).toOption := by
  simp only [arithmeticSymbols, List.mem_cons, List.not_mem_nil, or_false] at hop
  rcases hop with rfl | rfl | rfl | rfl | rfl
  case inl =>
    have hsymbol : "+" ++ "=" = "+=" := rfl
    rw [hsymbol, checked_sum_toOption (.inr rfl), checked_sum_toOption (.inl rfl)]
  all_goals
    rw [checked_numeric_toOption (by decide), checked_numeric_toOption (by decide)]
    rfl

/-- The operator of a compound assignment computes as the operator does. -/
theorem checked_compound_iff {op : String} (hop : op ∈ arithmeticSymbols) (m : Memory) (a b : Value) :
    m.checked (op ++ "=") a b = .ok v ↔ m.checked op a b = .ok v := by
  have hsame := checked_compound hop m a b
  cases hcompound : m.checked (op ++ "=") a b <;> cases hplain : m.checked op a b <;>
    simp [hcompound, hplain, Except.toOption] at hsame ⊢
  rw [hsame]

/-- An arithmetic operator gives a number or a text. -/
theorem checked_arithmetic {op : String} (hop : op ∈ arithmeticSymbols) {m : Memory} {a b : Value}
    (h : m.checked op a b = .ok v) : (∃ x, v = .number x) ∨ ∃ text, v = .string text := by
  have hv : (m.checked op a b).toOption = some v := by
    rw [h]
    rfl
  simp only [arithmeticSymbols, List.mem_cons, List.not_mem_nil, or_false] at hop
  rcases hop with rfl | rfl | rfl | rfl | rfl
  case inl =>
    rw [checked_sum_toOption (.inl rfl)] at hv
    split at hv
    · cases hv
      unfold Memory.add
      split
      · exact .inr ⟨_, rfl⟩
      · exact .inl ⟨_, rfl⟩
    · cases hv
  all_goals
    rw [checked_numeric_toOption (by decide)] at hv
    obtain ⟨x, -, hx⟩ := Option.bind_eq_some_iff.mp hv
    obtain ⟨y, -, hy⟩ := Option.bind_eq_some_iff.mp hx
    split at hy
    · cases hy
    · cases hy
      exact .inl ⟨_, rfl⟩

/-- Both operands of an operation with the content of a cell on its left have been evaluated and taken, and the
operator gives a value for them. -/
inductive Computes (cfg : Setting σ) (depth : Nat) (r : CellRef) (op : String) (e : Expr) (s : RunState σ) (v : Value)
    (t : RunState σ) : Prop where
  | intro {n : Nat} {name : Expr} {b y z : Value} {s₁ s₂ : RunState σ} (heval : eval cfg n depth e s = .done b s₁)
    (hleft : take cfg name (.cell r) s₁ = .done y s₂) (hright : take cfg e b s₂ = .done z t)
    (hvalue : t.memory.checked op y z = .ok v) : Computes cfg depth r op e s v t

namespace Computes

variable {depth : Nat} {r : CellRef} {op : String}

/-- An operation has one value, in one state. -/
theorem unique (hchecked : cfg.isRaw = false) (h : Computes cfg depth r op e s v t)
    (h' : Computes cfg depth r op e s w u) : w = v ∧ u = t := by
  cases h with
  | @intro n name b y z s₁ s₂ heval hleft hright hvalue =>
    cases h' with
    | @intro n' name' b' y' z' s₁' s₂' heval' hleft' hright' hvalue' =>
      obtain ⟨rfl, rfl⟩ := eval_unique heval heval'
      have hcurrent : Outcome.done y' s₂' = .done y s₂ := (take_congr hchecked hleft').symm.trans hleft
      cases hcurrent
      have hoperand := hright'.symm.trans hright
      cases hoperand
      have hresult := hvalue'.symm.trans hvalue
      cases hresult
      exact ⟨rfl, rfl⟩

/-- The cell on the left of an operation is there when the operation has its value. -/
theorem lt_size (hchecked : cfg.isRaw = false) (hhosts : cfg.hosts.KeepCells) (h : Computes cfg depth r op e s v t) :
    r < t.memory.cells.size := by
  obtain ⟨-, hleft, hright, -⟩ := h
  have hthere := lt_of_take_cell hchecked hleft
  have hfirst := take_keeps_cells hchecked hhosts hleft
  have hsecond := take_keeps_cells hchecked hhosts hright
  exact Nat.lt_of_lt_of_le hthere (Nat.le_trans hfirst hsecond)

/-- An operation that calls nothing has its value one expression deeper if its right operand fits there. -/
theorem deeper_iff (hchecked : cfg.isRaw = false) (he : e.callsNothing = true) :
    Computes cfg (depth + 1) r op e s v t ↔
      Computes cfg depth r op e s v t ∧ depth + 1 + e.height ≤ maxEvalDepth := by
  constructor
  · rintro ⟨heval, hleft, hright, hvalue⟩
    obtain ⟨hhere, hfits⟩ := (eval_at_depth hchecked he).mp heval
    exact ⟨⟨hhere, hleft, hright, hvalue⟩, hfits⟩
  · rintro ⟨⟨heval, hleft, hright, hvalue⟩, hfits⟩
    exact ⟨(eval_at_depth hchecked he).mpr ⟨heval, hfits⟩, hleft, hright, hvalue⟩

end Computes

/-! ## The two forms -/

/-- A note on a failure does not matter for being done. -/
theorem onFailure_done_iff {x : Run σ α} {note : Run σ Unit} {a : α} :
    Run.onFailure x note s = .done a t ↔ x s = .done a t := by
  constructor
  · exact Run.onFailure_eq_done
  · intro h
    simp only [Run.onFailure, h]

/-- Operands are taken exactly when both places are. -/
theorem takeOperands_done_iff {info : Info} {symbol : String} {left right : Expr} {a b y z : Value} :
    takeOperands cfg info symbol left right a b s = .done (y, z) t ↔
      ∃ s₁, take cfg left a s = .done y s₁ ∧ take cfg right b s₁ = .done z t := by
  simp only [takeOperands, Run.bind_done_iff, onFailure_done_iff]
  constructor
  · rintro ⟨y', s₁, hleft, z', s₂, hright, hpair⟩
    cases hpair
    exact ⟨s₁, hleft, hright⟩
  · rintro ⟨s₁, hleft, hright⟩
    exact ⟨y, s₁, hleft, z, t, hright, rfl⟩

/-- The safe strategy is not raw. -/
theorem isRaw_of_safe (hsafe : cfg.strategy = .safe) : cfg.isRaw = false := by
  simp [Setting.isRaw, hsafe]

section Forms

variable (hsafe : cfg.strategy = .safe) (hfilter : cfg.filter = none)

include hsafe

/-- The safe strategy narrates nothing. -/
theorem narrate_safe (category : Category) (node : NodeId) (message : Memory → String)
    (changes : Unit → List Change) (s : RunState σ) : narrate cfg category node message changes s = .done () s := by
  unfold narrate
  rw [if_neg (by simp [hsafe])]
  rfl

include hfilter

/-- The safe strategy without a filter records every command. -/
theorem record_safe (info : Info) (tag : String) (s : RunState σ) :
    record cfg info tag s = .done () (s.withCommand ⟨info.id, tag⟩) := by
  apply record_unfiltered cfg _ hfilter
  simp [hsafe]

/-- A recorded operation is done exactly when the checked one succeeds. -/
theorem applyBinary_done_iff {info : Info} {symbol : String} {a b : Value} :
    applyBinary cfg info symbol a b s = .done v t ↔
      s.memory.checked symbol a b = .ok v ∧ t = s.withCommand ⟨info.id, operatorTag symbol a b⟩ := by
  rw [applyBinary_eq]
  rw [Run.bind_of_done (record_safe hsafe hfilter info _ s)]
  unfold binaryValue
  rw [if_neg (by simp [isRaw_of_safe hsafe])]
  have hasks : asks (fun u : RunState σ => u.memory.checked symbol a b)
      (s.withCommand ⟨info.id, operatorTag symbol a b⟩) =
      .done (s.memory.checked symbol a b) (s.withCommand ⟨info.id, operatorTag symbol a b⟩) := rfl
  rw [Run.bind_of_done hasks]
  cases s.memory.checked symbol a b with
  | error refusal =>
    constructor
    · intro h
      cases h
    · rintro ⟨h, -⟩
      cases h
  | ok v' =>
    constructor
    · intro h
      cases h
      exact ⟨rfl, rfl⟩
    · rintro ⟨h, rfl⟩
      cases h
      rfl

/-- The binary expression: its operands have been evaluated before they are taken. -/
theorem binaryAction_done_iff {info : Info} {left right : Expr} {symbol : String} {a b : Value} :
    binaryAction cfg info left symbol right a b s = .done v t ↔ ∃ y z s₁ s₂, take cfg left a s = .done y s₁ ∧
      take cfg right b s₁ = .done z s₂ ∧ s₂.memory.checked symbol y z = .ok v ∧
      t = s₂.withCommand ⟨info.id, operatorTag symbol y z⟩ := by
  rw [binaryAction_eq]
  simp only [Run.bind_done_iff, Prod.exists, takeOperands_done_iff, applyBinary_done_iff hsafe hfilter,
    narrate_safe hsafe]
  constructor
  · rintro ⟨y, z, s₂, ⟨s₁, hleft, hright⟩, v', s₃, ⟨hvalue, rfl⟩, ⟨⟩, s₄, hnarrated, hdone⟩
    cases hnarrated
    cases hdone
    exact ⟨y, z, s₁, s₂, hleft, hright, hvalue, rfl⟩
  · rintro ⟨y, z, s₁, s₂, hleft, hright, hvalue, rfl⟩
    exact ⟨y, z, s₂, ⟨s₁, hleft, hright⟩, v, _, ⟨hvalue, rfl⟩, (), _, rfl, rfl⟩

/-- The value of a plain assignment is checked when it is taken. -/
theorem assigned_plain_done_iff (i : Info) (target value : Expr) {place given : Value} :
    assignedAction cfg ⟨i, target, "=", value⟩ place given s = .done v t ↔
      take cfg value given (s.withCommand ⟨i.id, "="⟩) = .done v t := by
  unfold assignedAction
  rw [if_pos rfl, Run.bind_of_done (record_safe hsafe hfilter i "=" s)]

/-- The value of a compound assignment is that of its operator. -/
theorem assigned_compound_done_iff (i : Info) (target value : Expr) {op : String} (hop : op ∈ arithmeticSymbols)
    {place given : Value} :
    assignedAction cfg ⟨i, target, op ++ "=", value⟩ place given s = .done v t ↔ ∃ y z s₁ s₂,
      take cfg target place s = .done y s₁ ∧ take cfg value given s₁ = .done z s₂ ∧
        s₂.memory.checked op y z = .ok v ∧ t = s₂.withCommand ⟨i.id, operatorTag (op ++ "=") y z⟩ := by
  have hsymbol : op ++ "=" ≠ "=" := by
    simp only [arithmeticSymbols, List.mem_cons, List.not_mem_nil, or_false] at hop
    rcases hop with rfl | rfl | rfl | rfl | rfl <;> decide
  unfold assignedAction
  rw [if_neg hsymbol]
  simp only [Run.bind_done_iff, Prod.exists, takeOperands_done_iff, applyBinary_done_iff hsafe hfilter,
    checked_compound_iff hop]
  constructor
  · rintro ⟨y, z, s₂, ⟨s₁, hleft, hright⟩, hvalue, rfl⟩
    exact ⟨y, z, s₁, s₂, hleft, hright, hvalue, rfl⟩
  · rintro ⟨y, z, s₁, s₂, hleft, hright, hvalue, rfl⟩
    exact ⟨y, z, s₂, ⟨s₁, hleft, hright⟩, hvalue, rfl⟩

omit hfilter in
/-- An assignment to a variable: its value is evaluated and taken, and written to the cell of the variable. -/
theorem execAssign_name_iff {x symbol : String} {r : CellRef} (hbound : s.find? x = some (.cell r)) {i j : Info}
    {value : Expr} {depth : Nat} :
    (∃ n, execAssign cfg n depth ⟨i, .name j x, symbol, value⟩ s = .done () t) ↔
      ∃ n b s₁ v s₂, eval cfg n depth value s = .done b s₁ ∧
        assignedAction cfg ⟨i, .name j x, symbol, value⟩ (.cell r) b s₁ = .done v s₂ ∧
        t = { s₂ with memory := s₂.memory.write r v } := by
  have hname {n : Nat} (hdepth : ¬maxEvalDepth ≤ depth) :
      eval cfg (n + 1) depth (.name j x) s = .done (.cell r) s := by
    simp only [eval, if_neg hdepth, nameAction, hbound]
  constructor
  · rintro ⟨n, h⟩
    cases n with
    | zero => cases h
    | succ n =>
      simp only [execAssign, Run.bind_done_iff] at h
      obtain ⟨p, s₀, htarget, b, s₁, hvalue, v, s₂, hassigned, ⟨⟩, s₃, hstored, hnarrated⟩ := h
      cases n with
      | zero => cases htarget
      | succ n =>
        rw [hname (not_deep_of_eval htarget)] at htarget
        cases htarget
        rw [narrateAssigned_eq, narrate_safe hsafe] at hnarrated
        cases hnarrated
        cases hstored
        exact ⟨n + 1, b, s₁, v, s₂, hvalue, hassigned, rfl⟩
  · rintro ⟨n, b, s₁, v, s₂, heval, hassigned, rfl⟩
    cases n with
    | zero => cases heval
    | succ n =>
      refine ⟨n + 2, ?_⟩
      simp only [execAssign, Run.bind_done_iff]
      refine ⟨.cell r, s, hname (not_deep_of_eval heval), b, s₁, heval, v, s₂, hassigned, (), _, rfl, ?_⟩
      rw [narrateAssigned_eq, narrate_safe hsafe]

omit hsafe hfilter in
/-- A statement is an assignment behind a tick. -/
theorem completes_assign_iff {a : Assignment} {depth : Nat} : Completes cfg depth (.assign a) s t ↔
    ∃ s₀, tick cfg a.info s = .done () s₀ ∧ ∃ n, execAssign cfg n depth a s₀ = .done () t := by
  unfold Completes
  constructor
  · rintro ⟨n, h⟩
    cases n with
    | zero => cases h
    | succ n =>
      simp only [exec, Run.bind_done_iff] at h
      obtain ⟨⟨⟩, s₀, htick, ⟨⟩, s₁, hassign, hdone⟩ := h
      cases hdone
      exact ⟨s₀, htick, n, hassign⟩
  · rintro ⟨s₀, htick, n, hassign⟩
    refine ⟨n + 1, ?_⟩
    simp only [exec, Run.bind_done_iff]
    exact ⟨(), s₀, htick, (), t, hassign, rfl⟩

omit hfilter in
/-- The value of an arithmetic operator is taken unless it is a number that is not finite. -/
theorem take_arithmetic_iff (hv : (∃ x, v = .number x) ∨ ∃ text, v = .string text) :
    take cfg e v s = .done w t ↔ (∀ x, v = .number x → Number.isFinite x = true) ∧ w = v ∧ t = s := by
  rw [take_of_checked (isRaw_of_safe hsafe)]
  rcases hv with ⟨x, rfl⟩ | ⟨text, rfl⟩
  · change takeChecked cfg e (.number x) s = _ ↔ _
    rw [takeChecked_number]
    by_cases hfinite : Number.isFinite x = true
    · rw [if_pos hfinite]
      constructor
      · intro h
        cases h
        refine ⟨?_, rfl, rfl⟩
        rintro _ ⟨⟩
        exact hfinite
      · rintro ⟨-, rfl, rfl⟩
        rfl
    · rw [if_neg hfinite]
      constructor
      · intro h
        cases h
      · rintro ⟨hall, -⟩
        exact absurd (hall x rfl) hfinite
  · constructor
    · intro h
      cases h
      exact ⟨nofun, rfl, rfl⟩
    · rintro ⟨-, rfl, rfl⟩
      rfl

variable {x op : String} {r : CellRef} {i j k l : Info} {depth : Nat}

omit hfilter in
/-- A binary operation evaluates its operands, then applies its operator. -/
theorem eval_binary_succ (hdepth : ¬maxEvalDepth ≤ depth) (n : Nat) (left right : Expr) :
    eval cfg (n + 1) depth (.binary k left op right) = (do
      let a ← eval cfg n (depth + 1) left
      let b ← eval cfg n (depth + 1) right
      binaryAction cfg k left op right a b) := by
  simp only [eval, if_neg hdepth, isRaw_of_safe hsafe, Bool.false_and, Bool.false_eq_true, if_false]

/-- The binary expression of the plain form, one expression above its operands. -/
theorem eval_binary_iff (k l : Info) (depth : Nat) (hbound : s.find? x = some (.cell r)) :
    (∃ n, eval cfg n depth (.binary k (.name l x) op e) s = .done v t) ↔
      ∃ n b y z s₁ s₂ s₃, eval cfg n (depth + 1) e s = .done b s₁ ∧ take cfg (.name l x) (.cell r) s₁ = .done y s₂ ∧
        take cfg e b s₂ = .done z s₃ ∧ s₃.memory.checked op y z = .ok v ∧
        t = s₃.withCommand ⟨k.id, operatorTag op y z⟩ := by
  have hname {n : Nat} (hdepth : ¬maxEvalDepth ≤ depth + 1) :
      eval cfg (n + 1) (depth + 1) (.name l x) s = .done (.cell r) s := by
    simp only [eval, if_neg hdepth, nameAction, hbound]
  constructor
  · rintro ⟨n, h⟩
    have hdepth := not_deep_of_eval h
    cases n with
    | zero => cases h
    | succ n =>
      rw [eval_binary_succ hsafe hdepth] at h
      simp only [Run.bind_done_iff, binaryAction_done_iff hsafe hfilter] at h
      obtain ⟨p, s₀, hleft, b, s₁, hright, hrest⟩ := h
      cases n with
      | zero => cases hleft
      | succ n =>
        rw [hname (not_deep_of_eval hleft)] at hleft
        cases hleft
        obtain ⟨y, z, s₂, s₃, hy, hz, hvalue, rfl⟩ := hrest
        exact ⟨n + 1, b, y, z, s₁, s₂, s₃, hright, hy, hz, hvalue, rfl⟩
  · rintro ⟨n, b, y, z, s₁, s₂, s₃, heval, hy, hz, hvalue, rfl⟩
    have hdepth := not_deep_of_eval heval
    cases n with
    | zero => cases heval
    | succ n =>
      refine ⟨n + 2, ?_⟩
      rw [eval_binary_succ hsafe (by omega), Run.bind_of_done (hname hdepth), Run.bind_of_done heval]
      exact (binaryAction_done_iff hsafe hfilter).mpr ⟨y, z, s₂, s₃, hy, hz, hvalue, rfl⟩

/-- The compound form computes the operation and writes its value. -/
theorem compound_computes (hbound : s.find? x = some (.cell r)) (hop : op ∈ arithmeticSymbols) {n : Nat}
    (h : execAssign cfg n depth ⟨i, .name j x, op ++ "=", e⟩ s = .done () t) : ∃ v w, Computes cfg depth r op e s v w ∧
      t = { w with memory := w.memory.write r v, commands := t.commands } := by
  obtain ⟨n, b, s₁, v, s₂, heval, hassigned, rfl⟩ := (execAssign_name_iff hsafe hbound).mp ⟨n, h⟩
  obtain ⟨y, z, s₃, s₄, hleft, hright, hvalue, rfl⟩ := (assigned_compound_done_iff hsafe hfilter i _ e hop).mp hassigned
  exact ⟨v, s₄, ⟨heval, hleft, hright, hvalue⟩, rfl⟩

/-- A computed operation is what the compound assignment stores. -/
theorem compound_of_computes (hbound : s.find? x = some (.cell r)) (hop : op ∈ arithmeticSymbols)
    (h : Computes cfg depth r op e s v u) :
    ∃ t n, execAssign cfg n depth ⟨i, .name j x, op ++ "=", e⟩ s = .done () t := by
  obtain ⟨heval, hleft, hright, hvalue⟩ := h
  have hassigned := (assigned_compound_done_iff hsafe hfilter i (.name j x) e hop).mpr
    ⟨_, _, _, _, take_congr (isRaw_of_safe hsafe) hleft, hright, hvalue, rfl⟩
  exact ⟨_, (execAssign_name_iff hsafe hbound).mpr ⟨_, _, _, _, _, heval, hassigned, rfl⟩⟩

/-- The plain form computes the operation, checks its value and writes it. -/
theorem plain_computes (hbound : s.find? x = some (.cell r)) (hop : op ∈ arithmeticSymbols) {n : Nat}
    (h : execAssign cfg n depth ⟨i, .name j x, "=", .binary k (.name l x) op e⟩ s = .done () t) :
    ∃ v w, Computes cfg (depth + 1) r op e s v w ∧ (∀ y, v = .number y → Number.isFinite y = true) ∧
      t = { w with memory := w.memory.write r v, commands := t.commands } := by
  obtain ⟨n, b, s₁, v, s₂, heval, hassigned, rfl⟩ := (execAssign_name_iff hsafe hbound).mp ⟨n, h⟩
  obtain ⟨n, b', y, z, s₃, s₄, s₅, hoperand, hleft, hright, hvalue, rfl⟩ :=
    (eval_binary_iff hsafe hfilter k l depth hbound).mp ⟨n, heval⟩
  have htaken := (assigned_plain_done_iff hsafe hfilter i _ _).mp hassigned
  obtain ⟨hfinite, rfl, rfl⟩ := (take_arithmetic_iff hsafe (checked_arithmetic hop hvalue)).mp htaken
  exact ⟨v, s₅, ⟨hoperand, hleft, hright, hvalue⟩, hfinite, rfl⟩

/-- A computed operation with a finite result is what the plain assignment stores. -/
theorem plain_of_computes (hbound : s.find? x = some (.cell r)) (hop : op ∈ arithmeticSymbols)
    (h : Computes cfg (depth + 1) r op e s v u) (hfinite : ∀ y, v = .number y → Number.isFinite y = true) :
    ∃ t n, execAssign cfg n depth ⟨i, .name j x, "=", .binary k (.name l x) op e⟩ s = .done () t := by
  cases h with
  | @intro m name b y z s₁ s₂ heval hleft hright hvalue =>
    have hcurrent : take cfg (.name l x) (.cell r) s₁ = .done y s₂ := take_congr (isRaw_of_safe hsafe) hleft
    obtain ⟨n, hbinary⟩ := (eval_binary_iff hsafe hfilter k l depth hbound).mpr
      ⟨m, b, y, z, s₁, s₂, u, heval, hcurrent, hright, hvalue, rfl⟩
    have hassigned : assignedAction cfg ⟨i, .name j x, "=", .binary k (.name l x) op e⟩ (.cell r) v
        (u.withCommand ⟨k.id, operatorTag op y z⟩) =
          .done v ((u.withCommand ⟨k.id, operatorTag op y z⟩).withCommand ⟨i.id, "="⟩) := by
      rw [assigned_plain_done_iff hsafe hfilter, take_arithmetic_iff hsafe (checked_arithmetic hop hvalue)]
      exact ⟨hfinite, rfl, rfl⟩
    exact ⟨_, (execAssign_name_iff hsafe hbound).mpr ⟨n, v, _, v, _, hbinary, hassigned, rfl⟩⟩

/-! ## Statements -/

omit hsafe hfilter in
/-- Counting a statement leaves all names as they are. -/
theorem find?_of_tick {info : Info} (h : tick cfg info s = .done () t) : t.find? x = s.find? x := by
  have hmeets : (tick cfg info s).Meets fun _ u => s.SameStore u := tick_meets info
  rw [h] at hmeets
  have hsame : s.SameStore t := hmeets
  unfold RunState.find?
  rw [hsame.scope, hsame.globals]

omit hsafe hfilter in
/-- The value that was written is in the cell. -/
theorem read_write {m : Memory} (hthere : r < m.cells.size) : (m.write r v).read r = v := by
  simp [Memory.read, Memory.write, hthere]

/-- For every state, every name bound to a cell, every expression that calls nothing and every arithmetic operator:
`x = x op e` is carried out if and only if `x op= e` is, does not leave a number in `x` that is not finite, and `e` is
not nested too deeply for one more expression around it. And where both are, they leave the same state but for the
commands that they recorded. -/
theorem plain_iff_compound (hhosts : cfg.hosts.KeepCells) (hbound : s.find? x = some (.cell r))
    (he : e.callsNothing = true) (hop : op ∈ arithmeticSymbols) (i j k l : Info) (depth : Nat) :
    ((∃ t, Completes cfg depth (.assign ⟨i, .name j x, "=", .binary k (.name l x) op e⟩) s t) ↔
      ∃ t, Completes cfg depth (.assign ⟨i, .name j x, op ++ "=", e⟩) s t ∧
        (∀ y, t.memory.read r = .number y → Number.isFinite y = true) ∧ depth + 1 + e.height ≤ maxEvalDepth) ∧
    ∀ t t', Completes cfg depth (.assign ⟨i, .name j x, op ++ "=", e⟩) s t →
      Completes cfg depth (.assign ⟨i, .name j x, "=", .binary k (.name l x) op e⟩) s t' →
        t' = { t with commands := t'.commands } := by
  have hchecked := isRaw_of_safe hsafe
  have hbound' {s₀ : RunState σ} (htick : tick cfg i s = .done () s₀) : s₀.find? x = some (.cell r) := by
    rw [find?_of_tick htick, hbound]
  refine ⟨⟨?_, ?_⟩, ?_⟩
  · rintro ⟨t, hplain⟩
    obtain ⟨s₀, htick, n, hassign⟩ := completes_assign_iff.mp hplain
    obtain ⟨v, w, hdeeper, hfinite, -⟩ := plain_computes hsafe hfilter (hbound' htick) hop hassign
    obtain ⟨hcomputes, hfits⟩ := (Computes.deeper_iff hchecked he).mp hdeeper
    obtain ⟨t', n', hassign'⟩ := compound_of_computes hsafe hfilter (i := i) (j := j) (hbound' htick) hop hcomputes
    obtain ⟨v', w', hcomputes', hleaves⟩ := compound_computes hsafe hfilter (hbound' htick) hop hassign'
    obtain ⟨rfl, rfl⟩ := hcomputes.unique hchecked hcomputes'
    refine ⟨t', completes_assign_iff.mpr ⟨s₀, htick, n', hassign'⟩, ?_, hfits⟩
    intro y hy
    rw [hleaves] at hy
    have hread := read_write (v := v') (hcomputes'.lt_size hchecked hhosts)
    exact hfinite y (hread.symm.trans hy)
  · rintro ⟨t, hcompound, hfinite, hfits⟩
    obtain ⟨s₀, htick, n, hassign⟩ := completes_assign_iff.mp hcompound
    obtain ⟨v, w, hcomputes, hleaves⟩ := compound_computes hsafe hfilter (hbound' htick) hop hassign
    have hread := read_write (v := v) (hcomputes.lt_size hchecked hhosts)
    have hdeeper := (Computes.deeper_iff hchecked he).mpr ⟨hcomputes, hfits⟩
    have hvalue : ∀ y, v = .number y → Number.isFinite y = true := by
      intro y hy
      apply hfinite
      rw [hleaves]
      exact hread.trans hy
    obtain ⟨t', n', hassign'⟩ := plain_of_computes hsafe hfilter (i := i) (j := j) (k := k) (l := l) (hbound' htick) hop
      hdeeper hvalue
    exact ⟨t', completes_assign_iff.mpr ⟨s₀, htick, n', hassign'⟩⟩
  · intro t t' hcompound hplain
    obtain ⟨s₀, htick, n, hassign⟩ := completes_assign_iff.mp hcompound
    obtain ⟨s₀', htick', n', hassign'⟩ := completes_assign_iff.mp hplain
    cases htick.symm.trans htick'
    obtain ⟨v, w, hcomputes, hleaves⟩ := compound_computes hsafe hfilter (hbound' htick) hop hassign
    obtain ⟨v', w', hdeeper, -, hleaves'⟩ := plain_computes hsafe hfilter (hbound' htick) hop hassign'
    obtain ⟨hcomputes', -⟩ := (Computes.deeper_iff hchecked he).mp hdeeper
    obtain ⟨rfl, rfl⟩ := hcomputes.unique hchecked hcomputes'
    rw [hleaves', hleaves]

end Forms

/-! ## The two forms with the standard hosts -/

/-- The standard hosts only read memory when their variables are read. -/
theorem Hosts.keepCells_standard : (Hosts.standard Extras.none).KeepCells := by
  intro key host memory
  cases key <;> exact Nat.le_refl _

/-- The state in which a run starts that has one variable, named `x`. -/
def RunState.holding (v : Value) : RunState (HostState Unit) :=
  initialState ⟨Console.empty, ()⟩ Memory.empty [("x", v)]

/-- The place of a node that no source has. -/
def Info.nowhere : Info := ⟨0, ⟨"", 0, 0⟩⟩

/-- The statement `x op= e`. -/
def Stmt.compound (op : String) (e : Expr) : Stmt :=
  .assign ⟨.nowhere, .name .nowhere "x", op ++ "=", e⟩

/-- The statement `x = x op e`. -/
def Stmt.expanded (op : String) (e : Expr) : Stmt :=
  .assign ⟨.nowhere, .name .nowhere "x", "=", .binary .nowhere (.name .nowhere "x") op e⟩

/-- A statement is carried out with checks and the standard hosts, and no construct is forbidden. -/
abbrev CompletesPlainly (depth : Nat) (stmt : Stmt) (s t : RunState (HostState Unit)) : Prop :=
  Completes (.plain .safe none .none) depth stmt s t

/-- `x += "b"` and `x = x + "b"` leave the same text in `x`. -/
theorem plain_iff_compound_of_texts : ∃ t t' : RunState (HostState Unit),
    (RunState.holding (.string "a")).find? "x" = some (.cell 0) ∧
      CompletesPlainly 0 (.compound "+" (.string .nowhere "b" "\"b\"")) (.holding (.string "a")) t ∧
      CompletesPlainly 0 (.expanded "+" (.string .nowhere "b" "\"b\"")) (.holding (.string "a")) t' ∧
      t.memory.read 0 = .string "ab" ∧ t' = { t with commands := t'.commands } := by
  have hbound : (RunState.holding (.string "a")).find? "x" = some (.cell 0) := rfl
  have hop : "+" ∈ arithmeticSymbols := by decide
  have hsafe : (Setting.plain .safe none .none).strategy = .safe := rfl
  have hcalls : (Expr.string .nowhere "b" "\"b\"").callsNothing = true := rfl
  obtain ⟨hiff, hsame⟩ := plain_iff_compound hsafe rfl Hosts.keepCells_standard hbound hcalls hop .nowhere .nowhere
    .nowhere .nowhere 0
  obtain ⟨t, hcompound, hread⟩ : ∃ t : RunState (HostState Unit),
      CompletesPlainly 0 (.compound "+" (.string .nowhere "b" "\"b\"")) (.holding (.string "a")) t ∧
        t.memory.read 0 = .string "ab" := by
    refine ⟨_, ⟨3, rfl⟩, ?_⟩
    rfl
  have hfinite : ∀ y, t.memory.read 0 = .number y → Number.isFinite y = true := by
    intro y hy
    rw [hread] at hy
    cases hy
  obtain ⟨t', hexpanded⟩ := hiff.mpr ⟨t, hcompound, hfinite, by decide⟩
  exact ⟨t, t', hbound, hcompound, hexpanded, hread, hsame t t' hcompound hexpanded⟩

/-- A product of finite numbers is computed, whether it is finite or not. -/
theorem Computes.product (hchecked : cfg.isRaw = false) {depth : Nat} (hdepth : depth < maxEvalDepth) {r : CellRef}
    {x y : Float} (hread : s.memory.read r = .number x) (hx : Number.isFinite x = true) (hy : Number.isFinite y = true)
    (info : Info) (text : String) :
    Computes cfg depth r "*" (.number info y text) s (.number (x * y)) s := by
  have heval : eval cfg 1 depth (.number info y text) s = .done (.number y) s := by
    simp only [eval, if_neg (Nat.not_le_of_lt hdepth)]
    rfl
  have hcurrent : take cfg (.number info y text) (.cell r) s = .done (.number x) s := by
    have hopened : opened s.memory (.cell r) = .number x := hread
    rw [take_of_checked hchecked, hopened, takeChecked_number, if_pos hx]
    rfl
  have hoperand : take cfg (.number info y text) (.number y) s = .done (.number y) s := by
    have hopened : opened s.memory (.number y) = .number y := rfl
    rw [take_of_checked hchecked, hopened, takeChecked_number, if_pos hy]
    rfl
  have hvalue : s.memory.checked "*" (.number x) (.number y) = .ok (.number (x * y)) := by
    unfold Memory.checked Memory.finiteNumber
    simp only [hx, hy, if_true]
    rfl
  exact ⟨heval, hcurrent, hoperand, hvalue⟩

/-- With finite numbers `x *= y` succeeds at every depth, and `x = x * y` only if their product is finite and its
operands fit one expression deeper. -/
theorem completes_product {x y : Float} (hx : Number.isFinite x = true) (hy : Number.isFinite y = true) (text : String)
    {depth : Nat} (hdepth : depth < maxEvalDepth) :
    (∃ t, CompletesPlainly depth (.compound "*" (.number .nowhere y text)) (.holding (.number x)) t) ∧
      ∀ t, CompletesPlainly depth (.expanded "*" (.number .nowhere y text)) (.holding (.number x)) t →
        Number.isFinite (x * y) = true ∧ depth + 1 < maxEvalDepth := by
  have hop : "*" ∈ arithmeticSymbols := by decide
  let s₀ : RunState (HostState Unit) := { RunState.holding (.number x) with ticks := 1 }
  have htick : tick (.plain .safe none .none) .nowhere (.holding (.number x)) = .done () s₀ := rfl
  have hbound : s₀.find? "x" = some (.cell 0) := rfl
  have hread : s₀.memory.read 0 = .number x := rfl
  have hcomputes : Computes (.plain .safe none .none) depth 0 "*" (.number .nowhere y text) s₀ (.number (x * y)) s₀ :=
    .product rfl hdepth hread hx hy .nowhere text
  constructor
  · obtain ⟨t, n, hassign⟩ := compound_of_computes (i := .nowhere) (j := .nowhere) rfl rfl hbound hop hcomputes
    exact ⟨t, completes_assign_iff.mpr ⟨s₀, htick, n, hassign⟩⟩
  · intro t h
    obtain ⟨s₁, htick', n, hassign⟩ := completes_assign_iff.mp h
    cases htick'
    obtain ⟨v, w, hdeeper, hfinite, -⟩ := plain_computes rfl rfl hbound hop hassign
    obtain ⟨hhere, hfits⟩ := (Computes.deeper_iff rfl rfl).mp hdeeper
    obtain ⟨rfl, -⟩ := hhere.unique rfl hcomputes
    simp only [Expr.height] at hfits
    exact ⟨hfinite _ rfl, by omega⟩

/-- The two forms do not succeed alike. `x *= 10` leaves an infinite number in `x` where `x = x * 10` is refused, and
where only one more expression may be nested, there is no room for the number 3 in `x = x * 3`. -/
theorem compound_succeeds_alone :
    (RunState.holding (.number 1e308)).find? "x" = some (.cell 0) ∧
      (∃ t, CompletesPlainly 0 (.compound "*" (.number .nowhere 10 "10")) (.holding (.number 1e308)) t) ∧
      (¬∃ t, CompletesPlainly 0 (.expanded "*" (.number .nowhere 10 "10")) (.holding (.number 1e308)) t) ∧
      (∃ t, CompletesPlainly 9999 (.compound "*" (.number .nowhere 3 "3")) (.holding (.number 2)) t) ∧
      ¬∃ t, CompletesPlainly 9999 (.expanded "*" (.number .nowhere 3 "3")) (.holding (.number 2)) t := by
  have hlarge : Number.isFinite 1e308 = true := by decide +kernel
  have hten : Number.isFinite 10 = true := by decide +kernel
  have htwo : Number.isFinite 2 = true := by decide +kernel
  have hthree : Number.isFinite 3 = true := by decide +kernel
  have hproduct : Number.isFinite (1e308 * 10) = false := by decide +kernel
  obtain ⟨hcompound, hexpanded⟩ := completes_product hlarge hten "10" (show 0 < maxEvalDepth by decide)
  obtain ⟨hdeepCompound, hdeepExpanded⟩ := completes_product htwo hthree "3" (show 9999 < maxEvalDepth by decide)
  refine ⟨rfl, hcompound, ?_, hdeepCompound, ?_⟩
  · rintro ⟨t, h⟩
    obtain ⟨hfinite, -⟩ := hexpanded t h
    rw [hproduct] at hfinite
    cases hfinite
  · rintro ⟨t, h⟩
    obtain ⟨-, hroom⟩ := hdeepExpanded t h
    exact absurd hroom (by decide)

end Primer
