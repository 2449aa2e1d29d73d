import Primer.Proofs.Element.Memory
import Primer.Proofs.Operand.Compound

/-!
# When operands are read

Without checks, an operation evaluates all its operands from left to right before it reads any of them. An operand that
evaluated to a place, such as a variable or an element, contributes what the place holds when the last operand has been
evaluated. A function that is called for a later operand may have written to the place by then.

* What operands contribute is read in one state, the last one (`eval_combines`).
* An expression that calls nothing writes to no place (`RunState.Undisturbed`), so an operand before such ones
  contributes what it showed at its own moment. So does one that is no place that can change (`Evaluates.shows`).
-/

set_option autoImplicit false

namespace Primer

open Run

variable {σ : Type} {cfg : Setting σ}

/-! ## Reading places -/

/-- Hosts whose variables are read without effect: what they give is a matter of the state of the hosts only. -/
def Hosts.ReadsOnly (hosts : Hosts σ) : Prop :=
  ∀ key host, ∃ answer, ∀ memory, hosts.get key host memory = (answer, host, memory)

/-- Whether what is read from a place is a matter of the state. -/
def Value.isLive : Value → Bool
  | .cell _ | .arrayLength _ | .hostVariable _ => true
  | _ => false

/-- The cell or array that a place leads to is in memory. -/
def Value.IsThere (m : Memory) : Value → Prop
  | .cell r => r < m.cells.size
  | .arrayLength a => a < m.arrays.size
  | _ => True

/-- Reading a place gives a value and changes nothing. -/
def RunState.Shows (cfg : Setting σ) (s : RunState σ) (place v : Value) : Prop :=
  ∀ e, take cfg e place s = .done v s

variable {s t u : RunState σ} {e : Expr} {p v w : Value} {n m depth : Nat}

/-- Without checks a place is taken without checks. -/
theorem take_of_raw (hraw : cfg.isRaw = true) (e : Expr) (v : Value) : take cfg e v = takeUnchecked cfg e v := by
  simp [take, hraw]

/-- A variable of the hosts that was read gives the same wherever its hosts are in that state. -/
theorem readHost_of_readsOnly (hreads : cfg.hosts.ReadsOnly) {g : HostVariable} (h : readHost cfg e g s = .done w u) :
    u = s ∧ ∀ e' t, t.host = s.host → readHost cfg e' g t = .done w t := by
  obtain ⟨answer, hanswer⟩ := hreads g.key s.host
  obtain ⟨v, host, memory, hget, rfl, rfl⟩ := readHost_eq_done h
  rw [hanswer] at hget
  cases hget
  refine ⟨rfl, ?_⟩
  intro e' t hsame
  unfold readHost
  rw [hsame, hanswer, ← hsame]

/-- Without checks a member is what an object has under the name, or undefined. -/
theorem memberAction_eq_done (hraw : cfg.isRaw = true) {info : Info} {object : Expr} {property : String} {o : Value}
    (h : memberAction cfg info object property o s = .done v u) :
    ∃ x, take cfg object o s = .done x u ∧ (v = .undefined ∨ memberOf? cfg u property x = some (some v)) := by
  obtain ⟨x, s₁, hx, hrest⟩ := Run.bind_eq_done h
  obtain ⟨found, s₂, hfound, hlast⟩ := Run.bind_eq_done hrest
  obtain ⟨rfl, rfl⟩ : s₂ = s₁ ∧ memberOf? cfg s₁ property x = found := by
    cases hfound
    exact ⟨rfl, rfl⟩
  cases hmember : memberOf? cfg s₂ property x with
  | none =>
    rw [hmember] at hlast
    cases hlast
  | some answer =>
    rw [hmember] at hlast
    cases answer with
    | none =>
      simp only [hraw, if_true] at hlast
      cases hlast
      exact ⟨x, hx, .inl rfl⟩
    | some member =>
      cases hlast
      exact ⟨x, hx, .inr hmember⟩

section Reading

variable (hraw : cfg.isRaw = true) (hreads : cfg.hosts.ReadsOnly)

include hraw hreads

/-- What is read is there to be read, for any expression and as often as one likes. -/
theorem shows_of_take (h : take cfg e p s = .done w u) : u = s ∧ s.Shows cfg p w := by
  unfold RunState.Shows
  simp only [take_of_raw hraw] at h ⊢
  cases p
  case hostVariable g =>
    obtain ⟨rfl, hagain⟩ := readHost_of_readsOnly hreads h
    exact ⟨rfl, fun e' => hagain e' u rfl⟩
  all_goals
    cases h
    exact ⟨rfl, fun _ => rfl⟩

/-- What several operands contribute is read in one state, which stays as it is. -/
theorem reads_of_takeAll {es : List Expr} {ps ws : List Value} (hlength : es.length = ps.length)
    (h : takeAll cfg es ps s = .done ws u) : u = s ∧ List.Forall₂ (s.Shows cfg) ps ws := by
  induction es generalizing s u ps ws with
  | nil =>
    cases ps with
    | nil =>
      cases h
      exact ⟨rfl, .nil⟩
    | cons p ps => cases hlength
  | cons e es ih =>
    cases ps with
    | nil => cases hlength
    | cons p ps =>
      simp only [takeAll] at h
      obtain ⟨w, s₁, hw, hrest⟩ := Run.bind_eq_done h
      obtain ⟨rfl, hshows⟩ := shows_of_take hraw hreads hw
      obtain ⟨ws', s₂, hws, hlast⟩ := Run.bind_eq_done hrest
      obtain ⟨rfl, hall⟩ := ih (Nat.succ.inj hlength) hws
      cases hlast
      exact ⟨rfl, .cons hshows hall⟩

omit hreads in
/-- What is no place that can change shows the same in all states. -/
theorem shows_of_not_live (hp : p.isLive = false) (h : t.Shows cfg p w) : s.Shows cfg p w := by
  intro e
  have hread := h e
  rw [take_of_raw hraw] at hread ⊢
  cases p
  case cell | arrayLength | hostVariable => cases hp
  all_goals
    cases hread
    rfl

end Reading

/-! ## States in which nothing was written -/

/-- A state in which all places from before show the same: hosts are where they were, and memory only has more cells
and more arrays, or cells in the holes of arrays. -/
structure RunState.Undisturbed (s u : RunState σ) : Prop where
  host : u.host = s.host
  grown : s.memory.Grown (fun _ => True) u.memory
  arrays : s.memory.arrays.size ≤ u.memory.arrays.size
  length : ∀ a < s.memory.arrays.size, u.memory.size a = s.memory.size a

namespace RunState.Undisturbed

/-- A state is not disturbed by doing nothing. -/
theorem refl (s : RunState σ) : s.Undisturbed s := ⟨rfl, .refl _, Nat.le_refl _, fun _ _ => rfl⟩

/-- Not being disturbed passes on. -/
theorem trans (h : s.Undisturbed t) (h' : t.Undisturbed u) : s.Undisturbed u where
  host := h'.host.trans h.host
  grown := h.grown.trans h'.grown
  arrays := Nat.le_trans h.arrays h'.arrays
  length a ha := (h'.length a (Nat.lt_of_lt_of_le ha h.arrays)).trans (h.length a ha)

/-- A place that is there shows what it showed. -/
theorem shows (h : s.Undisturbed u) (hraw : cfg.isRaw = true) (hreads : cfg.hosts.ReadsOnly)
    (hp : p.IsThere s.memory) (hshows : u.Shows cfg p w) : s.Shows cfg p w := by
  by_cases hlive : p.isLive = true
  · intro e
    have hread := hshows e
    rw [take_of_raw hraw] at hread ⊢
    cases p
    case cell r =>
      have hcell : u.memory.read r = s.memory.read r := by
        unfold Memory.read
        rw [h.grown.old r hp]
      change Outcome.done (present (u.memory.read r)) u = _ at hread
      rw [hcell] at hread
      cases hread
      rfl
    case arrayLength a =>
      change Outcome.done (Value.number (Number.ofLength (u.memory.size a))) u = _ at hread
      rw [h.length a hp] at hread
      cases hread
      rfl
    case hostVariable g =>
      obtain ⟨-, hagain⟩ := readHost_of_readsOnly hreads hread
      exact hagain e s h.host.symm
    all_goals cases hlive
  · exact shows_of_not_live hraw (Bool.eq_false_iff.mpr hlive) hshows

/-- A new array disturbs nothing. -/
theorem arrayAction {vs : List Value} (h : arrayAction vs s = .done v u) : s.Undisturbed u := by
  have harrays := s.memory.size_arrays_newArray vs
  cases h
  refine ⟨rfl, s.memory.grown_newArray fun _ _ => trivial, ?_, fun a ha => Memory.size_newArray ha vs⟩
  exact Nat.le_trans (Nat.le_succ _) (Nat.le_of_eq harrays.symm)

section Actions

variable (hraw : cfg.isRaw = true) (hreads : cfg.hosts.ReadsOnly)

include hraw hreads

/-- Looking up a member leaves the state as it is. -/
theorem memberAction {info : Info} {object : Expr} {property : String} {o : Value}
    (h : memberAction cfg info object property o s = .done v u) : u = s := by
  obtain ⟨x, hx, -⟩ := memberAction_eq_done hraw h
  exact (shows_of_take hraw hreads hx).1

/-- Looking up an element disturbs nothing. -/
theorem elementAction {info : Info} {base position : Expr} {a i : Value}
    (h : elementAction cfg info base position a i s = .done v u) : s.Undisturbed u := by
  rw [elementAction_eq] at h
  obtain ⟨x, s₁, hx, hrest⟩ := Run.bind_eq_done h
  obtain ⟨rfl, -⟩ := shows_of_take hraw hreads hx
  obtain ⟨y, s₂, hy, hlast⟩ := Run.bind_eq_done hrest
  obtain ⟨rfl, -⟩ := shows_of_take hraw hreads hy
  cases y
  case number y =>
    simp only [hraw, if_true] at hlast
    by_cases hwhole : Number.isWhole y = true
    · by_cases hsign : y < 0.0
      · simp only [hwhole, hsign, Bool.not_true, if_true] at hlast
        cases hlast
        exact .refl _
      · simp only [hwhole, hsign, Bool.not_true] at hlast
        cases x with
        | array a =>
          cases hlast
          exact ⟨rfl, (s₂.memory.grown_slot trivial a (indexOf y)).1, Nat.le_of_eq (Memory.size_arrays_slot ..).symm,
            fun b _ => Memory.size_slot ..⟩
        | _ => cases hlast
    · simp only [hwhole, Bool.not_false, if_true] at hlast
      cases hlast
      exact .refl _
  all_goals
    simp only [hraw, if_true] at hlast
    cases hlast
    exact .refl _

end Actions

end RunState.Undisturbed

/-! ## Operations -/

/-- The operands of an operation, in the order in which they are evaluated. The operators that may leave their right
operand out are none. -/
def Expr.operands : Expr → List Expr
  | .binary _ left symbol right => if isLogical symbol then [] else [left, right]
  | .call _ callee args => callee :: args
  | _ => []

/-- What an operation does without checks once it has the values of its operands. -/
def Expr.combine (cfg : Setting σ) (n depth : Nat) : Expr → List Value → Run σ Value
  | .binary _ _ symbol _, [x, y] => asks fun s => s.memory.unchecked symbol x y
  | .call info callee _, f :: values => do
    enterCall cfg info
    let result ← (match f with
      | .function g => callFunction cfg n depth info g values
      | .hostFunction g => do
        let action ← asks fun s => cfg.hosts.call g.key (s.view cfg.strategy) s.host s.memory values
        runHost cfg n depth info (.call callee) action
      | _ => raise .reference info ("Variable <var>" ++ callee.code ++ "</var> is not a function"))
    leaveCall
    match result with
    | .absent | .null | .undefined => pure .undefined
    | v => pure v
  | _, _ => exhausted

/-- A setting without checks has the raw strategy. -/
theorem strategy_of_raw (hraw : cfg.isRaw = true) : cfg.strategy = .raw := of_decide_eq_true hraw

section Operations

variable (hraw : cfg.isRaw = true)

include hraw

/-- Without checks no command is recorded. -/
theorem record_of_raw (info : Info) (tag : String) : record cfg info tag = pure () := by
  simp [record, hraw]

/-- Without checks no step is narrated. -/
theorem narrate_of_raw (category : Category) (node : NodeId) (message : Memory → String)
    (changes : Unit → List Change) : narrate cfg category node message changes = pure () := by
  simp [narrate, strategy_of_raw hraw]

/-- A binary operation reads its operands and combines what it read. -/
theorem binaryAction_of_raw (n depth : Nat) (info : Info) (left : Expr) (symbol : String) (right : Expr) (a b : Value) :
    binaryAction cfg info left symbol right a b =
      takeAll cfg [left, right] [a, b] >>= (Expr.binary info left symbol right).combine cfg n depth := by
  funext s
  simp only [binaryAction_eq, takeOperands, applyBinary_eq, record_of_raw hraw, narrate_of_raw hraw, binaryValue, hraw,
    if_true, takeAll, bind, Run.andThen, Run.onFailure, pure, Run.value]
  cases take cfg left a s with
  | done x s₁ =>
    dsimp only
    cases take cfg right b s₁ <;> rfl
  | failed | exhausted => rfl

/-- A call reads its function and its arguments and combines what it read. -/
theorem call_of_raw (info : Info) (callee : Expr) (args : List Expr) (f : Value) (given : List Value) :
    call cfg (n + 1) depth info callee args f given =
      takeAll cfg (callee :: args) (f :: given) >>= (Expr.call info callee args).combine cfg n depth := by
  funext s
  simp only [call, written_callLabel, narrating_described, record_of_raw hraw, narrate_of_raw hraw]
  simp only [takeAll, bind, Run.andThen, pure, Run.value, asks]
  cases take cfg callee f s with
  | done f s₁ =>
    dsimp only
    cases takeAll cfg args given s₁ with
    | done values s₂ =>
      simp only [Expr.combine]
      cases f <;> rfl
    | failed | exhausted => rfl
  | failed | exhausted => rfl

end Operations

/-! ## Expressions that call nothing -/

/-- Expressions that call nothing write to no place. -/
structure Undisturbing (cfg : Setting σ) (n : Nat) : Prop where
  eval : ∀ {depth e v} {s u : RunState σ}, Expr.callsNothing e = true →
    eval cfg n depth e s = .done v u → s.Undisturbed u
  evalTaken : ∀ {depth es vs} {s u : RunState σ}, Expr.allCallNothing es = true →
    evalTaken cfg n depth es s = .done vs u → s.Undisturbed u
  evalLogical : ∀ {depth left symbol right v} {s u : RunState σ}, Expr.callsNothing left = true →
    Expr.callsNothing right = true → evalLogical cfg n depth left symbol right s = .done v u → s.Undisturbed u

namespace Undisturbing

variable (hraw : cfg.isRaw = true) (hreads : cfg.hosts.ReadsOnly)

include hraw hreads

/-- Without checks a binary operation leaves the state as it is. -/
theorem binaryAction {info : Info} {left right : Expr} {symbol : String} {a b : Value}
    (h : binaryAction cfg info left symbol right a b s = .done v u) : u = s := by
  rw [binaryAction_of_raw hraw 0 0] at h
  obtain ⟨ws, s₁, hws, hlast⟩ := Run.bind_eq_done h
  obtain ⟨rfl, hall⟩ := reads_of_takeAll hraw hreads rfl hws
  cases hall with
  | cons _ hall =>
    cases hall with
    | cons _ hall =>
      cases hall
      cases hlast
      rfl

/-- Without checks a sign leaves the state as it is. -/
theorem unaryAction {info : Info} {symbol : String} {operand : Expr} {a : Value}
    (h : unaryAction cfg info symbol operand a s = .done v u) : u = s := by
  rw [unaryAction_eq] at h
  simp only [record_of_raw hraw, narrate_of_raw hraw, unaryValue, hraw, if_true] at h
  obtain ⟨⟨⟩, s₁, hrecorded, hrest⟩ := Run.bind_eq_done h
  cases hrecorded
  obtain ⟨x, s₂, hx, hlast⟩ := Run.bind_eq_done hrest
  obtain ⟨rfl, -⟩ := shows_of_take hraw hreads hx
  cases hlast
  rfl

/-- An expression that calls nothing disturbs nothing, if its parts do not. -/
theorem eval_succ (ih : Undisturbing cfg n) {e : Expr} (he : e.callsNothing = true)
    (h : Primer.eval cfg (n + 1) depth e s = .done v u) : s.Undisturbed u := by
  by_cases hdeep : maxEvalDepth ≤ depth
  · simp only [Primer.eval, if_pos hdeep] at h
    cases h
  · cases e with
    | number | string | boolean | null =>
      simp only [Primer.eval, if_neg hdeep] at h
      cases h
      exact .refl _
    | name info x =>
      simp only [Primer.eval, if_neg hdeep, nameAction] at h
      generalize s.find? x = found at h
      cases found <;> cases h
      exact .refl _
    | call => cases he
    | member info object property =>
      simp only [Expr.callsNothing] at he
      simp only [Primer.eval, if_neg hdeep] at h
      obtain ⟨o, s₁, ho, haction⟩ := Run.bind_eq_done h
      obtain rfl := RunState.Undisturbed.memberAction hraw hreads haction
      exact ih.eval he ho
    | element info base position =>
      simp only [Expr.callsNothing, Bool.and_eq_true] at he
      simp only [Primer.eval, if_neg hdeep] at h
      obtain ⟨a, s₁, ha, hrest⟩ := Run.bind_eq_done h
      obtain ⟨i, s₂, hi, haction⟩ := Run.bind_eq_done hrest
      have hfirst := ih.eval he.1 ha
      have hsecond := ih.eval he.2 hi
      exact (hfirst.trans hsecond).trans (.elementAction hraw hreads haction)
    | array info items =>
      simp only [Expr.callsNothing] at he
      simp only [Primer.eval, if_neg hdeep] at h
      split at h
      · cases h
      · obtain ⟨vs, s₁, hvs, haction⟩ := Run.bind_eq_done h
        exact (ih.evalTaken he hvs).trans (.arrayAction haction)
    | binary info left symbol right =>
      simp only [Expr.callsNothing, Bool.and_eq_true] at he
      simp only [Primer.eval, if_neg hdeep] at h
      split at h
      · exact ih.evalLogical he.1 he.2 h
      · obtain ⟨a, s₁, ha, hrest⟩ := Run.bind_eq_done h
        obtain ⟨b, s₂, hb, haction⟩ := Run.bind_eq_done hrest
        obtain rfl := binaryAction hraw hreads haction
        exact (ih.eval he.1 ha).trans (ih.eval he.2 hb)
    | unary info symbol operand =>
      simp only [Expr.callsNothing] at he
      simp only [Primer.eval, if_neg hdeep] at h
      obtain ⟨a, s₁, ha, haction⟩ := Run.bind_eq_done h
      obtain rfl := unaryAction hraw hreads haction
      exact ih.eval he ha

/-- Expressions that call nothing disturb nothing when they are taken. -/
theorem evalTaken_succ (ih : Undisturbing cfg n) {es : List Expr} {vs : List Value}
    (hes : Expr.allCallNothing es = true) (h : Primer.evalTaken cfg (n + 1) depth es s = .done vs u) :
    s.Undisturbed u := by
  cases es with
  | nil =>
    cases h
    exact .refl _
  | cons e es =>
    simp only [Expr.allCallNothing, Bool.and_eq_true] at hes
    simp only [Primer.evalTaken] at h
    obtain ⟨v, s₁, hv, hrest⟩ := Run.bind_eq_done h
    obtain ⟨w, s₂, hw, hlater⟩ := Run.bind_eq_done hrest
    obtain ⟨rfl, -⟩ := shows_of_take hraw hreads hw
    obtain ⟨ws, s₃, hws, hlast⟩ := Run.bind_eq_done hlater
    cases hlast
    exact (ih.eval hes.1 hv).trans (ih.evalTaken hes.2 hws)

/-- A logical operation that calls nothing disturbs nothing. -/
theorem evalLogical_succ (ih : Undisturbing cfg n) {left right : Expr} {symbol : String}
    (hleft : left.callsNothing = true) (hright : right.callsNothing = true)
    (h : Primer.evalLogical cfg (n + 1) depth left symbol right s = .done v u) : s.Undisturbed u := by
  simp only [Primer.evalLogical, ← take_of_raw hraw] at h
  obtain ⟨a, s₁, ha, hrest⟩ := Run.bind_eq_done h
  obtain ⟨x, s₂, hx, hdecided⟩ := Run.bind_eq_done hrest
  obtain ⟨rfl, -⟩ := shows_of_take hraw hreads hx
  obtain ⟨truthy, s₃, htruthy, hbranch⟩ := Run.bind_eq_done hdecided
  obtain rfl : s₃ = s₂ := by
    cases htruthy
    rfl
  split at hbranch
  · cases hbranch
    exact ih.eval hleft ha
  · obtain ⟨b, s₄, hb, hlast⟩ := Run.bind_eq_done hbranch
    obtain ⟨rfl, -⟩ := shows_of_take hraw hreads hlast
    exact (ih.eval hleft ha).trans (ih.eval hright hb)

/-- No expression that calls nothing disturbs anything. -/
theorem all (n : Nat) : Undisturbing cfg n := by
  induction n with
  | zero =>
    constructor
    · intro depth e v s u _ h
      cases h
    · intro depth es vs s u _ h
      cases h
    · intro depth left symbol right v s u _ _ h
      cases h
  | succ n ih =>
    exact ⟨eval_succ hraw hreads ih, evalTaken_succ hraw hreads ih, evalLogical_succ hraw hreads ih⟩

end Undisturbing

/-! ## Moments -/

/-- An operand at its moment: the place or value that it evaluated to, and the state right after that. -/
structure Moment (σ : Type) where
  operand : Expr
  place : Value
  state : RunState σ

/-- Several operands are evaluated one after the other, each at its moment. -/
inductive Evaluates (cfg : Setting σ) (depth : Nat) :
    List Expr → RunState σ → List (Moment σ) → RunState σ → Prop where
  | nil {s : RunState σ} : Evaluates cfg depth [] s [] s
  | cons {n : Nat} {e : Expr} {es : List Expr} {s u t : RunState σ} {p : Value} {ms : List (Moment σ)}
    (hfirst : eval cfg n depth e s = .done p u) (hrest : Evaluates cfg depth es u ms t) :
    Evaluates cfg depth (e :: es) s (⟨e, p, u⟩ :: ms) t

/-- More room for recursion changes nothing about an expression that is done. -/
theorem eval_mono (hnm : n ≤ m) (h : eval cfg n depth e s = .done v u) : eval cfg m depth e s = .done v u := by
  have hmono := Task.run_mono cfg hnm (.eval depth e) s
  simp only [Task.run, h, ne_eq, reduceCtorEq, not_false_eq_true, true_implies] at hmono
  exact hmono

namespace Evaluates

variable {es : List Expr} {ms : List (Moment σ)}

/-- The evaluated operands are those of the moments. -/
theorem operands_eq (h : Evaluates cfg depth es s ms t) : es = ms.map Moment.operand := by
  induction h with
  | nil => rfl
  | cons _ _ ih => rw [ih, List.map_cons]

/-- With enough room for recursion the operands are evaluated to their places. -/
theorem evalAll (h : Evaluates cfg depth es s ms t) :
    ∃ N, ∀ n ≥ N, evalAll cfg n depth es s = .done (ms.map Moment.place) t := by
  induction h with
  | nil =>
    refine ⟨1, ?_⟩
    intro n hn
    cases n with
    | zero => cases hn
    | succ n => rfl
  | @cons k e es s p u ms t hfirst _ ih =>
    obtain ⟨N, hN⟩ := ih
    refine ⟨max k N + 1, ?_⟩
    intro n hn
    cases n with
    | zero => omega
    | succ n =>
      simp only [Primer.evalAll]
      rw [Run.bind_of_done (eval_mono (show k ≤ n by omega) hfirst), Run.bind_of_done (hN n (by omega))]
      rfl

/-- Operands that call nothing write to no place. -/
theorem undisturbed (hraw : cfg.isRaw = true) (hreads : cfg.hosts.ReadsOnly) (h : Evaluates cfg depth es s ms t)
    (hcalls : ∀ m ∈ ms, m.operand.callsNothing = true) : s.Undisturbed t := by
  induction h with
  | nil => exact .refl _
  | cons hfirst _ ih =>
    obtain ⟨he, hes⟩ := List.forall_mem_cons.mp hcalls
    exact ((Undisturbing.all hraw hreads _).eval he hfirst).trans (ih hes)

/-- The operands behind a moment are evaluated after it. -/
theorem behind {before after : List (Moment σ)} {m : Moment σ}
    (h : Evaluates cfg depth es s (before ++ m :: after) t) :
    ∃ later, Evaluates cfg depth later m.state after t := by
  induction before generalizing es s with
  | nil =>
    cases h with
    | cons _ hrest => exact ⟨_, hrest⟩
  | cons m' before ih =>
    cases h with
    | cons _ hrest => exact ih hrest

end Evaluates

/-- A binary operation other than `&&` and `||` evaluates both its operands. -/
theorem eval_binary_of_operands (hdepth : ¬maxEvalDepth ≤ depth) (n : Nat) (info : Info) (left : Expr) {symbol : String}
    (hlogical : isLogical symbol = false) (right : Expr) :
    eval cfg (n + 1) depth (.binary info left symbol right) = (do
      let a ← eval cfg n (depth + 1) left
      let b ← eval cfg n (depth + 1) right
      binaryAction cfg info left symbol right a b) := by
  have hplain : (symbol = "&&" || symbol = "||") = false := hlogical
  simp only [eval, if_neg hdepth, hplain, Bool.and_false, Bool.false_eq_true, if_false]

/-- A call evaluates its callee, then its arguments, then enters the function. -/
theorem eval_call_of_operands (hdepth : ¬maxEvalDepth ≤ depth) (n : Nat) (info : Info) (callee : Expr)
    (args : List Expr) :
    eval cfg (n + 1) depth (.call info callee args) = (do
      let f ← eval cfg n (depth + 1) callee
      let vs ← evalAll cfg n (depth + 1) args
      call cfg n (depth + 1) info callee args f vs) := by
  simp only [eval, if_neg hdepth]

/-- Once the operands of an operation have been evaluated it reads all of them, and goes on with what it read. -/
theorem eval_of_evaluates (hraw : cfg.isRaw = true) {ms : List (Moment σ)} (hoperands : e.operands ≠ [])
    (h : Evaluates cfg (depth + 1) e.operands s ms t) : ∃ N, ∀ n ≥ N, eval cfg (n + 2) depth e s =
      (takeAll cfg e.operands (ms.map Moment.place) >>= e.combine cfg n (depth + 1)) t := by
  cases e with
  | binary info left symbol right =>
    cases hlogical : isLogical symbol with
    | true => simp [Expr.operands, hlogical] at hoperands
    | false =>
      simp only [Expr.operands, hlogical, Bool.false_eq_true, if_false] at h ⊢
      cases h with
      | @cons k _ _ _ a u _ _ hleft hrest =>
        cases hrest with
        | @cons l _ _ _ b _ _ _ hright hnone =>
          cases hnone
          have hdepth : ¬maxEvalDepth ≤ depth := by
            have hfits := not_deep_of_eval hleft
            omega
          refine ⟨max k l, ?_⟩
          intro n hn
          rw [eval_binary_of_operands hdepth (n + 1) info left hlogical right,
            Run.bind_of_done (eval_mono (show k ≤ n + 1 by omega) hleft),
            Run.bind_of_done (eval_mono (show l ≤ n + 1 by omega) hright), binaryAction_of_raw hraw n (depth + 1)]
          rfl
  | call info callee args =>
    simp only [Expr.operands] at h ⊢
    cases h with
    | @cons k _ _ _ f u _ _ hcallee hargs =>
      obtain ⟨N, hN⟩ := hargs.evalAll
      have hdepth : ¬maxEvalDepth ≤ depth := by
        have hfits := not_deep_of_eval hcallee
        omega
      refine ⟨max k N, ?_⟩
      intro n hn
      rw [eval_call_of_operands hdepth, Run.bind_of_done (eval_mono (show k ≤ n + 1 by omega) hcallee),
        Run.bind_of_done (hN (n + 1) (by omega)), call_of_raw hraw]
      rfl
  | _ => exact absurd rfl hoperands

/-- What several places show is taken from them. -/
theorem takeAll_of_shows {es : List Expr} {ps ws : List Value} (hlength : es.length = ps.length)
    (h : List.Forall₂ (s.Shows cfg) ps ws) : takeAll cfg es ps s = .done ws s := by
  induction h generalizing es with
  | nil =>
    cases es with
    | nil => rfl
    | cons e es => cases hlength
  | @cons p w ps ws hfirst _ ih =>
    cases es with
    | nil => cases hlength
    | cons e es =>
      simp only [takeAll]
      rw [Run.bind_of_done (hfirst e), Run.bind_of_done (ih (Nat.succ.inj hlength))]
      rfl

/-- An operation combines what the places of its operands show when all of them have been evaluated. -/
theorem eval_combines (hraw : cfg.isRaw = true) {ms : List (Moment σ)} {ws : List Value} (hoperands : e.operands ≠ [])
    (h : Evaluates cfg (depth + 1) e.operands s ms t)
    (hws : List.Forall₂ (fun (m : Moment σ) w => t.Shows cfg m.place w) ms ws) :
    ∃ N, ∀ n ≥ N, eval cfg (n + 2) depth e s = e.combine cfg n (depth + 1) ws t := by
  obtain ⟨N, hN⟩ := eval_of_evaluates hraw hoperands h
  have hlength : e.operands.length = (ms.map Moment.place).length := by
    rw [h.operands_eq, List.length_map, List.length_map]
  have htaken := takeAll_of_shows hlength (List.forall₂_map_left_iff.mpr hws)
  refine ⟨N, ?_⟩
  intro n hn
  rw [hN n hn, Run.bind_of_done htaken]

/-- An operand shows what it did at its own moment if it is no place that can change, or if all operands behind it call
nothing. -/
theorem Evaluates.shows (hraw : cfg.isRaw = true) (hreads : cfg.hosts.ReadsOnly) {es : List Expr}
    {before after : List (Moment σ)} {m : Moment σ} (h : Evaluates cfg depth es s (before ++ m :: after) t)
    (hthere : m.place.IsThere m.state.memory)
    (hkept : m.place.isLive = false ∨ ∀ later ∈ after, later.operand.callsNothing = true)
    (hw : t.Shows cfg m.place w) : m.state.Shows cfg m.place w := by
  rcases hkept with hfixed | hcalls
  · exact shows_of_not_live hraw hfixed hw
  · obtain ⟨later, hlater⟩ := h.behind
    exact (hlater.undisturbed hraw hreads hcalls).shows hraw hreads hthere hw

end Primer
