import Primer.Proofs.Control.Nesting
import Primer.Proofs.Control.Restored
import Primer.Proofs.Locals.Task
import Primer.Proofs.Run.Plain

/-!
# What calls leave alone, and what is stored

Two results about every state that a program comes by with the standard hosts. With checks, what lies in the cells of
variables and arrays is a value, neither null nor a place, and arguments and returned values can take part in
operations (`stored_values_well_formed`). With and without checks, a function can neither see nor change the variables
of the functions that wait for it: while it runs, names lead to its own scope and to the global one, and afterwards all
cells hold what they held, but for those of global variables and arrays (`locals_kept_by_calls`).

For the first nothing is set apart, and for the second everything is that a function should not get at.
-/

set_option autoImplicit false

namespace Primer

variable {σ : Type}

/-! ## Nothing set apart -/

/-- The reserve of nothing: all names may be mentioned, and all functions called. -/
def Reserve.nothing (checked : Bool) : Reserve where
  checked := checked
  level := 0
  outer _ := True
  inner _ := True
  binding _ := none
  cell _ := none
  body _ := True
  suspended := []
  closed b _ := Stmt.allWithin_all (fun _ => trivial) (fun _ => trivial) b
  beneath := Reserve.beneath_global
  room := Reserve.room_global

/-- A reserve of nothing allows all names. -/
theorem Reserve.names_nothing (checked : Bool) (ℓ : Nat) (x : String) : (Reserve.nothing checked).names ℓ x := by
  unfold Reserve.names
  split <;> exact trivial

/-- A run starts with nothing set apart. -/
theorem RunState.guards_plain {K : Reserve} (hlevel : K.level = 0) (houter : ∀ x, K.outer x)
    (hcell : ∀ r, K.cell r = none) (hsuspended : K.suspended = []) : RunState.plain.Guards K 0 := by
  let start : RunState (HostState Unit) := initialState ⟨Console.empty, ()⟩ Memory.empty []
  have hbinding (ℓ : Nat) (x : String) : start.binding ℓ x = none := by
    cases ℓ <;> rfl
  have hunlinked (r : CellRef) : ¬ start.memory.Linked r := by
    rintro ⟨a, i, hslot⟩
    cases hslot
  have hempty : start.Guards K 0 := by
    refine ⟨Nat.le_of_eq hlevel, rfl, ⟨?_, ?_, ?_, fun r hr => absurd hr (hunlinked r)⟩, ?_, ?_, fun r _ => hcell r,
      fun _ _ r _ _ => hcell r, fun x hx => absurd (houter x) hx, ?_⟩
    · intro ℓ x v hx
      rw [hbinding] at hx
      cases hx
    · intro ℓ ℓ' x y r hx
      rw [hbinding] at hx
      cases hx
    · intro ℓ x r hx
      rw [hbinding] at hx
      cases hx
    · intro r v hv
      cases hv
    · intro r v hr
      rw [hcell] at hr
      cases hr
    · rw [hsuspended]
      exact List.nil_suffix
  have hobject (key : ObjectKey) : (Value.object key).Stored K := ⟨rfl, trivial⟩
  have hname (x : String) : K.names 0 x := (if_pos hlevel.symm : K.names 0 x = _).mpr (houter x)
  exact (hempty.declare (hname "console") (hobject .console)).declare (hname "Math") (hobject .math)

/-- Whatever a program begins is begun with nothing set apart. -/
theorem Plan.Begins.bears_nothing {strategy : Strategy} {filter : Option CommandFilter} {limits : Limits}
    {body : List Stmt} {n k : Nat} {β : Type} {q : Plan (HostState Unit) β} {u : RunState (HostState Unit)}
    (h : (Plan.ask (.execAll 0 body)).Begins (.plain strategy filter limits) n .plain k q u) :
    (Reserve.nothing (!(Setting.plain strategy filter limits).isRaw)).Bears (.plain strategy filter limits) k q u := by
  have hbody := Stmt.allWithin_all (Reserve.names_nothing (!(Setting.plain strategy filter limits).isRaw) 0)
    (B := fun _ => True) (fun _ => trivial) body
  have hapart : (Setting.plain strategy filter limits).hosts.Apart := Hosts.apart_standard
  have hrun := Task.keeps hapart rfl n 0 (.execAll 0 body) hbody
  have hstart := RunState.guards_plain (K := .nothing (!(Setting.plain strategy filter limits).isRaw)) rfl
    (fun _ => trivial) (fun _ => rfl) rfl
  exact hrun.begins _ k β q u hstart h

/-! ## What is stored -/

/-- A cell that holds a value: neither nothing, nor null, nor a place. -/
def Memory.Holds (m : Memory) (r : CellRef) : Prop := ∃ v, m.cells[r]? = some v ∧ v.isStored true = true

/-- Names are bound to cells, and these and the cells in arrays hold values. -/
structure RunState.WellStored (s : RunState σ) : Prop where
  scopes : ∀ scope ∈ s.levels, ∀ x v, scope.find? x = some v → ∃ r, v = .cell r ∧ s.memory.Holds r
  slots : ∀ (a : ArrayRef) (r : CellRef), some r ∈ s.memory.slots a → s.memory.Holds r

/-- A state in which nothing is reserved is well stored. -/
theorem RunState.Guards.wellStored {s : RunState σ} {ℓ : Nat} (h : s.Guards (.nothing true) ℓ) : s.WellStored := by
  have hholds {r : CellRef} (hr : r < s.memory.cells.size) : s.memory.Holds r :=
    ⟨_, Array.getElem?_eq_getElem hr, (h.stored r _ (Array.getElem?_eq_getElem hr) rfl).kind⟩
  constructor
  · intro scope hscope x v hx
    obtain ⟨i, hi⟩ := List.mem_iff_getElem?.mp hscope
    have hbinding : s.binding i x = some v := by
      rw [RunState.binding, hi]
      exact hx
    obtain ⟨r, rfl, hr⟩ := h.separate.bound i x v hbinding
    exact ⟨r, rfl, hholds hr⟩
  · intro a r hr
    obtain ⟨i, hi⟩ := Array.mem_iff_getElem?.mp hr
    exact hholds (h.separate.linked r ⟨a, i, hi⟩)

/-- Arguments that are usable are bound to the parameters as they are, if there are enough of them. -/
theorem bindParams_of_isUsable (cfg : Setting σ) (info : Info) (ps : List String) {args : List Value}
    (hargs : ∀ v ∈ args, v.isUsable = true) (hlength : ps.length ≤ args.length) :
    bindParams cfg info ps args = pure (ps.zip args) := by
  induction ps generalizing args with
  | nil => rfl
  | cons p ps ih =>
    cases args with
    | nil => exact absurd hlength (Nat.not_succ_le_zero _)
    | cons v vs =>
      obtain ⟨hv, hvs⟩ := List.forall_mem_cons.mp hargs
      show (bindParam cfg info p v >>= fun v => bindParams cfg info ps vs >>= fun rest => pure ((p, v) :: rest)) = _
      rw [bindParam_of_isUsable cfg info p hv, ih hvs (Nat.le_of_succ_le_succ hlength)]
      rfl

/-- A function that is given usable values is entered, or there are too few of them. -/
theorem enterFunction_of_isUsable {cfg : Setting σ} (hchecked : cfg.isRaw = false) (info : Info) (f : UserFunction)
    {args : List Value} (hargs : ∀ v ∈ args, v.isUsable = true) (u : RunState σ) :
    (∃ w, enterFunction cfg info f args u = .done () w) ∨
      ∃ message, enterFunction cfg info f args u = .failed (.fault (u.faultAt .arity info message none)) u := by
  rw [enterFunction_eq, hchecked, Bool.not_false, Bool.true_and]
  by_cases hfew : args.length < f.params.length
  · rw [if_pos (decide_eq_true hfew)]
    exact .inr ⟨_, rfl⟩
  · rw [if_neg (by rw [decide_eq_false hfew]; exact Bool.false_ne_true)]
    rw [bindParams_of_isUsable cfg info f.params hargs (Nat.le_of_not_lt hfew)]
    refine .inl ?_
    unfold narrate
    split <;> exact ⟨_, rfl⟩

/-- With checks, for every program, filter and limits: in every state that the run comes by, names are bound to cells,
and these and the cells in arrays hold values. All arguments of functions and hosts are usable, and so is what a
function returns by an expression. If there are enough arguments, they are bound to the parameters as they are; if a
function cannot be entered, there are too few, and never is one of them undefined or null. -/
theorem stored_values_well_formed {strategy : Strategy} (hchecked : strategy ≠ .raw) (filter : Option CommandFilter)
    (limits : Limits) (body : List Stmt) (n : Nat) :
    (∀ e s, (Plan.ask (.execAll 0 body)).Reaches (.plain strategy filter limits) n .plain e s → s.WellStored) ∧
    (∀ k s depth info f args, (Plan.ask (.execAll 0 body)).Begins (.plain strategy filter limits) n .plain k
      (.ask (.callFunction depth info f args)) s → (∀ v ∈ args, v.isUsable = true) ∧
        (f.params.length ≤ args.length → ∀ u,
          bindParams (.plain strategy filter limits) info f.params args u = .done (f.params.zip args) u) ∧
        ∀ u, (∃ w, enterFunction (.plain strategy filter limits) info f args u = .done () w) ∨
          ∃ message, enterFunction (.plain strategy filter limits) info f args u =
            .failed (.fault (u.faultAt .arity info message none)) u) ∧
    (∀ k s depth info callee key args, (Plan.ask (.execAll 0 body)).Begins (.plain strategy filter limits) n .plain k
      (.hostCall depth info callee key args) s → ∀ v ∈ args, v.isUsable = true) ∧
    (∀ k s depth info e v u, (Plan.ask (.execAll 0 body)).Begins (.plain strategy filter limits) n .plain k
      (.ask (.execReturn depth info (some e))) s →
        execReturn (.plain strategy filter limits) k depth info (some e) s = .done (some v) u → v.isUsable = true) := by
  have hraw : (Setting.plain strategy filter limits).isRaw = false := by
    cases strategy with
    | raw => exact absurd rfl hchecked
    | safe | stepped => rfl
  have hstrict : (!(Setting.plain strategy filter limits).isRaw) = true := by rw [hraw, Bool.not_false]
  have hbears {k : Nat} {β : Type} {q : Plan (HostState Unit) β} {s : RunState (HostState Unit)}
      (h : (Plan.ask (.execAll 0 body)).Begins (.plain strategy filter limits) n .plain k q s) :
      (Reserve.nothing true).Bears (.plain strategy filter limits) k q s := by
    rw [← hstrict]
    exact h.bears_nothing
  refine ⟨?_, ?_, ?_, ?_⟩
  · intro e s hreached
    obtain ⟨k, γ, q, t, hbegun, hborder⟩ := hreached.begun
    obtain ⟨ℓ, done, failed, ht, -, hends⟩ := hbears hbegun
    cases hborder with
    | start => exact ht.wellStored
    | done h =>
      rw [h] at hends
      cases hends with
      | done hs _ => exact hs.wellStored
    | failed h =>
      rw [h] at hends
      cases hends with
      | failed hs => exact hs.wellStored
  · intro k s depth info f args hbegun
    obtain ⟨ℓ, done, failed, -, ⟨-, hargs⟩, -⟩ := hbears hbegun
    have husable : ∀ v ∈ args, v.isUsable = true := fun v hv => (hargs v hv).usable rfl
    refine ⟨husable, ?_, enterFunction_of_isUsable hraw info f husable⟩
    intro hlength u
    rw [bindParams_of_isUsable _ info f.params husable hlength]
    rfl
  · intro k s depth info callee key args hbegun
    obtain ⟨ℓ, done, failed, -, hargs, -⟩ := hbears hbegun
    exact fun v hv => (hargs v hv).usable rfl
  · intro k s depth info e v u hbegun hrun
    obtain ⟨ℓ, done, failed, hs, hwithin, -⟩ := hbears hbegun
    have hapart : (Setting.plain strategy filter limits).hosts.Apart := Hosts.apart_standard
    have hreturn := (Task.keeps hapart hstrict.symm k ℓ (.execReturn depth info (some e)) hwithin).run s hs
    change (execReturn (.plain strategy filter limits) k depth info (some e) s).Keeps _ ℓ ℓ _ at hreturn
    rw [hrun] at hreturn
    cases hreturn with
    | done _ hv => exact (hv v rfl).usable rfl

/-- A program that calls a function with the result of a call of it is left with values only, in five cells. -/
theorem stored_values_well_formed_call_in_call : Strategy.safe ≠ .raw ∧
    ∃ u, execAll (.plain .safe none .none) 20 0 callInCall .plain = .done none u ∧ u.memory.cells.size = 5 ∧
      u.WellStored := by
  have hran : (execAll (.plain .safe none .none) 20 0 callInCall .plain).gives (fun returned u =>
      returned.isNone && u.memory.cells.size == 5) = true := by
    decide +kernel
  refine ⟨by decide, ?_⟩
  generalize hrun : execAll (.plain .safe none .none) 20 0 callInCall .plain = o at hran
  cases o with
  | done returned u =>
    obtain ⟨hnone, hsize⟩ := Bool.and_eq_true_iff.mp hran
    cases Option.isNone_iff_eq_none.mp hnone
    have hstored := (stored_values_well_formed (by decide) none .none callInCall 20).1 none u (.border (.done hrun))
    exact ⟨u, rfl, eq_of_beq hsize, hstored⟩
  | failed e u => cases hran
  | exhausted => cases hran

/-! ## What a call leaves alone -/

/-- A cell in an array, or that of a global variable. -/
def RunState.Shares (s : RunState σ) (r : CellRef) : Prop :=
  s.memory.Linked r ∨ ∃ x, s.globals.find? x = some (.cell r)

/-- The scope of a frame is at some level above the global one. -/
theorem RunState.binding_of_mem {s : RunState σ} {frame : Frame} (h : frame ∈ s.frames) :
    ∃ i, i ≠ 0 ∧ ∀ x, s.binding i x = frame.scope.find? x := by
  have hscope : frame.scope ∈ (s.frames.map Frame.scope).reverse :=
    List.mem_reverse.mpr (List.mem_map_of_mem h)
  obtain ⟨i, hi⟩ := List.mem_iff_getElem?.mp hscope
  refine ⟨i + 1, Nat.succ_ne_zero i, ?_⟩
  intro x
  show ((s.frames.map Frame.scope).reverse[i]?.bind fun scope => scope.find? x) = _
  rw [hi]
  rfl

/-- A variable of a function lives in a cell that is neither in an array nor that of a global variable. -/
theorem RunState.Separate.not_shares {s : RunState σ} (h : s.Separate) {frame : Frame} (hframe : frame ∈ s.frames)
    {x : String} {v : Value} (hx : frame.scope.find? x = some v) :
    ∃ r, v = .cell r ∧ r < s.memory.cells.size ∧ ¬ s.Shares r := by
  obtain ⟨i, hi, hscope⟩ := RunState.binding_of_mem hframe
  have hbinding := (hscope x).trans hx
  obtain ⟨r, rfl, hr⟩ := h.bound i x v hbinding
  refine ⟨r, rfl, hr, ?_⟩
  rintro (hlinked | ⟨y, hy⟩)
  · exact h.unlinked i x r hbinding hlinked
  · exact hi (h.owner i 0 x y r hbinding hy).1

open Classical in
/-- What is set apart from a call: all that is neither in an array nor that of a global variable. -/
noncomputable def Reserve.ofCaller (checked : Bool) (u : RunState σ) : Reserve where
  checked := checked
  level := u.frames.length
  outer _ := False
  inner _ := True
  binding x := u.binding u.frames.length x
  cell r := if u.Shares r then none else u.memory.cells[r]?
  body _ := True
  suspended := u.frames
  closed b _ := Stmt.allWithin_all (fun _ => trivial) (fun _ => trivial) b
  beneath := Nat.le_refl _
  room _ h := h.elim

/-- The reserve of a caller holds the cells it does not share. -/
theorem Reserve.cell_ofCaller {checked : Bool} {u : RunState σ} {r : CellRef} (h : ¬ u.Shares r) :
    (Reserve.ofCaller checked u).cell r = u.memory.cells[r]? := if_neg h

/-- A state guards the cells that its functions do not share. -/
theorem RunState.Guards.ofCaller {checked : Bool} {u : RunState σ} {ℓ : Nat} (h : u.Guards (.nothing checked) ℓ) :
    u.Guards (.ofCaller checked u) ℓ := by
  have hlevel := h.frames
  subst hlevel
  refine ⟨Nat.le_refl _, rfl, h.separate, ?_, ?_, fun r hr => if_pos (.inl hr), ?_, fun _ _ => rfl, List.suffix_refl _⟩
  · intro r v hv _
    have hstored := h.stored r v hv rfl
    exact ⟨hstored.kind, by cases v <;> exact trivial⟩
  · intro r v hr
    by_cases hshared : u.Shares r
    · cases (if_pos hshared).symm.trans hr
    · exact (if_neg hshared).symm.trans hr
  · intro i x r hsees hx
    rcases hsees with ⟨-, hfalse⟩ | ⟨hlt, -⟩ | ⟨rfl, -⟩
    · exact hfalse.elim
    · exact absurd (u.level_le_of_binding hx) (Nat.not_le_of_lt hlt)
    · exact if_pos (.inr ⟨x, hx⟩)

/-- Where the evaluator looks up a name during a call: in the scope of the innermost function, which is the one that
was called or one that it called, or in the global scope. It finds no variable of the functions that wait. -/
structure RunState.LooksAbove (u w : RunState σ) (x : String) : Prop where
  frames : ∃ frame inner, w.frames = frame :: (inner ++ u.frames)
  found : ∀ v, w.find? x = some v → w.scope.find? x = some v ∨ w.globals.find? x = some v
  free : ∀ v, w.find? x = some v → ∀ frame ∈ u.frames, ∀ y, frame.scope.find? y ≠ some v

/-- What the end of a call has to do with its start: the same frames and the same names in them, the same contents of
their variables, and other contents only in arrays and global variables. -/
structure RunState.LeavesAlone (u w : RunState σ) : Prop where
  frames : w.frames = u.frames
  names : w.globals = u.globals
  locals : ∀ frame ∈ u.frames, ∀ x v, frame.scope.find? x = some v →
    ∃ r, v = .cell r ∧ w.memory.cells[r]? = u.memory.cells[r]?
  others : ∀ r < u.memory.cells.size, w.memory.cells[r]? = u.memory.cells[r]? ∨ u.Shares r

/-- A run that guards the cells of a caller leaves its locals alone. -/
theorem RunState.Guards.leavesAlone {checked : Bool} {u w : RunState σ} {ℓ : Nat} (hu : u.Separate)
    (h : w.Guards (.ofCaller checked u) ℓ) (hframes : w.frames = u.frames) (hglobals : w.globals = u.globals) :
    u.LeavesAlone w := by
  have hsame {r : CellRef} (hr : r < u.memory.cells.size) (hown : ¬ u.Shares r) :
      w.memory.cells[r]? = u.memory.cells[r]? := by
    have hcell : (Reserve.ofCaller checked u).cell r = u.memory.cells[r]? := Reserve.cell_ofCaller hown
    rw [Array.getElem?_eq_getElem hr] at hcell ⊢
    exact h.holds r _ hcell
  refine ⟨hframes, hglobals, ?_, ?_⟩
  · intro frame hframe x v hx
    obtain ⟨r, rfl, hr, hown⟩ := hu.not_shares hframe hx
    exact ⟨r, rfl, hsame hr hown⟩
  · intro r hr
    by_cases hshared : u.Shares r
    · exact .inr hshared
    · exact .inl (hsame hr hshared)

/-- A name that is evaluated during a call is looked up above the frames of the caller, since the caller's own scope has
no name that may be mentioned. -/
theorem RunState.Guards.looksAbove {checked : Bool} {u w : RunState σ} {ℓ : Nat} (hu : u.Separate)
    (h : w.Guards (.ofCaller checked u) ℓ) {x : String} (hx : (Reserve.ofCaller checked u).names ℓ x) :
    u.LooksAbove w x := by
  have hlevel : u.frames.length ≠ ℓ := by
    rintro rfl
    exact (if_pos rfl : (Reserve.ofCaller checked u).names u.frames.length x = False).mp hx
  obtain ⟨above, habove⟩ := h.below
  change above ++ u.frames = w.frames at habove
  refine ⟨?_, ?_, ?_⟩
  · cases above with
    | nil =>
      have hlength := congrArg List.length habove
      rw [h.frames] at hlength
      exact absurd hlength hlevel
    | cons frame inner => exact ⟨frame, inner, habove.symm⟩
  · intro v hv
    rw [← w.binding_active]
    exact w.binding_of_find hv
  · intro v hv frame hframe y hy
    obtain ⟨r, rfl, hr, hown⟩ := hu.not_shares hframe hy
    have hfree := (h.find hx hv).free r rfl
    rw [Reserve.cell_ofCaller hown, Array.getElem?_eq_getElem hr] at hfree
    cases hfree

/-- For every strategy, program, filter and limits, and every call of a function of the program: each name that is
evaluated during the call is found above the functions that wait, or globally, and never in one of their variables.
When the call ends, with a value or with a failure, the frames and their names are the same again, their variables hold
what they held, and so do all other cells but those of arrays and global variables. -/
theorem locals_kept_by_calls (strategy : Strategy) (filter : Option CommandFilter) (limits : Limits)
    (body : List Stmt) {n k depth : Nat} {info : Info} {f : UserFunction} {args : List Value}
    {u : RunState (HostState Unit)}
    (hcall : (Plan.ask (.execAll 0 body)).Begins (.plain strategy filter limits) n .plain k
      (.ask (.callFunction depth info f args)) u) :
    (∀ m d i x w, (Plan.ask (.callFunction depth info f args)).Begins (.plain strategy filter limits) k u m
      (.ask (.eval d (.name i x))) w → u.LooksAbove w x) ∧
    (callFunction (.plain strategy filter limits) k depth info f args u).Leaves u.LeavesAlone := by
  obtain ⟨ℓ, -, -, hu, ⟨-, hargs⟩, -⟩ := hcall.bears_nothing
  generalize hchecked : (!(Setting.plain strategy filter limits).isRaw) = checked at hu hargs
  have hkept := hu.ofCaller
  have hgiven : ∀ v ∈ args, v.Taken (.ofCaller checked u) := fun v hv =>
    ⟨⟨(hargs v hv).kind, by cases v <;> exact trivial⟩, (hargs v hv).usable⟩
  have hapart : (Setting.plain strategy filter limits).hosts.Apart := Hosts.apart_standard
  have hkeeps := Task.keeps (K := .ofCaller checked u) hapart hchecked.symm k ℓ (.callFunction depth info f args)
    ⟨trivial, hgiven⟩
  constructor
  · intro m d i x w hname
    obtain ⟨ℓ', -, -, hw, hx, -⟩ := hkeeps.begins u m _ _ w hkept hname
    exact hw.looksAbove hu.separate hx
  · have hends := hkeeps.run u hkept
    have hlevels := (Task.callFunction depth info f args).run_restored (.plain strategy filter limits) k u
    change (callFunction (.plain strategy filter limits) k depth info f args u).Keeps _ _ _ _ at hends
    change (callFunction (.plain strategy filter limits) k depth info f args u).Leaves _ at hlevels
    generalize callFunction (.plain strategy filter limits) k depth info f args u = o at hends hlevels
    cases hends with
    | done hw _ => exact hw.leavesAlone hu.separate hlevels.levels.eq.1 hlevels.levels.eq.2
    | failed hw => exact hw.leavesAlone hu.separate hlevels.levels.eq.1 hlevels.levels.eq.2
    | exhausted => exact trivial

/-- The function `function f(x) { x++; }`, the function `function g(x) { f(x); return x; }` and the call `g(1);`. -/
def callInFunction : List Stmt :=
  let name (x : String) : Expr := .name ⟨0, ⟨x, 1, 1⟩⟩ x
  let call (f : String) (arg : Expr) : Stmt := .call ⟨0, ⟨f, 1, 1⟩⟩ ⟨⟨0, ⟨f, 1, 1⟩⟩, name f, [arg]⟩
  [.function ⟨0, ⟨"function", 1, 1⟩⟩ "f" ["x"] [.bump ⟨0, ⟨"x", 1, 1⟩⟩ (name "x") "++"],
    .function ⟨0, ⟨"function", 1, 1⟩⟩ "g" ["x"]
      [call "f" (name "x"), .return ⟨0, ⟨"return", 1, 1⟩⟩ (some (name "x"))],
    call "g" (.number ⟨0, ⟨"1", 1, 1⟩⟩ 1.0 "1")]

/-- The call of `f` inside of `g`, which both have a variable `x`, leaves the one of `g` alone. -/
theorem locals_kept_by_calls_of_same_name : ∃ k depth info f args u,
    (Plan.ask (.execAll 0 callInFunction)).Begins (.plain .safe none .none) 30 .plain k
      (.ask (.callFunction depth info f args)) u ∧
    (u.frames.length = 1 ∧ ∃ v w, callFunction (.plain .safe none .none) k depth info f args u = .done v w ∧
      u.LeavesAlone w) := by
  let accepts (k depth : Nat) (info : Info) (f : UserFunction) (args : List Value) (u : RunState (HostState Unit)) :
      Bool := u.frames.length == 1 &&
    (callFunction (.plain .safe none .none) k depth info f args u).gives fun _ _ => true
  have hmade : (Task.execAll 0 callInFunction).makesCall (.plain .safe none .none) accepts 30 .plain = true := by
    decide +kernel
  obtain ⟨k, depth, info, f, args, u, hbegun, haccepted⟩ := Task.begins_of_makesCall hmade
  obtain ⟨hlength, hdone⟩ := Bool.and_eq_true_iff.mp haccepted
  have hleaves := (locals_kept_by_calls .safe none .none callInFunction hbegun).2
  refine ⟨k, depth, info, f, args, u, hbegun, eq_of_beq hlength, ?_⟩
  generalize callFunction (.plain .safe none .none) k depth info f args u = o at hdone hleaves
  cases o with
  | done v w => exact ⟨v, w, rfl, hleaves⟩
  | failed e w => cases hdone
  | exhausted => cases hdone

end Primer
