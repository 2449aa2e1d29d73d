import Primer.Proofs.Lenient.Operator
import Primer.Proofs.Lenient.Scope
import Primer.Run.Action

/-!
# States that agree

The states of a checked and an unchecked run agree if hosts and counters are the same, the scopes bind the
same names, and the memories agree. `Repeats` compares two outcomes: if the checked one is done, the unchecked
one is done as well, in states that agree. Nothing is said about a checked run that fails.
-/

set_option autoImplicit false

namespace Primer

open Run

variable {σ α β α' β' : Type}

/-! ## The scopes of a state -/

namespace RunState

/-- The scopes of a state, the active one first and the global one last. -/
def scopes (s : RunState σ) : List Scope := s.frames.map Frame.scope ++ [s.globals]

/-- The active scope is the first of the scopes. -/
theorem scopes_eq_cons (s : RunState σ) : s.scopes = s.scope :: s.scopes.tail := by
  unfold scopes scope
  cases s.frames <;> rfl

/-- Another active scope takes the first place. -/
theorem scopes_withScope (s : RunState σ) (sc : Scope) : (s.withScope sc).scopes = sc :: s.scopes.tail := by
  unfold scopes withScope
  cases s.frames with
  | nil => simp
  | cons f rest => simp

/-- Replacing the active scope touches scopes only. -/
theorem withScope_eq (s : RunState σ) (sc : Scope) :
    ∃ globals frames, s.withScope sc = { s with globals := globals, frames := frames } := by
  unfold withScope
  cases s.frames with
  | nil => exact ⟨_, _, rfl⟩
  | cons f rest => exact ⟨_, _, rfl⟩

/-- There always is an active scope. -/
theorem scopes_ne_nil (s : RunState σ) : s.scopes ≠ [] := by simp [scopes]

/-- There is a scope for each frame and the global one. -/
theorem length_scopes (s : RunState σ) : s.scopes.length = s.frames.length + 1 := by simp [scopes]

/-- At level 0 a name is looked up in the active scope. -/
theorem lookup_zero (s : RunState σ) (x : String) : Scope.lookup s.scopes 0 x = s.scope.find? x := by
  rw [scopes_eq_cons, Scope.lookup_zero]

/-- At the last level a name is looked up among the globals. -/
theorem lookup_globals (s : RunState σ) (x : String) :
    Scope.lookup s.scopes s.frames.length x = s.globals.find? x := by
  simp [Scope.lookup, scopes]

end RunState

/-! ## States -/

/-- Two states of which an unchecked run cannot tell the second from the first. -/
structure RunState.Agrees (L : Link) (s r : RunState σ) : Prop where
  host : r.host = s.host
  ticks : r.ticks = s.ticks
  asked : r.asked = s.asked
  calls : r.calls = s.calls
  scopes : Scope.Agree s.scopes r.scopes
  memory : s.memory.Agrees L (Bound s.scopes r.scopes) r.memory

/-- What an expression gives on two sides: values that agree, or the cells of the same variable. -/
inductive Place (L : Link) (S R : List Scope) : Value → Value → Prop where
  | value {v w} (h : v.Agrees L w) : Place L S R v w
  | variable {c d} (h : Bound S R c d) : Place L S R (.cell c) (.cell d)

/-- Places that correspond do so in each longer link. -/
theorem Place.mono {L L' : Link} {S R : List Scope} {v w : Value} (hL : L.Within L') (h : Place L S R v w) :
    Place L' S R v w := by
  cases h with
  | value h => exact .value (h.mono hL)
  | «variable» h => exact .variable h

namespace RunState.Agrees

variable {L L' : Link} {s r : RunState σ}

/-- States agree with memories that agree. -/
theorem withMemory (h : s.Agrees L r) {m m' : Memory}
    (hm : m.Agrees L' (Bound s.scopes r.scopes) m') :
    RunState.Agrees L' { s with memory := m } { r with memory := m' } :=
  ⟨h.host, h.ticks, h.asked, h.calls, h.scopes, hm⟩

/-- States that agree have equally many frames. -/
theorem frames_length (h : s.Agrees L r) : r.frames.length = s.frames.length := by
  have := h.scopes.length
  rw [RunState.length_scopes, RunState.length_scopes] at this
  omega

/-- What a name is bound to, on two sides. -/
theorem find?_place (h : s.Agrees L r) {x : String} {v : Value} (hv : s.find? x = some v) :
    ∃ w, r.find? x = some w ∧ Place L s.scopes r.scopes v w := by
  have hlookup {i : Nat} {v w : Option Value} (hv : Scope.lookup s.scopes i x = v)
      (hw : Scope.lookup r.scopes i x = w) :
      Option.Rel (Place L s.scopes r.scopes) v w := by
    have hix := h.scopes.bindings i x
    rw [hv, hw] at hix
    cases hix with
    | none => exact .none
    | cells c d => exact .some (.variable ⟨i, x, hv, hw⟩)
  have hactive := hlookup (s.lookup_zero x) (r.lookup_zero x)
  have hglobal := hlookup (s.lookup_globals x) (h.frames_length ▸ r.lookup_globals x)
  simp only [RunState.find?, Scope.findIn?, List.findSome?_cons, List.findSome?_nil] at hv ⊢
  generalize s.scope.find? x = a at hactive hv
  generalize r.scope.find? x = b at hactive
  generalize s.globals.find? x = a' at hglobal hv
  generalize r.globals.find? x = b' at hglobal
  cases hactive with
  | some hab =>
    cases hv
    exact ⟨_, rfl, hab⟩
  | none =>
    cases hglobal with
    | some hab =>
      cases hv
      exact ⟨_, rfl, hab⟩
    | none => cases hv

/-- States that agree bind the same names. -/
theorem isSome_find? (h : s.Agrees L r) (x : String) :
    (r.scope.find? x).isSome = (s.scope.find? x).isSome := by
  have hx := h.scopes.bindings 0 x
  rw [s.lookup_zero, r.lookup_zero] at hx
  exact hx.isSome_eq

/-- The next cell is not bound to any name yet. -/
theorem unbound (h : s.Agrees L r) :
    Unbound s.scopes s.memory.cells.size ∧ Unbound r.scopes r.memory.cells.size := by
  constructor
  · intro i x hc
    obtain ⟨d, hcd⟩ := h.scopes.bound_of_left hc
    exact absurd (h.memory.lt_of_cell (Or.inr hcd)).1 (Nat.lt_irrefl _)
  · intro i x hd
    obtain ⟨c, hcd⟩ := h.scopes.bound_of_right hd
    exact absurd (h.memory.lt_of_cell (Or.inr hcd)).2 (Nat.lt_irrefl _)

end RunState.Agrees

/-! ## New variables -/

/-- A state in which a name is bound to a new cell of the active scope. -/
def RunState.bindNew (s : RunState σ) (x : String) (v : Value) : RunState σ :=
  { s with memory := (s.memory.alloc v).2 }.withScope (s.scope.bind x (.cell s.memory.cells.size))

/-- Declaring a name with a value binds it to a new cell. -/
theorem declareName_eq {x : String} {v : Value} (hv : v.isPlace = false) (s : RunState σ) :
    declareName x v s = .done () (s.bindNew x v) := by
  simp only [declareName, update, Scope.declare, Memory.place, hv]
  rfl

/-- Binding a new cell changes the active scope only. -/
theorem RunState.scopes_bindNew (s : RunState σ) (x : String) (v : Value) :
    (s.bindNew x v).scopes = s.scope.bind x (.cell s.memory.cells.size) :: s.scopes.tail :=
  RunState.scopes_withScope ..

namespace RunState.Agrees

variable {L : Link} {s r : RunState σ}

/-- A new variable on both sides. -/
theorem bindNew (h : s.Agrees L r) (x : String) {v w : Value} (hvw : Stored L v w) :
    (s.bindNew x v).Agrees L (r.bindNew x w) := by
  obtain ⟨hc, hd⟩ := h.unbound
  have hscopes := h.scopes
  have hmemory := h.memory
  rw [s.scopes_eq_cons] at hc hscopes hmemory
  rw [r.scopes_eq_cons] at hd hscopes hmemory
  have hs := s.scopes_bindNew x v
  have hr := r.scopes_bindNew x w
  have hbound {c d : CellRef} (hcd : Bound (s.bindNew x v).scopes (r.bindNew x w).scopes c d) := by
    rw [hs, hr] at hcd
    exact hcd.of_rebind
  have hagree := hscopes.rebind hc hd x
  rw [← hs, ← hr] at hagree
  unfold RunState.bindNew at hbound hagree ⊢
  obtain ⟨g, fs, hs⟩ := RunState.withScope_eq { s with memory := (s.memory.alloc v).2 } _
  obtain ⟨g', fs', hr⟩ := RunState.withScope_eq { r with memory := (r.memory.alloc w).2 } _
  rw [hs, hr] at hbound hagree ⊢
  exact ⟨h.host, h.ticks, h.asked, h.calls, hagree, hmemory.alloc_var (.stored hvw) hbound⟩

/-- A new variable without a value on the checked side, in place of one that the other side keeps. -/
theorem bindNew_left (h : s.Agrees L r) {x : String} (hx : (r.scope.find? x).isSome = true) :
    (s.bindNew x .undefined).Agrees L r := by
  obtain ⟨hc, -⟩ := h.unbound
  have hscopes := h.scopes
  have hmemory := h.memory
  have hbindings := h.scopes.bindings 0 x
  rw [s.lookup_zero, r.lookup_zero] at hbindings
  rw [s.scopes_eq_cons] at hc hscopes hmemory
  rw [r.scopes_eq_cons] at hscopes hmemory
  have hs := s.scopes_bindNew x .undefined
  have hbound {c d : CellRef} (hcd : Bound (s.bindNew x .undefined).scopes r.scopes c d) := by
    rw [hs, r.scopes_eq_cons] at hcd
    exact hcd.of_rebind_left hscopes
  have hagree : Scope.Agree (s.bindNew x .undefined).scopes r.scopes := by
    generalize s.scope.find? x = v at hbindings
    generalize hw : r.scope.find? x = w at hbindings hx
    cases hbindings with
    | none => cases hx
    | cells c d =>
      rw [hs, r.scopes_eq_cons]
      exact hscopes.rebind_left hc hw
  unfold RunState.bindNew at hbound hagree ⊢
  obtain ⟨g, fs, hs⟩ := RunState.withScope_eq { s with memory := (s.memory.alloc .undefined).2 } _
  rw [hs] at hbound hagree ⊢
  exact ⟨h.host, h.ticks, h.asked, h.calls, hagree, hmemory.alloc_left hbound⟩

end RunState.Agrees

/-! ## Frames -/

/-- Pushing a frame with arguments is pushing one without variables and then declaring one after another. -/
theorem pushFrame_eq (f : UserFunction) (bound : List (String × Value)) (label : String) (s : RunState σ) :
    pushFrame f bound label s = bound.foldl (fun t e => t.bindNew e.1 e.2)
      { s with frames := ⟨Scope.empty, label, s.calls.headD f.info.token⟩ :: s.frames } := by
  have hfold (sc : Scope) (m : Memory) (call : Token) : (bound.foldl (fun t e => t.bindNew e.1 e.2)
      { s with memory := m, frames := ⟨sc, label, call⟩ :: s.frames }) =
      { s with
        memory := (m.allocAll (bound.map Prod.snd)).2
        frames := ⟨((bound.map Prod.fst).zip (m.allocAll (bound.map Prod.snd)).1).foldl
          (fun sc e => sc.bind e.1 (.cell e.2)) sc, label, call⟩ :: s.frames } := by
    -- Cells are allocated in the order of the parameters on either way, from any scope and memory.
    induction bound generalizing sc m with
    | nil => simp [Memory.allocAll]
    | cons e rest ih =>
      simp only [List.foldl_cons, List.map_cons, Memory.allocAll_cons, List.zip_cons_cons]
      exact ih (sc.bind e.1 (.cell m.cells.size)) (m.alloc e.2).2
  exact (hfold Scope.empty s.memory _).symm

namespace RunState.Agrees

variable {L : Link} {s r : RunState σ}

/-- Binding corresponding values to the same names keeps states in agreement. -/
theorem bindAll (h : s.Agrees L r) {bound bound' : List (String × Value)}
    (hb : List.Forall₂ (fun e e' => e'.1 = e.1 ∧ Stored L e.2 e'.2) bound bound') :
    (bound.foldl (fun t e => t.bindNew e.1 e.2) s).Agrees L
      (bound'.foldl (fun t e => t.bindNew e.1 e.2) r) := by
  induction hb generalizing s r with
  | nil => exact h
  | @cons e e' bound bound' he _ ih =>
    obtain ⟨x, v⟩ := e
    obtain ⟨y, w⟩ := e'
    obtain ⟨rfl, hvw⟩ := he
    exact ih (h.bindNew _ hvw)

/-- New frames with arguments that agree. -/
theorem pushFrame (h : s.Agrees L r) (f : UserFunction) {bound bound' : List (String × Value)}
    (hb : List.Forall₂ (fun e e' => e'.1 = e.1 ∧ Stored L e.2 e'.2) bound bound') (label label' : String) :
    (pushFrame f bound label s).Agrees L (pushFrame f bound' label' r) := by
  rw [pushFrame_eq, pushFrame_eq]
  refine RunState.Agrees.bindAll ?_ hb
  exact ⟨h.host, h.ticks, h.asked, h.calls, h.scopes.push, h.memory.mono_vars fun hcd => hcd.of_push⟩

end RunState.Agrees

namespace RunState

/-- Leaving a function takes its scope away, provided that it has one. -/
theorem scopes_leaveFunction {s : RunState σ} (h : s.scopes.tail ≠ []) :
    (leaveFunction s).scopes = s.scopes.tail := by
  unfold scopes leaveFunction at *
  generalize s.frames = frames at h ⊢
  cases frames with
  | nil => exact absurd rfl h
  | cons f rest => rfl

/-- Leaving a function keeps states in agreement. -/
theorem Agrees.leaveFunction {L : Link} {s r : RunState σ} (h : s.Agrees L r) (hs : s.scopes.tail ≠ []) :
    (leaveFunction s).Agrees L (leaveFunction r) := by
  have hr : r.scopes.tail ≠ [] := by
    intro hr
    have := h.scopes.length
    rw [← List.length_eq_zero_iff, List.length_tail] at hr
    rw [ne_eq, ← List.length_eq_zero_iff, List.length_tail] at hs
    omega
  have hscopes := h.scopes
  have hmemory := h.memory
  rw [s.scopes_eq_cons, r.scopes_eq_cons] at hscopes hmemory
  have hlower := hscopes.of_cons
  have hkept : s.memory.Agrees L (Bound s.scopes.tail r.scopes.tail) r.memory :=
    hmemory.mono_vars fun hcd => hcd.of_cons
  rw [← scopes_leaveFunction hs, ← scopes_leaveFunction hr] at hlower hkept
  exact ⟨h.host, h.ticks, h.asked, h.calls, hlower, hkept⟩

/-- How many of the innermost scopes may differ after a computation: none, or the active one. -/
def Keeps (k : Nat) (s s' : RunState σ) : Prop := s'.scopes.drop k = s.scopes.drop k

/-- A state keeps its own scopes. -/
theorem Keeps.refl (k : Nat) (s : RunState σ) : s.Keeps k s := rfl

/-- Keeping the scopes from a level on passes on. -/
theorem Keeps.trans {k : Nat} {s s' s'' : RunState σ} (h : s.Keeps k s') (h' : s'.Keeps k s'') :
    s.Keeps k s'' :=
  Eq.trans h' h

/-- Keeping all scopes keeps those from each level on. -/
theorem Keeps.weaken {k : Nat} {s s' : RunState σ} (h : s.Keeps 0 s') : s.Keeps k s' :=
  congrArg (List.drop k) h

/-- Keeping all scopes leaves them as they are. -/
theorem Keeps.scopes_eq {s s' : RunState σ} (h : s.Keeps 0 s') : s'.scopes = s.scopes := h

/-- Binding a new cell keeps the scopes behind the active one. -/
theorem keeps_bindNew (s : RunState σ) (x : String) (v : Value) : s.Keeps 1 (s.bindNew x v) := by
  unfold Keeps
  rw [scopes_bindNew, List.drop_one, List.drop_one, List.tail_cons]

end RunState

/-! ## Outcomes -/

/-- An unchecked outcome that repeats a checked one. Both computations start in the given states, and their
values are related by `Q` along the link that they leave behind. -/
inductive Repeats (k : Nat) (L : Link) (s r : RunState σ) (Q : Link → α → α' → Prop) :
    Outcome σ α → Outcome σ α' → Prop where
  | done {a b s' r' L'} (hL : L.Within L') (hagree : s'.Agrees L' r') (hs : s.Keeps k s')
      (hr : r.Keeps k r') (hab : Q L' a b) : Repeats k L s r Q (.done a s') (.done b r')
  | failed {e s' o'} : Repeats k L s r Q (.failed e s') o'
  | exhausted {o'} : Repeats k L s r Q .exhausted o'

namespace Repeats

variable {k : Nat} {L : Link} {s r : RunState σ}

/-- Corresponding values repeat each other. -/
theorem value (h : s.Agrees L r) {Q : Link → α → α' → Prop} {a : α} {b : α'} (hab : Q L a b) :
    Repeats k L s r Q (.done a s) (.done b r) :=
  .done (.refl L) h (.refl k s) (.refl k r) hab

/-- Outcomes that repeat each other do so with every weaker condition. -/
theorem imp {P Q : Link → α → α' → Prop} {o : Outcome σ α} {o' : Outcome σ α'} (h : Repeats k L s r P o o')
    (hPQ : ∀ {L' a b}, L.Within L' → P L' a b → Q L' a b) : Repeats k L s r Q o o' := by
  cases h with
  | done hL hagree hs hr hab => exact .done hL hagree hs hr (hPQ hL hab)
  | failed => exact .failed
  | exhausted => exact .exhausted

/-- Outcomes that keep all scopes keep those from each level on. -/
theorem weaken {Q : Link → α → α' → Prop} {o : Outcome σ α} {o' : Outcome σ α'} (h : Repeats 0 L s r Q o o') :
    Repeats k L s r Q o o' := by
  cases h with
  | done hL hagree hs hr hab => exact .done hL hagree hs.weaken hr.weaken hab
  | failed => exact .failed
  | exhausted => exact .exhausted

/-- What happens later starts from where the earlier outcomes are. -/
theorem after {L' : Link} {s' r' : RunState σ} {Q : Link → α → α' → Prop} {o : Outcome σ α}
    {o' : Outcome σ α'} (h : Repeats k L' s' r' Q o o') (hL : L.Within L') (hs : s.Keeps k s')
    (hr : r.Keeps k r') : Repeats k L s r Q o o' := by
  cases h with
  | done hL' hagree hs' hr' hab => exact .done (hL.trans hL') hagree (hs.trans hs') (hr.trans hr') hab
  | failed => exact .failed
  | exhausted => exact .exhausted

/-- A sequence of steps is repeated if each of them is. -/
theorem bind_of {j : Nat} {x : Run σ α} {y : Run σ α'} {f : α → Run σ β} {g : α' → Run σ β'}
    {P : Link → α → α' → Prop} {Q : Link → β → β' → Prop}
    (hkeeps : ∀ {s s' : RunState σ}, s.Keeps j s' → s.Keeps k s') (hx : Repeats j L s r P (x s) (y r))
    (hf : ∀ {L' s' r' a b}, L.Within L' → s'.Agrees L' r' → s.Keeps j s' → r.Keeps j r' → P L' a b →
      Repeats k L' s' r' Q (f a s') (g b r')) :
    Repeats k L s r Q ((x >>= f) s) ((y >>= g) r) := by
  change Repeats k L s r Q (Run.andThen x f s) (Run.andThen y g r)
  unfold Run.andThen
  generalize x s = o at hx
  generalize y r = o' at hx
  cases hx with
  | done hL hagree hs hr hab => exact (hf hL hagree hs hr hab).after hL (hkeeps hs) (hkeeps hr)
  | failed => exact .failed
  | exhausted => exact .exhausted

/-- One computation after another. -/
theorem bind {x : Run σ α} {y : Run σ α'} {f : α → Run σ β} {g : α' → Run σ β'}
    {P : Link → α → α' → Prop} {Q : Link → β → β' → Prop} (hx : Repeats k L s r P (x s) (y r))
    (hf : ∀ {L' s' r' a b}, L.Within L' → s'.Agrees L' r' → s.Keeps k s' → r.Keeps k r' → P L' a b →
      Repeats k L' s' r' Q (f a s') (g b r')) :
    Repeats k L s r Q ((x >>= f) s) ((y >>= g) r) :=
  bind_of id hx hf

/-- A computation that keeps all scopes, and another one after it. -/
theorem andThen {x : Run σ α} {y : Run σ α'} {f : α → Run σ β} {g : α' → Run σ β'}
    {P : Link → α → α' → Prop} {Q : Link → β → β' → Prop} (hx : Repeats 0 L s r P (x s) (y r))
    (hf : ∀ {L' s' r' a b}, L.Within L' → s'.Agrees L' r' → s.Keeps 0 s' → r.Keeps 0 r' → P L' a b →
      Repeats k L' s' r' Q (f a s') (g b r')) :
    Repeats k L s r Q ((x >>= f) s) ((y >>= g) r) :=
  bind_of RunState.Keeps.weaken hx hf

end Repeats

end Primer
