import Primer.Proofs.Realm.Value
import Primer.Proofs.Run.Quiet
import Primer.Proofs.Sound.Tree
import Primer.Tree.Walk

/-!
# Realms

A realm is what a run is confined to: the nodes that it may work on, the states that its hosts may be in, and
the number of calls that may be active. What a run does in a realm it does with the nodes of the realm: the
functions in its state have their bodies there, the active calls were made there, and every command, step and
fault is reported there.

A state stands at a level of its realm. The level says how many frames there are, and how many calls are active
at least. There are never more frames than that many calls, since a frame belongs to a call that was entered
before it. Calls that failed stay active, which is why there may be more of them.
-/

set_option autoImplicit false

namespace Primer

variable {σ α : Type}

/-- What a run is confined to. -/
structure Realm (σ : Type) where
  /-- The nodes that the run works on and reports. -/
  node : Node → Prop
  /-- The states of the hosts. -/
  host : σ → Prop
  /-- The number of calls that may be active. -/
  depth : Nat
  /-- Whether the run may meet statements and operators that the engine does not know. -/
  loose : Prop
  /-- Whether hosts may report faults of their own making. -/
  foreign : Prop

/-- The number of frames, and a number of calls that are active. -/
structure Level where
  frames : Nat
  calls : Nat

namespace Realm

variable (R : Realm σ)

/-! ## Places -/

/-- Some node of the realm carries this. -/
def info (i : Info) : Prop := ∃ n, R.node n ∧ n.info = i

/-- Some node of the realm has this number. -/
def id (i : NodeId) : Prop := ∃ n, R.node n ∧ n.info.id = i

/-- Some call in the realm starts with this token. -/
def site (t : Token) : Prop := ∃ n, R.node n ∧ n.kind = "FunctionCall" ∧ n.info.token = t

/-- All of these nodes belong to the realm. -/
def covers (nodes : List Node) : Prop := ∀ n ∈ nodes, R.node n

/-- A part of a tree belongs to the realm: its nodes do, and the engine knows it if the realm is not loose. -/
def part (nodes : List Node) (known : Bool) : Prop := R.covers nodes ∧ (R.loose ∨ known = true)

abbrev expr (e : Expr) : Prop := R.part e.walk e.isHandled

abbrev exprs (es : List Expr) : Prop := R.part (Expr.walkAll es) (Expr.allHandled es)

abbrev assignment (a : Assignment) : Prop := R.part a.walk a.isHandled

abbrev names (ds : List Declared) : Prop := R.part (ds.flatMap Declared.walk) (ds.all Declared.isHandled)

abbrev stmt (s : Stmt) : Prop := R.part s.walk s.isHandled

abbrev stmts (body : List Stmt) : Prop := R.part (Stmt.walkAll body) (Stmt.allHandled body)

/-- What hangs below a conditional belongs to the realm. -/
abbrev branch (b : Option Stmt) : Prop := R.part (Stmt.walkOption b) (Stmt.isHandledBranch b)

/-- What may stand in the header of a loop belongs to the realm. -/
abbrev header (s : Option Stmt) : Prop := R.part (Stmt.walkOption s) (Stmt.isHandledPart s)

/-- A function that was declared in the realm. -/
def function (f : UserFunction) : Prop := R.info f.info ∧ R.stmts f.body

/-! ## Reports -/

/-- A fault that arose at a node of the realm, with calls that were made there. -/
structure Raises (f : Fault) : Prop where
  node : ∃ n, R.node n ∧ n.info.id = f.node ∧ n.info.token.line = f.line ∧ n.info.token.column = f.column
  kind : f.kind = .internal → R.loose
  calls : ∀ c ∈ f.calls, ∃ t, R.site t ∧ t.line = c.line ∧ t.column = c.column
  depth : f.calls.length ≤ R.depth

/-- A failure that a run in the realm may end with. -/
def Fails : Failure → Prop
  | .fault f => R.foreign ∨ R.Raises f
  | .text _ => R.loose
  | .breakdown _ => False

/-- The frames and calls of a state at a level. -/
structure Stands (ℓ : Level) (frames : List Frame) (calls : List Token) : Prop where
  frames_eq : frames.length = ℓ.frames
  frames_le : ℓ.frames ≤ ℓ.calls
  calls_le : ℓ.calls ≤ calls.length
  depth : calls.length ≤ R.depth
  callSites : ∀ t ∈ calls, R.site t
  frameSites : ∀ f ∈ frames, R.site f.call

/-- Commands and steps that point into the realm. -/
structure Reported (commands : List Command) (steps : List Step) : Prop where
  commands : ∀ c ∈ commands, R.id c.node
  fragments : ∀ step ∈ steps, ∀ fragment ∈ step.fragments, R.id fragment.node
  depths : ∀ step ∈ steps, step.stack.length ≤ R.depth

end Realm

variable {R : Realm σ} {ℓ : Level}

/-- The number of a place of the realm is in it. -/
theorem Realm.info.id {i : Info} (h : R.info i) : R.id i.id := by
  obtain ⟨n, hn, rfl⟩ := h
  exact ⟨n, hn, rfl⟩

/-- A state in a realm, at a level. -/
structure RunState.Confined (R : Realm σ) (ℓ : Level) (s : RunState σ) : Prop where
  only : s.Only R.function
  host : R.host s.host
  stands : R.Stands ℓ s.frames s.calls
  reported : R.Reported s.commands s.steps

namespace RunState.Confined

variable {s : RunState σ} (h : s.Confined R ℓ)

include h

/-- There are no more frames than the depth of the realm. -/
theorem frames_le_depth : s.frames.length ≤ R.depth := by
  have hframes := h.stands.frames_eq
  have hentered := h.stands.frames_le
  have hactive := h.stands.calls_le
  have hroom := h.stands.depth
  omega

/-- There are no more frames than active calls. -/
theorem frames_le_calls : s.frames.length ≤ s.calls.length := by
  have hframes := h.stands.frames_eq
  have hentered := h.stands.frames_le
  have hactive := h.stands.calls_le
  omega

/-- Hosts and memory may change in a realm. -/
theorem onHosts {host : σ} {memory : Memory} (hhost : R.host host) (hmemory : memory.Only R.function) :
    ({ s with host := host, memory := memory } : RunState σ).Confined R ℓ :=
  ⟨⟨hmemory, h.only.globals, h.only.frames⟩, hhost, h.stands, h.reported⟩

/-- A memory of the realm keeps the state in it. -/
theorem onMemory {memory : Memory} (hmemory : memory.Only R.function) :
    ({ s with memory := memory } : RunState σ).Confined R ℓ := h.onHosts h.host hmemory

/-- Records that report places of the realm keep the state in it. -/
theorem withRecords {r : Records} (hr : R.Reported r.commands r.steps) : (s.withRecords r).Confined R ℓ :=
  ⟨⟨h.only.memory, h.only.globals, h.only.frames⟩, h.host, h.stands, hr⟩

/-- A fault that is raised in a realm is one of the realm. -/
theorem faultAt {kind : FaultClass} {i : Info} (hi : R.info i) (hkind : kind = .internal → R.loose)
    (message : String) (cause : Option String) : R.Fails (.fault (s.faultAt kind i message cause)) := by
  obtain ⟨n, hn, rfl⟩ := hi
  refine .inr ⟨⟨n, hn, rfl, rfl, rfl⟩, hkind, ?_, ?_⟩
  · intro c hc
    obtain ⟨f, hf, rfl⟩ := List.mem_map.mp hc
    exact ⟨f.call, h.stands.frameSites f (List.mem_reverse.mp hf), rfl, rfl⟩
  · show (s.frames.reverse.map _).length ≤ R.depth
    rw [List.length_map, List.length_reverse]
    exact h.frames_le_depth

/-- A fault at a place of the realm is a failure of it. -/
theorem raised {kind : FaultClass} (hkind : kind ≠ .internal) {i : Info} (hi : R.info i) (message : String)
    (cause : Option String) : R.Fails (.fault (s.faultAt kind i message cause)) :=
  h.faultAt hi (fun heq => absurd heq hkind) message cause

/-- Declaring a name with a value of the realm keeps the state in it. -/
theorem declare (name : String) {v : Value} (hv : v.Only R.function) :
    ({ s with memory := (s.scope.declare s.memory name v).2 }.withScope
      (s.scope.declare s.memory name v).1).Confined R ℓ := by
  have honly := h.only.declare name hv
  have hhost := h.host
  have hstands := h.stands
  have hreported := h.reported
  revert honly
  generalize s.scope.declare s.memory name v = declared
  intro honly
  rcases s with ⟨memory, host, globals, _ | ⟨frame, frames⟩, calls, commands, steps, ticks, asked⟩
  · exact ⟨honly, hhost, hstands, hreported⟩
  · refine ⟨honly, hhost, ⟨?_, ?_, ?_, ?_, ?_, ?_⟩, hreported⟩
    · exact hstands.frames_eq
    · exact hstands.frames_le
    · exact hstands.calls_le
    · exact hstands.depth
    · exact hstands.callSites
    · intro f hf
      rcases List.mem_cons.mp hf with rfl | hf
      · exact hstands.frameSites frame List.mem_cons_self
      · exact hstands.frameSites f (List.mem_cons_of_mem frame hf)

end RunState.Confined

/-! ## Outcomes -/

/-- Nothing is asked of a value. -/
abbrev Anything {α : Type} : α → Prop := fun _ => True

/-- An outcome in a realm: at one level if it is done, and at another if it failed. -/
inductive Outcome.Confined (R : Realm σ) (done failed : Level) (Q : α → Prop) : Outcome σ α → Prop where
  | done {a s} (hs : s.Confined R done) (ha : Q a) : Confined R done failed Q (.done a s)
  | failed {e s} (hs : s.Confined R failed) (he : R.Fails e) : Confined R done failed Q (.failed e s)
  | exhausted : Confined R done failed Q .exhausted

end Primer
