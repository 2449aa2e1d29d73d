import Primer.Proofs.Control.Part
import Primer.Proofs.Run.Restriction

/-!
# Who records a command

The commands of a run are recorded by many tasks, each inside others. The trail of a task lists in order what
happens in it alone: the commands that it records itself, and the tasks that it asks for, with the states in
which they begin. The commands of a run are those in the trails of its tasks, every one put where its task was
asked for. This is `Task.run_recorded`, and so to say which commands a construct records is to say what is in
its trail.
-/

set_option autoImplicit false

namespace Primer

open Run

variable {σ α β : Type}

/-! ## What follows an outcome -/

/-- A list that depends on how a computation was done; empty if it was not. -/
def Outcome.after {γ : Type _} (o : Outcome σ α) (f : α → RunState σ → List γ) : List γ :=
  match o with
  | .done a s => f a s
  | _ => []

section After

variable {γ δ : Type _}

/-- Mapping what follows an outcome maps what each state gives. -/
theorem Outcome.map_after (o : Outcome σ α) (f : α → RunState σ → List γ) (g : γ → δ) :
    (o.after f).map g = o.after fun a s => (f a s).map g := by
  cases o <;> rfl

/-- Expanding what follows an outcome expands what each state gives. -/
theorem Outcome.flatMap_after (o : Outcome σ α) (f : α → RunState σ → List γ) (g : γ → List δ) :
    (o.after f).flatMap g = o.after fun a s => (f a s).flatMap g := by
  cases o <;> rfl

/-- Selecting from what follows an outcome selects from what each state gives. -/
theorem Outcome.filterMap_after (o : Outcome σ α) (f : α → RunState σ → List γ) (g : γ → Option δ) :
    (o.after f).filterMap g = o.after fun a s => (f a s).filterMap g := by
  cases o <;> rfl

/-- If nothing follows any state, nothing follows an outcome. -/
theorem Outcome.after_nil (o : Outcome σ α) : (o.after fun _ _ => ([] : List γ)) = [] := by
  cases o <;> rfl

/-- What follows a sequence follows its second step from where the first is done. -/
theorem Run.after_bind (x : Run σ α) (f : α → Run σ β) (s : RunState σ) (g : β → RunState σ → List γ) :
    ((x >>= f) s).after g = (x s).after fun a u => (f a u).after g := by
  show (Run.andThen x f s).after g = _
  unfold Run.andThen
  cases x s <;> rfl

end After

/-! ## Trails -/

/-- What happens in a plan: a command is recorded, or a task is asked for in some state. -/
inductive Entry (σ : Type) : Type 1 where
  | command (c : Command)
  | asked {α : Type} (t : Task σ α) (s : RunState σ)

/-- The command that an entry is. -/
def Entry.command? : Entry σ → Option Command
  | .command c => some c
  | .asked .. => none

/-- What happens in a plan from a state on, in order. -/
def Plan.trail (cfg : Setting σ) (n : Nat) {α : Type} : Plan σ α → RunState σ → List (Entry σ)
  | .mark (.record info tag), _ => [.command ⟨info.id, tag⟩]
  | .ask t, s => [.asked t s]
  | .bind x f, s => x.trail cfg n s ++ (x.run cfg n s).after fun a u => (f a).trail cfg n u
  | .recorded x _ info tag, s =>
    match x s with
    | .failed _ _ => [.command ⟨info.id, tag⟩]
    | _ => []
  | .inFrame x, s => x.trail cfg n s
  | .mark (.tick _), _ | .act .., _ | .narrate .., _ | .hostCall .., _ | .hostSet .., _ => []

/-- The commands that a plan records itself. -/
def Plan.own (cfg : Setting σ) (n : Nat) (p : Plan σ α) (s : RunState σ) : List Command :=
  (p.trail cfg n s).filterMap Entry.command?

/-- The commands that a task records itself, apart from those of the tasks that it asks for. -/
def Task.own (cfg : Setting σ) (n : Nat) (t : Task σ α) (s : RunState σ) : List Command :=
  (t.plan cfg).own cfg n s

/-- The commands that are recorded while a task is carried out, its own and those of the tasks in it. -/
def Task.records (cfg : Setting σ) : Nat → {α : Type} → Task σ α → RunState σ → List Command
  | 0, _, _, _ => []
  | n + 1, _, t, s => ((t.plan cfg).trail cfg n s).flatMap fun entry =>
    match entry with
    | .command c => [c]
    | .asked t s => Task.records cfg n t s

/-- The commands behind an entry. -/
def Entry.commands (cfg : Setting σ) (n : Nat) : Entry σ → List Command
  | .command c => [c]
  | .asked t s => t.records cfg n s

/-- The commands of a task are those of the trail of its plan. -/
theorem Task.records_succ (cfg : Setting σ) (n : Nat) (t : Task σ α) (s : RunState σ) :
    t.records cfg (n + 1) s = ((t.plan cfg).trail cfg n s).flatMap (Entry.commands cfg n) := by
  unfold Task.records
  refine congrArg (List.flatMap · _) (funext fun entry => ?_)
  cases entry <;> rfl

/-! ## The commands of a run -/

/-- A computation that adds some commands to those of a state, however it ends. -/
def Run.Adds (x : Run σ α) (s : RunState σ) (commands : List Command) : Prop :=
  (x s).Leaves fun u => u.commands = commands.reverse ++ s.commands

namespace Run.Adds

variable {cfg : Setting σ} {s : RunState σ}

/-- A quiet computation adds no command. -/
theorem none_of_quiet {x : Run σ α} (hx : x.Quiet) : Adds x s [] :=
  (hx.leaves_records s).imp fun _ h => congrArg Records.commands h

/-- With checks recording a command adds it. -/
theorem record (hchecked : cfg.strategy ≠ .raw) (info : Info) (tag : String) :
    Adds (Primer.record cfg info tag) s [⟨info.id, tag⟩] := by
  unfold Adds
  rw [record_checked hchecked]
  split <;> exact rfl

/-- Counting a statement adds no command. -/
theorem tick (info : Info) : Adds (Primer.tick cfg info) s [] := tick_leaves_commands cfg info s

/-- Narrating a step adds no command. -/
theorem narrate (category : Category) (node : NodeId) (message : Memory → String) (changes : Unit → List Change) :
    Adds (Primer.narrate cfg category node message changes) s [] := by
  unfold Adds Primer.narrate
  split <;> exact rfl

/-- A sequence adds the commands of its steps in a row. -/
theorem bind {x : Run σ α} {f : α → Run σ β} {first : List Command} {next : α → RunState σ → List Command}
    (hx : Adds x s first) (hf : ∀ a u, x s = .done a u → Adds (f a) u (next a u)) :
    Adds (x >>= f) s (first ++ (x s).after next) := by
  show (Run.andThen x f s).Leaves _
  unfold Adds at hx hf
  unfold Run.andThen
  generalize x s = o at hx hf
  cases o with
  | done a u =>
    apply (hf a u rfl).imp
    intro t ht
    rw [ht, show u.commands = _ from hx]
    simp [Outcome.after]
  | failed e u =>
    have hu : u.commands = first.reverse ++ s.commands := hx
    show u.commands = _
    rw [hu]
    simp [Outcome.after]
  | exhausted => exact trivial

/-- A computation whose construct is recorded if it fails. -/
theorem onFailure {x : Run σ α} (hx : x.Quiet) {note : Run σ Unit} {c : Command}
    (hnote : ∀ u, Adds note u [c]) :
    Adds (Run.onFailure x note) s (match x s with | .failed _ _ => [c] | _ => []) := by
  have hs := hx.leaves_records s
  unfold Adds Run.onFailure
  generalize x s = o at hs
  cases o with
  | done a u => exact congrArg Records.commands hs
  | failed e u =>
    have hu := hnote u
    have hcommands : u.commands = s.commands := congrArg Records.commands hs
    unfold Adds at hu
    simp only
    generalize note u = o at hu
    cases o with
    | done a t => exact hcommands ▸ hu
    | failed e t => exact hcommands ▸ hu
    | exhausted => exact trivial
  | exhausted => exact trivial

/-- A host that calls nothing back records nothing. -/
theorem runHost (n depth : Nat) (info : Info) (use : HostUse) {action : HostAction σ}
    (hfinished : action.Finished) : Adds (Primer.runHost cfg n depth info use action) s [] := by
  cases n with
  | zero => exact trivial
  | succ n =>
    cases action with
    | callBack => exact hfinished.elim
    | finish answer host memory =>
      cases answer with
      | ok v => exact rfl
      | error f =>
        have hbroken (text : String) : (use.broken info text : Run σ Value).Quiet := by
          cases use with
          | call callee => exact .raiseFrom ..
          | assign target => exact .raise ..
        exact none_of_quiet (s := { s with host := host, memory := memory }) (.hostFailed hbroken f)

end Run.Adds

/-- A plan adds the commands behind its trail, if its tasks do. -/
theorem Plan.run_recorded {cfg : Setting σ} (hchecked : cfg.strategy ≠ .raw) (hstill : cfg.hosts.Still) {n : Nat}
    (htask : ∀ {γ : Type} (t : Task σ γ) (s : RunState σ), (t.run cfg n).Adds s (t.records cfg n s))
    (p : Plan σ α) (s : RunState σ) :
    (p.run cfg n).Adds s ((p.trail cfg n s).flatMap (Entry.commands cfg n)) := by
  induction p generalizing s with
  | act x quiet => exact .none_of_quiet quiet
  | mark place =>
    cases place with
    | record info tag => exact .record hchecked info tag
    | tick info => exact .tick info
  | narrate category node message changes => exact .narrate category node message changes
  | ask t =>
    have h := htask t s
    rwa [← List.append_nil (t.records cfg n s)] at h
  | hostCall depth info callee key args =>
    exact Run.Adds.runHost n depth info _ (hstill.call key (s.view cfg.strategy) s.host s.memory args)
  | hostSet depth info target key v =>
    unfold Run.Adds
    simp only [Plan.run]
    cases haction : cfg.hosts.set key (s.view cfg.strategy) s.host s.memory v with
    | none => exact Run.Adds.none_of_quiet (x := cannotAssign info target v) (.cannotAssign info target v)
    | some action => exact Run.Adds.runHost n depth info _ (hstill.set key _ _ _ v action haction)
  | bind x f ihx ihf =>
    have h := Run.Adds.bind (ihx s) fun a u _ => ihf a u
    rwa [← Outcome.flatMap_after, ← List.flatMap_append] at h
  -- The construct of a computation that failed is recorded behind what the computation added.
  | recorded x quiet info tag =>
    have h := Run.Adds.onFailure (s := s) quiet fun u => Run.Adds.record (s := u) hchecked info tag
    simp only [Plan.trail]
    generalize x s = o at h ⊢
    cases o <;> exact h
  | inFrame x ih => exact Run.leaves_framed (ih s) fun _ h => h

/-- The commands that a checked run adds are those of its tasks. -/
theorem Task.run_recorded {cfg : Setting σ} (hchecked : cfg.strategy ≠ .raw) (hstill : cfg.hosts.Still) (n : Nat)
    (t : Task σ α) (s : RunState σ) : (t.run cfg n).Adds s (t.records cfg n s) := by
  induction n generalizing α t s with
  | zero =>
    unfold Run.Adds
    rw [show t.run cfg 0 s = .exhausted by cases t <;> rfl]
    exact trivial
  | succ n ih =>
    rw [Task.run_succ, Task.records_succ]
    exact Plan.run_recorded hchecked hstill ih (t.plan cfg) s

end Primer
