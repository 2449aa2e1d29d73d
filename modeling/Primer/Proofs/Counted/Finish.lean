import Primer.Proofs.Control.Part
import Primer.Proofs.Locals.Task
import Primer.Proofs.Run.Ending

/-!
# Plans that come to an end

A plan comes to an end if there is a bound on the recursion with which it is done or fails. What is put together from
parts does so if all tasks do that are begun in it (`Plan.Made.finishes`), and the calls that are active afterwards are
as many as before. What is known of the effect of a computation says nothing of the case that it fails
(`Outcome.Meets`). The hosts have to answer at once, as the standard ones do.
-/

set_option autoImplicit false

namespace Primer

open Run

variable {σ α β : Type} {cfg : Setting σ} {s : RunState σ} {c c' : Nat}

/-! ## How computations end -/

/-- A computation that came to an end: it failed, or it is done with a number of active calls. -/
inductive Outcome.Over (c : Nat) : Outcome σ α → Prop where
  | done {a u} (calls : u.calls.length = c) : Over c (.done a u)
  | failed {e u} : Over c (.failed e u)

/-- What is over has ended. -/
theorem Outcome.Over.ended {o : Outcome σ α} (h : o.Over c) : o ≠ .exhausted := by
  cases h <;> nofun

/-- A steady outcome is over at the same depth of calls. -/
theorem Outcome.Steady.over {E : Failure → Prop} {o : Outcome σ α} (h : o.Steady E s.control) :
    o.Over s.calls.length := by
  cases h with
  | done hu => exact .done (congrArg List.length (congrArg Control.calls hu))
  | failed => exact .failed

/-- What holds of the value and the state if a computation is done. -/
def Outcome.Meets (Q : α → RunState σ → Prop) : Outcome σ α → Prop
  | .done a u => Q a u
  | .failed .. | .exhausted => True

/-- Nothing is asked of what anything meets. -/
theorem Outcome.Meets.anything {o : Outcome σ α} : o.Meets fun _ _ => True := by
  cases o <;> exact trivial

namespace Run

/-- A sequence meets what its second step meets from all the first one leaves. -/
theorem meets_bind {P : α → RunState σ → Prop} {Q : β → RunState σ → Prop} {x : Run σ α} {f : α → Run σ β}
    (hx : (x s).Meets P) (hf : ∀ a u, P a u → (f a u).Meets Q) : ((x >>= f) s).Meets Q := by
  show (Run.andThen x f s).Meets Q
  unfold Run.andThen
  generalize x s = o at hx
  cases o with
  | done a u => exact hf a u hx
  | failed | exhausted => exact trivial

/-- A choice meets what both sides meet under their assumption. -/
theorem meets_ite {Q : α → RunState σ → Prop} {p : Prop} [Decidable p] {x y : Run σ α} (hx : p → (x s).Meets Q)
    (hy : ¬ p → (y s).Meets Q) : ((if p then x else y) s).Meets Q := by
  by_cases h : p
  · rw [if_pos h]
    exact hx h
  · rw [if_neg h]
    exact hy h

end Run

/-! ## Plans -/

/-- A plan comes to an end, if there is enough room for its recursion. -/
def Plan.Finishes (cfg : Setting σ) (c : Nat) (p : Plan σ α) (s : RunState σ) : Prop :=
  ∃ n, (p.run cfg n s).Over c

namespace Plan.Finishes

/-- One plan after another. -/
theorem bind {x : Plan σ α} {f : α → Plan σ β} (hx : x.Finishes cfg c s)
    (hf : ∀ n a u, x.run cfg n s = .done a u → u.calls.length = c → (f a).Finishes cfg c' u) :
    (Plan.bind x f).Finishes cfg c' s := by
  obtain ⟨n, hn⟩ := hx
  generalize ho : x.run cfg n s = o at hn
  cases hn with
  | @done a u hcalls =>
    obtain ⟨m, hm⟩ := hf n a u ho hcalls
    have hfirst := x.run_mono cfg (Nat.le_max_left n m) s (by rw [ho]; nofun)
    have hnext := (f a).run_mono cfg (Nat.le_max_right n m) u hm.ended
    refine ⟨max n m, ?_⟩
    show ((x.run cfg _ >>= fun a => (f a).run cfg _) s).Over _
    rw [Run.bind_of_done (hfirst.trans ho), hnext]
    exact hm
  | failed =>
    refine ⟨n, ?_⟩
    show ((x.run cfg n >>= fun a => (f a).run cfg n) s).Over _
    rw [Run.bind_of_failed ho]
    exact .failed

/-- One plan after another, the first of which keeps a reserve and has an effect that is known. -/
theorem andMeets {K : Reserve} {ℓ ℓ' failed : Nat} {P : α → Prop} {Q : α → RunState σ → Prop} {x : Plan σ α}
    {f : α → Plan σ β} (hx : x.Finishes cfg c s) (hkeeps : ∀ n, x.Keeps cfg n K ℓ ℓ' failed P)
    (hmeets : ∀ n, (x.run cfg n s).Meets Q) (hs : s.Guards K ℓ)
    (hf : ∀ a u, P a → Q a u → u.Guards K ℓ' → u.calls.length = c → (f a).Finishes cfg c' u) :
    (x >>= f).Finishes cfg c' s := by
  refine .bind hx ?_
  intro n a u hdone hcalls
  have hrun := (hkeeps n).run s hs
  have hknown := hmeets n
  rw [hdone] at hrun hknown
  cases hrun with
  | done hu ha => exact hf a u ha hknown hu hcalls

/-- A sequence of plans finishes if each of them does. -/
theorem andThen {K : Reserve} {ℓ ℓ' failed : Nat} {P : α → Prop} {x : Plan σ α} {f : α → Plan σ β}
    (hx : x.Finishes cfg c s) (hkeeps : ∀ n, x.Keeps cfg n K ℓ ℓ' failed P) (hs : s.Guards K ℓ)
    (hf : ∀ a u, P a → u.Guards K ℓ' → u.calls.length = c → (f a).Finishes cfg c' u) :
    (x >>= f).Finishes cfg c' s :=
  .andMeets hx hkeeps (fun _ => .anything) hs fun a u ha _ => hf a u ha

/-- A plan that gives a value finishes. -/
theorem pure (a : α) (hs : s.calls.length = c) : (Pure.pure a : Plan σ α).Finishes cfg c s := ⟨0, .done hs⟩

/-- The frame of a function is taken away again. -/
theorem inFrame {x : Plan σ (Option Value)} (hx : x.Finishes cfg c s) : (Plan.inFrame x).Finishes cfg c s := by
  obtain ⟨n, hn⟩ := hx
  refine ⟨n, ?_⟩
  show (Plan.framed (x.run cfg n) s).Over c
  unfold Plan.framed
  generalize x.run cfg n s = o at hn
  cases hn with
  | done hcalls => exact .done hcalls
  | failed => exact .failed

/-- A task comes to an end if its plan does. -/
theorem ask {t : Task σ α} (h : (t.plan cfg).Finishes cfg c s) : (Plan.ask t).Finishes cfg c s := by
  obtain ⟨n, hn⟩ := h
  refine ⟨n + 1, ?_⟩
  show (t.run cfg (n + 1) s).Over c
  rw [Task.run_succ]
  exact hn

/-- What asks for nothing and leaves the control alone. -/
theorem steady {p : Plan σ α} (hp : (p.run cfg 0).Steady fun _ => True) (hs : s.calls.length = c) :
    p.Finishes cfg c s := ⟨0, hs ▸ (hp.run s).over⟩

/-- Recording a command finishes. -/
theorem record (info : Info) (tag : String) (hs : s.calls.length = c) :
    (Plan.record info tag : Plan σ Unit).Finishes cfg c s :=
  .steady (Run.Steady.record (Allows.all cfg) info tag) hs

/-- Narrating a step finishes. -/
theorem narrate (category : Category) (node : NodeId) (message : Memory → String) (changes : Unit → List Change)
    (hs : s.calls.length = c) : (Plan.narrate category node message changes : Plan σ Unit).Finishes cfg c s :=
  .steady (Run.Steady.narrate category node message changes) hs

/-- Counting a statement finishes. -/
theorem tick (info : Info) (hs : s.calls.length = c) : (Plan.tick info).Finishes cfg c s := by
  subst hs
  refine ⟨0, ?_⟩
  have hticked := tick_ticked cfg info s
  show (Primer.tick cfg info s).Over _
  generalize Primer.tick cfg info s = o at hticked
  cases hticked with
  | done hu => exact .done (congrArg List.length (congrArg Control.calls hu))
  | spent | stopped => exact .failed

end Plan.Finishes

/-- A host that answers at once comes to an end. -/
theorem Run.over_finish (n depth : Nat) (info : Info) (use : HostUse) (answer : Except HostFailure Value) (host : σ)
    (memory : Memory) (s : RunState σ) :
    (runHost cfg (n + 1) depth info use (.finish answer host memory) s).Over s.calls.length :=
  ((Run.Steady.finish (Allows.all cfg) n depth info use answer host memory fun _ _ => trivial).run s).over

/-- A plan that is put together from parts comes to an end if all tasks do that are begun in it, with as many calls
active as at its start. -/
theorem Plan.Made.finishes (hhosts : cfg.hosts.Apart) {declares : Bool} {asked : (α : Type) → Task σ α → Prop}
    {p : Plan σ α} (hp : p.Made cfg declares asked) (m : Nat)
    (hasked : ∀ n, m ≤ n → ∀ (γ : Type) (t : Task σ γ) (u : RunState σ), asked γ t →
      u.calls.length = s.calls.length → p.Begins cfg n s n (.ask t) u → (Plan.ask t).Finishes cfg u.calls.length u) :
    p.Finishes cfg s.calls.length s := by
  have hallows := Allows.all cfg
  induction hp generalizing s m with
  | act h => exact .steady (h.steady hallows (fun _ _ => trivial) fun _ => trivial) rfl
  | declareName h =>
    refine ⟨0, .done ?_⟩
    rw [RunState.calls_withScope]
  | mark place =>
    cases place with
    | record info tag => exact .record info tag rfl
    | tick info => exact .tick info rfl
  | narrate category node message changes => exact .narrate category node message changes rfl
  | ask h => exact hasked m (Nat.le_refl m) _ _ s h rfl .here
  | hostCall depth info callee key args =>
    obtain ⟨answer, host, hcall, -⟩ := hhosts.call key (s.view cfg.strategy) s.host s.memory args
    refine ⟨1, ?_⟩
    simp only [Plan.run, hcall]
    exact Run.over_finish 0 depth info (.call callee) answer host s.memory s
  | hostSet depth info target key v =>
    refine ⟨1, ?_⟩
    simp only [Plan.run]
    cases hset : cfg.hosts.set key (s.view cfg.strategy) s.host s.memory v with
    | none => exact ((Run.Steady.cannotAssign hallows info target v).run s).over
    | some action =>
      obtain ⟨answer, host, rfl⟩ := hhosts.set key (s.view cfg.strategy) s.host s.memory v action hset
      exact Run.over_finish 0 depth info (.assign target) answer host s.memory s
  -- The second part begins only once the first is done, with a bound that is enough for both.
  | bind _ _ ihx ihf =>
    refine .bind (ihx m fun n hn γ t u ht hcalls h => hasked n hn γ t u ht hcalls (.first h)) ?_
    intro n a u hdone hcalls
    rw [← hcalls]
    apply ihf a (max m n)
    intro k hk γ t v ht hcalls' h
    have hmono := Plan.run_mono cfg (Nat.le_trans (Nat.le_max_right m n) hk) _ s (by rw [hdone]; rintro ⟨⟩)
    have hbegun := Plan.Begins.next (hmono.trans hdone) h
    exact hasked k (Nat.le_trans (Nat.le_max_left m n) hk) γ t v ht (hcalls'.trans hcalls) hbegun
  | recorded h info tag =>
    have hrecord := Run.Steady.record hallows info tag
    exact .steady ((h.steady hallows (fun _ _ => trivial) fun _ => trivial).onFailure hrecord) rfl

/-- What is said of the tasks in a plan on two accounts is said of them together. -/
theorem Plan.Made.and {declares declares' : Bool} {asked asked' : (α : Type) → Task σ α → Prop} {p : Plan σ α}
    (h : p.Made cfg declares asked) (h' : p.Made cfg declares' asked') :
    p.Made cfg declares fun γ t => asked γ t ∧ asked' γ t := by
  induction h with
  | act h => exact .act h
  | declareName h => exact .declareName h
  | mark place => exact .mark place
  | narrate category node message changes => exact .narrate category node message changes
  | ask h =>
    cases h' with
    | ask h' => exact .ask ⟨h, h'⟩
  | hostCall depth info callee key args => exact .hostCall depth info callee key args
  | hostSet depth info target key v => exact .hostSet depth info target key v
  | bind _ _ ihx ihf =>
    cases h' with
    | bind hx' hf' => exact .bind (ihx hx') fun a => ihf a (hf' a)
  | recorded h info tag => exact .recorded h info tag

end Primer
