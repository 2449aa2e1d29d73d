import Primer.Proofs.Run.Companion

/-!
# Runs that end

The bound on the recursion has no meaning for a program: a run ends if it does with some bound, and then
what it ends with is the same for every bound that is large enough. `Ends` is this notion, and it is
functional (`Ends.unique`). `Companions.ends` carries the ending of a run over to its companion.
-/

set_option autoImplicit false

namespace Primer

open Run

variable {σ α : Type}

/-! ## One setting beside itself -/

/-- An action of a host is alike to itself. -/
theorem HostAction.Alike.refl (action : HostAction σ) : action.Alike Eq action := by
  induction action with
  | finish answer host memory => exact .finish answer host memory
  | callBack f args host memory next ih =>
    refine .callBack f args host memory ?_
    intro answer v w host memory hv
    subst hv
    exact ih answer v host memory

/-- Hosts that are shown the same do the same. -/
theorem Hosts.Blind.refl (hosts : Hosts σ) : hosts.Blind Eq where
  call key v w host memory args hv := by
    subst hv
    exact .refl _
  set key v w host memory value hv := by
    subst hv
    cases hosts.set key v host memory value with
    | none => exact .none
    | some action => exact .some (.refl action)

/-- States that are alike in all records are the same. -/
theorem RunState.Alike.eq {s t : RunState σ} (h : s.Alike Eq t) : t = s := by
  rw [h.same, ← h.records, RunState.withRecords_records]

/-- A state is alike to itself. -/
theorem RunState.Alike.self {s : RunState σ} : s.Alike Eq s := ⟨s.withRecords_records.symm, rfl⟩

/-- An outcome follows itself. -/
theorem Follows.refl {cfg : Setting σ} {passed : Mark → RunState σ → Prop} (o : Outcome σ α) :
    Follows cfg Eq (fun _ => False) passed o o := by
  cases o with
  | done a s => exact .done .self
  | failed e s => exact .failed .self
  | exhausted => exact .exhausted

/-- A setting is its own companion, and nothing is cut off. -/
theorem Companions.refl (cfg : Setting σ) : Companions cfg cfg Eq Eq (fun _ => False) where
  agrees := ⟨rfl, rfl, rfl⟩
  told step r r' h := by rw [h]
  view s t h := by rw [h.eq]
  blind := .refl _
  still _ := False.elim
  mark place s t h := by
    rw [h.eq]
    exact .refl _

/-- An outcome that follows another one of the same setting, provided that this one ended. -/
theorem Follows.eq_of_ended {cfg : Setting σ} {passed : Mark → RunState σ → Prop} {o o' : Outcome σ α}
    (h : Follows cfg Eq (fun _ => False) passed o o') (hended : o ≠ .exhausted) : o' = o := by
  cases h with
  | done hst => rw [hst.eq]
  | failed hst => rw [hst.eq]
  | exhausted => exact absurd rfl hended
  | cut hcuts => exact hcuts.elim

/-- More room for recursion changes nothing about a task that ended. -/
theorem Task.run_mono (cfg : Setting σ) {n m : Nat} (hnm : n ≤ m) (t : Task σ α) (s : RunState σ)
    (h : t.run cfg n s ≠ .exhausted) : t.run cfg m s = t.run cfg n s :=
  ((Companions.refl cfg).follows hnm t (s := s) .self).eq_of_ended h

/-- More room for recursion changes nothing about a plan that was carried out. -/
theorem Plan.run_mono (cfg : Setting σ) {n m : Nat} (hnm : n ≤ m) (p : Plan σ α) (s : RunState σ)
    (h : p.run cfg n s ≠ .exhausted) : p.run cfg m s = p.run cfg n s := by
  have hfollows := (Companions.refl cfg).plan hnm
    (fun _ _ _ hj _ t _ _ hs => (Companions.refl cfg).follows hj t hs) p (s := s) .self
  exact hfollows.eq_of_ended h

/-! ## Where a command is recorded -/

/-- A host that reaches a function is not finished. -/
theorem HostReaches.not_finished {cfg : Setting σ} {depth n k : Nat} {action : HostAction σ}
    {s t : RunState σ} {f : UserFunction} {args : List Value}
    (h : HostReaches cfg depth n action s k f args t) : ¬ action.Finished := by
  cases h <;> exact id

/-- Recording a command adds it to the state, whether it is allowed or not. -/
theorem record_leaves {cfg : Setting σ} (hchecked : cfg.strategy ≠ .raw) (info : Info) (tag : String)
    (s : RunState σ) {P : RunState σ → Prop} (h : (record cfg info tag s).Leaves P) :
    P (s.withCommand ⟨info.id, tag⟩) := by
  rw [record_checked hchecked] at h
  split at h
  · exact h
  · exact h

namespace Plan.Passes

variable {cfg : Setting σ} {n m : Nat} {p : Plan σ α} {s u u' : RunState σ} {place : Mark}

/-- What was recorded before a plan is still there when it passes a mark. -/
theorem grown_before (hstill : cfg.hosts.Still) (h : p.Passes cfg n s place u) :
    Records.Grown cfg.strategy s.records u.records := by
  induction h with
  | here => exact .refl _
  | @onFailure n α x quiet info tag s e u h =>
    have hquiet := quiet.leaves_records s
    rw [h] at hquiet
    rw [show u.records = s.records from hquiet]
    exact .refl _
  | hostCall reached => exact absurd (hstill.call ..) reached.not_finished
  | hostSet hset reached => exact absurd (hstill.set _ _ _ _ _ _ hset) reached.not_finished
  | ask _ ih => exact ih
  | first _ ih => exact ih
  | @next n α β x f s a t place u hx _ ih =>
    have hfirst := x.grows cfg n s
    rw [hx] at hfirst
    exact Records.Grown.trans hfirst ih
  | inFrame _ ih => exact ih

/-- More room for recursion leaves the marks that a plan passes. -/
theorem mono (hstill : cfg.hosts.Still) (hnm : n ≤ m) (h : p.Passes cfg n s place u) :
    p.Passes cfg m s place u := by
  induction h generalizing m with
  | here => exact .here
  | onFailure h => exact .onFailure h
  | hostCall reached => exact absurd (hstill.call ..) reached.not_finished
  | hostSet hset reached => exact absurd (hstill.set _ _ _ _ _ _ hset) reached.not_finished
  | ask _ ih =>
    obtain ⟨m, rfl⟩ : ∃ k, m = k + 1 := ⟨m - 1, by omega⟩
    exact .ask (ih (by omega))
  | first _ ih => exact .first (ih hnm)
  | @next n α β x f s a t place u hx _ ih =>
    have hmono := x.run_mono cfg hnm s (by rw [hx]; simp)
    exact .next (hmono.trans hx) (ih hnm)
  | inFrame _ ih => exact .inFrame (ih hnm)

/-- Where a mark stops the run that passes it, the run ends, and nothing happens after that but the loss of
frames. -/
theorem fails (hstill : cfg.hosts.Still) (h : p.Passes cfg n s place u) {e : Failure} {v : RunState σ}
    (hstop : place.run cfg u = .failed e v) :
    ∃ frames, p.run cfg n s = .failed e { v with frames := frames } := by
  induction h with
  | here => exact ⟨v.frames, hstop⟩
  | onFailure h =>
    refine ⟨v.frames, ?_⟩
    simp only [Plan.run, Run.onFailure, h, hstop]
  | hostCall reached => exact absurd (hstill.call ..) reached.not_finished
  | hostSet hset reached => exact absurd (hstill.set _ _ _ _ _ _ hset) reached.not_finished
  | ask _ ih =>
    obtain ⟨frames, hrun⟩ := ih hstop
    refine ⟨frames, ?_⟩
    simp only [Plan.run, Task.run_succ]
    exact hrun
  | first _ ih =>
    obtain ⟨frames, hrun⟩ := ih hstop
    exact ⟨frames, Run.bind_of_failed hrun _⟩
  | next hx _ ih =>
    obtain ⟨frames, hrun⟩ := ih hstop
    exact ⟨frames, (Run.bind_of_done hx _).trans hrun⟩
  | inFrame _ ih =>
    obtain ⟨frames, hrun⟩ := ih hstop
    refine ⟨frames.tail, ?_⟩
    simp only [Plan.run, Plan.framed, hrun]
    rfl

/-- How a plan comes by a mark, for the plans whose values are of a type of their own. -/
theorem inv (h : p.Passes cfg n s place u) : (match p with
    | .mark _ => u = s
    | .recorded x _ _ _ => ∃ e, x s = .failed e u
    | .inFrame x => x.Passes cfg n s place u
    | _ => True) := by
  cases h with
  | here => exact rfl
  | onFailure h => exact ⟨_, h⟩
  | inFrame h => exact h
  | _ => exact trivial

/-- When two plans run one after the other, the first records a command before the second passes a mark. -/
theorem commands_lt (hchecked : cfg.strategy ≠ .raw) (hstill : cfg.hosts.Still) {β : Type} {x : Plan σ α}
    {f : α → Plan σ β} {t : RunState σ} {a : α} {info : Info} {tag : String}
    (hfirst : x.Passes cfg n s (.record info tag) u)
    (hx : x.run cfg n s = .done a t) (hnext : (f a).Passes cfg n t place u') :
    u.commands.length < u'.commands.length := by
  have hgrown := record_leaves hchecked info tag u hfirst.grown
  rw [hx] at hgrown
  have hcommands := (Records.Grown.trans hgrown (hnext.grown_before hstill)).commands.length_le
  exact hcommands

/-- A run records its commands one after another: there is one state in which it has recorded so many and
comes to record the next. -/
theorem unique (hchecked : cfg.strategy ≠ .raw) (hstill : cfg.hosts.Still) {info info' : Info}
    {tag tag' : String} (h : p.Passes cfg n s (.record info tag) u)
    (h' : p.Passes cfg n s (.record info' tag') u') (hlength : u.commands.length = u'.commands.length) :
    u = u' := by
  generalize hplace : Mark.record info tag = place at h
  induction h generalizing info tag with
  | here => exact h'.inv.symm
  | onFailure hx =>
    obtain ⟨e, hx'⟩ := h'.inv
    rw [hx] at hx'
    cases hx'
    rfl
  | hostCall reached => exact absurd (hstill.call ..) reached.not_finished
  | hostSet hset reached => exact absurd (hstill.set _ _ _ _ _ _ hset) reached.not_finished
  | ask _ ih =>
    cases h' with
    | ask h' => exact ih h' hlength hplace
  | first h ih =>
    cases h' with
    | first h' => exact ih h' hlength hplace
    | next hx h' =>
      -- The other mark lies behind the plan in which this one lies, so it is passed with more commands.
      subst hplace
      have := h.commands_lt hchecked hstill hx h'
      omega
  | next hx h ih =>
    cases h' with
    | first h' =>
      subst hplace
      have := h'.commands_lt hchecked hstill hx h
      omega
    | next hx' h' =>
      rw [hx] at hx'
      cases hx'
      exact ih h' hlength hplace
  | inFrame _ ih => exact ih h'.inv hlength hplace

end Plan.Passes

/-! ## Programs -/

/-- A program that is run from a state ends with a result. -/
def Ends (cfg : Setting σ) (body : List Stmt) (s : RunState σ) (f : Finished σ) : Prop :=
  ∃ bound, runBounded cfg bound body s = some f

/-- A program that is run from a state comes by a mark, in a state of its own. -/
def Passes (cfg : Setting σ) (body : List Stmt) (s : RunState σ) (place : Mark) (u : RunState σ) : Prop :=
  ∃ bound, (Plan.ask (.execAll 0 body)).Passes cfg bound s place u

/-- A checked run comes to record a command in one state only, for each number of commands before it. -/
theorem Passes.unique {cfg : Setting σ} (hchecked : cfg.strategy ≠ .raw) (hstill : cfg.hosts.Still)
    {body : List Stmt} {s u u' : RunState σ} {info info' : Info} {tag tag' : String}
    (h : Passes cfg body s (.record info tag) u) (h' : Passes cfg body s (.record info' tag') u')
    (hlength : u.commands.length = u'.commands.length) : u = u' := by
  obtain ⟨n, h⟩ := h
  obtain ⟨m, h'⟩ := h'
  exact (h.mono hstill (Nat.le_max_left n m)).unique hchecked hstill (h'.mono hstill (Nat.le_max_right n m))
    hlength

/-- The records of an ended run are those of its last state. -/
theorem Finished.of?_eq {strategy : Strategy} {o : Outcome σ (Option Value)} {f : Finished σ}
    (h : Finished.of? strategy o = some f) : f.result =
      ⟨strategy, f.result.fault, f.state.commands.reverse, f.state.steps.reverse, f.state.ticks⟩ := by
  cases o with
  | done a s =>
    cases h
    rfl
  | failed e s =>
    cases h
    rfl
  | exhausted => cases h

namespace Ends

variable {cfg : Setting σ} {body : List Stmt} {s : RunState σ} {f g : Finished σ}

/-- The result of a run is its fault and its records from the oldest on. -/
theorem result_eq (h : Ends cfg body s f) : f.result =
    ⟨cfg.strategy, f.result.fault, f.state.commands.reverse, f.state.steps.reverse, f.state.ticks⟩ := by
  obtain ⟨bound, h⟩ := h
  exact Finished.of?_eq h

/-- A run that ends does so with every larger bound. -/
theorem runBounded_eq {n m : Nat} (h : runBounded cfg n body s = some f) (hnm : n ≤ m) :
    runBounded cfg m body s = some f := by
  have hended : execAll cfg n 0 body s ≠ .exhausted := by
    intro hex
    unfold runBounded at h
    rw [hex] at h
    cases h
  have hrun : execAll cfg m 0 body s = execAll cfg n 0 body s :=
    Task.run_mono cfg hnm (.execAll 0 body) s hended
  unfold runBounded at h ⊢
  rw [hrun, h]

/-- A run ends in one way only. -/
theorem unique (hf : Ends cfg body s f) (hg : Ends cfg body s g) : f = g := by
  obtain ⟨n, hn⟩ := hf
  obtain ⟨m, hm⟩ := hg
  have hn' := runBounded_eq hn (Nat.le_max_left n m)
  have hm' := runBounded_eq hm (Nat.le_max_right n m)
  rw [hn'] at hm'
  exact Option.some.inj hm'

/-- A program ends as a check of its run within some bound finds. -/
theorem exists_of_any (bound : Nat) {check : Finished σ → Bool}
    (h : (runBounded cfg bound body s).any check = true) : ∃ f, Ends cfg body s f ∧ check f = true := by
  obtain ⟨f, hf, hcheck⟩ := (Option.any_eq_true ..).mp h
  exact ⟨f, ⟨bound, hf⟩, hcheck⟩

end Ends

/-- A program ends where a mark stops it that it passes. -/
theorem Ends.of_passes {cfg : Setting σ} (hstill : cfg.hosts.Still) {body : List Stmt} {s u v : RunState σ}
    {f : Finished σ} {place : Mark} {e : Failure} (hf : Ends cfg body s f) (h : Passes cfg body s place u)
    (hstop : place.run cfg u = .failed e v) :
    f.result.fault = some e.toFault ∧ f.state = { v with frames := f.state.frames } := by
  obtain ⟨n, hn⟩ := hf
  obtain ⟨m, hm⟩ := h
  have hended := runBounded_eq hn (Nat.le_max_left n m)
  obtain ⟨frames, hrun⟩ := (hm.mono hstill (Nat.le_max_right n m)).fails hstill hstop
  change execAll cfg (max n m) 0 body s = _ at hrun
  unfold runBounded at hended
  rw [hrun] at hended
  cases hended
  exact ⟨rfl, rfl⟩

/-- How the run of a program that was cut off ended: at a mark that the other run passed in a state like its
own, with the failure and the records that it had there. -/
def CutOff (cfg cfg' : Setting σ) (S : Records → Records → Prop) (cuts : Mark → Prop) (body : List Stmt)
    (s : RunState σ) (f g : Finished σ) : Prop :=
  ∃ place u t e v, cuts place ∧ Passes cfg body s place u ∧ u.Alike S t ∧ place.run cfg' t = .failed e v ∧
    g.result.fault = some e.toFault ∧ g.state = { v with frames := g.state.frames } ∧
    (place.run cfg u).Leaves fun w => Records.Grown cfg.strategy w.records f.state.records

/-- If a program ends, it ends under the companion of its setting, and either alike or cut off. -/
theorem Companions.ends {cfg cfg' : Setting σ} {S : Records → Records → Prop} {V : View → View → Prop}
    {cuts : Mark → Prop} (h : Companions cfg cfg' S V cuts) {s s' : RunState σ} (hs : s.Alike S s')
    {body : List Stmt} {f : Finished σ} (hf : Ends cfg body s f) :
    ∃ g, Ends cfg' body s' g ∧
      (g.result.fault = f.result.fault ∧ f.state.Alike S g.state ∨
        CutOff cfg cfg' S cuts body s f g) := by
  obtain ⟨n, hn⟩ := hf
  have hfollows := h.follows (Nat.le_refl n) (.execAll 0 body) hs
  unfold runBounded at hn
  change Follows cfg' S cuts _ (execAll cfg n 0 body s) (execAll cfg' n 0 body s') at hfollows
  -- What the first run passes on its way stays recorded.
  have hgrown : ∀ place u, (Plan.ask (.execAll 0 body)).Passes cfg n s place u →
      (place.run cfg u).Leaves fun w => Records.Grown cfg.strategy w.records f.state.records := by
    intro place u hu
    apply hu.grown.imp
    intro w hw
    change (execAll cfg n 0 body s).Leaves _ at hw
    generalize execAll cfg n 0 body s = o at hn hw
    cases o with
    | done a t =>
      cases hn
      exact hw
    | failed e t =>
      cases hn
      exact hw
    | exhausted => cases hn
  have hends {g : Finished σ} (hg : Finished.of? cfg'.strategy (execAll cfg' n 0 body s') = some g) :
      Ends cfg' body s' g := ⟨n, hg⟩
  generalize execAll cfg n 0 body s = o at hn hfollows
  generalize execAll cfg' n 0 body s' = o' at hends hfollows
  cases hfollows with
  | done hst =>
    cases hn
    exact ⟨_, hends rfl, Or.inl ⟨rfl, hst⟩⟩
  | failed hst =>
    cases hn
    exact ⟨_, hends rfl, Or.inl ⟨rfl, hst⟩⟩
  | exhausted => cases hn
  | @cut _ e place u t v w hcuts hu hut hstop hw =>
    refine ⟨_, hends rfl, Or.inr ?_⟩
    exact ⟨place, u, t, e, v, hcuts, ⟨n, hu⟩, hut, hstop, rfl, hw, hgrown place u hu⟩

end Primer
