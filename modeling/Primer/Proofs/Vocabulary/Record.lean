import Primer.Proofs.Locals.Plan
import Primer.Proofs.Record.Trail

/-!
# The commands of a run and the marks that record them

Among hosts that call nothing back, every command in a state that a run comes by was there before, or a mark is begun
in the run that records it (`Plan.Reaches.wrote`). A filter is only asked at these marks, so two filters that answer
alike for all tags that are recorded let the same run through (`Task.run_withFilter`).
-/

set_option autoImplicit false

namespace Primer

open Run

variable {σ α β γ : Type} {cfg : Setting σ}

/-! ## Plans that are begun in plans that are begun -/

/-- What begins in a plan that begins in another begins in the other. -/
theorem Plan.Begins.trans {n k j : Nat} {p : Plan σ α} {q : Plan σ β} {r : Plan σ γ} {s u v : RunState σ}
    (h : p.Begins cfg n s k q u) (h' : q.Begins cfg k u j r v) : p.Begins cfg n s j r v := by
  induction h with
  | here => exact h'
  | first _ ih => exact .first (ih h')
  | next hx _ ih => exact .next hx (ih h')
  | noted hx _ ih => exact .noted hx (ih h')
  | inFrame _ ih => exact .inFrame (ih h')
  | ask _ ih => exact .ask (ih h')
  | hostCall reached _ ih => exact .hostCall reached (ih h')
  | hostSet hset reached _ ih => exact .hostSet hset reached (ih h')

/-! ## Where a command comes from -/

/-- A mark is begun in a plan that records a command. -/
def Plan.Writes (cfg : Setting σ) (n : Nat) (p : Plan σ α) (s : RunState σ) (c : Command) : Prop :=
  ∃ k info tag u, p.Begins cfg n s k (.mark (.record info tag)) u ∧ c = ⟨info.id, tag⟩

/-- What is begun in a plan is begun in the plan in which that one is begun. -/
theorem Plan.Writes.of_begins {n k : Nat} {p : Plan σ α} {q : Plan σ β} {s u : RunState σ} {c : Command}
    (h : q.Writes cfg k u c) (hbegins : p.Begins cfg n s k q u) : p.Writes cfg n s c := by
  obtain ⟨j, info, tag, v, hmark, hc⟩ := h
  exact ⟨j, info, tag, v, hbegins.trans hmark, hc⟩

/-- What is in the trail of a plan is begun in it. -/
theorem Plan.begins_of_mem_trail {n : Nat} {p : Plan σ α} {s : RunState σ} {entry : Entry σ}
    (h : entry ∈ p.trail cfg n s) : (match entry with
      | .command c => p.Writes cfg n s c
      | .asked t u => p.Begins cfg n s n (.ask t) u) := by
  -- An entry of a plan that is put together lies in its first part, or in the second behind it.
  induction p generalizing s with
  | mark place =>
    cases place with
    | record info tag =>
      cases List.mem_singleton.mp h
      exact ⟨n, info, tag, s, .here, rfl⟩
    | tick => cases h
  | ask t =>
    cases List.mem_singleton.mp h
    exact .here
  | bind x f ihx ihf =>
    rcases List.mem_append.mp h with hfirst | hnext
    · have hx := ihx hfirst
      cases entry with
      | command c => exact hx.of_begins (.first .here)
      | asked t u => exact .first hx
    · unfold Outcome.after at hnext
      cases hrun : x.run cfg n s with
      | done a t =>
        rw [hrun] at hnext
        have hf := ihf a hnext
        cases entry with
        | command c => exact hf.of_begins (.next hrun .here)
        | asked t u => exact .next hrun hf
      | failed e t =>
        rw [hrun] at hnext
        cases hnext
      | exhausted =>
        rw [hrun] at hnext
        cases hnext
  | recorded x quiet info tag =>
    simp only [Plan.trail] at h
    split at h
    case h_1 e t hx =>
      cases List.mem_singleton.mp h
      exact ⟨n, info, tag, t, .noted hx .here, rfl⟩
    case h_2 => cases h
  | inFrame x ih =>
    have hx := ih h
    cases entry with
    | command c => exact hx.of_begins (.inFrame .here)
    | asked t u => exact .inFrame hx
  | act | narrate | hostCall | hostSet => cases h

/-- The commands of a task are recorded by marks that are begun in it. -/
theorem Task.writes_of_mem_records {n : Nat} {t : Task σ α} {s : RunState σ} {c : Command}
    (h : c ∈ t.records cfg n s) : (Plan.ask t).Writes cfg n s c := by
  induction n generalizing α t s with
  | zero => cases h
  | succ n ih =>
    rw [Task.records_succ] at h
    obtain ⟨entry, hentry, hc⟩ := List.mem_flatMap.mp h
    have hbegun := Plan.begins_of_mem_trail hentry
    cases entry with
    | command d =>
      cases List.mem_singleton.mp hc
      exact hbegun.of_begins (.ask .here)
    | asked t u => exact (ih hc).of_begins (.ask hbegun)

section Checked

variable (hchecked : cfg.strategy ≠ .raw) (hstill : cfg.hosts.Still)

include hchecked hstill

/-- The commands that a run leaves were there before, or are recorded by marks that are begun in it. -/
theorem Plan.run_wrote (n : Nat) (p : Plan σ α) (s : RunState σ) :
    (p.run cfg n s).Leaves fun u => ∀ c ∈ u.commands, c ∈ s.commands ∨ p.Writes cfg n s c := by
  apply (p.run_recorded hchecked hstill (Task.run_recorded hchecked hstill n) s).imp
  intro u hu c hc
  rw [show u.commands = _ from hu] at hc
  rcases List.mem_append.mp hc with hnew | hold
  · obtain ⟨entry, hentry, hc⟩ := List.mem_flatMap.mp (List.mem_reverse.mp hnew)
    have hbegun := Plan.begins_of_mem_trail hentry
    cases entry with
    | command d =>
      cases List.mem_singleton.mp hc
      exact .inr hbegun
    | asked t v => exact .inr ((Task.writes_of_mem_records hc).of_begins hbegun)
  · exact .inl hold

/-- What is so of the commands in a state where a plan is begun. -/
theorem Plan.Begins.wrote {n k : Nat} {p : Plan σ α} {q : Plan σ β} {s u : RunState σ}
    (h : p.Begins cfg n s k q u) : ∀ c ∈ u.commands, c ∈ s.commands ∨ p.Writes cfg n s c := by
  induction h with
  | here => exact fun c hc => .inl hc
  | first _ ih =>
    intro c hc
    exact (ih c hc).imp_right fun h => h.of_begins (.first .here)
  | @next n _ _ _ x f s a t k q u hx _ ih =>
    intro c hc
    rcases ih c hc with hbefore | hwrites
    · have hrun := x.run_wrote hchecked hstill n s
      rw [hx] at hrun
      apply (hrun c hbefore).imp_right
      intro h
      exact h.of_begins (.first .here)
    · exact .inr (hwrites.of_begins (.next hx .here))
  | @noted n _ _ x quiet info tag s e t k q u hx _ ih =>
    intro c hc
    rcases ih c hc with hbefore | hwrites
    · have hrecords := quiet.leaves_records s
      rw [hx] at hrecords
      have hsame : t.commands = s.commands := congrArg Records.commands hrecords
      rw [hsame] at hbefore
      exact .inl hbefore
    · exact .inr (hwrites.of_begins (.noted hx .here))
  | inFrame _ ih =>
    intro c hc
    exact (ih c hc).imp_right fun h => h.of_begins (.inFrame .here)
  | ask _ ih =>
    intro c hc
    exact (ih c hc).imp_right fun h => h.of_begins (.ask .here)
  | hostCall reached => exact absurd (hstill.call ..) reached.not_finished
  | hostSet hset reached => exact absurd (hstill.set _ _ _ _ _ _ hset) reached.not_finished

/-- Every command in a state that a run comes by was there before, or a mark is begun in the run that records it. -/
theorem Plan.Reaches.wrote {n : Nat} {p : Plan σ α} {s u : RunState σ} {e : Option Failure}
    (h : p.Reaches cfg n s e u) : ∀ c ∈ u.commands, c ∈ s.commands ∨ p.Writes cfg n s c := by
  obtain ⟨k, γ, q, t, hbegun, hborder⟩ := h.begun
  intro c hc
  have hq : c ∈ t.commands ∨ q.Writes cfg k t c := by
    have hrun := q.run_wrote hchecked hstill k t
    cases hborder with
    | start => exact .inl hc
    | done hdone =>
      rw [hdone] at hrun
      exact hrun c hc
    | failed hfailed =>
      rw [hfailed] at hrun
      exact hrun c hc
  rcases hq with hbefore | hwrites
  · exact hbegun.wrote hchecked hstill c hbefore
  · exact .inr (hwrites.of_begins hbegun)

end Checked

/-! ## What a filter is asked -/

/-- A setting with another filter. -/
def Setting.withFilter (cfg : Setting σ) (filter : Option CommandFilter) : Setting σ := { cfg with filter := filter }

/-- A filter changes nothing but the filter of a setting. -/
theorem Setting.agrees_withFilter (cfg : Setting σ) (filter : Option CommandFilter) :
    cfg.Agrees (cfg.withFilter filter) := ⟨rfl, rfl, rfl⟩

variable {filter : Option CommandFilter}

/-- Two filters answer alike for all tags that are recorded in a run. -/
def Plan.Permits (cfg : Setting σ) (filter : Option CommandFilter) (n : Nat) (p : Plan σ α) (s : RunState σ) : Prop :=
  ∀ k info tag u, p.Begins cfg n s k (.mark (.record info tag)) u →
    CommandFilter.allowsTag filter tag = CommandFilter.allowsTag cfg.filter tag

/-- What a filter permits throughout a plan it permits in all that begins there. -/
theorem Plan.Permits.of_begins {n k : Nat} {p : Plan σ α} {q : Plan σ β} {s u : RunState σ}
    (h : p.Permits cfg filter n s) (hbegins : p.Begins cfg n s k q u) : q.Permits cfg filter k u :=
  fun j info tag v hmark => h j info tag v (hbegins.trans hmark)

/-- A mark whose tag a filter allows alike is run alike. -/
theorem Mark.run_withFilter {place : Mark} (h : ∀ info tag, place = .record info tag →
    CommandFilter.allowsTag filter tag = CommandFilter.allowsTag cfg.filter tag) :
    place.run (cfg.withFilter filter) = place.run cfg := by
  cases place with
  | record info tag =>
    have htag := h info tag rfl
    simp only [Mark.run, Primer.record]
    rw [show (cfg.withFilter filter).filter = filter from rfl, htag]
    rfl
  | tick info => rfl

/-- A host that calls nothing back does the same under any filter. -/
theorem runHost_withFilter (cfg : Setting σ) (filter : Option CommandFilter) (n depth : Nat) (info : Info)
    (use : HostUse) {action : HostAction σ} (haction : action.Finished) :
    runHost (cfg.withFilter filter) n depth info use action = runHost cfg n depth info use action := by
  cases n with
  | zero => rfl
  | succ n =>
    cases action with
    | finish answer host memory => rfl
    | callBack => exact haction.elim

/-- A plan runs the same under a filter that answers alike at its marks, if its tasks do. -/
theorem Plan.run_withFilter (hstill : cfg.hosts.Still) {n : Nat}
    (htask : ∀ {γ : Type} (t : Task σ γ) (s : RunState σ), (Plan.ask t).Permits cfg filter n s →
      t.run (cfg.withFilter filter) n s = t.run cfg n s)
    (p : Plan σ α) (s : RunState σ) (hpermits : p.Permits cfg filter n s) :
    p.run (cfg.withFilter filter) n s = p.run cfg n s := by
  -- The two runs are equal state by state, so each part starts where it did without the filter.
  induction p generalizing s with
  | act x quiet => rfl
  | mark place =>
    refine congrFun (Mark.run_withFilter ?_) s
    rintro info tag rfl
    exact hpermits n info tag s .here
  | narrate => rfl
  | ask t => exact htask t s hpermits
  | hostCall depth info callee key args =>
    have hfinished := hstill.call key (s.view cfg.strategy) s.host s.memory args
    exact congrFun (runHost_withFilter cfg filter n depth info _ hfinished) s
  | hostSet depth info target key v =>
    have hset : (cfg.withFilter filter).hosts.set key (s.view (cfg.withFilter filter).strategy) s.host s.memory v =
      cfg.hosts.set key (s.view cfg.strategy) s.host s.memory v := rfl
    cases haction : cfg.hosts.set key (s.view cfg.strategy) s.host s.memory v with
    | none => simp only [Plan.run, hset, haction]
    | some action =>
      have hfinished := hstill.set key _ _ _ v action haction
      simp only [Plan.run, hset, haction]
      exact congrFun (runHost_withFilter cfg filter n depth info _ hfinished) s
  | bind x f ihx ihf =>
    show Run.andThen _ _ s = Run.andThen _ _ s
    unfold Run.andThen
    rw [ihx s (hpermits.of_begins (.first .here))]
    cases hx : x.run cfg n s with
    | done a t => exact ihf a t (hpermits.of_begins (.next hx .here))
    | failed e t => rfl
    | exhausted => rfl
  | recorded x quiet info tag =>
    show Run.onFailure x _ s = Run.onFailure x _ s
    unfold Run.onFailure
    cases hx : x s with
    | done a t => rfl
    | failed e t =>
      have hnote : (Mark.record info tag).run (cfg.withFilter filter) = (Mark.record info tag).run cfg := by
        refine Mark.run_withFilter ?_
        rintro _ _ ⟨⟩
        exact hpermits n info tag t (.noted hx .here)
      rw [hnote]
    | exhausted => rfl
  | inFrame x ih =>
    show Plan.framed _ s = Plan.framed _ s
    unfold Plan.framed
    rw [ih s (hpermits.of_begins (.inFrame .here))]

/-- A filter that answers alike for all tags that are recorded in a run lets the same run through, and exhausts the
same bounds. -/
theorem Task.run_withFilter (hstill : cfg.hosts.Still) (n : Nat) (t : Task σ α) (s : RunState σ)
    (hpermits : (Plan.ask t).Permits cfg filter n s) :
    t.run (cfg.withFilter filter) n s = t.run cfg n s := by
  induction n generalizing α t s with
  | zero => cases t <;> rfl
  | succ n ih =>
    rw [Task.run_succ, Task.run_succ, (cfg.agrees_withFilter filter).plan]
    exact Plan.run_withFilter hstill (fun t s h => ih t s h) (t.plan cfg) s (hpermits.of_begins (.ask .here))

end Primer
