import Primer.Proofs.Run.Plain

/-!
# A filter cuts a run off at the first forbidden construct

A checked run records a command before the construct has any effect, and a forbidden one ends the run there.
So a run with a filter is the run without it up to the first forbidden command: if there is none, the two are
the same, and otherwise the filtered run ends at the node of that command, with the commands up to it and
with what the console showed when it was recorded. This is `filter_cuts_at_first_forbidden`.
-/

set_option autoImplicit false

namespace Primer

open Run

variable {σ : Type}

/-! ## Recording -/

/-- Without a filter, a checked run records a command and goes on. -/
theorem record_unfiltered (cfg : Setting σ) (hchecked : cfg.strategy ≠ .raw) (hfilter : cfg.filter = none)
    (info : Info) (tag : String) (s : RunState σ) :
    record cfg info tag s = .done () (s.withCommand ⟨info.id, tag⟩) := by
  rw [record_checked hchecked, hfilter]
  rfl

/-- With a filter, a checked run records a command and goes on if the command is allowed. -/
theorem record_allowed (cfg : Setting σ) (hchecked : cfg.strategy ≠ .raw) {filter : CommandFilter}
    (hfilter : cfg.filter = some filter) (info : Info) {tag : String} (htag : filter.allows tag = true)
    (s : RunState σ) : record cfg info tag s = .done () (s.withCommand ⟨info.id, tag⟩) := by
  have hallowed : CommandFilter.allowsTag cfg.filter tag = true := by
    rw [hfilter]
    exact htag
  rw [record_checked hchecked, if_pos hallowed]

/-- With a filter, a forbidden command is recorded and ends the run with a policy fault at its node. -/
theorem record_forbidden (cfg : Setting σ) (hchecked : cfg.strategy ≠ .raw) {filter : CommandFilter}
    (hfilter : cfg.filter = some filter) (info : Info) {tag : String} (htag : filter.allows tag = false)
    (s : RunState σ) : record cfg info tag s =
      .failed (.fault (s.faultAt .policy info ("<var>" ++ tag ++ "</var> cannot be used in this exercise")
        none)) (s.withCommand ⟨info.id, tag⟩) := by
  have hforbidden : ¬ CommandFilter.allowsTag cfg.filter tag = true := by
    rw [hfilter]
    simpa [CommandFilter.allowsTag] using htag
  rw [record_checked hchecked, if_neg hforbidden]
  rfl

/-- A tick records no command. -/
theorem tick_leaves_commands (cfg : Setting σ) (info : Info) (s : RunState σ) :
    (tick cfg info s).Leaves fun t => t.commands = s.commands := by
  unfold tick
  cases cfg.limits.stopped s.ticks with
  | some reason => exact rfl
  | none =>
    simp only
    split
    · exact rfl
    · cases cfg.limits.limiter with
      | none => exact rfl
      | some limiter =>
        simp only
        cases limiter s.asked info.id <;> exact rfl

/-! ## The filtered run beside the free one -/

/-- The same records, all of whose commands a filter allows. -/
def Records.SamePermitted (filter : CommandFilter) (r r' : Records) : Prop :=
  r = r' ∧ ∀ c ∈ r.commands, filter.allows c.tag = true

/-- While all commands were permitted, states that are alike are the same. -/
theorem RunState.Alike.eq_of_permitted {filter : CommandFilter} {s t : RunState σ}
    (h : s.Alike (Records.SamePermitted filter) t) : t = s := by
  rw [h.same, ← h.records.1, RunState.withRecords_records]

/-- While all commands were permitted, a state is alike to itself. -/
theorem RunState.alike_permitted {filter : CommandFilter} {s : RunState σ}
    (h : ∀ c ∈ s.commands, filter.allows c.tag = true) : s.Alike (Records.SamePermitted filter) s :=
  ⟨s.withRecords_records.symm, rfl, h⟩

/-- Whether a mark is one where a command is recorded. -/
def Mark.IsRecord : Mark → Prop
  | .record .. => True
  | .tick _ => False

/-- The run with a filter accompanies the run without one, and is cut off at forbidden commands only. -/
theorem Companions.filtered {strategy : Strategy} (hchecked : strategy ≠ .raw) (filter : CommandFilter)
    (limits : Limits) {hosts : Hosts σ} (hstill : hosts.Still) :
    Companions ⟨strategy, none, limits, hosts⟩ ⟨strategy, some filter, limits, hosts⟩
      (Records.SamePermitted filter) Eq Mark.IsRecord := by
  refine ⟨⟨rfl, rfl, rfl⟩, ?_, ?_, .refl hosts, fun _ _ => hstill, ?_⟩
  · rintro step r _ ⟨rfl, hr⟩
    unfold Setting.told
    split
    · exact ⟨rfl, hr⟩
    · exact ⟨rfl, hr⟩
  · intro s t h
    rw [h.eq_of_permitted]
  · intro place s t h
    obtain rfl := h.eq_of_permitted
    have hpermitted := h.records.2
    cases place with
    | record info tag =>
      simp only [Mark.run]
      rw [record_unfiltered ⟨strategy, none, limits, hosts⟩ hchecked rfl]
      cases htag : filter.allows tag with
      | true =>
        rw [record_allowed ⟨strategy, some filter, limits, hosts⟩ hchecked rfl info htag]
        refine .done (RunState.alike_permitted ?_)
        intro c hc
        rcases List.mem_cons.mp hc with rfl | hc
        · exact htag
        · exact hpermitted c hc
      | false =>
        have hstop := record_forbidden ⟨strategy, some filter, limits, hosts⟩ hchecked rfl info htag t
        have hrecord : (Mark.record info tag).IsRecord := trivial
        rw [hstop]
        exact .cut hrecord ⟨rfl, rfl⟩ h hstop rfl
    | tick info =>
      have hcommands := tick_leaves_commands ⟨strategy, none, limits, hosts⟩ info t
      show Follows _ _ _ _ (tick ⟨strategy, none, limits, hosts⟩ info t)
        (tick ⟨strategy, none, limits, hosts⟩ info t)
      generalize tick ⟨strategy, none, limits, hosts⟩ info t = o at hcommands
      cases o with
      | done a u =>
        refine .done ?_
        refine RunState.alike_permitted ?_
        intro c hc
        refine hpermitted c ?_
        rwa [show u.commands = t.commands from hcommands] at hc
      | failed e u =>
        refine .failed ?_
        refine RunState.alike_permitted ?_
        intro c hc
        refine hpermitted c ?_
        rwa [show u.commands = t.commands from hcommands] at hc
      | exhausted => exact .exhausted

/-! ## The cut -/

/-- The run with a filter ends with a policy fault where the run without it records a command. -/
structure EndsAtCommand (cfg : Setting σ) (body : List Stmt) (s : RunState σ) (free filtered : Finished σ)
    (k : Nat) (c : Command) : Prop where
  fault : ∃ fault, filtered.result.fault = some fault ∧ fault.kind = .policy ∧ fault.node = c.node
  commands : filtered.result.commands = free.result.commands.take (k + 1)
  steps : filtered.result.steps <+: free.result.steps
  /-- What the hosts show is what they showed when the free run came to record the command, in the only state
  in which it comes to record one after so many others. -/
  recorded : ∃ info u, Passes cfg body s (.record info c.tag) u ∧ info.id = c.node ∧
    u.commands.reverse = free.result.commands.take k ∧ filtered.state.host = u.host ∧
    ∀ info' tag' u', Passes cfg body s (.record info' tag') u' →
      u'.commands.length = u.commands.length → u' = u

/-- A run that was cut off by its filter: the command at which it was, which the free run recorded after
others that are all allowed. -/
theorem CutOff.at_command {strategy : Strategy} (hchecked : strategy ≠ .raw) {filter : CommandFilter}
    {limits : Limits} {hosts : Hosts σ} (hstill : hosts.Still) {body : List Stmt} {s : RunState σ}
    {free filtered : Finished σ} (hfree : Ends ⟨strategy, none, limits, hosts⟩ body s free)
    (hfiltered : Ends ⟨strategy, some filter, limits, hosts⟩ body s filtered)
    (h : CutOff ⟨strategy, none, limits, hosts⟩ ⟨strategy, some filter, limits, hosts⟩
      (Records.SamePermitted filter) Mark.IsRecord body s free filtered) :
    ∃ k c, free.result.commands[k]? = some c ∧ filter.allows c.tag = false ∧
      (∀ d ∈ free.result.commands.take k, filter.allows d.tag = true) ∧
      EndsAtCommand ⟨strategy, none, limits, hosts⟩ body s free filtered k c := by
  obtain ⟨place, u, t, e, v, hrecord, hpassed, halike, hstop, hfault, hstate, hgrown⟩ := h
  obtain rfl := halike.eq_of_permitted
  have hpermitted := halike.records.2
  cases place with
  | tick info => exact hrecord.elim
  | record info tag =>
    simp only [Mark.run] at hstop hgrown
    -- The filtered run failed at the mark, so the command is forbidden.
    have htag : filter.allows tag = false := by
      cases htag : filter.allows tag with
      | false => rfl
      | true =>
        rw [record_allowed ⟨strategy, some filter, limits, hosts⟩ hchecked rfl info htag] at hstop
        cases hstop
    rw [record_forbidden ⟨strategy, some filter, limits, hosts⟩ hchecked rfl info htag] at hstop
    rw [record_unfiltered ⟨strategy, none, limits, hosts⟩ hchecked rfl] at hgrown
    cases hstop
    -- The free run recorded it too, and went on.
    obtain ⟨later, hlater⟩ : ∃ later, later ++ ⟨info.id, tag⟩ :: t.commands = free.state.commands :=
      hgrown.commands
    have hcommands : free.result.commands = t.commands.reverse ++ ⟨info.id, tag⟩ :: later.reverse := by
      rw [hfree.result_eq, ← hlater]
      simp
    have htake : free.result.commands.take t.commands.length = t.commands.reverse := by
      rw [hcommands]
      simp
    refine ⟨t.commands.length, ⟨info.id, tag⟩, ?_, htag, ?_, ?_⟩
    · rw [hcommands]
      simp
    · intro d hd
      rw [htake] at hd
      exact hpermitted d (List.mem_reverse.mp hd)
    · have hhost : filtered.state.host = t.host := by
        rw [hstate]
        rfl
      refine ⟨⟨_, hfault, rfl, rfl⟩, ?_, ?_, ⟨info, t, hpassed, rfl, htake.symm, hhost, ?_⟩⟩
      · rw [hfiltered.result_eq, hstate, List.take_add_one, htake, hcommands]
        simp [RunState.withCommand]
      · rw [hfiltered.result_eq, hfree.result_eq, hstate]
        exact List.reverse_prefix.mpr hgrown.steps
      · intro info' tag' u' hu' hlength
        exact hu'.unique hchecked hstill hpassed hlength

/-- A filter cuts a run off exactly at the first command that it forbids. If it allows all commands of the
run without a filter, both runs are the same. Otherwise it ends the run at the least command that it forbids,
before that and anything after it has an effect. -/
theorem filter_cuts_at_first_forbidden (strategy : Strategy) (hchecked : strategy ≠ .raw)
    (filter : CommandFilter) (limits : Limits) (body : List Stmt) {free : Finished (HostState Unit)}
    (hfree : Ends (.plain strategy none limits) body .plain free) :
    ∃ filtered, Ends (.plain strategy (some filter) limits) body .plain filtered ∧
      ((∀ c ∈ free.result.commands, filter.allows c.tag = true) → filtered = free) ∧
      ∀ k c, free.result.commands[k]? = some c → filter.allows c.tag = false →
        (∀ d ∈ free.result.commands.take k, filter.allows d.tag = true) →
        EndsAtCommand (.plain strategy none limits) body .plain free filtered k c := by
  have hcompanions := Companions.filtered hchecked filter limits Hosts.still_standard
  have hstart : RunState.plain.Alike (Records.SamePermitted filter) RunState.plain :=
    RunState.alike_permitted fun c hc => absurd hc (List.not_mem_nil)
  obtain ⟨filtered, hfiltered, hend⟩ := hcompanions.ends hstart hfree
  refine ⟨filtered, hfiltered, ?_⟩
  rcases hend with ⟨hfault, hstate⟩ | hcut
  · have hpermitted : ∀ c ∈ free.result.commands, filter.allows c.tag = true := by
      intro c hc
      rw [hfree.result_eq] at hc
      exact hstate.records.2 c (List.mem_reverse.mp hc)
    constructor
    · intro _
      have hresult : filtered.result = free.result := by
        rw [hfiltered.result_eq, hfree.result_eq, hfault, hstate.eq_of_permitted]
        rfl
      cases free
      cases filtered
      simp only [Finished.mk.injEq]
      exact ⟨hresult, hstate.eq_of_permitted⟩
    · intro k c hk hc _
      have := hpermitted c (List.mem_of_getElem? hk)
      rw [hc] at this
      cases this
  · obtain ⟨j, d, hj, hd, hbefore, hends⟩ := CutOff.at_command hchecked Hosts.still_standard hfree hfiltered hcut
    constructor
    · intro hall
      have := hall d (List.mem_of_getElem? hj)
      rw [hd] at this
      cases this
    · intro k c hk hc hfirst
      -- Neither of the two forbidden commands can come before the other.
      have hjk : ¬ j < k := by
        intro hlt
        have := hfirst d (List.mem_of_getElem? (by rw [List.getElem?_take_of_lt hlt]; exact hj))
        rw [hd] at this
        cases this
      have hkj : ¬ k < j := by
        intro hlt
        have := hbefore c (List.mem_of_getElem? (by rw [List.getElem?_take_of_lt hlt]; exact hk))
        rw [hc] at this
        cases this
      obtain rfl : k = j := by omega
      rw [hk] at hj
      cases hj
      exact hends

/-- A filter that denies the console ends a greeting at its only command. -/
theorem filter_cuts_greeting :
    ∃ free, Ends (.plain .safe none .none) greeting .plain free ∧
      ∃ filtered, Ends (.plain .safe (some (.of [] ["console.log"])) .none) greeting .plain filtered ∧
        EndsAtCommand (.plain .safe none .none) greeting .plain free filtered 0 ⟨2, "console.log"⟩ := by
  obtain ⟨free, hfree, hcommands⟩ : ∃ free, Ends (.plain .safe none .none) greeting .plain free ∧
      (free.result.commands == [⟨2, "console.log"⟩]) = true := Ends.exists_of_any 10 (by decide +kernel)
  rw [beq_iff_eq] at hcommands
  obtain ⟨filtered, hfiltered, -, hcut⟩ := filter_cuts_at_first_forbidden .safe (by simp)
    (.of [] ["console.log"]) .none greeting hfree
  refine ⟨free, hfree, filtered, hfiltered, hcut 0 ⟨2, "console.log"⟩ ?_ (by decide) (by simp)⟩
  rw [hcommands]
  rfl

end Primer
