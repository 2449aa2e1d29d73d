import Mathlib.Data.List.Chain
import Primer.Proofs.Control.Part
import Primer.Proofs.Run.Ending
import Primer.Proofs.Run.Plain

/-!
# Steps are well nested

Every step shows the labels of the functions that are running. The labels of two consecutive steps fit together:
between the two a function may have been entered, if the first step says so, and functions may have ended. What
carries this is an invariant of the state: the steps so far fit together, and the frames fit to the newest step.
All actions of a run keep it. A function ends without a step, so that the frames may be fewer than the newest step
shows, and a frame is only pushed right behind the step that narrates it, under the label that is narrated.

The rest is a fact about traces. Going back from a label on a stack, step by step, one comes to the step where the
function of that label was entered, with the labels below it, and all steps in between show it.
-/

set_option autoImplicit false

namespace Primer

open Run

variable {σ α β : Type}

/-! ## Traces -/

/-- A step that narrates that a function is entered, under a label. -/
def Step.Enters (t : Step) (label : String) : Prop :=
  t.fragments.map Fragment.message = ["entering <var>" ++ label ++ "</var>"]

instance (t : Step) (label : String) : Decidable (t.Enters label) := inferInstanceAs (Decidable (_ = _))

/-- The labels of the functions that may be running right after a step, without another step in between. -/
structure Step.LeadsTo (t : Step) (stack : List String) : Prop where
  entered : ∀ label, t.Enters label → stack <+: t.stack ++ [label]
  other : (∀ label, ¬ t.Enters label) → stack <+: t.stack

/-- A well nested trace: the labels of the first step are none, those of every further step may be running after
the step before it, and every label on a stack was brought there by a step that shows the labels below it and
narrates that the function is entered. All steps since then show it. -/
structure WellNested (steps : List Step) : Prop where
  first : ∀ t ∈ steps.head?, t.stack = []
  next : steps.IsChain fun s t => s.LeadsTo t.stack
  introduced : ∀ (i j : Nat) (t : Step) label, steps[i]? = some t → t.stack[j]? = some label →
    ∃ k < i, ∃ s : Step, steps[k]? = some s ∧ s.Enters label ∧ s.stack = t.stack.take j ∧
      ∀ m : Nat, k < m → m < i → ∀ between : Step, steps[m]? = some between → t.stack.take (j + 1) <+: between.stack

/-- The steps so far fit together, newest first, and the functions that are running fit to the newest of them. -/
def Traced : List Step → List String → Prop
  | [], stack => stack = []
  | t :: earlier, stack => t.LeadsTo stack ∧ Traced earlier t.stack

namespace Step.LeadsTo

variable {t : Step} {stack stack' : List String}

/-- Functions may end. -/
theorem shorter (h : t.LeadsTo stack) (hstart : stack' <+: stack) : t.LeadsTo stack' :=
  ⟨fun label hlabel => hstart.trans (h.entered label hlabel), fun hother => hstart.trans (h.other hother)⟩

/-- The functions that a step shows may still be running after it, whatever it narrates. -/
theorem same (t : Step) : t.LeadsTo t.stack :=
  ⟨fun _ _ => List.prefix_append .., fun _ => List.prefix_refl _⟩

/-- Entering a function leads one label further. -/
theorem of_enters {label : String} (h : t.Enters label) : t.LeadsTo (t.stack ++ [label]) := by
  refine ⟨?_, fun hother => absurd h (hother label)⟩
  intro label' h'
  have hmessage : "entering <var>" ++ label ++ "</var>" = "entering <var>" ++ label' ++ "</var>" :=
    List.singleton_inj.mp (h.symm.trans h')
  have hlabel : label = label' := by
    rw [← String.toList_inj] at hmessage ⊢
    simpa only [String.toList_append, List.append_assoc, List.append_cancel_left_eq,
      List.append_cancel_right_eq] using hmessage
  subst hlabel
  exact List.prefix_refl _

/-- A label that is running is shown by the step before, with the same labels below it, or entered there. -/
theorem cases (h : t.LeadsTo stack) {j : Nat} {label : String} (hlabel : stack[j]? = some label) :
    (t.stack[j]? = some label ∧ stack.take (j + 1) <+: t.stack) ∨ (t.Enters label ∧ t.stack = stack.take j) := by
  have hj : j < stack.length := (List.getElem?_eq_some_iff.mp hlabel).1
  have hshown (hstart : stack <+: t.stack) : t.stack[j]? = some label ∧ stack.take (j + 1) <+: t.stack := by
    refine ⟨?_, (List.take_prefix _ _).trans hstart⟩
    rw [List.prefix_iff_getElem?.mp hstart j hj, ← List.getElem?_eq_getElem hj, hlabel]
  by_cases hentered : ∃ entered, t.Enters entered
  · obtain ⟨entered, hentered⟩ := hentered
    rcases List.prefix_concat_iff.mp (h.entered entered hentered) with rfl | hstart
    · rw [List.length_append, List.length_singleton] at hj
      rcases Nat.lt_succ_iff_lt_or_eq.mp hj with hlower | rfl
      · rw [List.getElem?_append_left hlower] at hlabel
        refine .inl ⟨hlabel, ?_⟩
        rw [List.take_append_of_le_length hlower]
        exact List.take_prefix _ _
      · rw [List.getElem?_concat_length] at hlabel
        cases hlabel
        refine .inr ⟨hentered, ?_⟩
        rw [List.take_left]
    · exact .inl (hshown hstart)
  · exact .inl (hshown (h.other fun label hlabel => hentered ⟨label, hlabel⟩))

end Step.LeadsTo

namespace Traced

variable {steps : List Step} {stack stack' : List String}

/-- Steps that are traced from a stack are so from each shorter one. -/
theorem shorter (h : Traced steps stack) (hstart : stack' <+: stack) : Traced steps stack' := by
  cases steps with
  | nil =>
    have hempty : stack = [] := h
    subst hempty
    exact List.prefix_nil.mp hstart
  | cons t earlier => exact ⟨h.1.shorter hstart, h.2⟩

/-- Going back from a label that is running, one comes to the step where its function was entered. -/
theorem introduced (h : Traced steps stack) {j : Nat} {label : String} (hlabel : stack[j]? = some label) :
    ∃ k < steps.length, ∃ s, steps.reverse[k]? = some s ∧ s.Enters label ∧ s.stack = stack.take j ∧
      ∀ m, k < m → ∀ between, steps.reverse[m]? = some between → stack.take (j + 1) <+: between.stack := by
  induction steps generalizing stack with
  | nil =>
    have hempty : stack = [] := h
    subst hempty
    cases hlabel
  | cons t earlier ih =>
    obtain ⟨hleaves, hearlier⟩ := h
    have hlast : (t :: earlier).reverse[earlier.length]? = some t := by
      rw [List.reverse_cons, ← List.length_reverse, List.getElem?_concat_length]
    have hbefore {m : Nat} (hm : m < earlier.length) : (t :: earlier).reverse[m]? = earlier.reverse[m]? := by
      rw [List.reverse_cons, List.getElem?_append_left (by rwa [List.length_reverse])]
    have hbound {m : Nat} {s : Step} (hs : (t :: earlier).reverse[m]? = some s) : m < earlier.length + 1 := by
      have hm := (List.getElem?_eq_some_iff.mp hs).1
      rwa [List.length_reverse] at hm
    -- Either the label was running at the newest step already, or that step entered it.
    rcases hleaves.cases hlabel with ⟨hshown, hstart⟩ | ⟨hentered, hbelow⟩
    · obtain ⟨k, hk, s, hs, hentered, hbelow, hbetween⟩ := ih hearlier hshown
      have hsame {i : Nat} (hi : i ≤ j + 1) : t.stack.take i = stack.take i := by
        have hlength : (stack.take (j + 1)).length = j + 1 :=
          List.length_take_of_le (List.getElem?_eq_some_iff.mp hlabel).1
        have htaken := List.prefix_iff_eq_take.mp hstart
        rw [hlength] at htaken
        rw [← Nat.min_eq_left hi, ← List.take_take, ← htaken, List.take_take]
      rw [hsame (Nat.le_succ j)] at hbelow
      refine ⟨k, Nat.lt_succ_of_lt hk, s, (hbefore hk).trans hs, hentered, hbelow, ?_⟩
      intro m hm between hbtw
      rcases Nat.lt_succ_iff_lt_or_eq.mp (hbound hbtw) with hearly | rfl
      · rw [← hsame (Nat.le_refl _)]
        exact hbetween m hm between ((hbefore hearly).symm.trans hbtw)
      · rw [hlast] at hbtw
        cases hbtw
        exact hstart
    · refine ⟨earlier.length, Nat.lt_succ_self _, t, hlast, hentered, hbelow, ?_⟩
      intro m hm between hbtw
      have := hbound hbtw
      omega

/-- Steps that fit together are a well nested trace. -/
theorem wellNested (h : Traced steps stack) : WellNested steps.reverse := by
  induction steps generalizing stack with
  | nil => exact ⟨nofun, .nil, nofun⟩
  | cons t earlier ih =>
    obtain ⟨-, hearlier⟩ := h
    have hnested := ih hearlier
    rw [List.reverse_cons]
    refine ⟨?_, ?_, ?_⟩
    · intro s hs
      cases earlier with
      | nil =>
        cases hs
        exact hearlier
      | cons last rest =>
        refine hnested.first s ?_
        rwa [List.head?_append_of_ne_nil _ (by simp)] at hs
    · refine List.isChain_append.mpr ⟨hnested.next, .singleton t, ?_⟩
      intro last hlast s hs
      cases hs
      cases earlier with
      | nil => cases hlast
      | cons newest rest =>
        rw [List.getLast?_reverse, List.head?_cons] at hlast
        cases hlast
        exact hearlier.1
    · intro i j s label hs hlabel
      have hi := (List.getElem?_eq_some_iff.mp hs).1
      rw [List.length_append, List.length_reverse, List.length_singleton] at hi
      have hbefore {m : Nat} (hm : m < earlier.length) : (earlier.reverse ++ [t])[m]? = earlier.reverse[m]? :=
        List.getElem?_append_left (by rwa [List.length_reverse])
      -- A label at the newest step was entered before it, at a step that is found by going back.
      rcases Nat.lt_succ_iff_lt_or_eq.mp hi with hearly | rfl
      · rw [hbefore hearly] at hs
        obtain ⟨k, hk, r, hr, hentered, hbelow, hbetween⟩ := hnested.introduced i j s label hs hlabel
        refine ⟨k, hk, r, (hbefore (hk.trans hearly)).trans hr, hentered, hbelow, ?_⟩
        intro m hkm hmi between hbtw
        exact hbetween m hkm hmi between ((hbefore (hmi.trans hearly)).symm.trans hbtw)
      · rw [← List.length_reverse, List.getElem?_concat_length] at hs
        cases hs
        obtain ⟨k, hk, r, hr, hentered, hbelow, hbetween⟩ := hearlier.introduced hlabel
        refine ⟨k, hk, r, (hbefore hk).trans hr, hentered, hbelow, ?_⟩
        intro m hkm hmi between hbtw
        exact hbetween m hkm between ((hbefore hmi).symm.trans hbtw)

end Traced

/-! ## Runs -/

/-- The steps of a state fit together, and its frames fit to the newest of them. -/
def RunState.Traced (s : RunState σ) : Prop := Primer.Traced s.steps s.stack

/-- A computation that keeps the steps fitting together. -/
structure Run.Nests (x : Run σ α) : Prop where
  run : ∀ s, s.Traced → (x s).Leaves RunState.Traced

/-- Another active scope leaves the stack of labels. -/
theorem RunState.stack_withScope (s : RunState σ) (scope : Scope) : (s.withScope scope).stack = s.stack := by
  unfold stack withScope
  cases s.frames with
  | nil => rfl
  | cons frame frames => simp only [List.reverse_cons, List.map_append, List.map_cons, List.map_nil]

/-- Entering a function adds its label to the stack. -/
theorem RunState.stack_pushFrame (f : UserFunction) (bound : List (String × Value)) (label : String)
    (s : RunState σ) : (pushFrame f bound label s).stack = s.stack ++ [label] := by
  unfold stack pushFrame
  simp only [List.reverse_cons, List.map_append, List.map_cons, List.map_nil]

/-- The innermost function ends. -/
theorem RunState.stack_leaveFunction (s : RunState σ) : (leaveFunction s).stack <+: s.stack := by
  unfold stack leaveFunction
  cases s.frames with
  | nil => exact List.prefix_refl _
  | cons frame frames =>
    simp only [List.tail_cons, List.reverse_cons, List.map_append]
    exact List.prefix_append ..

namespace Run.Nests

/-- Leaving a function keeps a state traced. -/
theorem leaveFunction {s : RunState σ} (hs : s.Traced) : (Primer.leaveFunction s).Traced :=
  Primer.Traced.shorter hs s.stack_leaveFunction

/-- What adds no steps and leaves the frames alone. -/
theorem of_same {x : Run σ α} (h : ∀ s, (x s).Leaves fun u => u.steps = s.steps ∧ u.frames = s.frames) : x.Nests := by
  constructor
  intro s hs
  apply (h s).imp
  rintro u ⟨hsteps, hframes⟩
  unfold RunState.Traced RunState.stack
  rw [hsteps, hframes]
  exact hs

/-- A quiet computation adds no steps, and a steady one leaves the frames alone. -/
theorem still {x : Run σ α} {E : Failure → Prop} (hquiet : x.Quiet) (hsteady : x.Steady E) : x.Nests := by
  apply of_same
  intro s
  have hrecords := hquiet.leaves_records s
  have hcontrol := (hsteady.run s).leaves
  generalize x s = o at hrecords hcontrol
  cases o with
  | done a u => exact ⟨congrArg Records.steps hrecords, congrArg Control.frames hcontrol⟩
  | failed e u => exact ⟨congrArg Records.steps hrecords, congrArg Control.frames hcontrol⟩
  | exhausted => exact trivial

/-- Giving a value nests. -/
theorem pure (a : α) : Nests (Pure.pure a : Run σ α) := ⟨fun _ hs => hs⟩

/-- A sequence of steps nests if each of them does. -/
theorem bind {x : Run σ α} {f : α → Run σ β} (hx : x.Nests) (hf : ∀ a, (f a).Nests) : (x >>= f).Nests :=
  ⟨fun s hs => leaves_bind (hx.run s hs) fun a t ht => (hf a).run t ht⟩

/-- A note that is made on a failure nests if it does so itself. -/
theorem onFailure {x : Run σ α} {note : Run σ Unit} (hx : x.Nests) (hnote : note.Nests) :
    (Run.onFailure x note).Nests := by
  constructor
  intro s hs
  have hxs := hx.run s hs
  unfold Run.onFailure
  generalize x s = o at hxs
  cases o with
  | done a u => exact hxs
  | failed e u =>
    have hu := hnote.run u hxs
    simp only
    generalize note u = o at hu
    cases o <;> exact hu
  | exhausted => exact trivial

/-- A frame nests if what is done in it does. -/
theorem framed {x : Run σ (Option Value)} (hx : x.Nests) : (Plan.framed x).Nests :=
  ⟨fun s hs => leaves_framed (hx.run s hs) fun _ ht => leaveFunction ht⟩

variable (cfg : Setting σ)

/-- Recording a command narrates nothing. -/
theorem record (info : Info) (tag : String) : (Primer.record cfg info tag).Nests := by
  apply of_same
  intro s
  unfold Primer.record
  split
  · exact ⟨rfl, rfl⟩
  · show (Run.andThen (Run.update _) _ s).Leaves _
    simp only [Run.andThen, Run.update]
    split <;> exact ⟨rfl, rfl⟩

/-- Counting a statement narrates nothing. -/
theorem tick (info : Info) : (Primer.tick cfg info).Nests := by
  apply of_same
  intro s
  unfold Primer.tick
  cases cfg.limits.stopped s.ticks with
  | some reason => exact ⟨rfl, rfl⟩
  | none =>
    simp only
    split
    · exact ⟨rfl, rfl⟩
    · cases cfg.limits.limiter with
      | none => exact ⟨rfl, rfl⟩
      | some limiter =>
        simp only
        cases limiter s.asked info.id <;> exact ⟨rfl, rfl⟩

/-- A mark narrates at most one step of the active function. -/
theorem mark (place : Mark) : (place.run cfg).Nests := by
  cases place with
  | record info tag => exact record cfg info tag
  | tick info => exact tick cfg info

/-- A narrated step shows the functions that are running. -/
theorem narrate (category : Category) (node : NodeId) (message : Memory → String) (changes : Unit → List Change) :
    (Primer.narrate cfg category node message changes).Nests := by
  constructor
  intro s hs
  unfold Primer.narrate
  split
  · exact ⟨.same _, hs⟩
  · exact hs

/-- The frame of a function is pushed right behind the step that narrates it. -/
theorem entering (hstepped : cfg.strategy = .stepped) (f : UserFunction) (bound : List (String × Value))
    (label : String) : (Primer.narrate cfg .block f.info.id (fun _ => "entering <var>" ++ label ++ "</var>")
      (fun _ => []) >>= fun _ => Run.update (pushFrame f bound label)).Nests := by
  constructor
  intro s hs
  unfold Primer.narrate
  rw [if_pos hstepped]
  show Primer.Traced (_ :: s.steps) (RunState.stack (pushFrame f bound label _))
  rw [RunState.stack_pushFrame]
  have hentered : Step.Enters ⟨[⟨f.info.id, .block, "entering <var>" ++ label ++ "</var>"⟩], [], s.stack⟩ label := rfl
  exact ⟨.of_enters hentered, hs⟩

/-- A host keeps the steps fitting together if the functions do that it calls back. -/
theorem runHost (depth : Nat) (info : Info) (use : HostUse) {n : Nat}
    (hcall : ∀ k < n, ∀ (f : UserFunction) (args : List Value), (callFunction cfg k depth f.info f args).Nests)
    (action : HostAction σ) : (Primer.runHost cfg n depth info use action).Nests := by
  -- A host that calls back goes on with what the call gave, with a bound that is smaller by one.
  induction n generalizing action with
  | zero => exact ⟨fun _ _ => trivial⟩
  | succ n ih =>
    have hrest := ih fun k hk => hcall k (Nat.lt_succ_of_lt hk)
    constructor
    intro s hs
    cases action with
    | finish answer host memory =>
      have hs' : ({ s with host := host, memory := memory } : RunState σ).Traced := hs
      cases answer with
      | ok v => exact hs
      | error f =>
        have hbroken (text : String) : (use.broken info text : Run σ Value).Quiet := by
          cases use with
          | call callee => exact .raiseFrom ..
          | assign target => exact .raise ..
        have hfailed := still (.hostFailed hbroken f)
          (.hostFailed (.all cfg) info (.broken (.all cfg) info use) fun _ _ => trivial)
        exact hfailed.run _ hs'
    | callBack f args host memory next =>
      have hcalled := (hcall n (Nat.lt_succ_self n) f args).run { s with host := host, memory := memory } hs
      rw [runHost_callBack]
      generalize callFunction cfg n depth f.info f args { s with host := host, memory := memory } = o at hcalled
      cases o with
      | done v u => exact (hrest _).run u hcalled
      | failed e u => exact (hrest _).run u hcalled
      | exhausted => exact trivial

end Run.Nests

section Stepped

variable {cfg : Setting σ} {n : Nat}

/-- A plan keeps the steps fitting together if its tasks do. -/
theorem Plan.Made.nests {declares : Bool} {asked : (α : Type) → Task σ α → Prop}
    (htask : ∀ k ≤ n, ∀ {α : Type} (t : Task σ α), (t.run cfg k).Nests) {p : Plan σ α}
    (hp : p.Made cfg declares asked) : (p.run cfg n).Nests := by
  have hall := Allows.all cfg
  have hcall (depth : Nat) : ∀ k < n, ∀ (f : UserFunction) (args : List Value),
      (callFunction cfg k depth f.info f args).Nests :=
    fun k hk f args => htask k (Nat.le_of_lt hk) (.callFunction depth f.info f args)
  induction hp with
  | @act α x quiet h => exact .still quiet (h.steady hall (fun _ _ => trivial) fun _ => trivial)
  | @declareName name v quiet h =>
    constructor
    intro s hs
    show Primer.Traced (RunState.steps (RunState.withScope _ _)) (RunState.stack (RunState.withScope _ _))
    rw [RunState.stack_withScope]
    have hsteps (scope : Scope) (s : RunState σ) : (s.withScope scope).steps = s.steps := by
      unfold RunState.withScope
      cases s.frames <;> rfl
    rw [hsteps]
    exact hs
  | mark place => exact .mark cfg place
  | narrate category node message changes => exact .narrate cfg category node message changes
  | @ask α t h => exact htask n (Nat.le_refl n) t
  | hostCall depth info callee key args => exact ⟨fun s hs => (Run.Nests.runHost cfg depth info _ (hcall depth) _).run s hs⟩
  | hostSet depth info target key v =>
    constructor
    intro s hs
    simp only [Plan.run]
    cases cfg.hosts.set key (s.view cfg.strategy) s.host s.memory v with
    | none => exact Run.Nests.still (.cannotAssign info target v) (.cannotAssign hall info target v) |>.run s hs
    | some action => exact (Run.Nests.runHost cfg depth info _ (hcall depth) action).run s hs
  | bind _ _ ihx ihf => exact .bind ihx ihf
  | @recorded α x quiet h info tag =>
    exact .onFailure (.still quiet (h.steady hall (fun _ _ => trivial) fun _ => trivial)) (.record cfg info tag)

/-- A call keeps the steps fitting together if the function does that is called. -/
theorem Task.run_call_nests (depth : Nat) (info : Info) (callee : Expr) (args : List Expr) (f : Value)
    (given : List Value) (hcall : ∀ g vs, ((Plan.callValue depth info callee g vs).run cfg n).Nests) :
    ((Task.call depth info callee args f given).run cfg (n + 1)).Nests := by
  have hall := Allows.all cfg
  have hparts : (callParts cfg info callee args f given).Nests :=
    .bind (.still (.take cfg callee f) (.take hall callee f)) fun _ =>
      .bind (.still (.takeAll cfg args given) (.takeAll hall args given)) fun _ =>
        .bind (.of_same fun _ => ⟨rfl, rfl⟩) fun _ => .bind (.narrate cfg ..) fun _ => .pure _
  have henter : (enterCall cfg info).Nests := by
    refine .of_same ?_
    intro s
    unfold enterCall
    split <;> exact ⟨rfl, rfl⟩
  have hresult (label : String) (v : Value) : ((Plan.callResult info label v).run cfg n).Nests := by
    cases v
    case absent | undefined | null => exact .pure _
    all_goals exact .bind (.narrate cfg ..) fun _ => .pure _
  rw [Task.run_call]
  refine .bind hparts ?_
  intro _
  refine .bind henter ?_
  intro _
  refine .bind (hcall _ _) ?_
  intro _
  exact .bind (.of_same fun _ => ⟨rfl, rfl⟩) fun _ => hresult _ _

/-- A function keeps the steps fitting together if its body does. -/
theorem Task.run_callFunction_nests (hstepped : cfg.strategy = .stepped) (depth : Nat) (info : Info)
    (f : UserFunction) (args : List Value) (hbody : ((Task.execAll depth f.body).run cfg n).Nests) :
    ((Task.callFunction depth info f args).run cfg (n + 1)).Nests := by
  have hall := Allows.all cfg
  rw [Task.run_callFunction]
  unfold functionParts
  split
  · exact ⟨fun s hs => hs⟩
  · simp only [Run.bind_assoc]
    refine .bind (.still (.bindParams cfg info f.params args) (.bindParams hall info f.params args)) ?_
    intro bound
    refine .bind (.of_same fun _ => ⟨rfl, rfl⟩) ?_
    intro label
    have hentered := (Run.Nests.entering cfg hstepped f bound label).bind fun _ => hbody.framed
    rw [Run.bind_assoc] at hentered
    exact hentered

/-- Whatever a stepped run does, its steps fit together. -/
theorem Task.run_nests (hstepped : cfg.strategy = .stepped) (n : Nat) (t : Task σ α) : (t.run cfg n).Nests := by
  -- A host may call back with any smaller bound, so the bound before this one is not enough.
  induction n using Nat.strongRecOn generalizing α t with
  | _ n ih =>
    cases n with
    | zero =>
      refine ⟨?_⟩
      intro s _
      cases t <;> exact trivial
    | succ n =>
      have htask : ∀ k ≤ n, ∀ {α : Type} (t : Task σ α), (t.run cfg k).Nests :=
        fun k hk _ t => ih k (Nat.lt_succ_of_le hk) t
      cases hcall : t.isCall with
      | true =>
        cases t with
        | call depth info callee args f given =>
          apply run_call_nests depth info callee args f given
          intro g vs
          exact (Plan.callValue_made cfg depth info callee g vs).nests htask
        | callFunction depth info f args =>
          exact run_callFunction_nests hstepped depth info f args (htask n (Nat.le_refl n) (.execAll depth f.body))
        | _ => cases hcall
      | false =>
        rw [Task.run_succ]
        exact (t.plan_made cfg hcall).nests htask

end Stepped

/-! ## Programs -/

/-- The steps that a stepped run leaves behind are well nested, for every program, filter and limits, and whether
the program ran through or failed. -/
theorem steps_well_nested (body : List Stmt) (filter : Option CommandFilter) (limits : Limits)
    (f : Finished (HostState Unit)) (hf : Ends (.plain .stepped filter limits) body .plain f) :
    WellNested f.result.steps := by
  obtain ⟨n, hn⟩ := hf
  have hplain : RunState.plain.Traced := rfl
  have hrun : (execAll (.plain .stepped filter limits) n 0 body .plain).Leaves RunState.Traced :=
    (Task.run_nests rfl n (.execAll 0 body)).run _ hplain
  unfold runBounded at hn
  generalize execAll (.plain .stepped filter limits) n 0 body .plain = o at hn hrun
  cases o with
  | done v u =>
    cases hn
    exact hrun.wellNested
  | failed e u =>
    cases hn
    exact hrun.wellNested
  | exhausted => cases hn

/-- The function `function f(x) { return x; }` and the call `f(f(1));`. -/
def callInCall : List Stmt :=
  let call (id : NodeId) (arg : Expr) : Call := ⟨⟨id, ⟨"f", 4, 1⟩⟩, .name ⟨id + 1, ⟨"f", 4, 1⟩⟩ "f", [arg]⟩
  [.function ⟨1, ⟨"function", 1, 1⟩⟩ "f" ["x"] [.return ⟨2, ⟨"return", 2, 3⟩⟩ (some (.name ⟨3, ⟨"x", 2, 10⟩⟩ "x"))],
    .call ⟨4, ⟨"f", 4, 1⟩⟩ (call 5 (call 7 (.number ⟨9, ⟨"1", 4, 5⟩⟩ 1.0 "1")).toExpr)]

/-- A call inside the arguments of a call leaves a well nested trace, with both functions on it. -/
theorem steps_well_nested_call_in_call : ∃ f, Ends (.plain .stepped none .none) callInCall .plain f ∧
    (f.result.steps.filter fun t => t.Enters "f(1)").length = 2 ∧ WellNested f.result.steps := by
  obtain ⟨f, hf, hentered⟩ : ∃ f, Ends (.plain .stepped none .none) callInCall .plain f ∧
      decide ((f.result.steps.filter fun t => t.Enters "f(1)").length = 2) = true :=
    Ends.exists_of_any 20 (by decide +kernel)
  exact ⟨f, hf, of_decide_eq_true hentered, steps_well_nested callInCall none .none f hf⟩

end Primer
