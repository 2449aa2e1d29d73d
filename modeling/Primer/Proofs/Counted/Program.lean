import Primer.Proofs.Counted.Loop
import Primer.Proofs.Locals.Program

/-!
# Counted programs end

A program comes to an end if all its loops count. Every task asks for smaller ones, as long as no call is entered: a
loop for as many rounds as its counter counts, and everything else for parts of its tree. A call that is entered takes
one of the calls that may be active at a time. No limit on statements is needed for this.
-/

set_option autoImplicit false

namespace Primer

open Run

variable {σ α β : Type} {cfg : Setting σ} {s u : RunState σ} {inner : String → Prop}

/-! ## Tasks that are ready -/

/-- The counter that a statement starts has its first number. -/
def RunState.Started (s : RunState σ) (last : Option Stmt) : Prop :=
  ∀ x k, (∃ stmt ∈ last, stmt.StartsCounter x k) → s.Counts x k

/-- Without a loop in front nothing has to be started. -/
theorem RunState.started_none : s.Started none := by
  rintro x k ⟨stmt, hstmt, -⟩
  cases hstmt

/-- Whether a counter was started depends on the store only. -/
theorem RunState.Started.congr {last : Option Stmt} (h : s.Started last) (hu : s.SameStore u) : u.Started last :=
  fun x k hlast => (h x k hlast).congr hu

/-- The loops in the statements of a task count. The rounds of a loop are not a task of their own. -/
def Task.Ready (inner : String → Prop) (s : RunState σ) : {α : Type} → Task σ α → Prop
  | _, .execAll _ body => ∃ last, Stmt.AllCounted (CounterAt inner s.frames.length) last body ∧ s.Started last
  | _, .exec _ stmt => ∃ last, stmt.Counted (CounterAt inner s.frames.length) last ∧ s.Started last
  | _, .execCond _ _ _ body branch => Stmt.AllCounted (CounterAt inner s.frames.length) none body ∧
    Stmt.BranchCounted (CounterAt inner s.frames.length) branch
  | _, .execLoop .. => False
  | _, _ => True

/-- A task that is no loop is always ready. -/
theorem Task.ready_of_declares {t : Task σ α} (h : t.declares = false) : t.Ready inner s := by
  cases t
  case execAll | exec | execCond | execLoop => cases h
  all_goals exact trivial

/-- A task that is carried out in a state where all loops count. -/
structure Task.Fits (cfg : Setting σ) (inner : String → Prop) (t : Task σ α) (s : RunState σ) : Prop where
  guards : s.Guards (.counting (!cfg.isRaw) inner) s.frames.length
  within : t.Within (.counting (!cfg.isRaw) inner) s.frames.length
  ready : t.Ready inner s

/-! ## Less space -/

/-- What is left for a task in a state: the calls that may still be entered, and the tree. -/
noncomputable def Task.space (cfg : Setting σ) (t : Task σ α) (s : RunState σ) : Nat × Nat :=
  (cfg.limits.callDepth - s.calls.length, t.size)

/-- Less space: fewer calls, or as many and a smaller tree. -/
abbrev Space.Less : Nat × Nat → Nat × Nat → Prop := Prod.Lex (· < ·) (· < ·)

/-- A smaller task at the same depth of calls needs less space. -/
theorem Task.space_of_size {t : Task σ α} {t' : Task σ β} (hcalls : u.calls.length = s.calls.length)
    (h : t'.size < t.size) : Space.Less (t'.space cfg u) (t.space cfg s) := by
  unfold Task.space
  rw [hcalls]
  exact .right _ h

/-- All tasks that have less space come to an end. -/
def Task.LessFinish (cfg : Setting σ) (inner : String → Prop) (t : Task σ α) (s : RunState σ) : Prop :=
  ∀ (γ : Type) (t' : Task σ γ) (u : RunState σ), Space.Less (t'.space cfg u) (t.space cfg s) → t'.Fits cfg inner u →
    (Plan.ask t').Finishes cfg u.calls.length u

/-- A smaller task comes to an end in all states at the same level. -/
theorem Task.LessFinish.endsBeside {t : Task σ α} (hless : t.LessFinish cfg inner s) {t' : Task σ β}
    (hsize : t'.size < t.size) (hwithin : t'.Within (.counting (!cfg.isRaw) inner) s.frames.length)
    (hready : ∀ u : RunState σ, u.frames.length = s.frames.length → t'.Ready inner u) :
    t'.EndsBeside cfg (.counting (!cfg.isRaw) inner) s.frames.length s.calls.length := by
  intro u hu hcalls
  have hlevel := hu.frames
  rw [← hcalls]
  exact hless β t' u (space_of_size hcalls hsize) ⟨hlevel.symm ▸ hu, hlevel.symm ▸ hwithin, hready u hlevel⟩

/-! ## Parts that are ready in all states -/

/-- The start of a counter has no loop of its own. -/
theorem Stmt.StartsCounter.counted {own : String → Prop} {last : Option Stmt} {x : String} {k : Nat} {stmt : Stmt}
    (h : stmt.StartsCounter x k) : stmt.Counted own last := by
  cases stmt
  case var => exact trivial
  all_goals exact h.elim

/-- The move of a counter has no loop of its own. -/
theorem Stmt.MovesCounter.counted {own : String → Prop} {last : Option Stmt} {x symbol : String} {stmt : Stmt}
    (h : stmt.MovesCounter x symbol) : stmt.Counted own last := by
  cases stmt
  case bump => exact trivial
  all_goals exact h.elim

/-- The statements that ask for expressions and declarations only. -/
def Stmt.isStraight : Stmt → Bool
  | .cond .. | .while .. | .for .. => false
  | _ => true

/-- All that a straight statement asks for is ready. -/
theorem Stmt.plan_ready (depth : Nat) {stmt : Stmt} (hstmt : stmt.isStraight = true) :
    (stmt.plan cfg depth).Made cfg true fun _ t => ∀ u : RunState σ, t.Ready inner u := by
  have hready {γ : Type} {t : Task σ γ} (ht : t.declares = false) (u : RunState σ) : t.Ready inner u :=
    Task.ready_of_declares ht
  cases stmt with
  | var i names => exact .andThen (.ask fun _ => trivial) fun _ => .pure _
  | assign a => exact .andThen (.ask (hready rfl)) fun _ => .pure _
  | bump i target symbol =>
    refine .andThen (.ask (hready rfl)) ?_
    intro p
    refine .andThen (.bump i target symbol p) ?_
    intro v
    refine .andThen (.ask (hready rfl)) ?_
    intro _
    exact .andThen (.narrate ..) fun _ => .pure _
  | call i c => exact .andThen (.ask (hready rfl)) fun _ => .pure _
  | function i name params body => exact .andThen (.function i name params body) fun _ => .pure _
  | «return» i value => exact .ask (hready rfl)
  | declared | elseIf | orElse => exact .act (.failText _)
  | cond | «while» | «for» => cases hstmt

/-- The tasks whose parts are ready in all states: expressions, declarations and straight statements. -/
def Task.isStraight : {α : Type} → Task σ α → Bool
  | _, .call .. | _, .callFunction .. | _, .execAll .. | _, .execCond .. | _, .execLoop .. => false
  | _, .exec _ stmt => stmt.isStraight
  | _, _ => true

/-- All that a straight task asks for is ready. -/
theorem Task.plan_ready {t : Task σ α} (ht : t.isStraight = true) :
    (t.plan cfg).Made cfg t.declares fun _ t' => ∀ u : RunState σ, t'.Ready inner u := by
  have hbelow (hcall : t.isCall = false) (hloop : t.isLoop = false) (hdeclares : t.declares = false) :
      (t.plan cfg).Made cfg t.declares fun _ t' => ∀ u : RunState σ, t'.Ready inner u :=
    (t.plan_below cfg hcall hloop).imp fun h _ => Task.ready_of_declares (h.declares hdeclares)
  cases t with
  | call | callFunction | execAll | execCond | execLoop => cases ht
  | exec depth stmt => exact .andThen (.mark _) fun _ => stmt.plan_ready depth ht
  | execDeclared depth names =>
    cases names with
    | nil => exact .pure _
    | cons d ds =>
      refine .andThen (.declared d) ?_
      intro _
      rcases d with ⟨i, name, _ | a⟩
      · exact .ask fun _ => trivial
      · refine .andThen (.ask fun _ => trivial) ?_
        intro _
        exact .ask fun _ => trivial
  | eval | evalAll | evalTaken | evalLogical | store | execAssign | execReturn => exact hbelow rfl rfl rfl

/-- A straight task comes to an end if all smaller ones do. -/
theorem Task.straight_finishes (hhosts : cfg.hosts.Apart) {t : Task σ α} (hstraight : t.isStraight = true)
    (ht : t.Fits cfg inner s) (hless : t.LessFinish cfg inner s) : (Plan.ask t).Finishes cfg s.calls.length s := by
  have hcall : t.isCall = false := by cases t <;> first | rfl | cases hstraight
  have hloop : t.isLoop = false := by cases t <;> first | rfl | cases hstraight
  have hready : (t.plan cfg).Made cfg t.declares fun _ t' => ∀ u : RunState σ, t'.Ready inner u := t.plan_ready hstraight
  refine .ask (((t.plan_below cfg hcall hloop).and hready).finishes hhosts 0 ?_)
  rintro n - γ t' u ⟨hbelow, hready⟩ hcalls hbegun
  have hkeeps := Task.keeps hhosts rfl (n + 1) s.frames.length t ht.within
  obtain ⟨ℓ, done, failed, hu, hwithin, -⟩ := hkeeps.begins s n γ (.ask t') u ht.guards (.ask hbegun)
  have hlevel := hu.frames
  subst hlevel
  exact hless γ t' u (space_of_size hcalls hbelow.size) ⟨hu, hwithin, hready u⟩

/-! ## Statements with blocks -/

section Blocks

variable {depth : Nat} (hhosts : cfg.hosts.Apart)

include hhosts

/-- A body finishes if everything that needs less space does. -/
theorem execAll_finishes {body : List Stmt} (ht : (Task.execAll depth body).Fits cfg inner s)
    (hless : (Task.execAll depth body).LessFinish cfg inner s) :
    (Plan.ask (.execAll depth body)).Finishes cfg s.calls.length s := by
  obtain ⟨hs, hwithin, last, hcounted, hstarted⟩ := ht
  refine .ask ?_
  cases body with
  | nil => exact .pure none rfl
  | cons stmt rest =>
    have hfirst := hless _ (.exec depth stmt) s (Task.space_of_size rfl (by simp only [Task.size, List.cons.sizeOf_spec]; omega))
      ⟨hs, hwithin.1, last, hcounted.1, hstarted⟩
    have hnext (n : Nat) : (exec cfg n depth stmt s).Meets fun _ u => u.Started (some stmt) := by
      have hstart {x : String} {k : Nat} (h : stmt.StartsCounter x k) :
          (exec cfg n depth stmt s).Meets fun _ u => u.Counts x k := exec_start_meets hs.separate.hasCells n depth h
      generalize exec cfg n depth stmt s = o at hstart
      cases o with
      | done a u =>
        rintro x k ⟨stmt, ⟨⟩, h⟩
        exact hstart h
      | failed | exhausted => exact trivial
    refine .andMeets hfirst (fun n => Task.keeps hhosts rfl n _ _ hwithin.1) hnext hs ?_
    intro returned u _ hu hguards hcalls
    cases returned with
    | some v => exact .pure (some v) hcalls
    | none =>
      have hlevel := hguards.frames
      rw [← hcalls]
      refine hless _ (.execAll depth rest) u (Task.space_of_size hcalls ?_) ⟨?_, ?_, some stmt, ?_, hu⟩
      · simp only [Task.size, List.cons.sizeOf_spec]
        omega
      · rw [hlevel]
        exact hguards
      · rw [hlevel]
        exact hwithin.2
      · rw [hlevel]
        exact hcounted.2

/-- An `if` finishes if everything that needs less space does. -/
theorem execCond_finishes {info : Info} {test : Expr} {body : List Stmt} {branch : Option Stmt}
    (ht : (Task.execCond depth info test body branch).Fits cfg inner s)
    (hless : (Task.execCond depth info test body branch).LessFinish cfg inner s) :
    (Plan.ask (.execCond depth info test body branch)).Finishes cfg s.calls.length s := by
  obtain ⟨hs, ⟨htest, hbody, hbranch⟩, hbodyCounted, hbranchCounted⟩ := ht
  have hblock (b : List Stmt) (hsize : sizeOf b < 1 + sizeOf test + sizeOf body + sizeOf branch)
      (hb : Stmt.AllWithin ((Reserve.counting (!cfg.isRaw) inner).names s.frames.length)
        (Reserve.counting (!cfg.isRaw) inner).body b)
      (hcounted : Stmt.AllCounted (CounterAt inner s.frames.length) none b) :
      (Task.execAll depth b).EndsBeside cfg (.counting (!cfg.isRaw) inner) s.frames.length s.calls.length :=
    hless.endsBeside hsize hb fun u hu => ⟨none, hu ▸ hcounted, RunState.started_none⟩
  have htestEnds : (Task.eval depth test).EndsBeside cfg (.counting (!cfg.isRaw) inner) s.frames.length s.calls.length :=
    hless.endsBeside (by simp only [Task.size]; omega) htest fun _ _ => trivial
  refine .ask ?_
  refine .andThen (htestEnds s hs rfl) (fun n => Task.keeps hhosts rfl n _ _ htest) hs ?_
  intro v u hv hs hcalls
  refine .andThen (.test hhosts info "if" test v hcalls) (fun _ => .test hhosts rfl info "if" test hv) hs ?_
  intro holds u _ hs hcalls
  cases holds with
  | true => exact hblock body (by omega) hbody hbodyCounted u hs hcalls
  | false =>
    rcases branch with _ | branch
    · exact .pure none hcalls
    · cases branch
      case elseIf outer i test' body' branch' =>
        refine .andThen (.record outer "else" hcalls) (fun _ => .record ..) hs ?_
        intro _ w _ hs hcalls
        have hends : (Task.execCond depth i test' body' branch').EndsBeside cfg (.counting (!cfg.isRaw) inner)
            s.frames.length s.calls.length := by
          refine hless.endsBeside ?_ hbranch ?_
          · simp only [Task.size, Option.some.sizeOf_spec, Stmt.elseIf.sizeOf_spec]
            omega
          · intro u hu
            simp only [Task.Ready, hu]
            exact hbranchCounted
        exact hends w hs hcalls
      case orElse outer body' =>
        refine .andThen (.record outer "else" hcalls) (fun _ => .record ..) hs ?_
        intro _ w _ hs hcalls
        refine hblock body' ?_ hbranch hbranchCounted w hs hcalls
        simp only [Option.some.sizeOf_spec, Stmt.orElse.sizeOf_spec]
        omega
      all_goals exact .pure none hcalls

/-- A statement finishes if everything that needs less space does. -/
theorem exec_finishes {stmt : Stmt} (ht : (Task.exec depth stmt).Fits cfg inner s)
    (hless : (Task.exec depth stmt).LessFinish cfg inner s) :
    (Plan.ask (.exec depth stmt)).Finishes cfg s.calls.length s := by
  cases hstraight : stmt.isStraight with
  | true => exact Task.straight_finishes hhosts hstraight ht hless
  | false =>
    obtain ⟨hs, hwithin, last, hcounted, hstarted⟩ := ht
    have hbodyEnds (b : List Stmt) (hsize : sizeOf b < sizeOf stmt)
        (hb : Stmt.AllWithin ((Reserve.counting (!cfg.isRaw) inner).names s.frames.length)
          (Reserve.counting (!cfg.isRaw) inner).body b)
        (hcounted : Stmt.AllCounted (CounterAt inner s.frames.length) none b) :
        (Task.execAll depth b).EndsBeside cfg (.counting (!cfg.isRaw) inner) s.frames.length s.calls.length :=
      hless.endsBeside hsize hb fun u hu => ⟨none, hu ▸ hcounted, RunState.started_none⟩
    have hstmtEnds (stmt' : Stmt) (hsize : sizeOf stmt' < sizeOf stmt)
        (hstmt : stmt'.Within ((Reserve.counting (!cfg.isRaw) inner).names s.frames.length)
          (Reserve.counting (!cfg.isRaw) inner).body)
        (hcounted : stmt'.Counted (CounterAt inner s.frames.length) none) :
        (Task.exec depth stmt').EndsBeside cfg (.counting (!cfg.isRaw) inner) s.frames.length s.calls.length :=
      hless.endsBeside hsize hstmt fun u hu => ⟨none, hu ▸ hcounted, RunState.started_none⟩
    have htestEnds (e : Expr) (hsize : sizeOf e < sizeOf stmt)
        (he : e.Within ((Reserve.counting (!cfg.isRaw) inner).names s.frames.length)) :
        (Task.eval depth e).EndsBeside cfg (.counting (!cfg.isRaw) inner) s.frames.length s.calls.length :=
      hless.endsBeside hsize he fun _ _ => trivial
    refine .ask ?_
    refine .andMeets (.tick stmt.info rfl) (fun _ => .tick stmt.info) (fun _ => tick_meets stmt.info) hs ?_
    intro _ u _ hu hs hcalls
    have hstarted := hstarted.congr hu
    cases stmt with
    | cond i test body branch =>
      have hends : (Task.execCond depth i test body branch).EndsBeside cfg (.counting (!cfg.isRaw) inner)
          s.frames.length s.calls.length := by
        refine hless.endsBeside ?_ hwithin ?_
        · have := i.sizeOf_pos
          simp only [Task.size, Stmt.cond.sizeOf_spec]
          omega
        · intro u hu
          simp only [Task.Ready, hu]
          exact hcounted
      exact hends u hs hcalls
    | «while» i test body =>
      obtain ⟨⟨x, k, hown, hk, hlast, htest, hlowers⟩, hbody⟩ := hcounted
      have hsizeTest : sizeOf test < sizeOf (Stmt.while i test body) := by simp only [Stmt.while.sizeOf_spec]; omega
      have hsizeBody : sizeOf body < sizeOf (Stmt.while i test body) := by simp only [Stmt.while.sizeOf_spec]; omega
      have hrounds : Rounds cfg _ s.frames.length depth test none body _ :=
        rounds_down hhosts rfl hown hwithin.2 htest hlowers
      have hloop : (Task.execLoop depth i "while" test none body : Task σ _).Within (.counting (!cfg.isRaw) inner)
          s.frames.length := ⟨hwithin.1, trivial, hwithin.2⟩
      exact hrounds.finishes hhosts rfl hloop (htestEnds test hsizeTest hwithin.1)
        (hbodyEnds body hsizeBody hwithin.2 hbody) (by simp) k hs hcalls ⟨hk, hstarted x k hlast⟩
    | «for» i first test update body =>
      obtain ⟨⟨x, k, hown, hk, ⟨start, hfirst, hstart⟩, htest, ⟨step, hupdate, hstep⟩, havoid⟩, hbody⟩ := hcounted
      cases hfirst
      cases hupdate
      obtain ⟨hstartWithin, hloopWithin⟩ := hwithin
      have hloop : (Task.execLoop depth i "for" test (some step) body : Task σ _).Within (.counting (!cfg.isRaw) inner)
          s.frames.length := hloopWithin
      have hsizeStart : sizeOf start < sizeOf (Stmt.for i (some start) test (some step) body) := by
        simp only [Stmt.for.sizeOf_spec, Option.some.sizeOf_spec]
        omega
      have hsizeTest : sizeOf test < sizeOf (Stmt.for i (some start) test (some step) body) := by
        simp only [Stmt.for.sizeOf_spec, Option.some.sizeOf_spec]
        omega
      have hsizeStep : sizeOf step < sizeOf (Stmt.for i (some start) test (some step) body) := by
        simp only [Stmt.for.sizeOf_spec, Option.some.sizeOf_spec]
        omega
      have hsizeBody : sizeOf body < sizeOf (Stmt.for i (some start) test (some step) body) := by
        simp only [Stmt.for.sizeOf_spec, Option.some.sizeOf_spec]
        omega
      have hrounds : Rounds cfg _ s.frames.length depth test (some step) body _ :=
        rounds_up hhosts rfl hown hloop.2.2 hk htest hstep havoid
      refine .andMeets (hstmtEnds start hsizeStart hstartWithin hstart.counted u hs hcalls)
        (fun n => Task.keeps hhosts rfl n _ _ hstartWithin) (fun n => exec_start_meets hs.separate.hasCells n depth
        hstart) hs ?_
      intro _ w _ hw hs hcalls
      refine hrounds.finishes hhosts rfl hloop (htestEnds test hsizeTest hloop.1)
        (hbodyEnds body hsizeBody hloop.2.2 hbody) ?_ k hs hcalls ⟨Nat.le_refl k, ?_⟩
      · rintro _ ⟨⟩
        exact hstmtEnds step hsizeStep hloop.2.1 hstep.counted
      · rw [Nat.sub_self]
        exact hw
    | _ => cases hstraight

end Blocks

/-! ## Calls -/

section Calls

variable {depth : Nat} {info : Info}

/-- A call that is entered leaves fewer calls that may be. -/
theorem call_finishes (hhosts : cfg.hosts.Apart) {callee : Expr} {args : List Expr} {f : Value} {given : List Value}
    (ht : (Task.call depth info callee args f given).Fits cfg inner s)
    (hless : (Task.call depth info callee args f given).LessFinish cfg inner s) :
    (Plan.ask (.call depth info callee args f given)).Finishes cfg s.calls.length s := by
  have hallows := Allows.all cfg
  have hkeeps (n ℓ : Nat) {γ : Type} (t : Task σ γ) (ht : t.Within (.counting (!cfg.isRaw) inner) ℓ) :=
    Task.keeps hhosts rfl n ℓ t ht
  have hs := ht.guards
  refine .ask ?_
  refine .andThen (.steady (.take hallows callee f) rfl) (fun _ => .take hhosts rfl callee ht.within.1) hs ?_
  intro f u hf hs hcalls
  refine .andThen (.steady (.takeAll hallows args given) hcalls) (fun _ => .act (.takeAll hhosts rfl args ht.within.2))
    hs ?_
  intro values u hvalues hs hcalls
  refine .andThen (.steady (.asks _) hcalls) (fun _ => .asks) hs ?_
  intro label u _ hs hcalls
  refine .andThen (.narrate _ _ _ _ hcalls) (fun _ => .narrate ..) hs ?_
  intro _ u _ hs hcalls
  rcases Nat.lt_or_ge u.calls.length cfg.limits.callDepth with hroom | hfull
  · have hentered : (Plan.act (enterCall cfg info) (.enterCall cfg info)).Finishes cfg (s.calls.length + 1) u := by
      refine ⟨0, ?_⟩
      show (enterCall cfg info u).Over _
      rw [enterCall_of_lt hroom]
      exact .done (congrArg Nat.succ hcalls)
    refine .andThen hentered (fun _ => .act (.enterCall cfg info)) hs ?_
    intro _ w _ hs hentered
    have hvalue (n : Nat) : (Plan.callValue depth info callee f values).KeepsAt cfg n (.counting (!cfg.isRaw) inner)
        s.frames.length _ :=
      .callValue hhosts (fun ℓ t ht => hkeeps n ℓ t ht) depth info callee hf.toStored hvalues
    have hcalled : (Plan.callValue depth info callee f values).Finishes cfg (s.calls.length + 1) w := by
      rw [← hentered]
      apply (Plan.callValue_made cfg depth info callee f values).finishes hhosts 0
      intro n _ γ t v hdeclares hcalls' hbegun
      obtain ⟨ℓ, _, _, hv, hwithin, -⟩ := (hvalue n).begins w n γ (.ask t) v hs hbegun
      have hlevel := hv.frames
      subst hlevel
      refine hless γ t v (.left _ _ ?_) ⟨hv, hwithin, Task.ready_of_declares hdeclares⟩
      omega
    refine .andThen hcalled hvalue hs ?_
    intro result t hresult hs hcalls
    have hleft : (Plan.act leaveCall .leaveCall).Finishes cfg s.calls.length t :=
      ⟨0, .done (by rw [List.length_tail, hcalls, Nat.add_sub_cancel])⟩
    refine .andThen hleft (fun _ => .act .leaveCall) hs ?_
    intro _ v _ _ hcalls
    exact .steady (Plan.callResult_steady 0 info label result) hcalls
  · refine ⟨0, ?_⟩
    show ((enterCall cfg info >>= fun _ => _) u).Over _
    rw [Run.bind_of_failed (enterCall_of_le hfull info)]
    exact .failed

/-- A function runs in a frame of its own. -/
theorem callFunction_finishes {f : UserFunction} {args : List Value}
    (ht : (Task.callFunction depth info f args).Fits cfg inner s)
    (hless : (Task.callFunction depth info f args).LessFinish cfg inner s) :
    (Plan.ask (.callFunction depth info f args)).Finishes cfg s.calls.length s := by
  have hallows := Allows.all cfg
  obtain ⟨hs, ⟨hf, hargs⟩, -⟩ := ht
  have hentered : (Plan.enterFunction cfg info f args).Finishes cfg s.calls.length s := by
    unfold Plan.enterFunction
    split
    · exact .steady (.raise hallows (by decide) ..) rfl
    · refine .bind (.steady (.bindParams hallows info f.params args) rfl) ?_
      intro _ _ u _ hcalls
      refine .bind (.steady (.asks _) hcalls) ?_
      intro _ _ u _ hcalls
      refine .bind (.narrate _ _ _ _ hcalls) ?_
      intro _ _ u _ hcalls
      exact ⟨0, .done hcalls⟩
  refine .ask ?_
  refine .andThen hentered (fun _ => .enterFunction info f hargs) hs ?_
  intro _ u _ hu hcalls
  refine .inFrame ?_
  have hlevel := hu.frames
  rw [← hcalls]
  have hwithin : Stmt.AllWithin ((Reserve.counting (!cfg.isRaw) inner).names (s.frames.length + 1))
      (Reserve.counting (!cfg.isRaw) inner).body f.body := by
    rw [Reserve.names_of_lt (Nat.lt_succ_of_le hs.level)]
    exact (Reserve.counting (!cfg.isRaw) inner).closed f.body hf
  -- The variables of a function are its own.
  have hown : CounterAt inner (s.frames.length + 1) = fun _ => True := by
    funext x
    exact eq_true fun hlevel => absurd hlevel (Nat.succ_ne_zero _)
  refine hless _ (.execAll depth f.body) u (Task.space_of_size hcalls (by simp [Task.size])) ⟨?_, ?_, none, ?_, ?_⟩
  · rw [hlevel]
    exact hu
  · rw [hlevel]
    exact hwithin
  · rw [hlevel, hown]
    exact hf.2
  · exact RunState.started_none

end Calls

/-! ## All tasks -/

/-- A task comes to an end if all tasks do that have less space. -/
theorem Task.finishes_of_less (hhosts : cfg.hosts.Apart) {t : Task σ α} (ht : t.Fits cfg inner s)
    (hless : t.LessFinish cfg inner s) : (Plan.ask t).Finishes cfg s.calls.length s := by
  cases t with
  | call => exact call_finishes hhosts ht hless
  | callFunction => exact callFunction_finishes ht hless
  | execAll => exact execAll_finishes hhosts ht hless
  | exec => exact exec_finishes hhosts ht hless
  | execCond => exact execCond_finishes hhosts ht hless
  | execLoop => exact ht.ready.elim
  | eval | evalAll | evalTaken | evalLogical | store | execDeclared | execAssign | execReturn =>
    exact straight_finishes hhosts rfl ht hless

/-- Every task comes to an end where all loops count. -/
theorem Task.finishes (hhosts : cfg.hosts.Apart) {γ : Type} (t : Task σ γ) (s : RunState σ) (ht : t.Fits cfg inner s) :
    (Plan.ask t).Finishes cfg s.calls.length s := by
  apply finishes_of_less hhosts ht
  intro _ t' u _hless hfits
  exact finishes hhosts t' u hfits termination_by t.space cfg s decreasing_by exact _hless

/-! ## Programs -/

/-- The statements of a program in which all loops count. The counters outside of functions have names that no function
mentions, and functions do not declare functions. -/
structure Stmt.AllCount (inner : String → Prop) (body : List Stmt) : Prop where
  within : Stmt.AllWithin (fun _ => True) (Reserve.counting true inner).body body
  counted : Stmt.AllCounted (fun x => ¬ inner x) none body

/-- A program in which all loops count ends, whatever the strategy, the filter and the limits are. -/
theorem counted_programs_end {body : List Stmt} (hbody : Stmt.AllCount inner body) (strategy : Strategy)
    (filter : Option CommandFilter) (limits : Limits) : ∃ f, Ends (.plain strategy filter limits) body .plain f := by
  have hown : CounterAt inner 0 = fun x => ¬ inner x := by
    funext x
    exact propext ⟨fun h => h rfl, fun h _ => h⟩
  have hfinishes : (Plan.ask (.execAll 0 body)).Finishes (.plain strategy filter limits) 0 .plain := by
    have hready : (Task.execAll 0 body).Ready inner (.plain : RunState (HostState Unit)) := by
      refine ⟨none, ?_, RunState.started_none⟩
      show Stmt.AllCounted (CounterAt inner 0) none body
      rw [hown]
      exact hbody.counted
    refine Task.finishes Hosts.apart_standard (.execAll 0 body) .plain ⟨?_, hbody.within, hready⟩
    exact RunState.guards_plain rfl (fun _ => trivial) (fun _ => rfl) rfl
  obtain ⟨n, hn⟩ := hfinishes
  change (execAll (.plain strategy filter limits) n 0 body .plain).Over 0 at hn
  generalize ho : execAll (.plain strategy filter limits) n 0 body .plain = o at hn
  cases hn with
  | done => exact ⟨_, n, by rw [runBounded, ho]; rfl⟩
  | failed => exact ⟨_, n, by rw [runBounded, ho]; rfl⟩

end Primer
