import Primer.Host.Standard
import Primer.Proofs.Locals.Length
import Primer.Proofs.Locals.Reserve
import Primer.Proofs.Run.Ending
import Primer.Source.Program

/-!
# What a safe read lets through

With checks, a value is taken out of its place before it takes part in an operation, and values that cannot take
part fail there. Two kinds of values are not looked at: what a variable of the hosts answers, and a cell that lies
in another cell. Everything else that a read gives is usable (`take_usable_or_unseen`). So a read of a variable
whose host answers null goes on with null, where the same value in a variable of the program is refused.
-/

set_option autoImplicit false

namespace Primer

open Run

variable {σ : Type}

/-! ## Failures of a read -/

/-- A controlled failure that arises at an expression: its value cannot take part, or its host fails. -/
def Failure.RaisedAt (e : Expr) (f : Failure) : Prop :=
  ∃ fault, f = .fault fault ∧ fault.controlled = true ∧ fault.node = e.info.id ∧
    (fault.kind = .value ∨ fault.kind = .host)

/-- A value or host fault is raised at its expression. -/
theorem RunState.raisedAt_faultAt (s : RunState σ) (e : Expr) {kind : FaultClass}
    (hkind : kind = .value ∨ kind = .host) (message : String) (cause : Option String) :
    (Failure.fault (s.faultAt kind e.info message cause)).RaisedAt e :=
  ⟨_, rfl, rfl, rfl, hkind⟩

namespace Setting

/-- What the hosts answer when a variable of theirs is read; nothing is undefined. -/
def answer (cfg : Setting σ) (s : RunState σ) (h : HostVariable) : Except HostFailure Value :=
  (cfg.hosts.get h.key s.host s.memory).1.map present

/-- The values that a read gives without having looked at them. -/
inductive Unseen (cfg : Setting σ) (s : RunState σ) : Value → Value → Prop where
  | answered {v w : Value} {h : HostVariable} (hopened : opened s.memory v = .hostVariable h)
    (hanswer : cfg.answer s h = .ok w) : Unseen cfg s v w
  | nested {r r' : CellRef} (hread : s.memory.read r = .cell r') : Unseen cfg s (.cell r) (.cell r')

/-- A failure of the program that the host of a variable had at hand, and which it passes on as it is. -/
def PassesOn (cfg : Setting σ) (s : RunState σ) (v : Value) (f : Failure) : Prop :=
  ∃ h fault, opened s.memory v = .hostVariable h ∧ cfg.answer s h = .error (.passedOn (.fault fault)) ∧
    f = .fault fault

end Setting

/-! ## Variables of the hosts -/

variable {cfg : Setting σ} {e : Expr} {s : RunState σ} {h : HostVariable}

/-- A host variable that is answered is read. -/
theorem readHost_of_answer {w : Value} (hanswer : cfg.answer s h = .ok w) : ∃ t, readHost cfg e h s = .done w t := by
  unfold Setting.answer at hanswer
  unfold readHost
  generalize cfg.hosts.get h.key s.host s.memory = answered at hanswer
  obtain ⟨answer, host, memory⟩ := answered
  cases answer with
  | ok v =>
    cases hanswer
    exact ⟨_, rfl⟩
  | error f => cases hanswer

/-- A host that fails to give a value makes the read fail at its expression, unless it passes on what it had. -/
theorem readHost_of_error {f : HostFailure} (hanswer : cfg.answer s h = .error f) :
    ∃ failure t, readHost cfg e h s = .failed failure t ∧
      (failure.RaisedAt e ∨ ∃ fault, f = .passedOn (.fault fault) ∧ failure = .fault fault) := by
  unfold Setting.answer at hanswer
  unfold readHost
  generalize cfg.hosts.get h.key s.host s.memory = answered at hanswer
  obtain ⟨answer, host, memory⟩ := answered
  cases answer with
  | ok v => cases hanswer
  | error g =>
    cases hanswer
    cases f with
    | message text => exact ⟨_, _, rfl, .inl (RunState.raisedAt_faultAt _ e (.inr rfl) _ _)⟩
    | breakdown text => exact ⟨_, _, rfl, .inl (RunState.raisedAt_faultAt _ e (.inr rfl) _ _)⟩
    | passedOn failure =>
      cases failure with
      | fault fault => exact ⟨_, _, rfl, .inr ⟨fault, rfl, rfl⟩⟩
      | text text => exact ⟨_, _, rfl, .inl (RunState.raisedAt_faultAt _ e (.inr rfl) _ _)⟩
      | breakdown b => exact ⟨_, _, rfl, .inl (RunState.raisedAt_faultAt _ e (.inr rfl) _ _)⟩

/-! ## Values that were opened -/

/-- With checks exactly the finite numbers are taken. -/
theorem takeChecked_number (x : Float) :
    takeChecked cfg e (.number x) = if Number.isFinite x then pure (.number x) else unusable e "not a valid number" :=
  rfl

/-- A checked value is refused at its expression or given, where a variable of the hosts is read. -/
theorem takeChecked_ends (cfg : Setting σ) (e : Expr) (u : Value) (s : RunState σ) :
    (∃ w t, takeChecked cfg e u s = .done w t) ∨
      ∃ f t, takeChecked cfg e u s = .failed f t ∧
        (f.RaisedAt e ∨ ∃ h fault, u = .hostVariable h ∧ cfg.answer s h = .error (.passedOn (.fault fault)) ∧
          f = .fault fault) := by
  have hrefused (reason : String) : ∃ f t, unusable (σ := σ) e reason s = .failed f t ∧
      (f.RaisedAt e ∨ ∃ h fault, u = .hostVariable h ∧ cfg.answer s h = .error (.passedOn (.fault fault)) ∧
        f = .fault fault) :=
    ⟨_, _, rfl, .inl (s.raisedAt_faultAt e (.inl rfl) _ _)⟩
  cases u
  case absent | undefined | pending | null => exact .inr (hrefused _)
  case number x =>
    rw [takeChecked_number]
    by_cases hfinite : Number.isFinite x = true
    · rw [if_pos hfinite]
      exact .inl ⟨_, _, rfl⟩
    · rw [if_neg hfinite]
      exact .inr (hrefused _)
  case hostVariable h =>
    cases hanswer : cfg.answer s h with
    | ok w =>
      obtain ⟨t, ht⟩ := readHost_of_answer (e := e) hanswer
      exact .inl ⟨w, t, ht⟩
    | error f =>
      obtain ⟨failure, t, ht, hfailure⟩ := readHost_of_error (e := e) hanswer
      refine .inr ⟨failure, t, ht, hfailure.imp_right ?_⟩
      rintro ⟨fault, rfl, rfl⟩
      exact ⟨h, fault, rfl, hanswer, rfl⟩
  all_goals exact .inl ⟨_, _, rfl⟩

/-- A checked value that is given is usable, unless a host answered it or it is a cell. -/
theorem takeChecked_usable {u w : Value} {t : RunState σ} (hdone : takeChecked cfg e u s = .done w t) :
    w.isUsable = true ∨ (∃ h, u = .hostVariable h ∧ cfg.answer s h = .ok w) ∨
      ∃ r, u = .cell r ∧ w = .cell r := by
  cases u
  case absent | undefined | pending | null => cases hdone
  case number x =>
    rw [takeChecked_number] at hdone
    by_cases hfinite : Number.isFinite x = true
    · rw [if_pos hfinite] at hdone
      cases hdone
      exact .inl hfinite
    · rw [if_neg hfinite] at hdone
      cases hdone
  case hostVariable h =>
    right; left
    refine ⟨h, rfl, ?_⟩
    cases hanswer : cfg.answer s h with
    | ok v =>
      obtain ⟨t', ht⟩ := readHost_of_answer (e := e) hanswer
      have hsame : Outcome.done w t = .done v t' := hdone.symm.trans ht
      cases hsame
      rfl
    | error f =>
      obtain ⟨failure, t', ht, -⟩ := readHost_of_error (e := e) hanswer
      have hsame : Outcome.done w t = .failed failure t' := hdone.symm.trans ht
      cases hsame
  case arrayLength a =>
    cases hdone
    exact .inl (Number.isFinite_ofLength _)
  case textLength text =>
    cases hdone
    exact .inl (Number.isFinite_ofLength _)
  case cell r =>
    cases hdone
    exact .inr (.inr ⟨r, rfl, rfl⟩)
  all_goals
    cases hdone
    exact .inl rfl

/-! ## Reads -/

/-- What opens to a cell was a cell that holds one. -/
theorem opened_eq_cell {m : Memory} {v : Value} {r : CellRef} (hopened : opened m v = .cell r) :
    ∃ r₀, v = .cell r₀ ∧ m.read r₀ = .cell r := by
  cases v
  case cell r₀ => exact ⟨r₀, rfl, hopened⟩
  all_goals cases hopened

/-- With checks a place is opened, then checked. -/
theorem take_of_checked (hchecked : cfg.isRaw = false) (v : Value) :
    take cfg e v s = takeChecked cfg e (opened s.memory v) s := by
  simp [take, hchecked]

/-- What a safe read lets through, for every expression, every value or place, every state and every host. It gives
a value, or it fails: at its expression with a controlled failure, or with a failure that a host passes on. And what
it gives is usable, neither undefined nor null nor a number that is not finite nor a place, with two exceptions: what
a variable of the hosts answers, and a cell that lies in another cell. These are given whether they are usable or
not. -/
theorem take_usable_or_unseen (cfg : Setting σ) (hchecked : cfg.isRaw = false) (e : Expr) (v : Value)
    (s : RunState σ) :
    ((∃ w t, take cfg e v s = .done w t) ∨
      ∃ f t, take cfg e v s = .failed f t ∧ (f.RaisedAt e ∨ cfg.PassesOn s v f)) ∧
    (∀ w t, take cfg e v s = .done w t → w.isUsable = true ∨ cfg.Unseen s v w) ∧
    ∀ w, cfg.Unseen s v w → ∃ t, take cfg e v s = .done w t := by
  rw [take_of_checked hchecked]
  refine ⟨takeChecked_ends cfg e (opened s.memory v) s, ?_, ?_⟩
  · intro w t hdone
    rcases takeChecked_usable hdone with husable | ⟨h, hopened, hanswer⟩ | ⟨r, hopened, rfl⟩
    · exact .inl husable
    · exact .inr (.answered hopened hanswer)
    · obtain ⟨r₀, rfl, hread⟩ := opened_eq_cell hopened
      exact .inr (.nested hread)
  · intro w hunseen
    cases hunseen with
    | answered hopened hanswer =>
      rw [hopened]
      exact readHost_of_answer hanswer
    | nested hread =>
      rw [opened, hread]
      exact ⟨s, rfl⟩

/-- An object with one variable, which can only be read and holds null. -/
def Extras.holdingNull : Extras Unit where
  member _ _ name := if name = "nullVar" then some (.hostVariable ⟨.extra 0, name⟩) else Option.none
  call _ _ host memory _ := .finish (.ok .absent) host memory
  get _ host memory := (.ok .null, host, memory)
  set _ _ _ _ := Option.none

/-- The standard hosts with that object beside them, and checks. -/
def Setting.holdingNull : Setting (HostState Unit) := ⟨.safe, none, .none, Hosts.standard Extras.holdingNull⟩

/-- The state of a run in which the object is called `lab`, and a variable of the program holds null. -/
def RunState.holdingNull : RunState (HostState Unit) :=
  initialState ⟨Console.empty, ()⟩ Memory.empty
    [("console", .object .console), ("lab", .object (.extra 0)), ("nul", .null)]

/-- A node without a name of its own. -/
def Expr.someName : Expr := .name ⟨0, ⟨"a", 1, 1⟩⟩ "a"

/-- Null in a variable of the program is refused where it is read. -/
theorem null_of_cell_refused :
    Setting.holdingNull.isRaw = false ∧ opened RunState.holdingNull.memory (.cell 2) = .null ∧
      ∃ f t, take .holdingNull Expr.someName (.cell 2) .holdingNull = .failed f t ∧ f.RaisedAt Expr.someName := by
  have hchecked : Setting.holdingNull.isRaw = false := rfl
  have hnull : opened RunState.holdingNull.memory (.cell 2) = .null := rfl
  refine ⟨hchecked, hnull, ?_⟩
  obtain ⟨⟨w, t, hdone⟩ | ⟨f, t, hfailed, hraised | ⟨h, fault, hopened, -⟩⟩, -⟩ :=
    take_usable_or_unseen .holdingNull hchecked Expr.someName (.cell 2) .holdingNull
  · rw [take_of_checked hchecked, hnull] at hdone
    cases hdone
  · exact ⟨f, t, hfailed, hraised⟩
  · rw [hnull] at hopened
    cases hopened

/-- Null in a variable of the hosts is let through: a program writes it to the console and ends well. -/
theorem null_of_host_let_through :
    Setting.holdingNull.isRaw = false ∧
      (∃ t, take .holdingNull Expr.someName (.hostVariable ⟨.extra 0, "nullVar"⟩) .holdingNull =
        .done .null t) ∧
      Value.null.isUsable = false ∧
      ∃ program f, parse "null.js" "console.log(lab.nullVar);" = .ok program ∧
        Ends .holdingNull program.body .holdingNull f ∧ f.result.fault = none ∧
        f.state.host.console.output = "null\n" := by
  refine ⟨rfl, ⟨_, rfl⟩, rfl, ?_⟩
  obtain ⟨program, hparse, hprogram⟩ : ∃ program, parse "null.js" "console.log(lab.nullVar);" = .ok program ∧
      ((runBounded .holdingNull 10 program.body .holdingNull).any fun f =>
        f.result.fault.isNone && f.state.host.console.output == "null\n") = true :=
    exists_parse_of_any (by decide +kernel)
  obtain ⟨f, hf, hchecked⟩ := Ends.exists_of_any 10 hprogram
  simp only [Bool.and_eq_true, Option.isNone_iff_eq_none, beq_iff_eq] at hchecked
  exact ⟨program, f, hparse, hf, hchecked.1, hchecked.2⟩

end Primer
