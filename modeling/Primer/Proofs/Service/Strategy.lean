import Primer.Service.Runner

/-!
# Which strategies a service runs

A service that does not allow raw runs compares the name of a strategy as it was sent, while names are read
without regard to case. What follows from this is said here exactly: such a service refuses a call or runs it
with the filter that the call asks for, and it runs it without checks, where no filter has an effect, if and
only if the call names `raw` in other letters (`RunnerService.run_without_raw`).
-/

set_option autoImplicit false

namespace Primer

/-! ## Names of strategies -/

/-- A name in lower case is its characters in lower case. -/
theorem Text.lowerName_eq_iff (s t : String) :
    Text.lowerName s = t ↔ s.toList.map Text.lowerChar = t.toList := by
  unfold Text.lowerName
  rw [← String.toList_inj, String.toList_map]

/-- A name means the unchecked strategy if and only if it is `raw` in some letters. -/
theorem Strategy.ofName?_eq_raw_iff (text : String) :
    Strategy.ofName? text = some .raw ↔ Text.lowerName text = "raw" := by
  unfold Strategy.ofName?
  constructor
  · intro h
    split at h <;> simp_all
  · intro h
    rw [h]
    rfl

/-! ## Settings of a call -/

/-- The filter that a call asks for. -/
def RunCall.filter (call : RunCall) : Option CommandFilter :=
  if call.commands.isEmpty && call.deny.isEmpty then none else some (CommandFilter.of call.commands call.deny)

/-- Settings are accepted if the strategy is known and no command is blank; the exercise is then the one that
was asked for. -/
theorem Exercise.ofSettings_eq_ok_iff {name strategy : String} {commands deny : List String} {e : Exercise} :
    Exercise.ofSettings name strategy commands deny = .ok e ↔
      (Strategy.ofName? strategy).isSome = true ∧ ExerciseDraft.blankCommand? commands = none ∧
        ExerciseDraft.blankCommand? deny = none ∧
        e = ({ name, strategy, commands, deny } : ExerciseDraft).complete 0 := by
  unfold Exercise.ofSettings ExerciseDraft.toExercise ExerciseDraft.check
  cases (Strategy.ofName? strategy).isSome with
  | false =>
    constructor
    · rintro ⟨⟩
    · rintro ⟨⟨⟩, -⟩
  | true =>
    cases ExerciseDraft.blankCommand? commands with
    | some i =>
      constructor
      · rintro ⟨⟩
      · rintro ⟨-, ⟨⟩, -⟩
    | none =>
      cases ExerciseDraft.blankCommand? deny with
      | some i =>
        constructor
        · rintro ⟨⟩
        · rintro ⟨-, -, ⟨⟩, -⟩
      | none =>
        constructor
        · rintro ⟨⟩
          exact ⟨rfl, rfl, rfl, rfl⟩
        · rintro ⟨-, -, -, rfl⟩
          rfl

namespace RunnerService

/-- The exercise of a call that a service accepts: strategy, commands and hosts are as the call has them, and
the name `raw` as it stands is not accepted unless raw runs are allowed. -/
theorem of_exerciseOf_eq_ok {s : RunnerService} {call : RunCall} {e : Exercise}
    (h : s.exerciseOf call = .ok e) :
    e.strategyName = (if call.strategy = "" then "safe" else call.strategy) ∧ e.filter = call.filter ∧
      e.hosts = standardHosts ∧ (s.allowRaw = false → e.strategyName ≠ "raw") := by
  unfold exerciseOf at h
  cases hsettings : Exercise.ofSettings "request" call.strategy call.commands call.deny with
  | error fault =>
    rw [hsettings] at h
    cases h
  | ok e' =>
    obtain ⟨-, -, -, he'⟩ := Exercise.ofSettings_eq_ok_iff.mp hsettings
    rw [hsettings] at h
    simp only at h
    split at h
    · cases h
    · rename_i hraw
      have hname : e.strategyName = e'.strategyName ∧ e.filter = e'.filter ∧ e.hosts = e'.hosts := by
        split at h <;> (cases h; exact ⟨rfl, rfl, rfl⟩)
      obtain ⟨hname, hfilter, hhosts⟩ := hname
      refine ⟨?_, ?_, ?_, ?_⟩
      · rw [hname, he']
        rfl
      · rw [hfilter, he']
        rfl
      · rw [hhosts, he']
        rfl
      · intro hallow heq
        rw [hname] at heq
        apply hraw
        simp [heq, hallow, Strategy.name]

/-- A service refuses the settings of a call as an invalid argument. -/
theorem code_of_exerciseOf_eq_error {s : RunnerService} {call : RunCall} {refusal : ServiceRefusal}
    (h : s.exerciseOf call = .error refusal) : refusal.code = .invalidArgument := by
  unfold exerciseOf at h
  split at h
  · cases h
    rfl
  · split at h
    · cases h
      rfl
    · cases h

/-- With the standard hosts every source can be executed. -/
theorem exists_execute_eq_ok {e : Exercise} (hhosts : e.hosts = standardHosts) (strategy : Strategy)
    (path source : String) :
    ∃ execution, execute strategy (requestOf path source e) = .ok execution := by
  have hnames : (requestOf path source e).names =
      .ok [("console", .object .console), ("Math", .object .math)] := by
    unfold Request.names requestOf
    simp only [hhosts]
    rfl
  unfold execute Request.pass Request.start
  rw [hnames]
  exact ⟨_, rfl⟩

/-- A service executes every call whose settings it accepts. -/
theorem exists_executeCall_eq_ok {s : RunnerService} {call : RunCall} {e : Exercise}
    (h : s.exerciseOf call = .ok e) :
    ∃ execution, execute e.strategy (requestOf "request.js" call.code e) = .ok execution ∧
      s.executeCall call = .ok (e.strategy, execution) := by
  obtain ⟨-, -, hhosts, -⟩ := of_exerciseOf_eq_ok h
  obtain ⟨execution, hexecution⟩ := exists_execute_eq_ok hhosts e.strategy "request.js" call.code
  refine ⟨execution, hexecution, ?_⟩
  unfold executeCall
  rw [h]
  show (invalid (execute e.strategy _) >>= fun x => _) = _
  rw [hexecution]
  rfl

/-- The strategy of an accepted call is the unchecked one if and only if it is named `raw` in other letters,
where raw runs are not allowed. -/
theorem strategy_eq_raw_iff {s : RunnerService} (hs : s.allowRaw = false) {call : RunCall} {e : Exercise}
    (h : s.exerciseOf call = .ok e) :
    e.strategy = .raw ↔ Text.lowerName call.strategy = "raw" ∧ call.strategy ≠ "raw" := by
  obtain ⟨hname, -, -, hraw⟩ := of_exerciseOf_eq_ok h
  have hstrategy : e.strategy = .raw ↔ Strategy.ofName? e.strategyName = some .raw := by
    unfold Exercise.strategy
    cases Strategy.ofName? e.strategyName <;> simp
  rw [hstrategy, Strategy.ofName?_eq_raw_iff]
  by_cases hempty : call.strategy = ""
  · rw [hname, if_pos hempty, hempty, Text.lowerName_eq_iff, Text.lowerName_eq_iff]
    decide
  · rw [if_neg hempty] at hname
    rw [hname] at hraw ⊢
    exact ⟨fun hlower => ⟨hlower, hraw hs⟩, fun hlower => hlower.1⟩

/-- A service that does not allow raw runs either refuses a call as an invalid argument before anything is
executed, or executes it with the filter that the call asks for. It does so without checks, and then against
its intent, exactly for the calls that name `raw` in other letters. -/
theorem run_without_raw (s : RunnerService) (hs : s.allowRaw = false) (stamp : RecordStamp)
    (fields : List (String × Message)) :
    (∃ message, s.run stamp fields = .error ⟨.invalidArgument, message⟩ ∧
      ∀ call, readRunCall fields = .ok call → ∃ refusal, s.exerciseOf call = .error refusal) ∨
    ∃ call e execution, readRunCall fields = .ok call ∧ s.exerciseOf call = .ok e ∧
      e.filter = call.filter ∧ execute e.strategy (requestOf "request.js" call.code e) = .ok execution ∧
      s.executeCall call = .ok (e.strategy, execution) ∧
      (e.strategy = .raw ↔ Text.lowerName call.strategy = "raw" ∧ call.strategy ≠ "raw") := by
  cases hcall : readRunCall fields with
  | error message =>
    left
    refine ⟨message, ?_, fun call h => by cases h⟩
    unfold run
    rw [hcall]
    rfl
  | ok call =>
    cases hexercise : s.exerciseOf call with
    | error refusal =>
      left
      have hcode := code_of_exerciseOf_eq_error hexercise
      refine ⟨refusal.message, ?_, ?_⟩
      · unfold run executeCall
        rw [hcall]
        show ((s.exerciseOf call >>= fun e => _) >>= fun x => _) = _
        rw [hexercise]
        rw [← hcode]
        rfl
      · intro call' h
        cases h
        exact ⟨refusal, hexercise⟩
    | ok e =>
      right
      obtain ⟨execution, hexecution, hexecuted⟩ := exists_executeCall_eq_ok hexercise
      obtain ⟨-, hfilter, -, -⟩ := of_exerciseOf_eq_ok hexercise
      exact ⟨call, e, execution, rfl, hexercise, hfilter, hexecution, hexecuted,
        strategy_eq_raw_iff hs hexercise⟩

/-- A call that names `raw` in capitals and denies loops is executed without checks, although raw runs are not
allowed. -/
theorem run_without_raw_capitals :
    ∃ (call : RunCall) (e : Exercise) (execution : Execution),
      readRunCall [("strategy", .string "RAW"), ("deny", .list [.string "while"])] = .ok call ∧
      e.filter = some (CommandFilter.of [] ["while"]) ∧
      (⟨none, false⟩ : RunnerService).executeCall call = .ok (e.strategy, execution) ∧ e.strategy = .raw := by
  have hlower : Text.lowerName "RAW" = "raw" := (Text.lowerName_eq_iff _ _).mpr (by decide)
  have hsettings : Exercise.ofSettings "request" "RAW" [] ["while"] = .ok _ :=
    Exercise.ofSettings_eq_ok_iff.mpr
      ⟨by rw [(Strategy.ofName?_eq_raw_iff "RAW").mpr hlower]; rfl, rfl, rfl, rfl⟩
  rcases run_without_raw ⟨none, false⟩ rfl ⟨"", 0⟩
      [("strategy", .string "RAW"), ("deny", .list [.string "while"])] with ⟨_, -, hrefused⟩ | hexecuted
  · obtain ⟨refusal, hrefusal⟩ := hrefused ⟨"", "RAW", [], ["while"], 0⟩ rfl
    unfold exerciseOf at hrefusal
    rw [hsettings] at hrefusal
    cases hrefusal
  · obtain ⟨call, e, execution, hcall, -, hfilter, -, hrun, hraw⟩ := hexecuted
    cases hcall
    exact ⟨_, e, execution, rfl, hfilter, hrun, hraw.mpr ⟨hlower, by decide⟩⟩

end RunnerService

end Primer
