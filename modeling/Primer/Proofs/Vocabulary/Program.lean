import Primer.Proofs.Sound.Program
import Primer.Proofs.Vocabulary.Record
import Primer.Proofs.Vocabulary.Task

/-!
# The group entry stands for the language

The tags behind the entry `jsmm` of a filter are a list of their own, and the tags that a run records come from many
places of the evaluator. For programs that come from a source the two agree (`language_group_exact`):

* a command has a tag of the list, or the tag of the host function that is called at its node, wherever that function
  came from;
* a filter that allows the group and the functions of the hosts lets every run through as it is;
* under a filter that denies the group, no construct of the language is ever carried out.

The first part is `Task.speaks` and says what can be recorded at all. The second follows because a filter is asked for
recorded tags only, and the third because every construct records a tag of the list before it is done.
-/

set_option autoImplicit false

namespace Primer

variable {σ α β : Type} {cfg : Setting σ}

/-! ## The functions of the hosts -/

/-- A function that one of the standard hosts has as a member. -/
def HostFunction.IsOffered (g : HostFunction) : Prop :=
  ∃ host o name, (Hosts.standard Extras.none).member host o name = some (.hostFunction g)

/-- The tags of the functions of the standard hosts. -/
def standardTags : List String :=
  ["console.log", "console.clear", "console.setColor"] ++ MathFunction.all.map MathFunction.qualified

/-- The tag of an offered function is one of the standard hosts. -/
theorem HostFunction.IsOffered.tag_mem {g : HostFunction} (h : g.IsOffered) : g.tag ∈ standardTags := by
  obtain ⟨host, o, name, hmember⟩ := h
  cases o with
  | console =>
    simp only [Hosts.standard, Console.member?] at hmember
    split at hmember <;> cases hmember <;> decide
  | math =>
    simp only [Hosts.standard, mathMember?] at hmember
    split at hmember
    case h_1 f hf =>
      cases hmember
      exact List.mem_append_right _ (List.mem_map_of_mem (List.mem_of_find?_eq_some hf))
    case h_2 => split at hmember <;> cases hmember
  | extra n => cases hmember

/-- No function of the hosts has the name of the group for its tag. -/
theorem HostFunction.IsOffered.tag_ne {g : HostFunction} (h : g.IsOffered) : g.tag ≠ languageGroup := by
  intro heq
  have hmem := h.tag_mem
  rw [heq] at hmem
  revert hmem
  decide

/-- The standard hosts give offered functions only. -/
theorem Hosts.give_offered : (Hosts.standard Extras.none).Give (.known HostFunction.IsOffered) :=
  give_standard fun host o name _ hmember => ⟨host, o, name, hmember⟩

/-! ## The tags behind a filter -/

namespace CommandFilter

/-- The group of the language stands for all its tags. -/
theorem mem_expand_of_language {entries : List String} (h : languageGroup ∈ entries) {tag : String}
    (htag : tag ∈ languageTags) : tag ∈ expand entries := by
  refine List.mem_flatMap.mpr ⟨languageGroup, h, ?_⟩
  rw [if_pos rfl]
  exact htag

/-- A tag that is no group stands for itself. -/
theorem mem_expand_of_mem {entries : List String} {tag : String} (h : tag ∈ entries) (htag : tag ≠ languageGroup) :
    tag ∈ expand entries := by
  refine List.mem_flatMap.mpr ⟨tag, h, ?_⟩
  rw [if_neg htag]
  exact List.mem_singleton_self tag

/-- What is allowed and not denied may be used. -/
theorem allows_of_mem {allow : List String} {tag : String} (h : tag ∈ expand allow) :
    (CommandFilter.of allow []).allows tag = true := by
  have hcontains : (expand allow).contains tag = true := List.contains_iff_mem.mpr h
  simp only [allows, CommandFilter.of, expand, List.flatMap_nil, List.contains_nil, Bool.false_eq_true, if_false]
  exact Bool.or_eq_true_iff.mpr (.inr hcontains)

/-- A filter does not allow what it denies. -/
theorem not_allows_of_mem {allow deny : List String} {tag : String} (h : tag ∈ expand deny) :
    (CommandFilter.of allow deny).allows tag = false := by
  have hcontains : (expand deny).contains tag = true := List.contains_iff_mem.mpr h
  simp only [allows, CommandFilter.of, hcontains, if_true]

end CommandFilter

/-! ## Constructs that are never carried out -/

/-- A plan that is never done. -/
def Plan.Blocked (cfg : Setting σ) (p : Plan σ α) : Prop := ∀ n s a t, p.run cfg n s ≠ .done a t

namespace Plan.Blocked

/-- A sequence is blocked if its first step is. -/
theorem first {x : Plan σ α} {f : α → Plan σ β} (hx : x.Blocked cfg) : (x >>= f).Blocked cfg := by
  intro n s b t hdone
  obtain ⟨a, u, hfirst, -⟩ := Run.bind_eq_done hdone
  exact hx n s a u hfirst

/-- A sequence is blocked if all that can follow is. -/
theorem next {x : Plan σ α} {f : α → Plan σ β} (hf : ∀ a, (f a).Blocked cfg) : (x >>= f).Blocked cfg := by
  intro n s b t hdone
  obtain ⟨a, u, -, hnext⟩ := Run.bind_eq_done hdone
  exact hf a n u b t hnext

/-- A task is blocked if its plan is. -/
theorem ask {t : Task σ α} (h : (t.plan cfg).Blocked cfg) : (Plan.ask t).Blocked cfg := by
  intro n s a u hdone
  cases n with
  | zero =>
    have hzero : (Plan.ask t).run cfg 0 s = .exhausted := by cases t <;> rfl
    rw [hzero] at hdone
    cases hdone
  | succ n =>
    change t.run cfg (n + 1) s = .done a u at hdone
    rw [Task.run_succ] at hdone
    exact h n s a u hdone

/-- A tag that is denied is recorded, and the run ends there. -/
theorem record (hchecked : cfg.strategy ≠ .raw) {tag : String} (hdenied : CommandFilter.allowsTag cfg.filter tag = false)
    (i : Info) : (Plan.record i tag : Plan σ Unit).Blocked cfg := by
  intro n s a t hdone
  change Primer.record cfg i tag s = .done a t at hdone
  rw [record_checked hchecked, hdenied] at hdone
  cases hdone

end Plan.Blocked

/-- The constructs of the language, as they are carried out: declared names, assignments, steps by one, operators,
tests, `else`, function declarations, `return` and calls of functions that the program declared. -/
inductive Plan.IsConstruct : {α : Type} → Plan σ α → Prop where
  | declared (depth : Nat) (d : Declared) (ds : List Declared) : IsConstruct (.ask (.execDeclared depth (d :: ds)))
  | assigned (depth : Nat) (a : Assignment) : IsConstruct (.ask (.execAssign depth a))
  | bumped (depth : Nat) (i : Info) (target : Expr) (symbol : String) :
      IsConstruct (.ask (.exec depth (.bump i target symbol)))
  | binary (depth : Nat) (i : Info) (left : Expr) (symbol : String) (right : Expr) :
      IsConstruct (.ask (.eval depth (.binary i left symbol right)))
  | unary (depth : Nat) (i : Info) (symbol : String) (operand : Expr) :
      IsConstruct (.ask (.eval depth (.unary i symbol operand)))
  | cond (depth : Nat) (i : Info) (test : Expr) (body : List Stmt) (branch : Option Stmt) :
      IsConstruct (.ask (.execCond depth i test body branch))
  | loop (depth : Nat) (i : Info) (tag : String) (test : Expr) (update : Option Stmt) (body : List Stmt) :
      IsConstruct (.ask (.execLoop depth i tag test update body))
  | orElse {α : Type} (i : Info) (branch : Unit → Plan σ α) : IsConstruct (.bind (.record i "else") branch)
  | function (depth : Nat) (i : Info) (name : String) (params : List String) (body : List Stmt) :
      IsConstruct (.ask (.exec depth (.function i name params body)))
  | returned (depth : Nat) (i : Info) (value : Option Expr) : IsConstruct (.ask (.execReturn depth i value))
  | call (depth : Nat) (i : Info) (callee : Expr) (f : UserFunction) (args : List Value) :
      IsConstruct (Plan.callValue depth i callee (.function f) args)

section Denied

variable (hchecked : cfg.strategy ≠ .raw)
  (hdenied : ∀ tag ∈ languageTags, CommandFilter.allowsTag cfg.filter tag = false)

include hchecked hdenied

/-- An operator is blocked by its tag. -/
theorem Plan.operator_blocked (i : Info) {symbol : String} (hsymbol : isOperator symbol = true) (a b : Value) :
    (Plan.operator cfg i symbol a b).Blocked cfg :=
  .first (.record hchecked (hdenied _ (operatorTag_mem hsymbol a b)) i)

/-- A compound assignment is blocked by its tag. -/
theorem Plan.assigned_blocked {a : Assignment} (hsymbol : isAssignment a.symbol = true) (place given : Value) :
    (Plan.assigned cfg a place given).Blocked cfg := by
  unfold Plan.assigned
  split
  · exact .first (.record hchecked (hdenied "=" (by decide)) a.info)
  case isFalse hplain =>
    refine .next ?_
    intro _
    exact operator_blocked hchecked hdenied a.info (isOperator_of_isAssignment hsymbol hplain) _ _

/-- A binary operation is blocked by the tag of its operator. -/
theorem Expr.binary_blocked (depth : Nat) (i : Info) (left : Expr) {symbol : String}
    (hsymbol : isOperator symbol = true) (right : Expr) :
    (Plan.ask (.eval depth (.binary i left symbol right))).Blocked cfg := by
  have hraw : cfg.isRaw = false := by simpa [Setting.isRaw] using hchecked
  refine .ask ?_
  show (if maxEvalDepth ≤ depth then _ else Expr.plan cfg depth (.binary i left symbol right)).Blocked cfg
  split
  · rintro n s a t ⟨⟩
  · simp only [Expr.plan, hraw, Bool.false_and, Bool.false_eq_true, if_false]
    refine .next ?_
    intro a
    refine .next ?_
    intro b
    refine .next ?_
    intro operands
    exact .first (Plan.operator_blocked hchecked hdenied i hsymbol _ _)

/-- A sign is blocked by its tag. -/
theorem Expr.unary_blocked (depth : Nat) (i : Info) (symbol : String) (operand : Expr) :
    (Plan.ask (.eval depth (.unary i symbol operand))).Blocked cfg := by
  refine .ask ?_
  show (if maxEvalDepth ≤ depth then _ else Expr.plan cfg depth (.unary i symbol operand)).Blocked cfg
  split
  · rintro n s a t ⟨⟩
  · refine .next ?_
    intro a
    exact .first (.record hchecked (hdenied _ (unaryTag_mem symbol)) i)

/-- Where the tags of the language are denied, a construct on known trees is never done. -/
theorem Plan.IsConstruct.blocked {H : HostFunction → Prop} {n k : Nat} {p : Plan σ α} {q : Plan σ β} {s u : RunState σ}
    (h : q.IsConstruct) (haccounts : p.Accounts cfg H n s k q u) : q.Blocked cfg := by
  have hrecord (i : Info) (tag : String) (htag : tag ∈ languageTags) : (Plan.record i tag : Plan σ Unit).Blocked cfg :=
    .record hchecked (hdenied tag htag) i
  cases h with
  | declared depth d ds => exact .ask (.first (.first (hrecord d.info "var" (by decide))))
  | assigned depth a =>
    have hsymbol : isAssignment a.symbol = true := by
      have hhandled : a.isHandled = true := haccounts
      simp only [Assignment.isHandled, Bool.and_eq_true] at hhandled
      exact hhandled.1.1
    exact .ask (.next fun _ => .next fun _ => .first (Plan.assigned_blocked hchecked hdenied hsymbol _ _))
  | bumped depth i target symbol =>
    exact .ask (.next fun _ => .next fun _ => .first (.first (hrecord i "++" (by decide))))
  | binary depth i left symbol right =>
    have hsymbol : isOperator symbol = true := by
      have hhandled : (Expr.binary i left symbol right).isHandled = true := haccounts
      simp only [Expr.isHandled, Bool.and_eq_true] at hhandled
      exact hhandled.1.1
    exact Expr.binary_blocked hchecked hdenied depth i left hsymbol right
  | unary depth i symbol operand => exact Expr.unary_blocked hchecked hdenied depth i symbol operand
  | cond depth i test body branch => exact .ask (.next fun _ => .first (.first (hrecord i "if" (by decide))))
  | loop depth i tag test update body =>
    exact .ask (.next fun _ => .next fun _ => .first (.first (hrecord i tag haccounts.1)))
  | orElse i branch => exact .first (hrecord i "else" (by decide))
  | function depth i name params body =>
    exact .ask (.next fun _ => .first (.first (hrecord i "function" (by decide))))
  | returned depth i value => exact .ask (.first (hrecord i "return" (by decide)))
  | call depth i callee f args => exact .first (hrecord i "call" (by decide))

end Denied

/-! ## Programs -/

section Programs

variable {body : List Stmt} (hbody : Stmt.allHandled body = true) (strategy : Strategy) (filter : Option CommandFilter)
  (limits : Limits)

include hbody

/-- All that is begun in the run of a program that the engine handles is accounted for. -/
theorem Plan.Begins.accounted {n k : Nat} {q : Plan (HostState Unit) β} {u : RunState (HostState Unit)}
    (h : (Plan.ask (.execAll 0 body)).Begins (.plain strategy filter limits) n .plain k q u) :
    (Plan.ask (.execAll 0 body)).Accounts (.plain strategy filter limits) HostFunction.IsOffered n .plain k q u := by
  have hknown : (Task.execAll 0 body : Task (HostState Unit) _).Known HostFunction.IsOffered := hbody
  exact (Task.speaks Hosts.give_offered n _ hknown).begins _ _ _ _ _ RunState.ofKind_plain h

/-- A filter that allows all tags that are recorded lets a run through. -/
theorem runBounded_of_allows (n : Nat) {f : CommandFilter}
    (hlanguage : ∀ tag ∈ languageTags, f.allows tag = true)
    (hoffered : ∀ g : HostFunction, g.IsOffered → f.allows g.tag = true) :
    runBounded (.plain strategy (some f) limits) n body .plain =
      runBounded (.plain strategy none limits) n body .plain := by
  have hpermits : (Plan.ask (.execAll 0 body)).Permits (.plain strategy none limits) (some f) n .plain := by
    intro k info tag u hmark
    rcases hmark.accounted hbody strategy none limits with htag | ⟨depth, callee, g, args, hg, rfl, -⟩
    · exact hlanguage tag htag
    · exact hoffered g hg
  have hstill : (Setting.plain strategy none limits).hosts.Still := Hosts.still_standard
  have hrun := Task.run_withFilter hstill n _ _ hpermits
  exact congrArg (Finished.of? strategy) hrun

end Programs

/-- The group entry of filters covers exactly the language, for every program that comes from a source, among the
standard hosts, and whatever the limits are. Whichever filter there is, every command in a state that a run comes by
has a tag of the language or that of a host function that is called at its node. A filter that allows the group and
the functions of the hosts makes no difference to any run, not even to one that does not end. Under a filter that
denies the group, no construct of the language is ever done. -/
theorem language_group_exact {program : Program} (h : program.Accepted) (strategy : Strategy)
    (hchecked : strategy ≠ .raw) (limits : Limits) :
    (∀ filter n e u, (Plan.ask (.execAll 0 program.body)).Reaches (.plain strategy filter limits) n .plain e u →
      ∀ c ∈ u.commands, c.tag ∈ languageTags ∨
        ∃ k depth info callee g args v, g.IsOffered ∧ g.tag = c.tag ∧ info.id = c.node ∧
          (Plan.ask (.execAll 0 program.body)).Begins (.plain strategy filter limits) n .plain k
            (Plan.callValue depth info callee (.hostFunction g) args) v) ∧
    (∀ allow, languageGroup ∈ allow → (∀ g : HostFunction, g.IsOffered → g.tag ∈ allow) → ∀ n,
      runBounded (.plain strategy (some (.of allow [])) limits) n program.body .plain =
        runBounded (.plain strategy none limits) n program.body .plain) ∧
    (∀ allow deny, languageGroup ∈ deny → ∀ n k (γ : Type) (q : Plan (HostState Unit) γ) u,
      (Plan.ask (.execAll 0 program.body)).Begins (.plain strategy (some (.of allow deny)) limits) n .plain k q u →
      q.IsConstruct → ∀ a v, q.run (.plain strategy (some (.of allow deny)) limits) k u ≠ .done a v) := by
  refine ⟨?_, ?_, ?_⟩
  · intro filter n e u hreached c hc
    rcases hreached.wrote hchecked Hosts.still_standard c hc with hbefore | ⟨k, info, tag, v, hmark, rfl⟩
    · exact absurd hbefore List.not_mem_nil
    · refine Or.imp_right ?_ (hmark.accounted h.handled strategy filter limits)
      rintro ⟨depth, callee, g, args, hg, htag, hcall⟩
      exact ⟨k, depth, info, callee, g, args, v, hg, htag, rfl, hcall⟩
  · intro allow hgroup hoffered n
    refine runBounded_of_allows h.handled strategy limits n ?_ ?_
    · intro tag htag
      exact CommandFilter.allows_of_mem (CommandFilter.mem_expand_of_language hgroup htag)
    · intro g hg
      exact CommandFilter.allows_of_mem (CommandFilter.mem_expand_of_mem (hoffered g hg) hg.tag_ne)
  · intro allow deny hgroup n k γ q u hbegun hconstruct
    have hdenied (tag : String) (htag : tag ∈ languageTags) :
        CommandFilter.allowsTag (some (.of allow deny)) tag = false :=
      CommandFilter.not_allows_of_mem (CommandFilter.mem_expand_of_language hgroup htag)
    exact hconstruct.blocked hchecked hdenied (hbegun.accounted h.handled strategy _ limits) k u

/-- A source that calls a function of the console through a variable. -/
def storedLog : String := "var log = console.log;\nlog(1);"

/-- The stored function is recorded with its own tag, the group and the tags of the hosts let the program through, and
without the group no construct in it is done. -/
theorem stored_log_recorded : ∃ program f, parse "log.js" storedLog = .ok program ∧
    runBounded (.plain .safe none .none) 10 program.body .plain = some f ∧
    f.result.commands.map Command.tag = ["var", "=", "console.log"] ∧
    runBounded (.plain .safe (some (.of (languageGroup :: standardTags) [])) .none) 10 program.body .plain = some f ∧
    ∀ n k (γ : Type) (q : Plan (HostState Unit) γ) u,
      (Plan.ask (.execAll 0 program.body)).Begins (.plain .safe (some (.of [] [languageGroup])) .none) n .plain k q u →
      q.IsConstruct → ∀ a v, q.run (.plain .safe (some (.of [] [languageGroup])) .none) k u ≠ .done a v := by
  obtain ⟨program, hparse, hprogram⟩ : ∃ program, parse "log.js" storedLog = .ok program ∧
      ((runBounded (.plain .safe none .none) 10 program.body .plain).any fun f =>
        f.result.commands.map Command.tag = ["var", "=", "console.log"]) = true :=
    exists_parse_of_any (by decide +kernel)
  obtain ⟨f, hrun, htags⟩ := (Option.any_eq_true ..).mp hprogram
  obtain ⟨-, hallowed, hdenied⟩ := language_group_exact (.read hparse) .safe (by decide) .none
  have hsame := hallowed (languageGroup :: standardTags) List.mem_cons_self
    (fun g hg => List.mem_cons_of_mem _ hg.tag_mem) 10
  rw [hrun] at hsame
  exact ⟨program, f, hparse, hrun, of_decide_eq_true htags, hsame, hdenied [] [languageGroup] List.mem_cons_self⟩

end Primer
