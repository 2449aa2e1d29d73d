import Mathlib.Data.List.Nodup
import Primer.Proofs.Counted.Program
import Primer.Proofs.Generated.Statement
import Primer.Proofs.Sound.Program

/-!
# Generated programs

A generated program declares its variables, then functions, and goes on with other statements. Its loops count, and the
functions do not mention the counters of the loops behind them. So every generated program is read, and it ends.
-/

set_option autoImplicit false

namespace Primer

open Source (IsIdentifier render)
open Layout

/-! ## Functions -/

/-- A text is that of functions in which the loops from `lo` up to `hi` count. -/
def AreFunctions (lo : Nat) (text : String) (hi : Nat) : Prop :=
  lo ≤ hi ∧ ∃ body, Stmt.Spelled false true 0 body text ∧
    Stmt.AllWithin (fun _ => True) (Reserve.counting true (Mentioned lo hi)).body body ∧
    ∀ own last, Stmt.AllCounted own last body

/-- The body of a function that counts does so where more names may be mentioned. -/
theorem Reserve.counting_mono {checked : Bool} {inner inner' : String → Prop} (h : ∀ x, inner x → inner' x)
    {body : List Stmt} (hbody : (Reserve.counting checked inner).body body) : (Reserve.counting checked inner').body body :=
  ⟨Stmt.allWithin_mono h (fun _ => id) hbody.1, hbody.2⟩

section Functions

variable {lo mid hi : Nat} {text text' : String}

/-- No text is no functions. -/
theorem AreFunctions.nil : AreFunctions lo "" lo := ⟨Nat.le_refl lo, [], .nil, trivial, fun _ _ => trivial⟩

/-- Functions below each other are functions. -/
theorem AreFunctions.append (h : AreFunctions lo text mid) (h' : AreFunctions mid text' hi) :
    AreFunctions lo (text ++ text') hi := by
  obtain ⟨hlo, body, hspelled, hwithin, hcounted⟩ := h
  obtain ⟨hhi, body', hspelled', hwithin', hcounted'⟩ := h'
  refine ⟨Nat.le_trans hlo hhi, body ++ body', hspelled.append hspelled', Stmt.allWithin_append ?_ ?_,
    fun own last => Stmt.allCounted_append (hcounted own last) (hcounted' own)⟩
  · exact Stmt.allWithin_mono (fun _ => id) (fun _ => Reserve.counting_mono fun _ => .mono (Nat.le_refl lo) hhi) hwithin
  · exact Stmt.allWithin_mono (fun _ => id) (fun _ => Reserve.counting_mono fun _ => .mono hlo (Nat.le_refl hi)) hwithin'

/-- A function whose body is made of some lines and a result. -/
theorem AreFunctions.one {name body result : String} {params : List String} (hname : IsIdentifier name)
    (hparams : ∀ p ∈ params, IsIdentifier p) (hdistinct : params.Nodup) (hbody : IsLines 1 lo body hi)
    (hresult : ∃ e : Expr, e.Written NoCounter result)
    (htext : text = "function " ++ name ++ "(" ++ String.intercalate ", " params ++ ") \x7b\n" ++ body ++ "  return " ++
      result ++ ";\n\x7d\n") : AreFunctions lo text hi := by
  obtain ⟨hle, stmts, hbody⟩ := hbody
  obtain ⟨e, he⟩ := hresult
  have hreturn : Stmt.Spelled true false 1 [.return .blank (some e)] ("  return " ++ result ++ ";\n") := by
    have hcode : ((Stmt.return .blank (some e)).layout Info.id 1).Renders ("return " ++ result) := by
      intro gap
      simp [Stmt.layout, he.renders [' ']]
    refine .line ⟨rfl, ?_⟩ he.clear hcode (String.toList_inj.mp (by simp [Stmt.isBlock, Generator.indent_eq, indentation]))
    rintro _ ⟨⟩
    exact he.read
  have hinside := (hbody.spelled true false).append hreturn
  have hblock := render_block hinside.renders 0
  have hheader : render (commas (params.map word) []) = (String.intercalate ", " (params.map id)).toList :=
    render_commas fun p _ => renders_word p
  let function : Stmt := .function .blank name params (stmts ++ [.return .blank (some e)])
  have hrenders : (function.layout Info.id 0).Renders ("function " ++ name ++ "(" ++ String.intercalate ", " params ++
      ") \x7b\n" ++ body ++ "  return " ++ result ++ ";\n\x7d") := by
    intro gap
    simp [function, Stmt.layout, renders_word name [' '], hheader, hblock, braced, indentation]
  refine ⟨hle, [function], .line ⟨rfl, hname, hparams, hdistinct, hinside.read⟩ hinside.clear hrenders ?_,
    ⟨⟨trivial, ?_, ?_⟩, trivial⟩, fun own last => ⟨trivial, trivial⟩⟩
  · rw [htext]
    exact String.toList_inj.mp (by simp [function, Stmt.isBlock, Generator.indent_eq, indentation])
  · refine Stmt.allWithin_append hbody.within ⟨?_, trivial⟩
    rintro _ ⟨⟩
    exact e.within_join (fun _ hx _ => .inl hx) he.within he.within
  · apply Stmt.allCounted_append (hbody.counted _ (fun _ _ => trivial) none)
    intro _
    exact ⟨trivial, trivial⟩

end Functions

/-! ## Declarations -/

namespace Generator

/-- A variable that is declared with its first value. -/
def declared (x : String) (value : Expr) : Declared := ⟨.blank, x, some ⟨.blank, .name .blank x, "=", value⟩⟩

/-- A small number. -/
def small (n : Nat) : Expr := .number .blank (Source.numberValue (toString n)) (toString n)

/-- The statements that declare the variables of every program. -/
def declarations : List Stmt :=
  [.var .blank [declared "a" (small 1), declared "b" (small 2), declared "c" (small 3)],
    .var .blank [declared "s" (.string .blank "x" "\"x\"")],
    .var .blank [declared "arr" (.array .blank [small 1, small 2, small 3])]]

/-- A generated declared name is one that a reader can give. -/
theorem declared_read {x : String} {value : Expr} (hx : IsIdentifier x) (hvalue : value.IsRead) :
    (declared x value).IsRead := by
  refine ⟨hx, ?_⟩
  rintro _ ⟨⟩
  exact ⟨⟨_, rfl⟩, rfl, hvalue⟩

/-- The declarations of a program are ones that a reader can give. -/
theorem declarations_read : Stmt.AllRead false true declarations := by
  have hsmall (n : Nat) (hn : n < 20) : (small n).IsRead := ⟨isNumeral_small hn, rfl⟩
  have hscan : Source.scanText '"' ['x', '"'] = ⟨['x', '"'], true, []⟩ := rfl
  have hquotation : Source.IsQuotation ['"', 'x', '"'] := Source.scanText_isQuotation (by decide) hscan
  have hnumbers : ∀ d ∈ [declared "a" (small 1), declared "b" (small 2), declared "c" (small 3)], d.IsRead := by
    simp only [List.forall_mem_cons, List.not_mem_nil, false_implies, implies_true, and_true]
    exact ⟨declared_read ⟨by decide, by decide⟩ (hsmall 1 (by decide)),
      declared_read ⟨by decide, by decide⟩ (hsmall 2 (by decide)), declared_read ⟨by decide, by decide⟩ (hsmall 3 (by decide))⟩
  have htext : (declared "s" (.string .blank "x" "\"x\"")).IsRead := declared_read ⟨by decide, by decide⟩ ⟨hquotation, rfl⟩
  have harray : (declared "arr" (.array .blank [small 1, small 2, small 3])).IsRead := declared_read ⟨by decide, by decide⟩
    ⟨hsmall 1 (by decide), hsmall 2 (by decide), hsmall 3 (by decide), trivial⟩
  exact ⟨⟨List.cons_ne_nil _ _, hnumbers⟩, ⟨List.cons_ne_nil _ _, List.forall_mem_singleton.mpr htext⟩,
    ⟨List.cons_ne_nil _ _, List.forall_mem_singleton.mpr harray⟩, trivial⟩

/-- The declarations of a program may use all names. -/
theorem declarations_within (B : List Stmt → Prop) : Stmt.AllWithin (fun _ => True) B declarations :=
  ⟨fun d _ => d.within_all fun _ => trivial, fun d _ => d.within_all fun _ => trivial,
    fun d _ => d.within_all fun _ => trivial, trivial⟩

/-- The declarations of a program are written as generated. -/
theorem declarations_render (rest : List Stmt) : render (Stmt.lines Info.id 0 (declarations ++ rest) []) =
    "var a = 1, b = 2, c = 3;\nvar s = \"x\";\nvar arr = [1, 2, 3];".toList ++ render (Stmt.lines Info.id 0 rest ['\n']) := by
  have hsome : declarations ≠ [] := List.cons_ne_nil _ _
  rw [Stmt.lines_append_of_ne_nil 0 hsome, Source.render_append]
  rfl

end Generator

/-! ## Programs -/

/-- A text is that of a program in which all loops count. -/
structure Program.IsGenerated (p : Program) (text : String) : Prop where
  nonempty : p.body ≠ []
  read : Stmt.AllRead false true p.body
  clear : Stmt.everywhereAll Expr.isClear (fun _ => true) p.body = true
  renders : text.toList = render (p.lexemes Info.id)
  count : ∃ inner, Stmt.AllCount inner p.body

/-- A program is made of the declarations, of functions and of other statements. -/
theorem Program.IsGenerated.of_parts {lo mid hi : Nat} {functions body : String} (hfunctions : AreFunctions lo functions mid)
    (hbody : IsLines 0 mid body hi) : ∃ p : Program, p.IsGenerated
      ("var a = 1, b = 2, c = 3;\nvar s = \"x\";\nvar arr = [1, 2, 3];\n" ++ functions ++ body) := by
  obtain ⟨-, fs, hspelled, hwithin, hcounted⟩ := hfunctions
  obtain ⟨-, stmts, hstmts⟩ := hbody
  have hrest := hspelled.append (hstmts.spelled false true)
  refine ⟨⟨.blank, "", Generator.declarations ++ (fs ++ stmts), 0⟩, List.cons_ne_nil _ _,
    Stmt.allRead_append Generator.declarations_read hrest.read, ?_, ?_, Mentioned lo mid, ?_, ?_⟩
  · rw [Stmt.everywhereAll_append, hrest.clear]
    rfl
  · rw [Program.lexemes, Source.render_append, Generator.declarations_render, List.append_assoc]
    have hlast : render [Source.Lexeme.ending ['\n']] = ['\n'] := rfl
    rw [hlast, hrest.renders]
    simp
  · refine Stmt.allWithin_append (Generator.declarations_within _) (Stmt.allWithin_append hwithin ?_)
    exact Stmt.allWithin_mono (fun _ _ => trivial) (fun _ h => h.elim) hstmts.within
  · refine Stmt.allCounted_append ⟨trivial, trivial, trivial, trivial⟩ ?_
    intro last
    refine Stmt.allCounted_append (hcounted _ last) ?_
    apply hstmts.counted _
    intro x hx
    exact hx.not_mentioned (.inr (Nat.le_refl mid))

namespace Generator

open Generate

/-- The numbered names of functions and parameters are plain. -/
theorem isPlainName_numbered {letter : Char} (hletter : letter ∈ ['f', 'p']) (n : Nat) : IsPlainName (numbered letter n) := by
  have hletters : ∀ letter ∈ ['f', 'p'], letter ∈ nameLetters ∧ letter ≠ 'i' ∧ letter ≠ 'w' :=
    Source.forall_of_all (by decide)
  obtain ⟨hmem, hi, hw⟩ := hletters letter hletter
  refine ⟨isIdentifier_numbered hmem n, ?_, ?_⟩
  · rw [numbered_toList]
    simpa using hi
  · rw [numbered_toList]
    simpa using hw

/-- The global names are variables. -/
theorem areVariables_globals : AreVariables globals := by
  have hall : ∀ x ∈ globals, (Source.isPlainWord x.toList = true ∧ (Source.wordKind x).1 = .identifier) ∧
      x.toList.head? ≠ some 'i' ∧ x.toList.head? ≠ some 'w' := by decide +kernel
  exact ⟨List.cons_ne_nil _ _, fun x hx => ⟨(hall x hx).1, (hall x hx).2⟩⟩

/-- Several statements one after the other. -/
theorem statements_gives {vars : List String} {functions : List (String × Nat)} (hvars : AreVariables vars)
    (hfunctions : ∀ f ∈ functions, IsPlainName f.1) (n level room lo : Nat) :
    (times n (statement vars level room)).Gives functions lo fun texts hi => IsLines level lo (String.join texts) hi := by
  refine times_gives (S := fun lo texts hi => IsLines level lo (String.join texts) hi)
    (fun lo => statement_gives hvars hfunctions room level) (fun lo => IsLines.nil) ?_ n lo
  intro lo mid hi text texts htext htexts
  rw [String.join_cons]
  exact htext.append htexts

/-- The names of all functions so far can be mentioned. -/
def HasPlainFunctions (g : Generator) : Prop := ∀ f ∈ g.functions, IsPlainName f.1

/-- A generated function is a function, and its name is plain. -/
theorem function_ensures (lo : Nat) :
    function.Ensures (fun g => HasPlainFunctions g ∧ g.loops = lo) fun text g =>
      AreFunctions lo text g.loops ∧ HasPlainFunctions g := by
  suffices h : ∀ functions, (∀ f ∈ functions, IsPlainName f.1) →
      function.Ensures (Has functions lo) fun text g => AreFunctions lo text g.loops ∧ HasPlainFunctions g from
    fun g hg => h g.functions hg.1 g ⟨rfl, hg.2⟩
  intro functions hfunctions
  refine .get ?_
  intro g hg
  refine .andThen (choose_makes (by decide)) ?_
  intro arity harity
  refine .andThen (choose_makes (by decide)) ?_
  intro count hcount
  have hname : IsPlainName ("f" ++ toString g.functions.length) := isPlainName_numbered (show 'f' ∈ ['f', 'p'] by decide) _
  have hparams : ∀ p ∈ (List.range arity).map (fun i => "p" ++ toString i), IsPlainName p := by
    intro p hp
    obtain ⟨i, -, rfl⟩ := List.mem_map.mp hp
    exact isPlainName_numbered (show 'p' ∈ ['f', 'p'] by decide) i
  have hdistinct : ((List.range arity).map fun i => "p" ++ toString i).Nodup :=
    List.Nodup.map (fun i j hij => (numbered_inj (show numbered 'p' i = numbered 'p' j from hij)).2) List.nodup_range
  have hvars : AreVariables (globals ++ (List.range arity).map fun i => "p" ++ toString i) := by
    refine ⟨List.cons_ne_nil _ _, ?_⟩
    intro x hx
    rcases List.mem_append.mp hx with hx | hx
    · exact areVariables_globals.plain x hx
    · exact hparams x hx
  refine .bind (statements_gives hvars hfunctions count 1 depth lo) ?_
  intro body hi hbody
  refine .andThen (expression_makes hvars hfunctions depth) ?_
  intro result hresult
  rintro g' ⟨hfunctions', rfl⟩
  refine ⟨.one hname.identifier (fun p hp => (hparams p hp).identifier) hdistinct hbody hresult.written rfl, ?_⟩
  intro f hf
  rcases List.mem_append.mp hf with hf | hf
  · exact hfunctions f (hfunctions' ▸ hf)
  · rw [List.mem_singleton.mp hf]
    exact hname

/-- Several functions one after the other. -/
theorem functions_ensures (n lo : Nat) :
    (times n function).Ensures (fun g => HasPlainFunctions g ∧ g.loops = lo) fun texts g =>
      AreFunctions lo (String.join texts) g.loops ∧ HasPlainFunctions g := by
  refine times_ensures (S := fun lo texts hi => AreFunctions lo (String.join texts) hi) function_ensures
    (fun lo => AreFunctions.nil) ?_ n lo
  intro lo mid hi text texts htext htexts
  rw [String.join_cons]
  exact htext.append htexts

/-- Every program that is made is one in which all loops count, however many loops have been made before. -/
theorem program_ensures (lo : Nat) :
    program.Ensures (fun g => g.loops = lo) fun text _ => ∃ p : Program, p.IsGenerated text := by
  refine .modify (J := Has [] lo) (fun g hg => ⟨rfl, hg⟩) (.andThen (choose_makes (by decide)) ?_)
  intro n hn
  have hfunctions : (times n function).Ensures (Has [] lo) fun texts g =>
      AreFunctions lo (String.join texts) g.loops ∧ HasPlainFunctions g := by
    intro g hg
    refine functions_ensures n lo g ⟨?_, hg.loops⟩
    rw [HasPlainFunctions, hg.functions]
    exact nofun
  refine .chain hfunctions ?_
  intro functions g hg
  refine .andThen (choose_makes (by decide)) ?_
  intro count hcount
  refine .bind (statements_gives areVariables_globals hg.2 (count + 1) 0 (depth + 1) g.loops) ?_
  intro body hi hbody g' hg'
  have hvariable : ∀ x ∈ globals, ∃ e : Expr, e.Written NoCounter x := fun x hx =>
    ⟨_, (operand_name (areVariables_globals.plain x hx).identifier (areVariables_globals.plain x hx).noCounter).toWritten⟩
  have hprint : IsLines 0 hi "console.log(a, b, c, s, arr);\n" hi := .call (isCallText_print hvariable) rfl
  have hprogram := Program.IsGenerated.of_parts hg.1 (hbody.append hprint)
  rwa [← String.append_assoc] at hprogram

/-- Each of several generated programs is one. -/
theorem programs_generated (n : Nat) (g : Generator) : ∀ text ∈ programs n g, ∃ p : Program, p.IsGenerated text := by
  have hprograms := times_ensures (I := fun _ => True) (Q := fun _ text _ => ∃ p : Program, p.IsGenerated text)
    (S := fun _ texts _ => ∀ text ∈ texts, ∃ p : Program, p.IsGenerated text)
    (fun lo g hg => ⟨program_ensures lo g hg.2, trivial⟩) (fun _ => nofun)
    (fun _ _ _ _ _ htext htexts => List.forall_mem_cons.mpr ⟨htext, htexts⟩) n g.loops
  exact (hprograms g ⟨trivial, rfl⟩).1

end Generator

/-! ## Results -/

/-- The bodies that a counting reserve allows do not depend on places. -/
theorem Reserve.counting_bare (checked : Bool) (inner : String → Prop) (body : List Stmt) :
    (Reserve.counting checked inner).body (Stmt.allBare body) = (Reserve.counting checked inner).body body :=
  congrArg₂ And (Stmt.allWithin_allBare (fun _ => rfl) body) (Stmt.allCounted_allBare none body)

/-- Whether all loops count does not depend on the numbers and places of nodes. -/
theorem Stmt.AllCount.of_bare {inner : String → Prop} {body body' : List Stmt} (h : Stmt.AllCount inner body)
    (hbare : Stmt.allBare body' = Stmt.allBare body) : Stmt.AllCount inner body' where
  within := by
    have hwithin := h.within
    rwa [← Stmt.allWithin_allBare (Reserve.counting_bare true inner), ← hbare,
      Stmt.allWithin_allBare (Reserve.counting_bare true inner)] at hwithin
  counted := by
    have hcounted := h.counted
    rwa [← Stmt.allCounted_allBare none, ← hbare, Stmt.allCounted_allBare] at hcounted

/-- A text of a program in which all loops count is read as such a program. -/
theorem Program.IsGenerated.parsed {p : Program} {text : String} (h : p.IsGenerated text)
    (maps : Source.MapDecoder) (file : String) :
    ∃ p' inner, parseWith maps file text = .ok p' ∧ Stmt.AllCount inner p'.body := by
  obtain ⟨p', hparse, hbare⟩ := parse_lexemes h.read h.nonempty h.clear h.renders maps file
  obtain ⟨inner, hcount⟩ := h.count
  exact ⟨p', inner, hparse, hcount.of_bare hbare⟩

/-- Whatever a generator chooses, each of its programs is read, and a run of it with the standard hosts ends under every
strategy, whatever the filter and the limits are, and never with an internal fault. -/
theorem generated_programs_end (choices : List Nat) (n : Nat) {source : String}
    (h : source ∈ Generator.programs n (Generator.ofChoices choices)) (maps : Source.MapDecoder) (file : String) :
    ∃ program, parseWith maps file source = .ok program ∧ ∀ strategy filter limits,
      (∃ f, Ends (.plain strategy filter limits) program.body .plain f) ∧
        ∀ f, Ends (.plain strategy filter limits) program.body .plain f →
          ∀ fault, f.result.fault = some fault → fault.kind ≠ .internal := by
  obtain ⟨p, hp⟩ := Generator.programs_generated n _ source h
  obtain ⟨program, inner, hparse, hcount⟩ := hp.parsed maps file
  have hhandled := (Program.Accepted.read hparse).handled
  exact ⟨program, hparse, fun strategy filter limits => ⟨counted_programs_end hcount strategy filter limits,
    fun f hf fault hfault => hf.fault_not_internal Hosts.areHandled_standard hhandled RunState.isHandled_plain hfault⟩⟩

/-- A program that calls a function in a loop. -/
def callingLoop : String :=
  "var a = 1, b = 2, c = 3;\nvar s = \"x\";\nvar arr = [1, 2, 3];\nfunction f0(p0) \x7b\n  return p0;\n\x7d\n" ++
    "var w0 = 2;\nwhile (w0 > 0) \x7b\n  f0(3);\n  w0--;\n\x7d\nconsole.log(a, b, c, s, arr);\n"

/-- The loop is made by some choices, so it ends. -/
theorem calling_loop_ends :
    callingLoop ∈ Generator.programs 1 (Generator.ofChoices [1, 1, 0, 0, 5, 5, 0, 7, 1, 8, 0, 0, 3]) ∧
      ∃ program, parse "calls.js" callingLoop = .ok program ∧ ∀ strategy filter limits,
        (∃ f, Ends (.plain strategy filter limits) program.body .plain f) ∧
          ∀ f, Ends (.plain strategy filter limits) program.body .plain f →
            ∀ fault, f.result.fault = some fault → fault.kind ≠ .internal := by
  have hmade : callingLoop ∈ Generator.programs 1 (Generator.ofChoices [1, 1, 0, 0, 5, 5, 0, 7, 1, 8, 0, 0, 3]) := by
    decide +kernel
  exact ⟨hmade, generated_programs_end _ 1 hmade .unversioned "calls.js"⟩

end Primer
