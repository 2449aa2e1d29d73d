import Mathlib.Data.List.TakeWhile
import Primer.Proofs.Print.Statement
import Primer.Source.Program

/-!
# Reading printed programs

The code of a program is read as the same program, apart from the places and the numbers of its nodes, unless one of
its expressions is printed as another one (`Expr.isClear`).
-/

set_option autoImplicit false

namespace Primer

open Source (Lexeme Origin Separated render)

/-! ## What is not blank -/

/-- A text of which trimming leaves nothing is blank. -/
theorem Text.all_blank_of_trim {s : String} (h : Text.trim s = "") : ∀ c ∈ s.toList, Text.isBlank c = true := by
  have htrim : Text.trimEnd (s.toList.dropWhile Text.isBlank) = [] := by
    rw [← String.toList_ofList (l := Text.trimEnd _)]
    exact congrArg String.toList h
  rw [Text.trimEnd, List.reverse_eq_nil_iff, List.dropWhile_eq_nil_iff] at htrim
  intro c hc
  rw [← List.takeWhile_append_dropWhile (p := Text.isBlank) (l := s.toList), List.mem_append] at hc
  rcases hc with hc | hc
  · exact List.mem_takeWhile_imp hc
  · exact htrim c (List.mem_reverse.mpr hc)

variable {extra : Info → Nat}

/-- A statement ends with a semicolon or has a block. -/
theorem Stmt.line_not_blank (depth : Nat) {inFunction top : Bool} {s : Stmt} (h : s.IsRead inFunction top)
    (gap : List Char) : ∃ c ∈ render (s.line extra depth gap), Text.isBlank c = false := by
  cases hblock : s.isBlock with
  | false => exact ⟨';', by simp [Stmt.line, hblock], by decide⟩
  | true =>
    refine ⟨'\x7b', ?_, by decide⟩
    cases s with
    | cond | «while» | «for» | function => simp [Stmt.line, Stmt.layout, Layout.guarded, Layout.block]
    | elseIf | orElse => exact h.elim
    | _ => cases hblock

/-! ## Whole programs -/

/-- The lexemes of a program. -/
def Program.lexemes (extra : Info → Nat) (p : Program) : List Lexeme := Stmt.lines extra 0 p.body [] ++ [Lexeme.ending ['\n']]

/-- The lexemes of a program are written as its code. -/
theorem Program.render_lexemes {p : Program} (h : Stmt.AllRead false true p.body) (hne : p.body ≠ []) :
    render (p.lexemes Layout.plain) = p.code.toList := by
  have hlines : render (Stmt.lines Layout.plain 0 p.body []) ++ ['\n'] = (Stmt.linesAt 0 p.body).toList :=
    Stmt.render_lines 0 h (.inl hne)
  rw [Program.code, ← hlines]
  simp [Program.lexemes, Lexeme.ending]

/-- The lexemes of a clear program are separated. -/
theorem Program.separated_lexemes {p : Program} (h : Stmt.AllRead false true p.body)
    (hclear : Stmt.everywhereAll Expr.isClear (fun _ => true) p.body = true) : Separated (p.lexemes extra) :=
  Stmt.separated_lines 0 h hclear rfl ⟨.of_ending, trivial⟩

/-- The text of a program is not blank. -/
theorem Program.lexemes_not_blank {p : Program} (h : Stmt.AllRead false true p.body) (hne : p.body ≠ [])
    {source : String} (hsource : source.toList = render (p.lexemes extra)) : Text.trim source ≠ "" := by
  intro htrim
  obtain ⟨s, rest, hbody⟩ := List.exists_cons_of_ne_nil hne
  rw [hbody] at h
  obtain ⟨c, hc, hblank⟩ : ∃ c ∈ render (s.line extra 0 ([] ++ (indentation 0).toList)), Text.isBlank c = false :=
    Stmt.line_not_blank 0 h.1 _
  have hmem : c ∈ source.toList := by
    rw [hsource, Program.lexemes, hbody, Stmt.lines_cons, List.append_assoc, Source.render_append]
    exact List.mem_append_left _ hc
  rw [Text.all_blank_of_trim htrim c hmem] at hblank
  cases hblank

/-- The last line of a laid out program is empty, so it carries no map. -/
theorem Program.lexemes_carry_no_map (p : Program) : Source.carriesMap (render (p.lexemes extra)) = false := by
  have hlast : Source.lastLine (render (p.lexemes extra)) = [] := by
    simp [Program.lexemes, Source.lastLine, Lexeme.ending]
  simp only [Source.carriesMap, hlast]
  rfl

/-! ## Reading again -/

/-- Well separated lexemes are read as the statements that they spell. -/
theorem Source.readSource_lexemes {o : Origin} {p : Program} (hsource : o.source = render (p.lexemes extra))
    (h : Stmt.AllRead false true p.body) (hclear : Stmt.everywhereAll Expr.isClear (fun _ => true) p.body = true) :
    ∃ cs, Source.readSource o.source = .ok cs ∧ Source.Clause.AllBuild o true cs p.body := by
  have hseparated : Separated (p.lexemes extra) := Program.separated_lexemes h hclear
  have hlength := hseparated.length_le
  obtain ⟨l, ls, hcons⟩ : ∃ l ls, p.lexemes extra = l :: ls :=
    List.exists_cons_of_ne_nil (List.append_ne_nil_of_right_ne_nil _ (List.cons_ne_nil _ _))
  rw [hcons] at hseparated
  obtain ⟨c, hfirst, hshows⟩ := hseparated.first
  rw [← hcons, ← hsource] at hfirst hshows
  obtain ⟨cs, hread, hbuild⟩ := readsProgram h hclear hshows (n := Source.depthBound o.source) (by
    rw [Source.depthBound, hsource]
    change 10 * (p.lexemes extra).length + 18 ≤ _
    omega)
  refine ⟨cs, ?_, hbuild⟩
  rw [Source.readSource, hfirst]
  exact hread

/-- A source that lays out a program, perhaps with more parentheses than its expressions need, is read as that program,
apart from the places and the numbers of its nodes. -/
theorem parse_lexemes {p : Program} (h : Stmt.AllRead false true p.body) (hne : p.body ≠ [])
    (hclear : Stmt.everywhereAll Expr.isClear (fun _ => true) p.body = true) {source : String}
    (hsource : source.toList = render (p.lexemes extra)) (maps : Source.MapDecoder)
    (file : String) : ∃ p', parseWith maps file source = .ok p' ∧ Stmt.allBare p'.body = Stmt.allBare p.body := by
  obtain ⟨cs, hcs, hbuild⟩ := Source.readSource_lexemes (o := Origin.of file source) hsource h hclear
  obtain ⟨body, count, hstmts, hbare⟩ := hbuild.ok 1
  refine ⟨⟨⟨0, ⟨"", 1, 1⟩⟩, file, body, count⟩, ?_, hbare⟩
  have hmap : Source.carriesMap (Origin.of file source).source = false := by
    rw [show (Origin.of file source).source = render (p.lexemes extra) from hsource]
    exact p.lexemes_carry_no_map
  rw [parseWith, if_neg (Program.lexemes_not_blank h hne hsource)]
  simp only [Source.relocation, hmap, Bool.false_eq_true, if_false]
  show Source.readProgram (Origin.of file source) = _
  simp only [Source.readProgram, hcs, Source.buildProgram, hstmts]
  rfl

/-- The code of a program that was read is read again, and gives the same tree apart from the places and the numbers
of its nodes, and the same code. This needs that no expression in the program is printed as another one. -/
theorem printed_code_parses_back {maps : Source.MapDecoder} {file source : String} {p : Program}
    (h : parseWith maps file source = .ok p)
    (hclear : Stmt.everywhereAll Expr.isClear (fun _ => true) p.body = true) (maps' : Source.MapDecoder)
    (file' : String) :
    ∃ p', parseWith maps' file' p.code = .ok p' ∧ Stmt.allBare p'.body = Stmt.allBare p.body ∧ p'.code = p.code := by
  have hread := Program.allRead_of_parse h
  have hcode {p' : Program} (hbare : Stmt.allBare p'.body = Stmt.allBare p.body) : p'.code = p.code := by
    rw [Program.code, Program.code, ← Stmt.linesAt_allBare, hbare, Stmt.linesAt_allBare]
  by_cases hne : p.body = []
  · have hempty : p.code = "" := by rw [Program.code, hne, Stmt.linesAt]
    refine ⟨⟨⟨0, ⟨"", 0, 0⟩⟩, file', [], 0⟩, ?_, by rw [hne], hcode (by rw [hne])⟩
    rw [hempty]
    rfl
  · obtain ⟨p', hparse, hbare⟩ := parse_lexemes hread hne hclear (Program.render_lexemes hread hne).symm maps' file'
    exact ⟨p', hparse, hbare, hcode hbare⟩

/-- The code of a program with a loop, a condition and calls is read back as the same program. -/
theorem printed_code_parses_back_loop : ∃ p p',
    parse "again.js" "for(var i=0;i<3;i++)\x7bif((a+i)*2>-b[i].c)\x7bf([i],1.5);\x7delse\x7ba=!i;\x7d\x7d" = .ok p ∧
      parse "again.js" p.code = .ok p' ∧ Stmt.allBare p'.body = Stmt.allBare p.body ∧ p'.code = p.code := by
  obtain ⟨p, hparse, hclear⟩ : ∃ p : Program,
      parse "again.js" "for(var i=0;i<3;i++)\x7bif((a+i)*2>-b[i].c)\x7bf([i],1.5);\x7delse\x7ba=!i;\x7d\x7d" = .ok p ∧
        Stmt.everywhereAll Expr.isClear (fun _ => true) p.body = true :=
    exists_parse_of_any (by decide +kernel)
  obtain ⟨p', hp'⟩ := printed_code_parses_back hparse hclear .unversioned "again.js"
  exact ⟨p, p', hparse, hp'⟩

/-- A minus before a minus is printed as a decrement, which is no expression: the code of this program cannot be
read again. -/
theorem nested_minus_unreadable :
    (parse "again.js" "a = -(-a);").toOption.map Program.code = some "a = --a;\n" ∧
      (parse "again.js" "a = --a;\n").toOption.isNone = true := by
  constructor <;> decide +kernel

/-! The other two expressions that are printed as others: a member of a whole number, and a comparison of a comparison,
which is read from the right. -/

example : (parse "again.js" "a = (1).b;").toOption.map Program.code = some "a = 1.b;\n" ∧
    (parse "again.js" "a = 1.b;\n").toOption.isNone = true := by
  constructor <;> decide +kernel

example : (parse "again.js" "a = (b < c) < d;").toOption.map Program.code = some "a = b < c < d;\n" ∧
    (parse "again.js" "a = b < c < d;\n").toOption.map Program.code = some "a = b < (c < d);\n" := by
  constructor <;> decide +kernel

end Primer
