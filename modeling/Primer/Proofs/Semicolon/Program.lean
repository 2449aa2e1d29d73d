import Primer.Proofs.Print.Program
import Primer.Proofs.Semicolon.Check

/-!
# Missing semicolons

Every simple statement of a source must be closed by a semicolon. Put together, the other modules say that a missing one
is reported exactly where there is none (`missing_semicolons_reported`):

* reading leaves each simple statement with the token behind it (`readSource_ends`);
* the search starts at the end of the statement and finds a semicolon if and only if that token is one
  (`Reaches.semicolonFollows_iff`);
* the first statement for which it finds none is reported, unless something else is refused before (`buildStmts_checks`).

Two things are asked of the source. The search knows spaces, tabs, line breaks and comments that end with a line feed,
so there must be no other gaps behind a statement: a blank of another kind hides the semicolon behind it
(`semicolon_hidden_by_blank`). And the tree must tell where a statement ends (`PlainlyWritten`).
-/

set_option autoImplicit false

namespace Primer.Source

/-! ## Sources -/

/-- A source is read as several statements. -/
structure ReadAs (source : String) (clauses : List Clause) : Prop where
  noMap : carriesMap source.toList = false
  read : readSource source.toList = .ok clauses

/-- What follows a simple statement of a source is a semicolon. -/
def Clause.Terminated (source : List Char) (s : Clause) : Prop := ∃ after, s.EndsBefore source after ∧ after.is ";" = true

/-- A blank text is a gap. -/
theorem skipGap_blank {cs : List Char} (hblank : ∀ c ∈ cs, Text.isBlank c = true) (off : Nat) (mayEnd afterLine : Bool) :
    ∃ gap, skipGap .plain off mayEnd afterLine cs = .ok gap ∧ gap.rest = [] := by
  induction cs generalizing off mayEnd afterLine with
  | nil => exact ⟨_, rfl, rfl⟩
  | cons c cs ih =>
    have hc := hblank c List.mem_cons_self
    have hcs := fun d hd => hblank d (List.mem_cons_of_mem c hd)
    have hslash : c ≠ '/' := by
      rintro rfl
      exact absurd hc (by decide)
    simp only [skipGap, if_neg hslash]
    split
    case isTrue => exact ih hcs ..
    case isFalse hline => simpa [isSpace, hc, hline] using ih hcs ..

/-- There are no statements in a blank source. -/
theorem readSource_blank {source : List Char} (hblank : ∀ c ∈ source, Text.isBlank c = true) :
    readSource source = .ok [] := by
  obtain ⟨gap, hgap, hrest⟩ := skipGap_blank hblank 0 false false
  have hfirst : Cursor.first source = .ok ⟨.endOfInput, "", gap.offset, [], gap.offset, gap.afterLine, false⟩ := by
    rw [Cursor.first, hgap]
    show scanToken gap = _
    rw [scanToken, hrest]
  rw [readSource, hfirst]
  rfl

/-- A source without a map is read as its statements, however maps are decoded. -/
theorem ReadAs.parse {source : String} {clauses : List Clause} (h : ReadAs source clauses) (maps : MapDecoder)
    (file : String) :
    (clauses = [] ∧ ∃ p, parseWith maps file source = .ok p) ∨
      parseWith maps file source = buildProgram (Origin.of file source) clauses := by
  by_cases hblank : Text.trim source = ""
  · left
    have hnone := h.read.symm.trans (readSource_blank (Text.all_blank_of_trim hblank))
    cases hnone
    exact ⟨rfl, _, by rw [parseWith, if_pos hblank]⟩
  · right
    have hmap : carriesMap (Origin.of file source).source = false := h.noMap
    have hread : readSource (Origin.of file source).source = .ok clauses := h.read
    rw [parseWith, if_neg hblank]
    simp only [relocation, hmap, Bool.false_eq_true, if_false]
    show readProgram (Origin.of file source) = _
    simp only [readProgram, hread]

/-! ## Plainly written sources -/

/-- What stands behind a gap stands in the source. -/
theorem AfterGap.Shows.rest_subset {source : List Char} {gap : AfterGap} {c : Cursor} (h : gap.Shows source c) {d : Char}
    (hd : d ∈ gap.rest) : d ∈ source := by
  obtain ⟨before, hsource, -⟩ := h.behind
  rw [hsource]
  exact List.mem_append_right before hd

/-- The characters of a punctuation mark stand in the source. -/
theorem TokenOf.mem_of_is {source : List Char} {c : Cursor} (hc : TokenOf source c) {text : String}
    (htext : text ∉ keywords) (his : c.is text = true) {d : Char} (hd : d ∈ text.toList) : d ∈ source := by
  obtain ⟨gap, hgap⟩ := hc.shown
  refine hgap.rest_subset ?_
  rw [hgap.scannedAs.rest_of_is htext his]
  exact List.mem_append_left c.rest hd

/-- A source without escapes, increments and regular expressions is plainly written. -/
theorem plainlyWritten_of_chars {source : List Char} (h : ∀ c ∈ ['\\', '+', '-', '/'], c ∉ source) :
    PlainlyWritten source where
  words c hc hword := by
    obtain ⟨gap, hgap⟩ := hc.shown
    apply hgap.scannedAs.word_length hword
    intro hmem
    exact h _ (by decide) (hgap.rest_subset hmem)
  bumps _ _ _ _ after _ _ hafter _ hmark := by
    rcases Bool.or_eq_true_iff.mp hmark with his | his
    · exact absurd (hafter.mem_of_is (by decide) his (by decide : '+' ∈ "++".toList)) (h _ (by decide))
    · exact absurd (hafter.mem_of_is (by decide) his (by decide : '-' ∈ "--".toList)) (h _ (by decide))
  flags c _ _ _ hc hslash := by
    have hmark : c.is "/" = true ∨ c.is "/=" = true := by
      simpa [Cursor.isOneOf, Cursor.is, ← and_or_left] using hslash
    rcases hmark with his | his
    · exact absurd (hc.mem_of_is (by decide) his (by decide : '/' ∈ "/".toList)) (h _ (by decide))
    · exact absurd (hc.mem_of_is (by decide) his (by decide : '/' ∈ "/=".toList)) (h _ (by decide))

/-! ## Missing semicolons -/

section Sources

variable {source : String} {clauses : List Clause} (hplain : PlainlyWritten source.toList)

include hplain

/-- The search for the semicolon of a simple statement finds it if and only if it is the next token. -/
theorem Clause.EndsBefore.closes_iff {s : Clause} {after : Cursor} (h : s.EndsBefore source.toList after)
    (hknown : isKnownGap .plain (dropBytes s.stop source.toList) = true) (file : String) :
    (Origin.of file source).Closes s ↔ after.is ";" = true := by
  obtain ⟨hreaches, hopen⟩ := h.reaches hplain
  exact hreaches.semicolonFollows_iff hopen hknown

/-- A simple statement is closed exactly when a semicolon follows it. -/
theorem closes_iff_terminated (hread : ReadAs source clauses) {s : Clause} (hs : s ∈ Clause.allSimple clauses)
    (hknown : isKnownGap .plain (dropBytes s.stop source.toList) = true) (file : String) :
    (Origin.of file source).Closes s ↔ s.Terminated source.toList := by
  constructor
  · intro hcloses
    obtain ⟨after, hafter⟩ := (readSource_ends hplain).of_ok clauses hread.read s hs
    exact ⟨after, hafter, (hafter.closes_iff hplain hknown file).mp hcloses⟩
  · rintro ⟨after, hafter, hsemicolon⟩
    exact (hafter.closes_iff hplain hknown file).mpr hsemicolon

end Sources

end Primer.Source

namespace Primer

open Source

/-- A missing semicolon is reported exactly where there is none. Each simple statement of a source ends before some
token, and when it is come to, it is reported if and only if that token is no semicolon. If a program is built, every
simple statement was closed by a semicolon. If none is built, the first simple statement that is not closed was
reported, unless a construct outside the subset was refused before. -/
theorem missing_semicolons_reported {source : String} {clauses : List Clause} (hread : ReadAs source clauses)
    (hplain : PlainlyWritten source.toList)
    (hknown : ∀ s ∈ Clause.allSimple clauses, isKnownGap .plain (dropBytes s.stop source.toList) = true)
    (maps : MapDecoder) (file : String) :
    (∀ s ∈ Clause.allSimple clauses, ∃ after, s.EndsBefore source.toList after ∧ ∀ top id,
      (buildStmt (Origin.of file source) top s id = .error ((Origin.of file source).unclosed s) ↔ after.is ";" = false)) ∧
    match parseWith maps file source with
    | .ok _ => ∀ s ∈ Clause.allSimple clauses, s.Terminated source.toList
    | .error d => d.code = "P002" ∨ ∃ before s after, Clause.allSimple clauses = before ++ s :: after ∧
        (∀ s' ∈ before, s'.Terminated source.toList) ∧ ¬ s.Terminated source.toList ∧
          d = (Origin.of file source).unclosed s := by
  have hcloses : ∀ s ∈ Clause.allSimple clauses, ((Origin.of file source).Closes s ↔ s.Terminated source.toList) :=
    fun s hs => closes_iff_terminated hplain hread hs (hknown s hs) file
  constructor
  · intro s hs
    obtain ⟨after, hafter⟩ := (readSource_ends hplain).of_ok clauses hread.read s hs
    refine ⟨after, hafter, ?_⟩
    intro top id
    rw [hafter.buildStmt_eq_unclosed_iff, hafter.closes_iff hplain (hknown s hs) file, Bool.not_eq_true]
  · rcases hread.parse maps file with ⟨rfl, p, hparse⟩ | hparse
    · rw [hparse]
      exact fun s hs => absurd hs List.not_mem_nil
    · rw [hparse]
      have hchecks := buildProgram_checks (Origin.of file source) clauses
      cases hbuild : buildProgram (Origin.of file source) clauses with
      | ok program =>
        intro s hs
        exact (hcloses s hs).mp (hchecks.1 program hbuild s hs)
      | error d =>
        refine (hchecks.2 d hbuild).imp_right ?_
        rintro ⟨before, s, after, hsimple, hbefore, hs, hd⟩
        have hmem : ∀ s' ∈ before ++ s :: after, s' ∈ Clause.allSimple clauses := by simp [hsimple]
        refine ⟨before, s, after, hsimple, ?_, ?_, hd⟩
        · intro s' hs'
          exact (hcloses s' (hmem s' (List.mem_append_left _ hs'))).mp (hbefore s' hs')
        · rwa [← hcloses s (hmem s (List.mem_append_right _ List.mem_cons_self))]

/-- A call whose semicolon stands behind a parenthesis and a blank, and a declaration without one. -/
def unclosedSource : String := "f((1)) ;\nvar a = [b]"

/-- The call is closed, and the declaration behind it is reported. -/
theorem unclosed_declaration_reported : ∃ clauses, ReadAs unclosedSource clauses ∧ PlainlyWritten unclosedSource.toList ∧
    (∀ s ∈ Clause.allSimple clauses, isKnownGap .plain (dropBytes s.stop unclosedSource.toList) = true) ∧
    ∃ before s after, Clause.allSimple clauses = before ++ s :: after ∧
      (∀ s' ∈ before, s'.Terminated unclosedSource.toList) ∧ ¬ s.Terminated unclosedSource.toList ∧
        parse "test.js" unclosedSource = .error ((Origin.of "test.js" unclosedSource).unclosed s) := by
  have hplain : PlainlyWritten unclosedSource.toList := plainlyWritten_of_chars (forall_of_all (by decide))
  have hmap : carriesMap unclosedSource.toList = false := by decide +kernel
  have hchecked : (readSource unclosedSource.toList).toOption.any (fun clauses => (Clause.allSimple clauses).all fun s =>
      isKnownGap .plain (dropBytes s.stop unclosedSource.toList)) = true := by
    decide +kernel
  have hcode : (match parse "test.js" unclosedSource with | .ok _ => "" | .error d => d.code) = "P001" := by decide +kernel
  -- From here on the text of the source does not matter, and a variable keeps the reader from running on it.
  generalize unclosedSource = source at *
  cases hread : readSource source.toList with
  | error m =>
    rw [hread] at hchecked
    cases hchecked
  | ok clauses =>
    rw [hread] at hchecked
    have hknown : ∀ s ∈ Clause.allSimple clauses, isKnownGap .plain (dropBytes s.stop source.toList) = true :=
      List.all_eq_true.mp hchecked
    refine ⟨clauses, ⟨hmap, hread⟩, hplain, hknown, ?_⟩
    have hreported := (missing_semicolons_reported ⟨hmap, hread⟩ hplain hknown .unversioned "test.js").2
    cases hparse : parse "test.js" source with
    | ok program =>
      rw [hparse] at hcode
      exact absurd (show "" = "P001" from hcode) (by decide)
    | error d =>
      have hwith : parseWith .unversioned "test.js" source = .error d := hparse
      rw [hwith] at hreported
      rw [hparse] at hcode
      rcases hreported with houtside | ⟨before, s, after, hsimple, hbefore, hs, hd⟩
      · exact absurd (hcode.symm.trans houtside) (by decide)
      · exact ⟨before, s, after, hsimple, hbefore, hs, congrArg Except.error hd⟩

/-- An assignment whose semicolon stands behind a blank that is neither a space nor a tab. -/
def blankSource : String := "a = 1\u00a0;"

/-- The next token is the semicolon, but the search does not know the blank before it. -/
theorem semicolon_hidden_by_blank : ∃ t after, (Clause.term t).EndsBefore blankSource.toList after ∧
    after.is ";" = true ∧
      parse "test.js" blankSource = .error ((Origin.of "test.js" blankSource).unclosed (.term t)) := by
  have hchecked : (Cursor.first blankSource.toList).toOption.any (fun c =>
      (expression (depthBound blankSource.toList) .top c).toOption.any fun r =>
        r.2.is ";" && !r.2.is ")" && r.1.stop == 5) = true := by
    decide +kernel
  have hparse : (match parse "test.js" blankSource with
      | .ok _ => none
      | .error d => some d) = some ((Origin.of "test.js" blankSource).unclosed (.empty 5)) := by
    decide +kernel
  cases hfirst : Cursor.first blankSource.toList with
  | error m =>
    rw [hfirst] at hchecked
    cases hchecked
  | ok c =>
    rw [hfirst] at hchecked
    dsimp only [Except.toOption, Option.any_some] at hchecked
    cases hread : expression (depthBound blankSource.toList) .top c with
    | error m =>
      rw [hread] at hchecked
      cases hchecked
    | ok r =>
      rw [hread] at hchecked
      simp only [Option.any_some, Bool.and_eq_true, Bool.not_eq_true', beq_iff_eq] at hchecked
      obtain ⟨⟨hsemicolon, hopen⟩, hstop⟩ := hchecked
      refine ⟨r.1, r.2, .term (.first hfirst) hread hopen, hsemicolon, ?_⟩
      have hsame : (Origin.of "test.js" blankSource).unclosed (.term r.1) =
          (Origin.of "test.js" blankSource).unclosed (.empty 5) := by
        rw [Origin.unclosed, show (Clause.term r.1).stop = 5 from hstop]
        rfl
      rw [hsame]
      split at hparse
      · cases hparse
      · next d h => rw [h, Option.some.inj hparse]

end Primer
