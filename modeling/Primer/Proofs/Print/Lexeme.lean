import Primer.Proofs.Print.Scan

/-!
# Sequences of tokens

A lexeme is a token as it is written, with the blanks before it. A sequence of lexemes is well separated
(`Separated`) if each of them fits in front of the text of those behind it, and then reading that text with
`Cursor.next` gives the tokens one after another: this is `Separated.shows`. What follows is about the tokens only,
and about the offsets at which they end.
-/

set_option autoImplicit false

namespace Primer.Source

/-! ## Lexemes -/

/-- A token as it is written, with the blanks before it. -/
structure Lexeme where
  gap : List Char
  kind : Kind
  text : List Char
  deriving Repr, DecidableEq, Inhabited

namespace Lexeme

/-- The characters of a lexeme. -/
def chars (l : Lexeme) : List Char := l.gap ++ l.text

/-- A word, which is a keyword or not. -/
def word (gap : List Char) (name : String) : Lexeme := ⟨gap, (wordKind name).1, name.toList⟩

/-- A punctuation mark. -/
def mark (gap : List Char) (text : String) : Lexeme := ⟨gap, .mark, text.toList⟩

/-- The end of a source. -/
def ending (gap : List Char) : Lexeme := ⟨gap, .endOfInput, []⟩

end Lexeme

/-- A lexeme is written as its gap and its text. -/
@[simp]
theorem Lexeme.chars_mk (gap : List Char) (kind : Kind) (text : List Char) :
    Lexeme.chars ⟨gap, kind, text⟩ = gap ++ text := rfl

/-- A word is written as its gap and its name. -/
@[simp]
theorem Lexeme.chars_word (gap : List Char) (name : String) : (word gap name).chars = gap ++ name.toList := rfl

/-- A mark is written as its gap and its text. -/
@[simp]
theorem Lexeme.chars_mark (gap : List Char) (text : String) : (mark gap text).chars = gap ++ text.toList := rfl

/-- The text of several lexemes. -/
def render (ls : List Lexeme) : List Char := ls.flatMap Lexeme.chars

/-- No lexemes are no text. -/
@[simp]
theorem render_nil : render [] = [] := rfl

/-- The text of lexemes begins with the first one. -/
@[simp]
theorem render_cons (l : Lexeme) (ls : List Lexeme) : render (l :: ls) = l.chars ++ render ls := rfl

/-- The texts of lexemes in a row stand in a row. -/
@[simp]
theorem render_append (ls ls' : List Lexeme) : render (ls ++ ls') = render ls ++ render ls' := List.flatMap_append

/-- Whether a gap consists of blanks and line ends as they are printed. -/
def isGap (gap : List Char) : Bool := gap.all fun c => c == ' ' || c == '\n'

/-- An offset in a source behind which a text stands. -/
def Behind (source : List Char) (off : Nat) (rest : List Char) : Prop :=
  ∃ before, source = before ++ rest ∧ off = byteLength before

/-- Behind a text stands what follows it. -/
theorem Behind.append {source text rest : List Char} {off : Nat} (h : Behind source off (text ++ rest)) :
    Behind source (off + byteLength text) rest := by
  obtain ⟨before, rfl, rfl⟩ := h
  exact ⟨before ++ text, by simp, by simp⟩

/-! ## Scanning a lexeme -/

/-- A lexeme takes up room and can be scanned in front of a text. -/
structure Lexeme.Fits (l : Lexeme) (rest : List Char) : Prop where
  gap : isGap l.gap = true
  filled : 0 < l.chars.length
  scans : ∀ off mayEnd afterLine, ∃ g, skipGap .plain off mayEnd afterLine (l.text ++ rest) = .ok g ∧
    (l.kind ≠ .endOfInput → g.afterLine = afterLine) ∧
    ∃ ends, scanToken g =
      .ok ⟨l.kind, String.ofList l.text, off, rest, off + byteLength l.text, g.afterLine, ends⟩

/-- Every lexeme fits in front of those behind it. -/
def Separated : List Lexeme → Prop
  | [] => True
  | l :: ls => l.Fits (render ls) ∧ Separated ls

/-- Separated lexemes are no more than their characters. -/
theorem Separated.length_le {ls : List Lexeme} (h : Separated ls) : ls.length ≤ (render ls).length := by
  induction ls with
  | nil => exact Nat.le_refl 0
  | cons l ls ih =>
    have hl := h.1.filled
    have hls := ih h.2
    rw [render_cons, List.length_append, List.length_cons]
    omega

/-- A cursor at a lexeme, with a text behind it. -/
structure Cursor.At (source : List Char) (c : Cursor) (l : Lexeme) (rest : List Char) : Prop where
  kind : c.kind = l.kind
  text : c.text = String.ofList l.text
  behind : Behind source (c.start + byteLength l.text) rest
  sameLine : '\n' ∉ l.gap → l.kind ≠ .endOfInput → c.afterLine = false

/-- A cursor at the first of several lexemes, with the others to come. -/
def Cursor.Shows (source : List Char) : Cursor → List Lexeme → Prop
  | c, [] => c.kind = .endOfInput
  | c, l :: ls => c.At source l (render ls) ∧ ∃ c', c.next = .ok c' ∧ c'.Shows source ls

/-- Printed gaps are skipped. -/
theorem skipGap_gap {gap : List Char} (hgap : isGap gap = true) (off : Nat) (mayEnd afterLine : Bool)
    (rest : List Char) : ∃ mayEnd' afterLine', skipGap .plain off mayEnd afterLine (gap ++ rest) =
      skipGap .plain (off + byteLength gap) mayEnd' afterLine' rest ∧ ('\n' ∉ gap → afterLine' = afterLine) := by
  induction gap generalizing off mayEnd afterLine with
  | nil => exact ⟨mayEnd, afterLine, rfl, fun _ => rfl⟩
  | cons c gap ih =>
    simp only [isGap, List.all_cons, Bool.and_eq_true, Bool.or_eq_true, beq_iff_eq] at hgap
    rcases hgap.1 with rfl | rfl
    · obtain ⟨mayEnd', afterLine', hskip, hline⟩ := ih hgap.2 (off + ' '.utf8Size) mayEnd afterLine
      refine ⟨mayEnd', afterLine', ?_, fun h => hline fun hmem => h (List.mem_cons_of_mem _ hmem)⟩
      rw [byteLength_cons, ← Nat.add_assoc, ← hskip]
      rfl
    · obtain ⟨mayEnd', afterLine', hskip, -⟩ := ih hgap.2 (off + '\n'.utf8Size) false (afterLine || mayEnd)
      refine ⟨mayEnd', afterLine', ?_, fun h => absurd List.mem_cons_self h⟩
      rw [byteLength_cons, ← Nat.add_assoc, ← hskip]
      rfl

/-- The first lexeme of a text is scanned. -/
theorem Lexeme.Fits.scan {l : Lexeme} {rest : List Char} (h : l.Fits rest) (source : List Char) {off : Nat}
    (hbehind : Behind source off (l.chars ++ rest)) (mayEnd : Bool) : ∃ c,
      (skipGap .plain off mayEnd false (l.chars ++ rest) >>= scanToken) = .ok c ∧ c.At source l rest ∧
      c.rest = rest ∧ Behind source c.stop rest := by
  obtain ⟨mayEnd', afterLine', hskip, hline⟩ := skipGap_gap h.gap off mayEnd false (l.text ++ rest)
  obtain ⟨g, hg, hsame, ends, htoken⟩ := h.scans (off + byteLength l.gap) mayEnd' afterLine'
  have hstop : Behind source (off + byteLength l.gap + byteLength l.text) rest := by
    rw [chars, List.append_assoc] at hbehind
    exact hbehind.append.append
  refine ⟨⟨l.kind, String.ofList l.text, off + byteLength l.gap, rest, off + byteLength l.gap + byteLength l.text,
    g.afterLine, ends⟩, ?_, ⟨rfl, rfl, hstop, fun hgap hkind => (hsame hkind).trans (hline hgap)⟩, rfl, hstop⟩
  rw [chars, List.append_assoc, hskip]
  show (skipGap .plain (off + byteLength l.gap) mayEnd' afterLine' (l.text ++ rest) >>= scanToken) = _
  rw [hg]
  exact htoken

/-- Reading the text of well separated lexemes gives their tokens. -/
theorem Separated.shows {ls : List Lexeme} (h : Separated ls) {source : List Char} {c : Cursor}
    (hrest : c.rest = render ls) (hbehind : Behind source c.stop (render ls)) :
    ∃ c', c.next = .ok c' ∧ c'.Shows source ls := by
  induction ls generalizing c with
  | nil =>
    refine ⟨⟨.endOfInput, "", c.stop, [], c.stop, false || c.mayEnd, false⟩, ?_, rfl⟩
    unfold Cursor.next
    rw [hrest]
    rfl
  | cons l ls ih =>
    obtain ⟨c', hc', hat, hrest', hbehind'⟩ := h.1.scan source hbehind c.mayEnd
    refine ⟨c', ?_, hat, ih h.2 hrest' hbehind'⟩
    unfold Cursor.next
    rw [hrest]
    exact hc'

/-- The first token of the text of well separated lexemes. -/
theorem Separated.first {l : Lexeme} {ls : List Lexeme} (h : Separated (l :: ls)) :
    ∃ c, Cursor.first (render (l :: ls)) = .ok c ∧ c.Shows (render (l :: ls)) (l :: ls) := by
  obtain ⟨c, hc, hat, hrest, hbehind⟩ := h.1.scan (render (l :: ls)) ⟨[], rfl, rfl⟩ false
  exact ⟨c, hc, hat, h.2.shows hrest hbehind⟩

/-! ## What fits where -/

/-- Whether a token can start with a character, apart from the slash, which may also start a comment. -/
def isInk (c : Char) : Bool := c != '/' && !(Text.isBlank c || c.toNat == 0xfeff)

/-- A line end is a blank. -/
theorem isBlank_of_isLineEnd {c : Char} (h : isLineEnd c = true) : Text.isBlank c = true := by
  simp only [isLineEnd, Bool.or_eq_true, beq_iff_eq] at h
  rcases h with ((rfl | rfl) | h) | h
  · decide
  · decide
  · simp [Text.isBlank, h]
  · simp [Text.isBlank, h]

/-- No gap stands in front of ink. -/
theorem skipGap_ink {c : Char} (h : isInk c = true) (off : Nat) (mayEnd afterLine : Bool) (cs : List Char) :
    skipGap .plain off mayEnd afterLine (c :: cs) = .ok ⟨c :: cs, off, mayEnd, afterLine⟩ := by
  simp only [isInk, Bool.and_eq_true, bne_iff_ne, Bool.not_eq_true', Bool.or_eq_false_iff, beq_eq_false_iff_ne] at h
  obtain ⟨hslash, hblank, hmark⟩ := h
  have hline : isLineEnd c = false := Bool.eq_false_iff.mpr fun h => by simp [isBlank_of_isLineEnd h] at hblank
  simp [skipGap, isSpace, hslash, hline, hblank, hmark]

/-- A slash that starts no comment. -/
theorem skipGap_slash {cs : List Char} (h : Next (fun c => (c == '/' || c == '*') = false) cs) (off : Nat)
    (mayEnd afterLine : Bool) :
    skipGap .plain off mayEnd afterLine ('/' :: cs) = .ok ⟨'/' :: cs, off, mayEnd, afterLine⟩ := by
  cases cs with
  | nil => rfl
  | cons c cs =>
    have hc := h.of_cons
    simp only [Bool.or_eq_false_iff, beq_eq_false_iff_ne] at hc
    simp [skipGap, hc.1, hc.2, show '/'.utf8Size = 1 from rfl]

/-- No ASCII character that is a letter or a digit is blank. -/
theorem isInk_of_isAlphanum {c : Char} (h : c.isAlphanum = true) : isInk c = true := by
  simp only [Char.isAlphanum, Bool.or_eq_true, isAlpha_iff, isDigit_iff] at h
  have hslash : c ≠ '/' := by
    rintro rfl
    simp at h
  simp only [isInk, Text.isBlank, bne_iff_ne, ne_eq, hslash, not_false_eq_true, true_and, Bool.and_eq_true,
    Bool.not_eq_true', Bool.or_eq_false_iff, Bool.and_eq_false_iff, decide_eq_false_iff_not, beq_eq_false_iff_ne]
  omega

/-- What starts a word is ink. -/
theorem isInk_of_isWordStart {c : Char} (h : isWordStart c = true) : isInk c = true := by
  simp only [isWordStart, Bool.or_eq_true, beq_iff_eq] at h
  rcases h with ((rfl | rfl) | rfl) | h
  · decide
  · decide
  · decide
  · unfold Text.startsWord at h
    split at h
    case isTrue => exact isInk_of_isAlphanum (by simp [Char.isAlphanum, h])
    case isFalse hascii =>
      have hslash : c ≠ '/' := by
        rintro rfl
        exact hascii (by decide)
      cases hblank : Text.isBlank c || c.toNat == 0xfeff with
      | false => simp [isInk, hslash, hblank]
      | true => simp [Text.categoryOf, hblank] at h

/-- A lexeme whose first character is no blank is scanned right behind its gap. -/
theorem Lexeme.Fits.of_ink {l : Lexeme} {c : Char} {cs rest : List Char} (ends : Bool) (hgap : isGap l.gap = true)
    (htext : l.text = c :: cs) (hc : isInk c = true)
    (hscan : ∀ off mayEnd afterLine, scanToken ⟨l.text ++ rest, off, mayEnd, afterLine⟩ =
      .ok ⟨l.kind, String.ofList l.text, off, rest, off + byteLength l.text, afterLine, ends⟩) : l.Fits rest := by
  have hfilled : 0 < l.chars.length := by
    rw [chars, htext, List.length_append]
    exact Nat.add_pos_right _ (Nat.succ_pos _)
  refine ⟨hgap, hfilled, ?_⟩
  intro off mayEnd afterLine
  refine ⟨⟨l.text ++ rest, off, mayEnd, afterLine⟩, ?_, fun _ => rfl, ends, hscan off mayEnd afterLine⟩
  rw [htext, List.cons_append]
  exact skipGap_ink hc off mayEnd afterLine (cs ++ rest)

/-- A word fits in front of all that does not continue it. -/
theorem Lexeme.Fits.of_word {gap rest : List Char} {name : String} (hgap : isGap gap = true)
    (hname : isPlainWord name.toList = true) (hrest : Next (fun c => isWordPart c = false) rest) :
    (word gap name).Fits rest := by
  cases hcs : name.toList with
  | nil =>
    rw [hcs] at hname
    cases hname
  | cons c cs =>
    rw [hcs] at hname
    obtain ⟨hstart, hparts⟩ := Bool.and_eq_true_iff.mp hname
    have hofList : String.ofList (c :: cs) = name := by rw [← hcs, String.ofList_toList]
    refine .of_ink (wordKind name).2 hgap hcs (isInk_of_isWordStart hstart) ?_
    intro off mayEnd afterLine
    have hscan := scanWord_plain hparts hrest true off
    rw [List.cons_append] at hscan
    simp only [word, hcs, List.cons_append, scanToken, if_pos hstart, hscan, hofList]
    rfl

/-- A number fits in front of all that does not run into it. -/
theorem Lexeme.Fits.of_number {gap text rest : List Char} (hgap : isGap gap = true) (htext : IsNumeral text)
    (hrest : Next EndsNumber rest) (hdot : isWhole text = true → Next (· ≠ '.') rest) :
    (Lexeme.mk gap .number text).Fits rest := by
  obtain ⟨hstart, hnarrow, hscans⟩ := htext
  have hscan := hscans rest hrest hdot
  have hlength := byteLength_of_isNarrow hnarrow
  cases text with
  | nil => cases hstart
  | cons c cs =>
    have hstart' : (c.isDigit || (decide (c = '.') && ((cs ++ rest).head?.map Char.isDigit).getD false)) = true := by
      cases cs with
      | nil =>
        have hdigit : c.isDigit = true := by simpa [startsNumber] using hstart
        simp [hdigit]
      | cons d cs => exact hstart
    have hstarts : isInk c = true ∧ isWordStart c = false := by
      simp only [startsNumber, Bool.or_eq_true, Bool.and_eq_true, decide_eq_true_eq] at hstart
      rcases hstart with h | ⟨rfl, -⟩
      · exact ⟨isInk_of_isAlphanum (by simp [Char.isAlphanum, h]), isWordStart_of_isDigit h⟩
      · decide
    have hnumeral : (if c = '.' then scanFraction [] (c :: (cs ++ rest)) else scanNumber (c :: (cs ++ rest))) =
        ⟨c :: cs, true, rest⟩ := by
      rw [← hscan]
      simp [scanNumeral]
    refine .of_ink true hgap rfl hstarts.1 ?_
    intro off mayEnd afterLine
    simp only [List.cons_append, scanToken, hstarts.2, Bool.false_eq_true, if_false, hstart', if_true, hnumeral,
      hlength]

/-- A quotation mark starts a text and nothing else. -/
theorem isQuote_starts {c : Char} (h : isQuote c = true) :
    isInk c = true ∧ isWordStart c = false ∧ c.isDigit = false ∧ c ≠ '.' := by
  simp only [isQuote, Bool.or_eq_true, decide_eq_true_eq] at h
  rcases h with rfl | h
  · decide
  · obtain rfl : c = Char.ofNat 39 := by rw [← h, Char.ofNat_toNat]
    decide

/-- A text in its quotes fits in front of anything. -/
theorem Lexeme.Fits.of_string {gap text rest : List Char} (hgap : isGap gap = true) (htext : IsQuotation text) :
    (Lexeme.mk gap .string text).Fits rest := by
  obtain ⟨quote, cs, rfl, hquote, hscans⟩ := htext
  obtain ⟨hink, hword, hdigit, hdot⟩ := isQuote_starts hquote
  refine .of_ink true hgap rfl hink ?_
  intro off mayEnd afterLine
  have hwidth : quote.utf8Size = 1 := by
    simp only [isQuote, Bool.or_eq_true, decide_eq_true_eq] at hquote
    rcases hquote with rfl | h
    · rfl
    · exact utf8Size_of_val_lt (show quote.toNat < 128 by omega)
  have hquote' : (decide (quote = '"') || decide (quote.toNat = 39)) = true := hquote
  simp only [List.cons_append, scanToken, hword, hdigit, hdot, decide_false, Bool.false_and, Bool.or_self,
    Bool.false_eq_true, if_false, hquote', if_true, hscans, byteLength_cons, hwidth, Nat.add_assoc]

/-- Whether a punctuation mark cannot be told apart from what a character behind it makes of it: a longer mark, a
comment or a number. -/
def clashesWithMark (text : List Char) (c : Char) : Bool :=
  extendsMark text c || (text == ['/'] && (c == '/' || c == '*')) || (text == ['.'] && c.isDigit)

/-- Whether a punctuation mark can start with a character. -/
def isMarkStart (c : Char) : Bool := (c == '/' || isInk c) && !isWordStart c && !c.isDigit && !isQuote c

/-- Every mark starts with a character that starts marks. -/
theorem isMarkStart_of_punctuation : ∀ p ∈ punctuation, p.head?.map isMarkStart = some true := by decide +kernel

/-- Every mark has as many bytes as characters. -/
theorem byteLength_punctuation : ∀ p ∈ punctuation, byteLength p = p.length := by decide +kernel

/-- Only a mark that is a point or starts with a slash may be confused with something else than a longer mark. -/
theorem eq_of_punctuation : ∀ p ∈ punctuation,
    (p.head? = some '.' → p = ['.']) ∧ (p.head? = some '/' → p = ['/'] ∨ p = ['/', '=']) := by decide +kernel

/-- A mark is scanned where nothing extends it. -/
theorem scanToken_mark {text rest : List Char} (htext : text ∈ punctuation)
    (hrest : Next (fun c => clashesWithMark text c = false) rest) (off : Nat) (mayEnd afterLine : Bool) :
    scanToken ⟨text ++ rest, off, mayEnd, afterLine⟩ = .ok ⟨.mark, String.ofList text, off, rest,
      off + byteLength text, afterLine, endingPunctuation.contains (String.ofList text)⟩ := by
  have hfind := find?_mark htext (hrest.imp fun c hc => by
    simp only [clashesWithMark, Bool.or_eq_false_iff] at hc
    exact hc.1.1)
  have hstart := isMarkStart_of_punctuation text htext
  have hlength := byteLength_punctuation text htext
  have hpoint := (eq_of_punctuation text htext).1
  cases text with
  | nil => cases hstart
  | cons c cs =>
    simp only [List.head?_cons, Option.map_some, Option.some.injEq, isMarkStart, Bool.and_eq_true,
      Bool.not_eq_true'] at hstart
    obtain ⟨⟨⟨-, hword⟩, hdigit⟩, hquote⟩ := hstart
    have hquote' : (decide (c = '"') || decide (c.toNat = 39)) = false := hquote
    have hnumber : (c.isDigit || (decide (c = '.') && ((cs ++ rest).head?.map Char.isDigit).getD false)) = false := by
      by_cases hdot : c = '.'
      · subst hdot
        obtain ⟨-, rfl⟩ := List.cons.inj (hpoint rfl)
        cases rest with
        | nil => rfl
        | cons d rest =>
          have hd := hrest.of_cons
          simp only [clashesWithMark, Bool.or_eq_false_iff] at hd
          simpa using hd.2
      · simp [hdigit, hdot]
    rw [List.cons_append] at hfind ⊢
    simp only [scanToken, hword, hnumber, hquote', Bool.false_eq_true, if_false, hfind, hlength]
    rw [← List.cons_append, List.drop_left]

/-- No gap stands in front of a mark that nothing extends. -/
theorem skipGap_mark {text rest : List Char} (htext : text ∈ punctuation)
    (hrest : Next (fun c => clashesWithMark text c = false) rest) (off : Nat) (mayEnd afterLine : Bool) :
    skipGap .plain off mayEnd afterLine (text ++ rest) = .ok ⟨text ++ rest, off, mayEnd, afterLine⟩ := by
  have hstart := isMarkStart_of_punctuation text htext
  have hslash := (eq_of_punctuation text htext).2
  cases text with
  | nil => cases hstart
  | cons c cs =>
    simp only [List.head?_cons, Option.map_some, Option.some.injEq, isMarkStart, Bool.and_eq_true, Bool.or_eq_true,
      beq_iff_eq] at hstart
    rcases hstart.1.1.1 with rfl | hink
    · refine skipGap_slash ?_ off mayEnd afterLine
      rcases hslash rfl with h | h
      · obtain ⟨-, rfl⟩ := List.cons.inj h
        refine hrest.imp ?_
        intro d hd
        simp only [clashesWithMark, Bool.or_eq_false_iff] at hd
        simpa using hd.1.2
      · obtain ⟨-, rfl⟩ := List.cons.inj h
        exact .cons (by decide)
    · exact skipGap_ink hink off mayEnd afterLine (cs ++ rest)

/-- A punctuation mark fits in front of all that does not make something else of it. -/
theorem Lexeme.Fits.of_mark {gap rest : List Char} {text : String} (hgap : isGap gap = true)
    (htext : text.toList ∈ punctuation) (hrest : Next (fun c => clashesWithMark text.toList c = false) rest) :
    (mark gap text).Fits rest := by
  have hfilled : ∀ p ∈ punctuation, 0 < p.length := by decide +kernel
  refine ⟨hgap, ?_, fun off mayEnd afterLine => ⟨_, skipGap_mark htext hrest off mayEnd afterLine, fun _ => rfl, _,
    scanToken_mark htext hrest off mayEnd afterLine⟩⟩
  rw [chars_mark, List.length_append]
  exact Nat.add_pos_right _ (hfilled _ htext)

/-- The end of a source stands at its end, behind a line end. -/
theorem Lexeme.Fits.of_ending : (ending ['\n']).Fits [] :=
  ⟨rfl, Nat.one_pos, fun off mayEnd afterLine =>
    ⟨⟨[], off, false, afterLine || mayEnd⟩, rfl, (absurd rfl ·), false, rfl⟩⟩

end Primer.Source
