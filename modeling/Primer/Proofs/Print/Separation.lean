import Primer.Proofs.Print.Layout
import Primer.Proofs.Lenient.Tree

/-!
# Printed lexemes stay apart

The lexemes of what was read and is printed clearly are well separated: nothing that the printer puts side by side
runs together. For an expression this depends on what stands behind it (`Expr.EndsBefore`), for a statement list it
does not (`Stmt.separated_lines`).
-/

set_option autoImplicit false

namespace Primer

open Source (Lexeme Next Separated render isGap clashesWithMark extendsMark punctuation isWordPart isWordStart)

/-! ## Marks and words in their places -/

namespace Source

/-- The characters that make a longer mark out of a mark. -/
def extensions (text : List Char) : List Char :=
  punctuation.filterMap fun p => if text.isPrefixOf p then p[text.length]? else none

/-- What would extend a mark is among its extensions. -/
theorem mem_extensions {text : List Char} {c : Char} (h : extendsMark text c = true) : c ∈ extensions text := by
  obtain ⟨p, hp, hprefix⟩ := List.any_eq_true.mp h
  obtain ⟨tail, rfl⟩ := List.isPrefixOf_iff_prefix.mp hprefix
  refine List.mem_filterMap.mpr ⟨_, hp, ?_⟩
  rw [if_pos (List.isPrefixOf_iff_prefix.mpr ⟨c :: tail, by simp⟩)]
  simp

/-- The marks that are the same before any text. -/
def closedMarks : List String := ["(", ")", "[", "]", "\x7b", "\x7d", ",", ";", "++", "--"]

/-- The marks that are printed with blanks around them. -/
def spacedMarks : List String := subsetBinary ++ subsetAssign

/-- A mark that nothing extends fits before everything. -/
theorem Lexeme.Fits.of_closed {gap rest : List Char} {text : String} (htext : text ∈ closedMarks) (hgap : isGap gap = true) :
    (mark gap text).Fits rest := by
  have hmarks : ∀ s ∈ closedMarks, s.toList ∈ punctuation ∧ extensions s.toList = [] ∧ s.toList ≠ ['/'] ∧
      s.toList ≠ ['.'] := by decide +kernel
  obtain ⟨hmem, hextensions, hslash, hpoint⟩ := hmarks text htext
  apply of_mark hgap hmem
  intro c _
  have hextends : extendsMark text.toList c = false := by
    apply Bool.eq_false_iff.mpr
    intro h
    have := mem_extensions h
    rw [hextensions] at this
    cases this
  simp [clashesWithMark, hextends, hslash, hpoint]

/-- A mark with a space behind it fits. -/
theorem Lexeme.Fits.of_spaced {gap rest : List Char} {text : String} (htext : text ∈ spacedMarks) (hgap : isGap gap = true)
    (hrest : Next (· = ' ') rest) : (mark gap text).Fits rest := by
  have hmarks : ∀ s ∈ spacedMarks, s.toList ∈ punctuation ∧ clashesWithMark s.toList ' ' = false := by decide +kernel
  refine of_mark hgap (hmarks text htext).1 (hrest.imp ?_)
  rintro _ rfl
  exact (hmarks text htext).2

/-- A point fits in front of what is no fraction. -/
theorem Lexeme.Fits.of_point {gap rest : List Char} (hgap : isGap gap = true)
    (hrest : Next (fun c => c.isDigit = false) rest) : (mark gap ".").Fits rest := by
  refine of_mark hgap (by decide) (hrest.imp ?_)
  intro c hc
  have hextends : extendsMark ['.'] c = false := by
    apply Bool.eq_false_iff.mpr
    intro h
    have hnone : extensions ['.'] = [] := by decide
    have := mem_extensions h
    rw [hnone] at this
    cases this
  simp [clashesWithMark, hextends, hc]

/-- A keyword as a word is the keyword as a mark. -/
theorem Lexeme.word_keyword {gap : List Char} {text : String} (htext : text ∈ keywords) : word gap text = mark gap text := by
  have hmarks : ∀ s ∈ keywords, (wordKind s).1 = .mark := by decide +kernel
  simp [word, mark, hmarks text htext]

/-- A keyword fits before what no word goes on with. -/
theorem Lexeme.Fits.of_keyword {gap rest : List Char} {text : String} (htext : text ∈ keywords) (hgap : isGap gap = true)
    (hrest : Next (fun c => isWordPart c = false) rest) : (mark gap text).Fits rest := by
  have hplain : ∀ s ∈ keywords, isPlainWord s.toList = true := by decide +kernel
  rw [← word_keyword htext]
  exact of_word hgap (hplain text htext) hrest

/-- Whether a printed name or number may stand before a character. -/
def isDelimiter (c : Char) : Bool := [' ', '\n', '.', '[', ']', '(', ')', ',', ';', '+', '-'].contains c

/-- A delimiter ends words and numbers. -/
theorem isDelimiter_ends {c : Char} (h : isDelimiter c = true) : isWordPart c = false ∧ EndsNumber c := by
  have hall : ∀ c ∈ [' ', '\n', '.', '[', ']', '(', ')', ',', ';', '+', '-'],
      isWordPart c = false ∧ isWordStart c = false ∧ c.isDigit = false := forall_of_all (by decide)
  exact hall c (List.contains_iff_mem.mp h)

/-- Whether a lexeme can start an expression that needs no parentheses before a point or a bracket. -/
structure Lexeme.Opens (l : Lexeme) : Prop where
  not_end : l.kind ≠ .endOfInput
  mark : l.kind = .mark → l.text = ['('] ∨ l.text = ['[']
  head : ∃ c cs, l.text = c :: cs ∧ c ∉ ['+', '-', '=']

/-- A word that is no keyword opens an expression. -/
theorem Lexeme.opens_word {gap : List Char} {name : String} (hplain : isPlainWord name.toList = true)
    (hkind : (wordKind name).1 ≠ .mark) : (word gap name).Opens where
  not_end h := absurd (wordKind_mem name) (by rw [show (wordKind name).1 = _ from h]; decide)
  mark h := absurd h hkind
  head := by
    cases hcs : name.toList with
    | nil =>
      rw [hcs] at hplain
      cases hplain
    | cons c cs =>
      rw [hcs] at hplain
      have hstart : isWordStart c = true := (Bool.and_eq_true_iff.mp hplain).1
      refine ⟨c, cs, hcs, ?_⟩
      intro hmem
      have hsigns : ∀ d ∈ ['+', '-', '='], isWordStart d = false := forall_of_all (by decide)
      rw [hsigns c hmem] at hstart
      cases hstart

/-- A number opens an expression. -/
theorem Lexeme.opens_number {gap text : List Char} (h : IsNumeral text) : (Lexeme.mk gap .number text).Opens where
  not_end := nofun
  mark := nofun
  head := by
    cases text with
    | nil => exact absurd h.starts (by decide)
    | cons c cs =>
      refine ⟨c, cs, rfl, ?_⟩
      intro hmem
      have hsigns : ∀ d ∈ ['+', '-', '='], d.isDigit = false ∧ d ≠ '.' := forall_of_all (by decide)
      obtain ⟨hdigit, hpoint⟩ := hsigns c hmem
      have hstarts := h.starts
      simp [startsNumber, hdigit, hpoint] at hstarts

/-- A text opens an expression. -/
theorem Lexeme.opens_string {gap text : List Char} (h : IsQuotation text) : (Lexeme.mk gap .string text).Opens where
  not_end := nofun
  mark := nofun
  head := by
    obtain ⟨quote, cs, rfl, hquote, -⟩ := h
    refine ⟨quote, cs, rfl, ?_⟩
    intro hmem
    have hsigns : ∀ d ∈ ['+', '-', '='], isQuote d = false := forall_of_all (by decide)
    rw [hsigns quote hmem] at hquote
    cases hquote

/-- An opening bracket or parenthesis opens an expression. -/
theorem Lexeme.opens_bracket {gap : List Char} {text : String} (h : text ∈ ["(", "["]) : (mark gap text).Opens where
  not_end := nofun
  mark _ := by
    have hall : ∀ s ∈ ["(", "["], s.toList = ['('] ∨ s.toList = ['['] := by decide
    exact hall text h
  head := by
    have hall : ∀ s ∈ ["(", "["], ∃ c cs, s.toList = c :: cs ∧ c ∉ ['+', '-', '='] := by
      simp
    exact hall text h

end Source

open Source (IsNumeral IsQuotation IsIdentifier isPlainWord subsetUnary isDelimiter closedMarks)
open Layout

variable {extra : Info → Nat}

/-! ## How expressions start -/

/-- Every operator is weaker than a sign. -/
theorem operatorStrength_lt (symbol : String) : operatorStrength symbol < unaryStrength := by
  unfold operatorStrength
  split <;> decide

/-- The first lexeme stands behind a gap and has a property. -/
def Starts (P : Lexeme → Prop) (gap : List Char) (ls : List Lexeme) : Prop :=
  ∃ l rest, ls = l :: rest ∧ l.gap = gap ∧ P l

/-- What follows does not change how lexemes start. -/
theorem Starts.append {P : Lexeme → Prop} {gap : List Char} {ls : List Lexeme} (h : Starts P gap ls)
    (more : List Lexeme) : Starts P gap (ls ++ more) := by
  obtain ⟨l, rest, rfl, hgap, hl⟩ := h
  exact ⟨l, rest ++ more, rfl, hgap, hl⟩

/-- A gap that is not empty stands in front. -/
theorem Starts.next {P : Lexeme → Prop} {c : Char} {gap : List Char} {ls : List Lexeme} (h : Starts P (c :: gap) ls)
    (more : List Lexeme) : Next (· = c) (render (ls ++ more)) := by
  obtain ⟨l, rest, rfl, hgap, -⟩ := h
  rw [List.cons_append, Source.render_cons, Lexeme.chars, hgap]
  exact .cons rfl

/-- Lexemes that start somehow are not empty. -/
theorem Starts.length_pos {P : Lexeme → Prop} {gap : List Char} {ls : List Lexeme} (h : Starts P gap ls) :
    0 < ls.length := by
  obtain ⟨l, rest, rfl, -⟩ := h
  exact Nat.succ_pos _

/-- Lexemes that start somehow start in every weaker way. -/
theorem Starts.imp {P Q : Lexeme → Prop} {gap : List Char} {ls : List Lexeme} (h : Starts P gap ls)
    (hPQ : ∀ l, P l → Q l) : Starts Q gap ls := by
  obtain ⟨l, rest, rfl, hgap, hl⟩ := h
  exact ⟨l, rest, rfl, hgap, hPQ l hl⟩

/-- The first lexeme of an expression: a sign only if the expression would need parentheses before a point. -/
def Expr.OpensWith (e : Expr) (l : Lexeme) : Prop :=
  l.Opens ∨ e.strength < memberStrength ∧ ∃ s ∈ subsetUnary, l = .mark l.gap s

/-- Without parentheses around it, an expression needs none. -/
theorem Expr.not_needed {e : Expr} {needed : Bool} (h : e.pairs extra needed = 0) : needed = false := by
  cases needed with
  | false => rfl
  | true => exact absurd h (Nat.ne_of_gt (Nat.le_max_right _ _))

/-- In parentheses an expression starts with one, else as it does on its own. -/
theorem Layout.enclose_starts {e : Expr} {gap : List Char} (h : Starts e.OpensWith gap (e.layout extra gap)) (n : Nat) :
    Starts (fun l => l.Opens ∨ n = 0 ∧ e.OpensWith l) gap (enclose n (e.layout extra) gap) := by
  cases n with
  | zero => exact h.imp fun l hl => .inr ⟨rfl, hl⟩
  | succ n => exact ⟨_, _, rfl, rfl, .inl (Lexeme.opens_bracket (by decide))⟩

/-- In front of a point or a bracket, everything opens. -/
theorem Layout.enclose_opens {e : Expr} {gap : List Char} (h : Starts e.OpensWith gap (e.layout extra gap)) :
    Starts Lexeme.Opens gap (enclose (e.pairs extra (e.strength < memberStrength)) (e.layout extra) gap) := by
  apply (enclose_starts h _).imp
  intro l hl
  rcases hl with hl | ⟨hnone, hl | ⟨hlt, -⟩⟩
  · exact hl
  · exact hl
  · exact absurd hlt (of_decide_eq_false (Expr.not_needed hnone))

/-- The layout of an expression starts with what opens the expression. -/
theorem Expr.layout_starts (gap : List Char) {e : Expr} (h : e.IsRead) :
    Starts e.OpensWith gap (e.layout extra gap) := by
  cases e with
  | number => exact ⟨_, _, rfl, rfl, .inl (Source.Lexeme.opens_number h.1)⟩
  | string => exact ⟨_, _, rfl, rfl, .inl (Source.Lexeme.opens_string h.1)⟩
  | boolean _ value =>
    refine ⟨_, _, rfl, rfl, .inl ?_⟩
    cases value <;> exact Source.Lexeme.opens_word (by decide) (by decide)
  | null => exact ⟨_, _, rfl, rfl, .inl (Source.Lexeme.opens_word (by decide) (by decide))⟩
  | name => exact ⟨_, _, rfl, rfl, .inl (Source.Lexeme.opens_word h.1 (by rw [h.2]; decide))⟩
  | member => exact ((Layout.enclose_opens (Expr.layout_starts gap h.1)).append _).imp fun _ => .inl
  | element => exact ((Layout.enclose_opens (Expr.layout_starts gap h.1)).append _).imp fun _ => .inl
  | call => exact ((Layout.enclose_opens (Expr.layout_starts gap h.1)).append _).imp fun _ => .inl
  | array => exact ⟨_, _, rfl, rfl, .inl (Source.Lexeme.opens_bracket (by decide))⟩
  | binary _ left symbol right =>
    have hlt : operatorStrength symbol < memberStrength := Nat.lt_trans (operatorStrength_lt symbol) (by decide)
    apply ((Layout.enclose_starts (Expr.layout_starts gap h.2.1) _).append _).imp
    intro l hl
    rcases hl with hl | ⟨-, hl | ⟨-, hsign⟩⟩
    · exact .inl hl
    · exact .inl hl
    · exact .inr ⟨hlt, hsign⟩
  | unary _ symbol =>
    exact ⟨_, _, rfl, rfl, .inr ⟨show unaryStrength < memberStrength by decide, symbol, h.1, rfl⟩⟩

/-- What needs no parentheses before a point or a bracket opens like it. -/
theorem Expr.layout_opens {e : Expr} (h : e.IsRead) (hstrength : e.strength = memberStrength) (gap : List Char) :
    Starts Lexeme.Opens gap (e.layout extra gap) := by
  apply (Expr.layout_starts gap h).imp
  intro l hl
  rcases hl with hl | ⟨hlt, -⟩
  · exact hl
  · exact absurd hstrength (Nat.ne_of_lt hlt)

/-- In parentheses, an expression starts as it may start without them. -/
theorem Expr.whole_starts {e : Expr} (h : e.IsRead) (gap : List Char) : Starts e.OpensWith gap (e.whole extra gap) := by
  apply (Layout.enclose_starts (Expr.layout_starts gap h) _).imp
  intro l hl
  rcases hl with hl | ⟨-, hl⟩
  · exact .inl hl
  · exact hl

/-- No sign of an operand runs into the sign before it. -/
theorem Expr.clashes_not {symbol : String} (hsymbol : symbol ∈ subsetUnary) {operand : Expr} (hread : operand.IsRead)
    (hsigned : operand.isSigned symbol = false) (ls : List Lexeme) :
    Next (fun c => clashesWithMark symbol.toList c = false)
      (render (enclose (operand.pairs extra (operand.strength < unaryStrength)) (operand.layout extra) [] ++ ls)) := by
  have hstarts : Starts operand.OpensWith [] (operand.layout extra []) := Expr.layout_starts [] hread
  obtain ⟨l, rest, heq, hgap, hl⟩ := enclose_starts hstarts (operand.pairs extra (operand.strength < unaryStrength))
  have hstart : (operand.pairs extra (operand.strength < unaryStrength) = 0 ∧ ∃ i sign inner, operand = .unary i sign inner) ∨
      l.Opens := by
    rcases hl with hl | ⟨hnone, hl | ⟨hhigh, -⟩⟩
    · exact .inr hl
    · exact .inr hl
    · cases operand with
      | unary i sign inner => exact .inl ⟨hnone, i, sign, inner, rfl⟩
      | binary _ _ sign _ => exact absurd (operatorStrength_lt sign) (of_decide_eq_false (Expr.not_needed hnone))
      | _ => exact absurd hhigh (Nat.lt_irrefl _)
  have hhead : ∃ c cs, l.chars = c :: cs ∧ clashesWithMark symbol.toList c = false := by
    rcases hstart with ⟨hnone, i, sign, inner, rfl⟩ | hopens
    · have hsigns : ∀ s ∈ subsetUnary, ∀ s' ∈ subsetUnary, (decide (s' = s) && s != "!") = false →
          s'.toList.head?.map (clashesWithMark s.toList) = some false := by decide +kernel
      have hclash := hsigns symbol hsymbol sign hread.1 hsigned
      rw [hnone] at heq
      obtain rfl : l = .mark [] sign := (List.cons.inj heq).1.symm
      cases hcs : sign.toList with
      | nil =>
        rw [hcs] at hclash
        cases hclash
      | cons c cs =>
        rw [hcs] at hclash
        exact ⟨c, cs, hcs, Option.some.inj hclash⟩
    · have hsigns : ∀ s ∈ subsetUnary, (Source.extensions s.toList).all ['+', '-', '='].contains = true ∧ s.toList ≠ ['/'] ∧
          s.toList ≠ ['.'] := by decide +kernel
      obtain ⟨hextensions, hslash, hpoint⟩ := hsigns symbol hsymbol
      obtain ⟨c, cs, htext, hc⟩ := hopens.head
      have hextends : extendsMark symbol.toList c = false := Bool.eq_false_iff.mpr fun h =>
        hc (List.contains_iff_mem.mp (List.all_eq_true.mp hextensions c (Source.mem_extensions h)))
      exact ⟨c, cs, by rw [Lexeme.chars, hgap, htext, List.nil_append], by simp [clashesWithMark, hextends, hslash, hpoint]⟩
  obtain ⟨c, cs, hchars, hclash⟩ := hhead
  rw [heq, List.cons_append, Source.render_cons, hchars]
  exact .cons hclash

/-! ## Expressions -/

/-- What may stand behind an expression. A point may not stand behind a number without one, nor behind an operator,
whose last operand it would belong to. -/
structure Expr.EndsBefore (e : Expr) (rest : List Char) : Prop where
  delimiter : Next (fun c => Source.isDelimiter c = true) rest
  point : Next (· ≠ '.') rest ∨ e.strength = memberStrength ∧ e.isWholeNumber = false

/-- The characters that stand behind a whole expression, except for a blank. -/
def closers : List Char := [',', ')', ']', ';']

/-- Every expression ends before a closing mark. -/
theorem Expr.EndsBefore.of_closer {e : Expr} {rest : List Char} (h : Next (· ∈ closers) rest) : e.EndsBefore rest := by
  have hall : ∀ c ∈ closers, Source.isDelimiter c = true ∧ c ≠ '.' := Source.forall_of_all (by decide)
  exact ⟨h.imp fun c hc => (hall c hc).1, .inl (h.imp fun c hc => (hall c hc).2)⟩

/-- What an expression ends before goes on with no word. -/
theorem Expr.EndsBefore.word {e : Expr} {rest : List Char} (h : e.EndsBefore rest) :
    Next (fun c => isWordPart c = false) rest := h.delimiter.imp fun _ hc => (Source.isDelimiter_ends hc).1

/-- What an expression ends before ends a number. -/
theorem Expr.EndsBefore.number {e : Expr} {rest : List Char} (h : e.EndsBefore rest) : Next Source.EndsNumber rest :=
  h.delimiter.imp fun _ hc => (Source.isDelimiter_ends hc).2

/-- No expression is stronger than a member. -/
theorem Expr.strength_le (e : Expr) : e.strength ≤ memberStrength := by
  cases e with
  | binary _ _ symbol _ => exact Nat.le_of_lt (Nat.lt_trans (operatorStrength_lt symbol) (by decide))
  | unary => exact show unaryStrength ≤ memberStrength by decide
  | _ => exact Nat.le_refl _

/-- What needs no parentheses before a point or a bracket. -/
theorem Expr.strength_eq {e : Expr} (h : decide (e.strength < memberStrength) = false) : e.strength = memberStrength :=
  Nat.le_antisymm e.strength_le (by simpa using h)

/-- A word shows the first character of its name. -/
theorem next_word {p : Char → Prop} {name : String} (hname : isPlainWord name.toList = true)
    (hp : ∀ c, isWordStart c = true → p c) (ls : List Lexeme) : Next p (render (word name [] ++ ls)) := by
  cases hcs : name.toList with
  | nil =>
    rw [hcs] at hname
    cases hname
  | cons c cs =>
    rw [hcs] at hname
    simp only [word, List.cons_append, Source.render_cons, Lexeme.chars_word, hcs]
    exact .cons (hp c (Bool.and_eq_true_iff.mp hname).1)

/-- A mark shows the first character of its gap or text. -/
theorem next_mark {p : Char → Prop} {gap : List Char} {text : String} {c : Char}
    (h : (gap ++ text.toList).head? = some c) (hc : p c) (ls : List Lexeme) : Next p (render (.mark gap text :: ls)) := by
  intro d hd
  rw [Source.render_cons, Lexeme.chars_mark, List.head?_append, h] at hd
  cases hd
  exact hc

/-- Parentheses around a separated layout leave it separated. -/
theorem Layout.separated_enclose {e : Expr} {n : Nat} {gap : List Char} {ls : List Lexeme}
    (h : ∀ gap ls, isGap gap = true → Separated ls → e.EndsBefore (render ls) → Separated (e.layout extra gap ++ ls))
    (hgap : isGap gap = true) (hls : Separated ls) (hends : n = 0 → e.EndsBefore (render ls)) :
    Separated (enclose n (e.layout extra) gap ++ ls) := by
  induction n generalizing gap ls with
  | zero => exact h gap ls hgap hls (hends rfl)
  | succ n ih =>
    rw [enclose, List.cons_append, List.append_assoc]
    refine ⟨.of_closed (by decide) hgap, ih rfl ⟨.of_closed (by decide) rfl, hls⟩ ?_⟩
    intro _
    exact .of_closer (next_mark (c := ')') rfl (by decide) ls)

/-- A part is well separated in front of what closes it. -/
def Layout.Separates (layout : Layout) : Prop :=
  ∀ gap ls, isGap gap = true → Separated ls → Next (· ∈ closers) (render ls) → Separated (layout gap ++ ls)

/-- Separated layouts with commas between them are separated. -/
theorem Layout.separated_commas {α : Type} {f : α → Layout} {xs : List α} (h : ∀ x ∈ xs, (f x).Separates)
    {gap : List Char} {ls : List Lexeme} (hgap : isGap gap = true) (hls : Separated ls)
    (hnext : Next (· ∈ closers) (render ls)) : Separated (commas (xs.map f) gap ++ ls) := by
  induction xs generalizing gap with
  | nil => exact hls
  | cons x xs ih =>
    have hx := h x List.mem_cons_self
    have hxs : Separated (commas (xs.map f) [' '] ++ ls) := ih (fun y hy => h y (List.mem_cons_of_mem x hy)) rfl
    cases xs with
    | nil => exact hx gap ls hgap hls hnext
    | cons y ys =>
      rw [List.map_cons, List.map_cons, commas, List.append_assoc, List.cons_append]
      exact hx gap _ hgap ⟨.of_closed (by decide) rfl, hxs⟩ (next_mark (c := ',') rfl (by decide) _)

mutual

/-- The lexemes of a clear expression are separated, whatever separated lexemes it ends before. -/
theorem Expr.separated : ∀ {e : Expr} {gap : List Char} {ls : List Lexeme}, e.IsRead → e.isClear = true →
    isGap gap = true → Separated ls → e.EndsBefore (render ls) → Separated (e.layout extra gap ++ ls)
  | .number .., _, _, h, _, hgap, hls, hends => by
    refine ⟨.of_number hgap h.1 hends.number ?_, hls⟩
    intro hwhole
    rcases hends.point with hpoint | ⟨-, hnot⟩
    · exact hpoint
    · exact absurd hwhole (by simpa [Expr.isWholeNumber] using hnot)
  | .string .., _, _, h, _, hgap, hls, _ => ⟨.of_string hgap h.1, hls⟩
  | .boolean _ value, _, _, _, _, hgap, hls, hends =>
    ⟨.of_word hgap (by cases value <;> decide) hends.word, hls⟩
  | .null _, _, _, _, _, hgap, hls, hends =>
    ⟨.of_word hgap (by decide) hends.word, hls⟩
  | .name .., _, _, h, _, hgap, hls, hends =>
    ⟨.of_word hgap h.1 hends.word, hls⟩
  | .member _ object property, gap, ls, h, hclear, hgap, hls, hends => by
    simp only [Expr.isClear, Bool.and_eq_true, Bool.not_eq_true'] at hclear
    rw [Expr.layout, List.append_assoc, List.cons_append]
    have hproperty : Separated (.mark [] "." :: (word property [] ++ ls)) := by
      refine ⟨.of_point rfl (next_word h.2.1 ?_ ls), .of_word rfl h.2.1 hends.word, hls⟩
      intro c hc
      exact Bool.eq_false_iff.mpr fun hdigit => by simp [Source.isWordStart_of_isDigit hdigit] at hc
    apply separated_enclose (fun _ _ => Expr.separated h.1 hclear.2) hgap hproperty
    intro hneeded
    exact ⟨next_mark (c := '.') rfl (by decide) _, .inr ⟨Expr.strength_eq (Expr.not_needed hneeded), hclear.1⟩⟩
  | .element _ base position, gap, ls, h, hclear, hgap, hls, hends => by
    simp only [Expr.isClear, Bool.and_eq_true] at hclear
    rw [Expr.layout, List.append_assoc, List.cons_append, List.append_assoc]
    have hposition : Separated (.mark [] "[" :: (position.whole extra [] ++ .mark [] "]" :: ls)) :=
      ⟨.of_closed (by decide) rfl, separated_enclose (fun _ _ => Expr.separated h.2 hclear.2) rfl
        ⟨.of_closed (by decide) rfl, hls⟩ fun _ => .of_closer (next_mark (c := ']') rfl (by decide) ls)⟩
    apply separated_enclose (fun _ _ => Expr.separated h.1 hclear.1) hgap hposition
    intro hneeded
    exact ⟨next_mark (c := '[') rfl (by decide) _, .inl (next_mark (c := '[') rfl (by decide) _)⟩
  | .call _ callee arguments, gap, ls, h, hclear, hgap, hls, _ => by
    simp only [Expr.isClear, Bool.and_eq_true] at hclear
    rw [Expr.layout, Expr.layouts_eq_map, List.append_assoc, List.cons_append, List.append_assoc]
    have harguments : Separated (.mark [] "(" :: (commas (arguments.map (Expr.whole extra)) [] ++ .mark [] ")" :: ls)) :=
      ⟨.of_closed (by decide) rfl, separated_commas (Expr.separated_all h.2 hclear.2) rfl ⟨.of_closed (by decide) rfl, hls⟩
        (next_mark (c := ')') rfl (by decide) ls)⟩
    apply separated_enclose (fun _ _ => Expr.separated h.1 hclear.1) hgap harguments
    intro _
    exact ⟨next_mark (c := '(') rfl (by decide) _, .inl (next_mark (c := '(') rfl (by decide) _)⟩
  | .array _ items, gap, ls, h, hclear, hgap, hls, _ => by
    rw [Expr.layout, Expr.layouts_eq_map, List.cons_append, List.append_assoc]
    exact ⟨.of_closed (by decide) hgap, separated_commas (Expr.separated_all h hclear) rfl ⟨.of_closed (by decide) rfl, hls⟩
      (next_mark (c := ']') rfl (by decide) ls)⟩
  | .binary _ left symbol right, gap, ls, h, hclear, hgap, hls, hends => by
    simp only [Expr.isClear, Bool.and_eq_true] at hclear
    have hpoint : Next (· ≠ '.') (render ls) := by
      rcases hends.point with hpoint | ⟨hstrength, -⟩
      · exact hpoint
      · exact absurd hstrength (Nat.ne_of_lt (Nat.lt_trans (operatorStrength_lt symbol) (by decide)))
    rw [Expr.layout, List.append_assoc, List.cons_append]
    have hright : Separated
        (enclose (right.pairs extra (right.strength ≤ operatorStrength symbol)) (right.layout extra) [' '] ++ ls) :=
      separated_enclose (fun _ _ => Expr.separated h.2.2 hclear.2) rfl hls fun _ => ⟨hends.delimiter, .inl hpoint⟩
    have hsymbol : Separated (.mark [' '] symbol ::
        (enclose (right.pairs extra (right.strength ≤ operatorStrength symbol)) (right.layout extra) [' '] ++ ls)) := by
      exact ⟨.of_spaced (List.mem_append_left _ h.1) rfl
        ((enclose_starts (Expr.layout_starts [' '] h.2.2) _).next ls), hright⟩
    apply separated_enclose (fun _ _ => Expr.separated h.2.1 hclear.1.2) hgap hsymbol
    intro _
    exact ⟨next_mark (c := ' ') rfl (by decide) _, .inl (next_mark (c := ' ') rfl (by decide) _)⟩
  | .unary _ symbol operand, gap, ls, h, hclear, hgap, hls, hends => by
    simp only [Expr.isClear, Bool.and_eq_true, Bool.not_eq_true'] at hclear
    have hpoint : Next (· ≠ '.') (render ls) := by
      rcases hends.point with hpoint | ⟨hstrength, -⟩
      · exact hpoint
      · exact absurd hstrength (show unaryStrength ≠ memberStrength by decide)
    have hmarks : ∀ s ∈ subsetUnary, s.toList ∈ punctuation := by decide +kernel
    refine ⟨.of_mark hgap (hmarks symbol h.1) (Expr.clashes_not h.1 h.2 hclear.1 ls), ?_⟩
    apply separated_enclose (fun _ _ => Expr.separated h.2 hclear.2) rfl hls
    intro _
    exact ⟨hends.delimiter, .inl hpoint⟩

/-- Each of several clear expressions separates its lexemes. -/
theorem Expr.separated_all : ∀ {es : List Expr}, Expr.AllRead es → Expr.allClear es = true →
    ∀ e ∈ es, (e.whole extra).Separates
  | _ :: _, h, hclear, _, .head _ => fun _ _ hgap hls hnext =>
    separated_enclose (fun _ _ => Expr.separated h.1 (Bool.and_eq_true_iff.mp hclear).1) hgap hls fun _ => .of_closer hnext
  | _ :: _, h, hclear, _, .tail _ he => Expr.separated_all h.2 (Bool.and_eq_true_iff.mp hclear).2 _ he

end

/-- The layout of a clear expression separates its lexemes. -/
theorem Expr.separates {e : Expr} (h : e.IsRead) (hclear : e.isClear = true) : (e.whole extra).Separates :=
  fun _ _ hgap hls hnext => separated_enclose (fun _ _ => Expr.separated h hclear) hgap hls fun _ => .of_closer hnext

/-! ## Statements -/

/-- Two gaps in a row are a gap. -/
theorem isGap_append {gap more : List Char} (hgap : isGap gap = true) (hmore : isGap more = true) :
    isGap (gap ++ more) = true := by
  rw [isGap, List.all_append]
  exact Bool.and_eq_true_iff.mpr ⟨hgap, hmore⟩

/-- An indentation is a gap. -/
theorem isGap_indentation (depth : Nat) : isGap (indentation depth).toList = true := by
  simp [isGap, indentation]

/-- The layout of an assignment between clear expressions separates its lexemes. -/
theorem Assignment.separates {target value : Expr} (htarget : target.IsRead) (hclear : target.isClear = true)
    (hvalue : value.IsRead) (hclear' : value.isClear = true) {symbol : String} (hsymbol : symbol ∈ Source.subsetAssign)
    (i : Info) : (Assignment.layout extra ⟨i, target, symbol, value⟩).Separates := by
  intro gap ls hgap hls hnext
  rw [Assignment.layout, List.append_assoc, List.cons_append]
  have hright : Separated (.mark [' '] symbol :: (value.whole extra [' '] ++ ls)) :=
    ⟨.of_spaced (List.mem_append_right _ hsymbol) rfl ((Expr.whole_starts hvalue [' ']).next ls),
      Expr.separates hvalue hclear' _ ls rfl hls hnext⟩
  exact Expr.separated htarget hclear hgap hright
    ⟨next_mark (c := ' ') rfl (by decide) _, .inl (next_mark (c := ' ') rfl (by decide) _)⟩

/-- A plain word separates its lexemes. -/
theorem Layout.word_separates {name : String} (h : isPlainWord name.toList = true) : (word name).Separates := by
  intro gap ls hgap hls hnext
  have hends : ∀ c ∈ closers, isWordPart c = false := Source.forall_of_all (by decide)
  exact ⟨.of_word hgap h (hnext.imp fun c hc => hends c hc), hls⟩

/-- A word starts with itself. -/
theorem Starts.of_word (name : String) (gap : List Char) : Starts (fun l => l = .word gap name) gap (word name gap) :=
  ⟨_, _, rfl, rfl, rfl⟩

/-- A declared name starts with the name, whether it has a first value or not. -/
theorem Declared.layout_starts {d : Declared} (h : d.IsRead) (gap : List Char) :
    Starts (fun l => l = .word gap d.name) gap (d.layout extra gap) := by
  unfold Declared.layout
  cases hfirst : d.first with
  | none => exact .of_word d.name gap
  | some a =>
    obtain ⟨⟨i, htarget⟩, -⟩ := h.2 a hfirst
    show Starts _ gap (a.layout extra gap)
    rw [Assignment.layout, htarget]
    exact (Starts.of_word d.name gap).append _

/-- A list starts as its first item does. -/
theorem Layout.commas_starts {α : Type} {f : α → Layout} {P : Lexeme → Prop} {x : α} {gap : List Char}
    (h : Starts P gap (f x gap)) (xs : List α) : Starts P gap (commas ((x :: xs).map f) gap) := by
  cases xs with
  | nil => exact h
  | cons y ys => exact h.append _

/-- The layout of a declared name separates its lexemes. -/
theorem Declared.separates {d : Declared} (h : d.IsRead)
    (hclear : d.everywhere Expr.isClear (fun _ => true) = true) : (d.layout extra).Separates := by
  unfold Declared.layout
  unfold Declared.everywhere at hclear
  cases hfirst : d.first with
  | none => exact word_separates h.1.1
  | some a =>
    obtain ⟨⟨i, htarget⟩, hsymbol, hvalue⟩ := h.2 a hfirst
    rw [hfirst] at hclear
    simp only [Assignment.everywhere, Bool.true_and, Bool.and_eq_true] at hclear
    refine Assignment.separates ?_ hclear.1 hvalue hclear.2 ?_ a.info
    · rw [htarget]
      exact h.1
    · rw [hsymbol]
      decide

/-- A keyword, a condition and a block are separated if the condition and the block are. -/
theorem Layout.separated_guarded {keyword : String} (hkeyword : keyword ∈ Source.keywords) {test : Layout}
    (htest : test.Separates) {block : List Lexeme} {gap : List Char} {ls : List Lexeme} (hgap : isGap gap = true)
    (hblock : Separated (block ++ ls)) : Separated (guarded keyword test block gap ++ ls) := by
  rw [guarded, List.cons_append, List.cons_append, List.append_assoc, List.cons_append]
  refine ⟨.of_keyword hkeyword hgap (next_mark (c := ' ') rfl (by decide) _), .of_closed (by decide) rfl, ?_⟩
  exact htest [] _ rfl ⟨.of_closed (by decide) rfl, hblock⟩ (next_mark (c := ')') rfl (by decide) _)

/-- A block is separated if its lines are. -/
theorem Layout.separated_block {lines : Layout} (h : ∀ ls, Separated ls → Separated (lines ['\n'] ++ ls)) (depth : Nat)
    {ls : List Lexeme} (hls : Separated ls) : Separated (block depth lines ++ ls) := by
  rw [block, List.cons_append, List.append_assoc]
  refine ⟨.of_closed (by decide) rfl, h _ ⟨.of_closed (by decide) ?_, hls⟩⟩
  exact isGap_append (show Source.isGap ['\n'] = true from rfl) (isGap_indentation depth)

mutual

/-- The lexemes of a clear statement are separated, whatever separated lexemes follow. -/
theorem Stmt.separated (depth : Nat) {inFunction top : Bool} :
    ∀ {s : Stmt} {gap : List Char} {ls : List Lexeme}, s.IsRead inFunction top →
      s.everywhere Expr.isClear (fun _ => true) = true → isGap gap = true → Separated ls →
      (s.isBlock = false → Next (· ∈ closers) (render ls)) → Separated (s.layout extra depth gap ++ ls)
  | .var _ names, _, ls, h, hclear, hgap, hls, hnext => by
    simp only [Stmt.everywhere, List.all_eq_true] at hclear
    rw [Stmt.layout, List.cons_append]
    obtain ⟨d, ds, rfl⟩ := List.exists_cons_of_ne_nil h.1
    have hdeclared : Starts _ [' '] (d.layout extra [' ']) := Declared.layout_starts (h.2 d List.mem_cons_self) [' ']
    have hstart := (commas_starts hdeclared ds).next ls
    refine ⟨.of_keyword (by decide) hgap (hstart.imp ?_), separated_commas
      (fun d hd => Declared.separates (h.2 d hd) (hclear d hd)) rfl hls (hnext rfl)⟩
    rintro _ rfl
    decide
  | .assign a, gap, ls, h, hclear, hgap, hls, hnext => by
    simp only [Stmt.everywhere, Assignment.everywhere, Bool.true_and, Bool.and_eq_true] at hclear
    exact Assignment.separates h.2.2.1 hclear.1 h.2.2.2 hclear.2 h.1 a.info gap ls hgap hls (hnext rfl)
  | .bump _ target symbol, _, _, h, hclear, hgap, hls, _ => by
    have hmarks : ∀ s ∈ ["++", "--"], s ∈ closedMarks ∧ ∃ c, s.toList.head? = some c ∧ isDelimiter c = true ∧ c ≠ '.' := by
      simp [closedMarks, isDelimiter]
    obtain ⟨hmark, c, hhead, hdelimiter, hpoint⟩ := hmarks symbol h.2.2
    rw [Stmt.layout, List.append_assoc]
    exact Expr.separated h.2.1 hclear hgap ⟨.of_closed hmark rfl, hls⟩
      ⟨next_mark (p := (isDelimiter · = true)) hhead hdelimiter _, .inl (next_mark (p := (· ≠ '.')) hhead hpoint _)⟩
  | .call .., _, _, h, hclear, hgap, hls, hnext => Expr.separated h hclear hgap hls (.of_closer (hnext rfl))
  | .cond _ test body branch, _, ls, h, hclear, hgap, hls, _ => by
    simp only [Stmt.everywhere, Bool.and_eq_true] at hclear
    rw [Stmt.layout, List.append_assoc]
    refine separated_guarded (by decide) (Expr.separates h.1 hclear.1.1) hgap
      (separated_block ?_ depth (Stmt.separated_branch depth h.2.2 hclear.2 hls))
    intro ls hls
    exact Stmt.separated_lines (depth + 1) h.2.1 hclear.1.2 rfl hls
  | .while _ test body, _, ls, h, hclear, hgap, hls, _ => by
    simp only [Stmt.everywhere, Bool.and_eq_true] at hclear
    refine separated_guarded (by decide) (Expr.separates h.1 hclear.1) hgap (separated_block ?_ depth hls)
    intro ls hls
    exact Stmt.separated_lines (depth + 1) h.2 hclear.2 rfl hls
  | .for _ first test update body, gap, ls, h, hclear, hgap, hls, _ => by
    simp only [Stmt.everywhere, Bool.and_eq_true] at hclear
    obtain ⟨⟨⟨hfirst, htest⟩, hupdate⟩, hbody⟩ := hclear
    rw [Stmt.layout, List.cons_append, List.cons_append, List.append_assoc, List.cons_append, List.append_assoc,
      List.cons_append, List.append_assoc]
    refine ⟨.of_keyword (by decide) hgap (next_mark (c := ' ') rfl (by decide) _), .of_closed (by decide) rfl, ?_⟩
    refine Stmt.separated_header h.1 hfirst ⟨.of_closed (by decide) rfl, ?_⟩ (next_mark (c := ';') rfl (by decide) _)
    refine Expr.separates h.2.1 htest [' '] _ rfl ⟨.of_closed (by decide) rfl, ?_⟩ (next_mark (c := ';') rfl (by decide) _)
    refine Stmt.separated_update h.2.2.1 hupdate (separated_block ?_ depth hls)
    intro ls hls
    exact Stmt.separated_lines (depth + 1) h.2.2.2 hbody rfl hls
  | .function _ name params body, gap, ls, h, hclear, hgap, hls, _ => by
    rw [Stmt.layout, List.cons_append, List.append_assoc, List.cons_append, List.append_assoc, List.cons_append]
    have hname := (Starts.of_word name [' ']).next (.mark [] "(" :: (commas (params.map word) [] ++
      .mark [] ")" :: (block depth (Stmt.lines extra (depth + 1) body) ++ ls)))
    refine ⟨.of_keyword (by decide) hgap (hname.imp ?_), .of_word rfl h.2.1.1 (next_mark (c := '(') rfl (by decide) _),
      .of_closed (by decide) rfl, ?_⟩
    · rintro _ rfl
      decide
    refine separated_commas (fun p hp => word_separates (h.2.2.1 p hp).1) rfl ⟨.of_closed (by decide) rfl, ?_⟩
      (next_mark (c := ')') rfl (by decide) _)
    refine separated_block ?_ depth hls
    intro ls hls
    exact Stmt.separated_lines (depth + 1) h.2.2.2.2 hclear rfl hls
  | .return _ none, _, _, _, _, hgap, hls, hnext => by
    have hends : ∀ c ∈ closers, isWordPart c = false := Source.forall_of_all (by decide)
    exact ⟨.of_keyword (by decide) hgap ((hnext rfl).imp fun c hc => hends c hc), hls⟩
  | .return _ (some value), _, ls, h, hclear, hgap, hls, hnext => by
    rw [Stmt.layout, List.cons_append]
    refine ⟨.of_keyword (by decide) hgap (((Expr.whole_starts (h.2 value rfl) [' ']).next ls).imp ?_),
      Expr.separates (h.2 value rfl) hclear [' '] ls rfl hls (hnext rfl)⟩
    rintro _ rfl
    decide

/-- The first part of a `for` is separated. -/
theorem Stmt.separated_header {kinds : Stmt → Bool} :
    ∀ {s : Option Stmt} {ls : List Lexeme}, Stmt.IsReadPart kinds s →
      Stmt.everywhereIn Expr.isClear (fun _ => true) s = true → Separated ls → Next (· ∈ closers) (render ls) →
      Separated (Stmt.headerLayout extra s ++ ls)
  | none, _, _, _, hls, _ => hls
  | some _, _, h, hclear, hls, hnext => Stmt.separated 0 h.2 hclear rfl hls fun _ => hnext

/-- The last part of a `for` is separated. -/
theorem Stmt.separated_update {kinds : Stmt → Bool} :
    ∀ {s : Option Stmt} {ls : List Lexeme}, Stmt.IsReadPart kinds s →
      Stmt.everywhereIn Expr.isClear (fun _ => true) s = true → Separated ls → Separated (Stmt.updateLayout extra s ++ ls)
  | none, _, _, _, hls => ⟨.of_closed (by decide) rfl, hls⟩
  | some _, ls, h, hclear, hls => by
    rw [Stmt.updateLayout, List.append_assoc]
    refine Stmt.separated 0 h.2 hclear rfl ⟨.of_closed (by decide) rfl, hls⟩ ?_
    intro _
    exact next_mark (c := ')') rfl (by decide) ls

/-- The other branch of a condition is separated. -/
theorem Stmt.separated_branch (depth : Nat) {inFunction : Bool} :
    ∀ {branch : Option Stmt} {ls : List Lexeme}, Stmt.IsReadBranch inFunction branch →
      Stmt.everywhereIn Expr.isClear (fun _ => true) branch = true → Separated ls →
      Separated (Stmt.branchLayout extra depth branch ++ ls)
  | none, _, _, _, hls => hls
  | some (.elseIf _ _ test body branch), ls, h, hclear, hls => by
    simp only [Stmt.everywhereIn, Stmt.everywhere, Bool.and_eq_true] at hclear
    rw [Stmt.branchLayout, List.cons_append, List.append_assoc]
    refine ⟨.of_keyword (by decide) rfl (next_mark (c := ' ') rfl (by decide) _), ?_⟩
    refine separated_guarded (by decide) (Expr.separates h.1 hclear.1.1) rfl
      (separated_block ?_ depth (Stmt.separated_branch depth h.2.2 hclear.2 hls))
    intro ls hls
    exact Stmt.separated_lines (depth + 1) h.2.1 hclear.1.2 rfl hls
  | some (.orElse _ body), ls, h, hclear, hls => by
    rw [Stmt.branchLayout, List.cons_append]
    refine ⟨.of_keyword (by decide) rfl (next_mark (c := ' ') rfl (by decide) _), ?_⟩
    refine separated_block ?_ depth hls
    intro ls hls
    exact Stmt.separated_lines (depth + 1) h hclear rfl hls

/-- The lines of a body are separated. -/
theorem Stmt.separated_lines (depth : Nat) {inFunction top : Bool} :
    ∀ {body : List Stmt} {gap : List Char} {ls : List Lexeme}, Stmt.AllRead inFunction top body →
      Stmt.everywhereAll Expr.isClear (fun _ => true) body = true → isGap gap = true → Separated ls →
      Separated (Stmt.lines extra depth body gap ++ ls)
  | [], _, _, _, _, _, hls => hls
  | s :: rest, gap, ls, h, hclear, hgap, hls => by
    simp only [Stmt.everywhereAll, Bool.and_eq_true] at hclear
    have hrest : Separated (Stmt.lines extra depth rest ['\n'] ++ ls) := Stmt.separated_lines depth h.2 hclear.2 rfl hls
    rw [Stmt.lines, List.append_assoc, List.append_assoc]
    refine Stmt.separated depth h.1 hclear.1 (isGap_append hgap (isGap_indentation depth)) ?_ ?_
    · split
      · exact hrest
      · exact ⟨.of_closed (by decide) rfl, hrest⟩
    · intro hblock
      rw [if_neg (by simp [hblock])]
      exact next_mark (c := ';') rfl (by decide) _

end

end Primer
