import Primer.Proofs.Print.Separation

/-!
# Reading printed expressions

A reader that stands at the lexemes of a printed expression reads the expression, and stops behind it. What is read
spells the expression: it is built of the same names, symbols and literals (`Term.Spells`).
-/

set_option autoImplicit false

namespace Primer

/-- The strongest operator that may follow an operator between two operands: the relational ones group to the right. -/
def toleranceOf (symbol : String) : Nat :=
  if isRelational symbol then operatorStrength symbol - 1 else operatorStrength symbol

/-- The strongest operator that may follow an expression. -/
def Expr.tolerance : Expr → Nat
  | .binary _ _ symbol _ => toleranceOf symbol
  | _ => memberStrength

/-- How strongly an expression holds together in some pairs of parentheses. -/
def Expr.strengthIn (pairs : Nat) (e : Expr) : Nat := if pairs = 0 then e.strength else memberStrength

/-- The strongest operator that may follow an expression in some pairs of parentheses. -/
def Expr.toleranceIn (pairs : Nat) (e : Expr) : Nat := if pairs = 0 then e.tolerance else memberStrength

end Primer

namespace Primer.Source

/-! ## What is read -/

mutual

/-- An expression of a source that spells an expression. -/
def Term.Spells : Term → Expr → Prop
  | .number _ text value, .number _ value' literal => text = literal ∧ value = value'
  | .string _ text value, .string _ value' literal => text = literal ∧ value = value'
  | .boolean _ value, .boolean _ value' => value = value'
  | .null _, .null _ => True
  | .name _ text, .name _ text' => text = text'
  | .dot left _ text, .member _ object property => left.Spells object ∧ text = property
  | .bracket left index _, .element _ base position => left.Spells base ∧ index.Spells position
  | .call callee arguments _, .call _ callee' arguments' => callee.Spells callee' ∧ Term.AllSpell arguments arguments'
  | .array _ items _, .array _ items' => Term.AllSpell items items'
  | .binary left symbol right, .binary _ left' symbol' right' =>
    symbol = symbol' ∧ left.Spells left' ∧ right.Spells right'
  | .unary _ symbol operand, .unary _ symbol' operand' => symbol = symbol' ∧ operand.Spells operand'
  | _, _ => False

/-- Expressions of a source that spell expressions. -/
def Term.AllSpell : List Term → List Expr → Prop
  | [], [] => True
  | t :: ts, e :: es => t.Spells e ∧ Term.AllSpell ts es
  | _, _ => False

end

/-- A text stands behind an expression, with parentheses that close before it. -/
def Term.EndsAt (source : List Char) (t : Term) (rest : List Char) : Prop :=
  ∃ k, Behind source t.stop (List.replicate k ')' ++ rest)

/-- A reader has read an expression and stands before some lexemes. -/
structure HasRead (source : List Char) (t : Term) (e : Expr) (c : Cursor) (ls : List Lexeme) : Prop where
  spells : t.Spells e
  shows : c.Shows source ls
  ends : t.EndsAt source (render ls)

/-! ## What a cursor shows -/

/-- Whether the first lexeme is one of several marks. -/
def headIs (texts : List String) : List Lexeme → Bool
  | [] => false
  | l :: _ => l.kind = .mark && texts.contains (String.ofList l.text)

/-- A mark in front decides what is in front. -/
@[simp]
theorem headIs_mark (texts : List String) (gap : List Char) (text : String) (ls : List Lexeme) :
    headIs texts (.mark gap text :: ls) = texts.contains text := by
  simp [headIs, Lexeme.mark]

/-- What is no mark is none of the marks asked for. -/
theorem headIs_of_kind {texts : List String} {l : Lexeme} (h : l.kind ≠ .mark) (ls : List Lexeme) :
    headIs texts (l :: ls) = false := by
  simp [headIs, h]

/-- One mark cannot be in two disjoint lists. -/
theorem headIs_disjoint {xs ys : List String} {ls : List Lexeme} (h : headIs xs ls = true)
    (hdisjoint : ∀ x ∈ xs, x ∉ ys) : headIs ys ls = false := by
  cases ls with
  | nil => cases h
  | cons l ls =>
    simp only [headIs, Bool.and_eq_true, decide_eq_true_eq] at h
    simp only [headIs, Bool.and_eq_false_iff]
    exact .inr (by simpa using hdisjoint _ (List.contains_iff_mem.mp h.2))

/-- A mark of a list is a mark of each larger list. -/
theorem headIs_mono {xs ys : List String} {ls : List Lexeme} (h : headIs xs ls = true) (hsubset : ∀ x ∈ xs, x ∈ ys) :
    headIs ys ls = true := by
  cases ls with
  | nil => cases h
  | cons l ls =>
    simp only [headIs, Bool.and_eq_true] at h ⊢
    exact ⟨h.1, List.contains_iff_mem.mpr (hsubset _ (List.contains_iff_mem.mp h.2))⟩

namespace Cursor.Shows

variable {source : List Char} {c : Cursor} {ls : List Lexeme}

/-- A token that shows lexemes is one of some marks if their first is. -/
theorem isOneOf (h : c.Shows source ls) (texts : List String) : c.isOneOf texts = headIs texts ls := by
  cases ls with
  | nil =>
    have hkind : c.kind = .endOfInput := h
    simp [Cursor.isOneOf, headIs, hkind]
  | cons l ls => simp [Cursor.isOneOf, headIs, h.1.kind, h.1.text]

/-- A token that shows lexemes is a mark if their first is. -/
theorem is (h : c.Shows source ls) (text : String) : c.is text = headIs [text] ls := by
  rw [← h.isOneOf]
  simp [Cursor.is, Cursor.isOneOf]

/-- Behind a token that shows lexemes comes one that shows all but the first. -/
theorem next {l : Lexeme} (h : c.Shows source (l :: ls)) : ∃ c', c.next = .ok c' ∧ c'.Shows source ls := h.2

/-- A token that shows a mark is a mark. -/
theorem kind_mark {gap : List Char} {text : String} (h : c.Shows source (.mark gap text :: ls)) : c.kind = .mark :=
  h.1.kind

/-- A token that shows a mark has its text. -/
theorem text_mark {gap : List Char} {text : String} (h : c.Shows source (.mark gap text :: ls)) : c.text = text :=
  h.1.text.trans String.ofList_toList

/-- An expected mark that is there is passed over. -/
theorem expect {gap : List Char} {text : String} (h : c.Shows source (.mark gap text :: ls)) :
    ∃ c', c.expect text = .ok c' ∧ c'.Shows source ls := by
  obtain ⟨c', hnext, hshows⟩ := h.next
  refine ⟨c', ?_, hshows⟩
  rw [Cursor.expect, if_pos (by simp [h.is]), hnext]

end Cursor.Shows

/-- An expression that stops right before a rest ends at it. -/
theorem Term.EndsAt.of_behind {source : List Char} {t : Term} {rest : List Char} (h : Behind source t.stop rest) :
    t.EndsAt source rest := ⟨0, h⟩

/-- A parenthesis that closes behind an expression does not count. -/
theorem Term.EndsAt.close {source : List Char} {t : Term} {gap : List Char} {ls : List Lexeme} (hgap : gap = [])
    (h : t.EndsAt source (render (.mark gap ")" :: ls))) : t.EndsAt source (render ls) := by
  obtain ⟨k, h⟩ := h
  refine ⟨k + 1, ?_⟩
  rw [List.replicate_succ', List.append_assoc]
  simpa [hgap] using h

/-! ## Operands -/

section Operands

variable (source : List Char) (layout : Layout) (e : Expr)

/-- The reader reads a layout as an operand, and goes on with what stands behind it. If the operand stands in no
parentheses of its own, it ends where the text behind it starts. -/
def ReadsOperand (tight : Bool) : Prop := ∀ ⦃gap ls c n⦄, c.Shows source (layout gap ++ ls) →
  10 * (layout gap ++ ls).length + 10 ≤ n → ∀ env, ∃ t c' m, HasRead source t e c' ls ∧
    (tight = true → Behind source t.stop (render ls)) ∧ 10 * ls.length + 10 ≤ m ∧
    operand n env c = accesses m { env with allowIn := true } true t c'

/-- The reader reads a layout as a whole expression if it stands before a comma, a semicolon or a closing bracket. -/
def ReadsWhole : Prop := ∀ ⦃gap ls c n⦄, c.Shows source (layout gap ++ ls) → 10 * (layout gap ++ ls).length + 14 ≤ n →
  headIs [",", ";", ")", "]"] ls = true → ∀ env, ∃ t c', HasRead source t e c' ls ∧ assignment n env c = .ok (t, c')

end Operands

section

variable {source : List Char} {layout : Layout} {e : Expr} {extra : Info → Nat}

/-- An operand without `new` is an atom with its members, elements and calls. -/
theorem operand_of_primary {c : Cursor} (hnew : c.is "new" = false) {n : Nat} {env : Surroundings} {r : Term × Cursor}
    (h : primary n { env with allowIn := true } c = .ok r) :
    operand (n + 1) env c = accesses n { env with allowIn := true } true r.1 r.2 := by
  rw [operand]
  simp only [hnew, Bool.false_eq_true, if_false, h]
  rfl

/-- A single token is an operand. -/
theorem readsOperand_token {l : List Char → Lexeme} (hkind : ∀ gap, (l gap).kind ≠ .mark) {t : Nat → Term}
    (hspells : ∀ start, (t start).Spells e) (hstop : ∀ gap start, (t start).stop = start + byteLength (l gap).text)
    (hprimary : ∀ gap n env c c', c.kind = (l gap).kind → c.text = String.ofList (l gap).text → c.next = .ok c' →
      primary (n + 1) env c = .ok (t c.start, c')) :
    ReadsOperand source (fun gap => [l gap]) e true := by
  intro gap ls c n hc hn env
  obtain ⟨c', hnext, hshows⟩ := hc.next
  simp only [List.cons_append, List.nil_append, List.length_cons] at hn
  obtain ⟨m, rfl⟩ : ∃ m, n = m + 2 := ⟨n - 2, by omega⟩
  have hbehind : Behind source (t c.start).stop (render ls) := by
    rw [hstop gap]
    exact hc.1.behind
  refine ⟨t c.start, c', m + 1, ⟨hspells c.start, hshows, .of_behind hbehind⟩, fun _ => hbehind, by omega, ?_⟩
  have hnew : c.is "new" = false := by
    rw [hc.is]
    exact headIs_of_kind (hkind gap) _
  exact operand_of_primary hnew (hprimary gap m _ c c' hc.1.kind hc.1.text hnext)

/-- A complete expression is read where a closing mark follows it. -/
theorem ReadsWhole.expression (h : ReadsWhole source layout e) {gap : List Char} {ls : List Lexeme} {c : Cursor} {n : Nat}
    (hc : c.Shows source (layout gap ++ ls)) (hn : 10 * (layout gap ++ ls).length + 15 ≤ n)
    (hls : headIs [";", ")", "]"] ls = true) (env : Surroundings) :
    ∃ t c', HasRead source t e c' ls ∧ expression n env c = .ok (t, c') := by
  obtain ⟨m, rfl⟩ : ∃ m, n = m + 1 := ⟨n - 1, by omega⟩
  obtain ⟨t, c', hread, hassignment⟩ := h hc (n := m) (by omega) (headIs_mono hls (by decide)) env
  refine ⟨t, c', hread, ?_⟩
  have hcomma : c'.is "," = false := by
    rw [hread.shows.is]
    exact headIs_disjoint hls (by decide)
  rw [Source.expression, hassignment]
  simp [hcomma, bind, Except.bind]

/-- An expression in parentheses is an operand. -/
theorem ReadsWhole.enclose (h : ReadsWhole source layout e) :
    ReadsOperand source (fun gap => .mark gap "(" :: (layout [] ++ [.mark [] ")"])) e false := by
  intro gap ls c n hc hn env
  simp only [List.cons_append, List.append_assoc, List.nil_append] at hc hn
  simp only [List.length_cons] at hn
  obtain ⟨m, rfl⟩ : ∃ m, n = m + 2 := ⟨n - 2, by omega⟩
  obtain ⟨next, hnext, hshows⟩ := hc.next
  obtain ⟨t, close, hread, hexpression⟩ := h.expression hshows (n := m) (by omega) (by simp) { env with allowIn := true }
  obtain ⟨after, hexpect, hafter⟩ := hread.shows.expect
  have hlength : ls.length ≤ (layout [] ++ .mark [] ")" :: ls : List Lexeme).length := by
    simp only [List.length_append, List.length_cons]
    omega
  refine ⟨t, after, m + 1, ⟨hread.spells, hafter, hread.ends.close rfl⟩, nofun, by omega, ?_⟩
  refine operand_of_primary (r := (t, after)) (by simp [hc.is]) ?_
  rw [primary]
  simp [hc.kind_mark, hc.text_mark, hnext, hexpression, hexpect, bind, Except.bind]

/-! ## Members, elements and calls -/

/-- A member of an operand is read as an operand. -/
theorem ReadsOperand.member {tight : Bool} (h : ReadsOperand source layout e tight) {property : String}
    (hproperty : IsMember property)
    (i : Info) : ReadsOperand source (fun gap => layout gap ++ .mark [] "." :: Layout.word property [])
      (.member i e property) true := by
  intro gap ls c n hc hn env
  simp only [List.append_assoc, List.cons_append] at hc hn
  obtain ⟨t, point, m, hread, -, hm, hoperand⟩ := h hc hn env
  simp only [Layout.word, List.cons_append, List.nil_append, List.length_cons] at hm
  obtain ⟨m, rfl⟩ : ∃ k, m = k + 1 := ⟨m - 1, by omega⟩
  obtain ⟨word, hword, hshows⟩ := hread.shows.next
  obtain ⟨after, hafter, hrest⟩ := hshows.next
  have htext : word.text = property := hshows.1.text.trans String.ofList_toList
  have hkind : (word.kind != .string) = true := by
    rw [hshows.1.kind]
    exact bne_iff_ne.mpr fun h => absurd (wordKind_mem property) (by rw [show (wordKind property).1 = _ from h]; decide)
  have hbehind : Behind source (Term.dot t word.start property).stop (render ls) := by
    rw [Term.stop, utf8ByteSize_eq]
    exact hshows.1.behind
  refine ⟨.dot t word.start property, after, m, ⟨⟨hread.spells, rfl⟩, hrest, .of_behind hbehind⟩, fun _ => hbehind,
    by omega, ?_⟩
  rw [hoperand, accesses]
  simp [hread.shows.is, hword, htext, hproperty.2, hkind, hafter, bind, Except.bind]

/-- An element of an operand is read as an operand. -/
theorem ReadsOperand.element {tight : Bool} (h : ReadsOperand source layout e tight) {position : Layout} {e' : Expr}
    (h' : ReadsWhole source position e') (i : Info) :
    ReadsOperand source (fun gap => layout gap ++ .mark [] "[" :: (position [] ++ [.mark [] "]"])) (.element i e e') true := by
  intro gap ls c n hc hn env
  simp only [List.append_assoc, List.cons_append, List.nil_append] at hc hn
  obtain ⟨t, bracket, m, hread, -, hm, hoperand⟩ := h hc hn env
  simp only [List.length_cons] at hm
  obtain ⟨m, rfl⟩ : ∃ k, m = k + 1 := ⟨m - 1, by omega⟩
  obtain ⟨next, hnext, hshows⟩ := hread.shows.next
  obtain ⟨index, close, hindex, hexpression⟩ := h'.expression hshows (n := m) (by omega) (by simp)
    { env with allowIn := true }
  obtain ⟨after, hexpect, hafter⟩ := hindex.shows.expect
  have hlength : ls.length + 1 ≤ (position [] ++ .mark [] "]" :: ls : List Lexeme).length := by
    simp only [List.length_append, List.length_cons]
    omega
  have hbehind : Behind source (close.start + 1) (render ls) := hindex.shows.1.behind
  refine ⟨.bracket t index (close.start + 1), after, m, ⟨⟨hread.spells, hindex.spells⟩, hafter, .of_behind hbehind⟩,
    fun _ => hbehind, by omega, ?_⟩
  rw [hoperand, accesses]
  simp [hread.shows.is, hnext, hexpression, hexpect, bind, Except.bind]

/-- What opens an expression is none of the marks that do not. -/
theorem headIs_of_opens {texts : List String} (htexts : ∀ s ∈ ["(", "["], s ∉ texts) {gap : List Char}
    {ls : List Lexeme} (h : Starts Lexeme.Opens gap ls) (more : List Lexeme) : headIs texts (ls ++ more) = false := by
  obtain ⟨l, rest, rfl, -, hl⟩ := h
  simp only [List.cons_append, headIs, Bool.and_eq_false_iff, decide_eq_false_iff_not]
  by_cases hkind : l.kind = .mark
  · refine .inr ?_
    rcases hl.mark hkind with htext | htext
    · rw [htext]
      simpa using htexts "(" (by decide)
    · rw [htext]
      simpa using htexts "[" (by decide)
  · exact .inl hkind

/-- No lexeme that starts an expression is a given mark, if it is no bracket and no sign. -/
theorem headIs_of_starts {texts : List String} (htexts : ∀ s ∈ ["(", "[", "!", "+", "-"], s ∉ texts) {gap : List Char}
    {ls : List Lexeme} (h : Starts e.OpensWith gap ls) (more : List Lexeme) : headIs texts (ls ++ more) = false := by
  obtain ⟨l, rest, rfl, hgap, hl⟩ := h
  have hbrackets : ∀ s ∈ ["(", "["], s ∈ ["(", "[", "!", "+", "-"] := by decide
  have hsigns : ∀ s ∈ subsetUnary, s ∈ ["(", "[", "!", "+", "-"] := by decide
  rcases hl with hl | ⟨-, s, hs, heq⟩
  · exact headIs_of_opens (fun s hs => htexts s (hbrackets s hs)) ⟨l, rest, rfl, hgap, hl⟩ more
  · rw [List.cons_append, heq, headIs_mark]
    simpa using htexts s (hsigns s hs)

/-- Where an expression starts, the source does not end. -/
theorem isEnd_of_starts {gap : List Char} {ls more : List Lexeme} (h : Starts e.OpensWith gap ls) {c : Cursor}
    (hc : c.Shows source (ls ++ more)) : c.isEnd = false := by
  obtain ⟨l, rest, rfl, -, hl⟩ := h
  have hkind : l.kind ≠ .endOfInput := by
    rcases hl with hl | ⟨-, s, -, heq⟩
    · exact hl.not_end
    · rw [heq]
      exact nofun
  simp [Cursor.isEnd, hc.1.kind, hkind]

/-! ## Several expressions -/

/-- How a reader of expressions with commas between them works, up to a mark that closes them. -/
structure ListReader (close : String) (read : Nat → Surroundings → Cursor → Except Mistake (List Term × Cursor)) : Prop
    where
  none : ∀ {n env c}, c.is close = true → read (n + 1) env c = .ok ([], c)
  last : ∀ {n env c t c'}, c.isOneOf [close, ","] = false → c.isEnd = false → assignment (n + 1) env c = .ok (t, c') →
    c'.is close = true → c'.is "," = false → read (n + 2) env c = .ok ([t], c')
  more : ∀ {n env c t c' next r}, c.isOneOf [close, ","] = false → c.isEnd = false → assignment n env c = .ok (t, c') →
    c'.is close = false → c'.is "," = true → c'.next = .ok next → read n env next = .ok r →
    read (n + 1) env c = .ok (t :: r.1, r.2)

/-- A token that is none of two marks is not the one and not the other. -/
theorem isOneOf_pair {c : Cursor} {x y : String} (h : c.isOneOf [x, y] = false) : c.is x = false ∧ c.is y = false := by
  simp only [Cursor.isOneOf, Bool.and_eq_false_iff, decide_eq_false_iff_not] at h
  simp only [Cursor.is, Bool.and_eq_false_iff, decide_eq_false_iff_not]
  rcases h with h | h
  · exact ⟨.inl h, .inl h⟩
  · simp only [List.contains_cons, Bool.or_eq_false_iff, beq_eq_false_iff_ne] at h
    exact ⟨.inr h.1, .inr h.2.1⟩

/-- Arguments are read as lists up to a closing parenthesis. -/
theorem listReader_argumentList : ListReader ")" argumentList where
  none h := by rw [argumentList, if_pos h]
  last h _ ht hclose hcomma := by
    rw [argumentList]
    simp [(isOneOf_pair h).1, ht, hcomma, bind, Except.bind]
  more h _ ht hclose hcomma hnext hr := by
    rw [argumentList]
    simp [(isOneOf_pair h).1, ht, hcomma, hnext, hr, bind, Except.bind]

/-- Items are read as lists up to a closing bracket. -/
theorem listReader_elements : ListReader "]" elements where
  none h := by
    rw [elements, if_pos]
    simp [h]
  last h hend ht hclose hcomma := by
    rw [elements]
    simp [(isOneOf_pair h).1, (isOneOf_pair h).2, hend, ht, hclose, elements, bind, Except.bind]
  more h hend ht hclose hcomma hnext hr := by
    rw [elements]
    simp [(isOneOf_pair h).1, (isOneOf_pair h).2, hend, ht, hclose, Cursor.expect, hcomma, hnext, hr, bind, Except.bind]

/-- Expressions with commas between them are read up to what closes them. -/
theorem ListReader.reads {close : String} {read : Nat → Surroundings → Cursor → Except Mistake (List Term × Cursor)}
    (hreader : ListReader close read) (hclose : close ∈ [")", "]"]) {es : List Expr} (hread : Expr.AllRead es)
    (h : ∀ e ∈ es, ReadsWhole source (e.whole extra) e) {gap : List Char} {ls : List Lexeme} {c : Cursor} {n : Nat}
    (hc : c.Shows source (Layout.commas (es.map (Expr.whole extra)) gap ++ .mark [] close :: ls))
    (hn : 10 * (Layout.commas (es.map (Expr.whole extra)) gap ++ .mark [] close :: ls).length + 15 ≤ n) (env : Surroundings) :
    ∃ ts c', Term.AllSpell ts es ∧ c'.Shows source (.mark [] close :: ls) ∧ read n env c = .ok (ts, c') := by
  have hends : headIs [",", ";", ")", "]"] (.mark [] close :: ls) = true := by
    rw [headIs_mark]
    simp only [List.mem_cons, List.not_mem_nil, or_false] at hclose
    rcases hclose with rfl | rfl <;> rfl
  have hcomma : close ≠ "," := by
    rintro rfl
    simp at hclose
  -- What stands in front of the first expression is generalized: behind a comma it is a blank.
  induction es generalizing gap c n with
  | nil =>
    obtain ⟨m, rfl⟩ : ∃ m, n = m + 1 := ⟨n - 1, by omega⟩
    exact ⟨[], c, trivial, hc, hreader.none ((hc.is close).trans (by simp [Layout.commas]))⟩
  | cons e es ih =>
    have hfirst : Starts e.OpensWith gap (e.whole extra gap) := Expr.whole_starts hread.1 gap
    have hstarts := Layout.commas_starts hfirst es
    have hopen : c.isOneOf [close, ","] = false := by
      rw [hc.isOneOf]
      refine headIs_of_starts ?_ hstarts _
      intro s hs hmem
      simp only [List.mem_cons, List.not_mem_nil, or_false] at hclose hs hmem
      rcases hclose with rfl | rfl <;> rcases hs with rfl | rfl | rfl | rfl | rfl <;> simp at hmem
    have hend : c.isEnd = false := isEnd_of_starts hstarts hc
    cases es with
    | nil =>
      obtain ⟨m, rfl⟩ : ∃ m, n = m + 2 := ⟨n - 2, by omega⟩
      simp only [List.map_cons, List.map_nil, Layout.commas] at hc hn
      obtain ⟨t, c', ht, hassignment⟩ := h e List.mem_cons_self hc (n := m + 1) (by omega) hends env
      refine ⟨[t], c', ⟨ht.spells, trivial⟩, ht.shows, hreader.last hopen hend hassignment ?_ ?_⟩
      · simp [ht.shows.is]
      · simp [ht.shows.is, hcomma]
    | cons e' es =>
      obtain ⟨m, rfl⟩ : ∃ m, n = m + 1 := ⟨n - 1, by omega⟩
      have hlength := hfirst.length_pos
      simp only [List.map_cons, Layout.commas, List.append_assoc, List.cons_append] at hc hn ih
      obtain ⟨t, comma, ht, hassignment⟩ := h e List.mem_cons_self hc (n := m) (by omega) (by simp) env
      obtain ⟨next, hnext, hshows⟩ := ht.shows.next
      rw [List.length_append, List.length_cons] at hn
      obtain ⟨ts, c', hts, hc', hlist⟩ := ih hread.2 (fun e' he' => h e' (List.mem_cons_of_mem e he')) hshows (n := m)
        (by omega)
      refine ⟨t :: ts, c', ⟨ht.spells, hts⟩, hc', hreader.more hopen hend hassignment ?_ ?_ hnext hlist⟩
      · simp [ht.shows.is, hcomma.symm]
      · simp [ht.shows.is]

/-- A call of an operand is read as an operand. -/
theorem ReadsOperand.call {tight : Bool} (h : ReadsOperand source layout e tight) {arguments : List Expr}
    (hread : Expr.AllRead arguments)
    (h' : ∀ e' ∈ arguments, ReadsWhole source (e'.whole extra) e') (i : Info) :
    ReadsOperand source (fun gap => layout gap ++
      .mark [] "(" :: (Layout.commas (arguments.map (Expr.whole extra)) [] ++ [.mark [] ")"])) (.call i e arguments) true := by
  intro gap ls c n hc hn env
  simp only [List.append_assoc, List.cons_append, List.nil_append] at hc hn
  obtain ⟨t, bracket, m, ht, -, hm, hoperand⟩ := h hc hn env
  simp only [List.length_cons] at hm
  obtain ⟨m, rfl⟩ : ∃ k, m = k + 2 := ⟨m - 2, by omega⟩
  obtain ⟨next, hnext, hshows⟩ := ht.shows.expect
  obtain ⟨ts, close, hts, hclose, hlist⟩ := listReader_argumentList.reads (by decide) hread h' hshows
    (n := m) (by omega) { env with allowIn := true }
  obtain ⟨after, hexpect, hafter⟩ := hclose.expect
  have hlength : ls.length + 1 ≤
      (Layout.commas (arguments.map (Expr.whole extra)) [] ++ .mark [] ")" :: ls : List Lexeme).length := by
    simp only [List.length_append, List.length_cons]
    omega
  have hbehind : Behind source (close.start + 1) (render ls) := hclose.1.behind
  refine ⟨.call t ts (close.start + 1), after, m + 1, ⟨⟨ht.spells, hts⟩, hafter, .of_behind hbehind⟩, fun _ => hbehind,
    by omega, ?_⟩
  rw [hoperand, accesses, Source.arguments]
  simp [ht.shows.is, hnext, hlist, hexpect, bind, Except.bind]

/-- An array is read as an operand. -/
theorem readsOperand_array {items : List Expr} (hread : Expr.AllRead items)
    (h : ∀ e ∈ items, ReadsWhole source (e.whole extra) e) (i : Info) :
    ReadsOperand source (fun gap => .mark gap "[" :: (Layout.commas (items.map (Expr.whole extra)) [] ++ [.mark [] "]"]))
      (.array i items) true := by
  intro gap ls c n hc hn env
  simp only [List.append_assoc, List.cons_append, List.nil_append, List.length_cons] at hc hn
  obtain ⟨m, rfl⟩ : ∃ m, n = m + 2 := ⟨n - 2, by omega⟩
  obtain ⟨next, hnext, hshows⟩ := hc.next
  obtain ⟨ts, close, hts, hclose, hlist⟩ := listReader_elements.reads (by decide) hread h hshows (n := m)
    (by omega) { env with allowIn := true }
  obtain ⟨after, hexpect, hafter⟩ := hclose.expect
  have hlength : ls.length + 1 ≤
      (Layout.commas (items.map (Expr.whole extra)) [] ++ .mark [] "]" :: ls : List Lexeme).length := by
    simp only [List.length_append, List.length_cons]
    omega
  have hbehind : Behind source (close.start + 1) (render ls) := hclose.1.behind
  refine ⟨.array c.start ts (close.start + 1), after, m + 1, ⟨hts, hafter, .of_behind hbehind⟩, fun _ => hbehind,
    by omega, ?_⟩
  refine operand_of_primary (r := (.array c.start ts (close.start + 1), after)) (by simp [hc.is]) ?_
  rw [primary]
  simp [hc.kind_mark, hc.text_mark, hnext, hlist, hexpect, bind, Except.bind]

end

/-! ## Operators -/

/-- The marks that stand behind a printed expression that is not an object, an array or a callee. -/
def followers : List String := [",", ";", ")", "]"] ++ spacedMarks

section Operators

variable (source : List Char) (layout : Layout) (e : Expr)

/-- The reader reads a layout with its signs, in front of all but its own members, elements and arguments. -/
def ReadsUnary : Prop := ∀ ⦃gap ls c n⦄, c.Shows source (layout gap ++ ls) → 10 * (layout gap ++ ls).length + 11 ≤ n →
  headIs followers ls = true → ∀ env, ∃ t c', HasRead source t e c' ls ∧ unary n env c = .ok (t, c')

/-- The level at which the reader reads an operator of some strength. -/
def readingLevel (strength : Nat) : Nat :=
  match strength with
  | 0 => 0
  | 1 => 1
  | 2 => 2
  | 3 => 6
  | 4 => relationalLevel
  | 5 => 9
  | 6 => 10
  | _ => 11

/-- The strength of the operator that stands first, if one does. -/
def headStrength : List Lexeme → Nat
  | [] => 0
  | l :: _ => if l.kind = .mark then operatorStrength (String.ofList l.text) else 0

/-- The reader reads a layout as the left operand of what stands behind it, at all levels up to that of a strength and
in front of all operators up to some strength. -/
def ReadsBinary (strength tolerance : Nat) : Prop := ∀ ⦃gap ls c n level⦄, c.Shows source (layout gap ++ ls) →
  10 * (layout gap ++ ls).length + 12 ≤ n → headIs followers ls = true → headStrength ls ≤ tolerance →
  level ≤ readingLevel strength → ∀ env, ∃ t c' m, HasRead source t e c' ls ∧ 10 * ls.length + 12 ≤ m ∧
    binary n env level c = binaryTail m env level t c'

end Operators

/-- A mark in front has the strength of its operator. -/
@[simp]
theorem headStrength_mark (gap : List Char) (text : String) (ls : List Lexeme) :
    headStrength (.mark gap text :: ls) = operatorStrength text := by
  simp [headStrength, Lexeme.mark]

/-- A closing mark in front has no strength. -/
theorem headStrength_of_closer {ls : List Lexeme} (h : headIs [",", ";", ")", "]"] ls = true) : headStrength ls = 0 := by
  have hall : ∀ s ∈ [",", ";", ")", "]"], operatorStrength s = 0 := by decide +kernel
  cases ls with
  | nil => cases h
  | cons l ls =>
    simp only [headIs, Bool.and_eq_true] at h
    rw [headStrength, hall _ (List.contains_iff_mem.mp h.2), ite_self]

/-- Every operator of the subset has a strength. -/
theorem operatorStrength_pos : ∀ s ∈ subsetBinary, 0 < operatorStrength s := by decide +kernel

/-- A larger strength is read at no lower level. -/
theorem readingLevel_mono {a b : Nat} (h : a ≤ b) (hb : b ≤ memberStrength) : readingLevel a ≤ readingLevel b := by
  have hall : ∀ b ≤ memberStrength, ∀ a ≤ b, readingLevel a ≤ readingLevel b := by decide
  exact hall b hb a h

/-- A strictly larger strength is read at a higher level. -/
theorem readingLevel_lt {a b : Nat} (h : a < b) (ha : a < unaryStrength) (hb : b ≤ memberStrength) :
    readingLevel a < readingLevel b := by
  have hall : ∀ b ≤ memberStrength, ∀ a < b, a < unaryStrength → readingLevel a < readingLevel b := by decide
  exact hall b hb a h ha

/-- The level of the mark that a cursor shows. -/
theorem binaryLevel?_follower {source : List Char} {c : Cursor} {ls : List Lexeme} (hc : c.Shows source ls)
    (hls : headIs followers ls = true) (allowIn : Bool) :
    (if c.kind = .mark then binaryLevel? allowIn c.text else none) =
      if headStrength ls = 0 then none else some (readingLevel (headStrength ls)) := by
  have hall : ∀ s ∈ followers, ∀ allowIn, binaryLevel? allowIn s =
      if operatorStrength s = 0 then none else some (readingLevel (operatorStrength s)) := by decide +kernel
  cases ls with
  | nil => cases hls
  | cons l ls =>
    simp only [headIs, Bool.and_eq_true, decide_eq_true_eq] at hls
    rw [headStrength, if_pos hls.1, if_pos (hc.1.kind.trans hls.1), hc.1.text]
    exact hall _ (List.contains_iff_mem.mp hls.2) allowIn

/-- Operators of a lower level are left to those who read further out. -/
theorem binaryTail_stop {source : List Char} {c : Cursor} {ls : List Lexeme} (hc : c.Shows source ls)
    (hls : headIs followers ls = true) {level : Nat} (hlevel : readingLevel (headStrength ls) < level) {n : Nat}
    (hn : 0 < n) (env : Surroundings) (t : Term) : binaryTail n env level t c = .ok (t, c) := by
  obtain ⟨m, rfl⟩ : ∃ m, n = m + 1 := ⟨n - 1, by omega⟩
  rw [binaryTail, binaryLevel?_follower hc hls]
  by_cases hstrength : headStrength ls = 0
  · rw [if_pos hstrength]
  · rw [if_neg hstrength]
    exact if_pos hlevel

section

variable {source : List Char} {layout : Layout} {e : Expr}

/-- No access is read where none of its marks is in front. -/
theorem accesses_stop {c : Cursor} {ls : List Lexeme} (hc : c.Shows source ls) (hls : headIs [".", "[", "("] ls = false)
    {n : Nat} (hn : 0 < n) (env : Surroundings) (t : Term) : accesses n env true t c = .ok (t, c) := by
  obtain ⟨m, rfl⟩ : ∃ m, n = m + 1 := ⟨n - 1, by omega⟩
  have hmarks (s : String) (hs : s ∈ [".", "[", "("]) : c.is s = false := by
    rw [hc.is]
    exact Bool.eq_false_iff.mpr fun h => by rw [headIs_mono h (by simpa using hs)] at hls; cases hls
  rw [accesses]
  simp [hmarks "." (by decide), hmarks "[" (by decide), hmarks "(" (by decide)]

/-- An operand is read where a signed one is expected. -/
theorem ReadsOperand.unary {tight : Bool} (h : ReadsOperand source layout e tight)
    (hstarts : ∀ gap, Starts Lexeme.Opens gap (layout gap)) : ReadsUnary source layout e := by
  intro gap ls c n hc hn hls env
  obtain ⟨m, rfl⟩ : ∃ m, n = m + 1 := ⟨n - 1, by omega⟩
  obtain ⟨t, c', k, ht, -, hk, hoperand⟩ := h hc (n := m) (by omega) env
  have hopen (texts : List String) (htexts : ∀ s ∈ ["(", "["], s ∉ texts) : headIs texts (layout gap ++ ls) = false :=
    headIs_of_opens htexts (hstarts gap) ls
  have hsigns : c.isOneOf unaryOperators = false := (hc.isOneOf _).trans (hopen _ (by decide))
  have hbumps : c.is "++" = false ∧ c.is "--" = false :=
    ⟨(hc.is _).trans (hopen _ (by decide)), (hc.is _).trans (hopen _ (by decide))⟩
  have hnone : c'.is "++" = false ∧ c'.is "--" = false :=
    ⟨(ht.shows.is _).trans (headIs_disjoint hls (by decide)), (ht.shows.is _).trans (headIs_disjoint hls (by decide))⟩
  refine ⟨t, c', ht, ?_⟩
  rw [Source.unary, hsigns, hbumps.1, hbumps.2, hoperand,
    accesses_stop ht.shows (headIs_disjoint hls (by decide)) (by omega)]
  simp [hnone.1, hnone.2, bind, Except.bind]

/-- A sign and its operand. -/
theorem ReadsUnary.sign (h : ReadsUnary source layout e) {symbol : String} (hsymbol : symbol ∈ subsetUnary) (i : Info) :
    ReadsUnary source (fun gap => .mark gap symbol :: layout []) (.unary i symbol e) := by
  intro gap ls c n hc hn hls env
  rw [List.cons_append] at hc hn
  rw [List.length_cons] at hn
  obtain ⟨m, rfl⟩ : ∃ m, n = m + 1 := ⟨n - 1, by omega⟩
  obtain ⟨next, hnext, hshows⟩ := hc.next
  obtain ⟨t, c', ht, hunary⟩ := h hshows (n := m) (by omega) hls env
  have hsigns : ∀ s ∈ subsetUnary, s ∈ unaryOperators := by decide
  refine ⟨.unary c.start symbol t, c', ⟨⟨rfl, ht.spells⟩, ht.shows, ht.ends⟩, ?_⟩
  rw [Source.unary, if_pos]
  · simp [hnext, hunary, hc.text_mark, bind, Except.bind]
  · simpa [hc.isOneOf] using hsigns symbol hsymbol

/-- A signed operand is read at every level of operators. -/
theorem ReadsUnary.binary (h : ReadsUnary source layout e) (hlength : ∀ gap, 0 < (layout gap).length)
    (strength tolerance : Nat) : ReadsBinary source layout e strength tolerance := by
  intro gap ls c n level hc hn hls _ _ env
  obtain ⟨m, rfl⟩ : ∃ m, n = m + 1 := ⟨n - 1, by omega⟩
  obtain ⟨t, c', ht, hunary⟩ := h hc (n := m) (by omega) hls env
  have hpos := hlength gap
  rw [List.length_append] at hn
  refine ⟨t, c', m, ht, by omega, ?_⟩
  rw [Source.binary, hunary]
  rfl

/-- The right operand of an operator is read up to what the operator leaves to others. -/
theorem ReadsBinary.right {strength tolerance : Nat} (h : ReadsBinary source layout e strength tolerance) {symbol : String}
    (hsymbol : symbol ∈ subsetBinary) (hstrength : operatorStrength symbol < strength) (hmember : strength ≤ memberStrength)
    (htolerance : toleranceOf symbol ≤ tolerance) {gap : List Char} {ls : List Lexeme} {c : Cursor} {n : Nat}
    (hc : c.Shows source (layout gap ++ ls)) (hn : 10 * (layout gap ++ ls).length + 12 ≤ n)
    (hls : headIs followers ls = true) (hhead : headStrength ls ≤ toleranceOf symbol) (env : Surroundings) :
    ∃ t c', HasRead source t e c' ls ∧
      (if readingLevel (operatorStrength symbol) = relationalLevel then
        binary n { env with allowIn := true } (readingLevel (operatorStrength symbol)) c
      else binary n env (readingLevel (operatorStrength symbol) + 1) c) = .ok (t, c') := by
  have hall : ∀ s ∈ subsetBinary, operatorStrength s < unaryStrength ∧ toleranceOf s ≤ memberStrength ∧
      (readingLevel (operatorStrength s) = relationalLevel ↔ isRelational s = true) ∧
      readingLevel (toleranceOf s) < readingLevel (operatorStrength s) + 1 ∧
      (isRelational s = true → readingLevel (toleranceOf s) < readingLevel (operatorStrength s)) := by decide +kernel
  obtain ⟨hunary, hbound, hrelational, hlow, hlower⟩ := hall symbol hsymbol
  have hlevel := readingLevel_lt hstrength hunary hmember
  have hheadLevel : readingLevel (headStrength ls) ≤ readingLevel (toleranceOf symbol) :=
    readingLevel_mono hhead hbound
  by_cases hsplit : readingLevel (operatorStrength symbol) = relationalLevel
  · obtain ⟨t, c', m, ht, hm, hbinary⟩ := h hc hn hls (Nat.le_trans hhead htolerance) (Nat.le_of_lt hlevel)
      { env with allowIn := true }
    refine ⟨t, c', ht, ?_⟩
    rw [if_pos hsplit, hbinary]
    exact binaryTail_stop ht.shows hls (Nat.lt_of_le_of_lt hheadLevel (hlower (hrelational.mp hsplit))) (by omega) _ t
  · obtain ⟨t, c', m, ht, hm, hbinary⟩ := h hc hn hls (Nat.le_trans hhead htolerance) hlevel env
    refine ⟨t, c', ht, ?_⟩
    rw [if_neg hsplit, hbinary]
    exact binaryTail_stop ht.shows hls (Nat.lt_of_le_of_lt hheadLevel hlow) (by omega) _ t

/-- An operator between two operands. -/
theorem ReadsBinary.operator {left : Layout} {l r : Expr} {right : Layout} {s s' t t' : Nat}
    (hleft : ReadsBinary source left l s t) (hright : ReadsBinary source right r s' t') {symbol : String}
    (hsymbol : symbol ∈ subsetBinary) (hs : operatorStrength symbol ≤ s) (hmember : s ≤ memberStrength)
    (ht : operatorStrength symbol ≤ t) (hs' : operatorStrength symbol < s') (hmember' : s' ≤ memberStrength)
    (ht' : toleranceOf symbol ≤ t') (i : Info) :
    ReadsBinary source (fun gap => left gap ++ .mark [' '] symbol :: right [' ']) (.binary i l symbol r)
      (operatorStrength symbol) (toleranceOf symbol) := by
  intro gap ls c n level hc hn hls hhead hlevel env
  simp only [List.append_assoc, List.cons_append] at hc hn
  have hfollows : headIs followers (.mark [' '] symbol :: (right [' '] ++ ls)) = true := by
    have hall : ∀ s ∈ subsetBinary, followers.contains s = true := by decide +kernel
    rw [headIs_mark]
    exact hall symbol hsymbol
  obtain ⟨tl, c₁, m, htl, hm, hbinary⟩ := hleft hc hn hfollows (by simpa using ht)
    (Nat.le_trans hlevel (readingLevel_mono hs hmember)) env
  rw [List.length_cons] at hm
  obtain ⟨m, rfl⟩ : ∃ k, m = k + 1 := ⟨m - 1, by omega⟩
  obtain ⟨next, hnext, hshows⟩ := htl.shows.next
  obtain ⟨tr, c₂, htr, hrightRead⟩ := hright.right hsymbol hs' hmember' ht' hshows (n := m) (by omega) hls hhead env
  have hlength : ls.length ≤ (right [' '] ++ ls).length := by
    rw [List.length_append]
    omega
  refine ⟨.binary tl symbol tr, c₂, m, ⟨⟨rfl, htl.spells, htr.spells⟩, htr.shows, htr.ends⟩, by omega, ?_⟩
  rw [hbinary, binaryTail, binaryLevel?_follower htl.shows hfollows, headStrength_mark,
    if_neg (Nat.ne_of_gt (operatorStrength_pos symbol hsymbol))]
  simp only [if_neg (Nat.not_lt.mpr hlevel), hnext, htl.shows.text_mark]
  split at hrightRead
  case isTrue hsplit => simp only [if_pos hsplit, hrightRead, bind, Except.bind]
  case isFalse hsplit => simp only [if_neg hsplit, hrightRead, bind, Except.bind]

/-- An expression is read as a whole up to what is no operator between two operands. -/
theorem ReadsBinary.conditional {strength tolerance : Nat} (h : ReadsBinary source layout e strength tolerance)
    (hstrength : 0 < strength) (hmember : strength ≤ memberStrength) {gap : List Char} {ls : List Lexeme} {c : Cursor}
    {n : Nat} (hc : c.Shows source (layout gap ++ ls)) (hn : 10 * (layout gap ++ ls).length + 13 ≤ n)
    (hls : headIs followers ls = true) (hhead : headStrength ls = 0) (env : Surroundings) :
    ∃ t c', HasRead source t e c' ls ∧ Source.conditional n env c = .ok (t, c') := by
  obtain ⟨m, rfl⟩ : ∃ m, n = m + 1 := ⟨n - 1, by omega⟩
  have hlevel : 1 ≤ readingLevel strength := readingLevel_lt hstrength (by decide) hmember
  obtain ⟨t, c', k, ht, hk, hbinary⟩ := h hc (n := m) (by omega) hls (by omega) hlevel env
  have hquestion : c'.is "?" = false := (ht.shows.is _).trans (headIs_disjoint hls (by decide))
  refine ⟨t, c', ht, ?_⟩
  rw [Source.conditional, hbinary, binaryTail_stop ht.shows hls (by simp [hhead, readingLevel]) (by omega)]
  simp [hquestion, bind, Except.bind]

/-- What is read at a level of operators is read as a complete expression. -/
theorem ReadsBinary.whole {strength tolerance : Nat} (h : ReadsBinary source layout e strength tolerance)
    (hstrength : 0 < strength) (hmember : strength ≤ memberStrength) : ReadsWhole source layout e := by
  intro gap ls c n hc hn hls env
  obtain ⟨m, rfl⟩ : ∃ m, n = m + 1 := ⟨n - 1, by omega⟩
  obtain ⟨t, c', ht, hconditional⟩ := h.conditional hstrength hmember hc (n := m) (by omega)
    (headIs_mono hls (by decide)) (headStrength_of_closer hls) env
  have hassign : c'.isOneOf assignOperators = false := (ht.shows.isOneOf _).trans (headIs_disjoint hls (by decide))
  refine ⟨t, c', ht, ?_⟩
  rw [Source.assignment, hconditional]
  simp [hassign, bind, Except.bind]

end

/-! ## Every printed expression is read -/

/-- The reader reads an expression, in front of what may stand behind it. -/
structure Readable (source : List Char) (extra : Info → Nat) (e : Expr) : Prop where
  operand : e.strength = memberStrength → ReadsOperand source (e.layout extra) e true
  unary : unaryStrength ≤ e.strength → ReadsUnary source (e.layout extra) e
  binary : ReadsBinary source (e.layout extra) e e.strength e.tolerance

section Readable

variable {source : List Char} {extra : Info → Nat} {e : Expr} (hread : e.IsRead)

include hread

/-- A signed operand is readable at every level. -/
theorem Readable.of_unary (h : ReadsUnary source (e.layout extra) e) (hoperand : e.strength = memberStrength →
    ReadsOperand source (e.layout extra) e true) : Readable source extra e where
  operand := hoperand
  unary _ := h
  binary := h.binary (fun gap => (Expr.layout_starts gap hread).length_pos) _ _

/-- An operand is readable at every level. -/
theorem Readable.of_operand (h : ReadsOperand source (e.layout extra) e true) (hstrength : e.strength = memberStrength) :
    Readable source extra e :=
  .of_unary hread (h.unary (Expr.layout_opens hread hstrength)) fun _ => h

/-- Every expression has a strength. -/
theorem strength_pos : 0 < e.strength := by
  cases e with
  | binary _ _ symbol _ => exact operatorStrength_pos symbol hread.1
  | unary => exact show 0 < unaryStrength by decide
  | _ => exact show 0 < memberStrength by decide

omit hread in
/-- An expression in parentheses starts with one. -/
theorem enclosed_starts (n : Nat) (gap : List Char) :
    Starts Lexeme.Opens gap (Layout.enclose (n + 1) (e.layout extra) gap) :=
  ⟨_, _, rfl, rfl, Lexeme.opens_bracket (by decide)⟩

variable (h : Readable source extra e)

include h

/-- A readable expression is read in any number of parentheses. -/
theorem Readable.wholeIn (n : Nat) : ReadsWhole source (Layout.enclose n (e.layout extra)) e := by
  induction n with
  | zero => exact h.binary.whole (strength_pos hread) e.strength_le
  | succ n ih =>
    have hunary : ReadsUnary source (Layout.enclose (n + 1) (e.layout extra)) e := ih.enclose.unary (enclosed_starts n)
    exact (hunary.binary (fun gap => (enclosed_starts n gap).length_pos) memberStrength memberStrength).whole (by decide)
      (by decide)

/-- In parentheses, an expression is read in front of what is read with an operand. -/
theorem Readable.operandIn (n : Nat) : ReadsOperand source (Layout.enclose (n + 1) (e.layout extra)) e false :=
  (h.wholeIn hread n).enclose

/-- A readable expression is read as a complete one. -/
theorem Readable.whole : ReadsWhole source (e.whole extra) e := h.wholeIn hread _

/-- With the parentheses it needs, a readable expression is read as an operand. -/
theorem Readable.enclose : ∃ tight, ReadsOperand source
    (Layout.enclose (e.pairs extra (e.strength < memberStrength)) (e.layout extra)) e tight := by
  generalize hpairs : e.pairs extra _ = pairs
  cases pairs with
  | zero => exact ⟨true, h.operand (Expr.strength_eq (Expr.not_needed hpairs))⟩
  | succ n => exact ⟨false, h.operandIn hread n⟩

/-- With the parentheses it needs, a readable expression is read behind a sign. -/
theorem Readable.encloseUnary : ReadsUnary source
    (Layout.enclose (e.pairs extra (e.strength < unaryStrength)) (e.layout extra)) e := by
  generalize hpairs : e.pairs extra _ = pairs
  cases pairs with
  | zero => exact h.unary (by simpa using Expr.not_needed hpairs)
  | succ n => exact (h.operandIn hread n).unary (enclosed_starts n)

/-- In parentheses, an expression is read in front of any operator. -/
theorem Readable.encloseBinary (pairs : Nat) : ReadsBinary source (Layout.enclose pairs (e.layout extra)) e
    (e.strengthIn pairs) (e.toleranceIn pairs) := by
  cases pairs with
  | zero => exact h.binary
  | succ n =>
    exact ((h.operandIn hread n).unary (enclosed_starts n)).binary (fun gap => (enclosed_starts n gap).length_pos) _ _

end Readable

/-! Single tokens -/

/-- A number is read as an operand. -/
theorem readsOperand_number (source : List Char) (extra : Info → Nat) {literal : String} {value : Float}
    (h : value = numberValue literal) (i : Info) :
    ReadsOperand source ((Expr.number i value literal).layout extra) (.number i value literal) true := by
  refine readsOperand_token (l := fun gap => ⟨gap, .number, literal.toList⟩)
    (t := fun start => .number start literal (numberValue literal)) (fun _ => nofun) (fun _ => ⟨rfl, h.symm⟩) ?_ ?_
  · intro _ start
    rw [Term.stop, utf8ByteSize_eq]
  · intro gap n env c c' hkind htext hnext
    rw [String.ofList_toList] at htext
    rw [primary, hkind]
    simp [htext, hnext, bind, Except.bind]

/-- A text is read as an operand. -/
theorem readsOperand_string (source : List Char) (extra : Info → Nat) {literal value : String}
    (h : stringValue literal = .ok value) (i : Info) :
    ReadsOperand source ((Expr.string i value literal).layout extra) (.string i value literal) true := by
  refine readsOperand_token (l := fun gap => ⟨gap, .string, literal.toList⟩)
    (t := fun start => .string start literal value) (fun _ => nofun) (fun _ => ⟨rfl, rfl⟩) ?_ ?_
  · intro _ start
    rw [Term.stop, utf8ByteSize_eq]
  · intro gap n env c c' hkind htext hnext
    rw [String.ofList_toList] at htext
    rw [primary, hkind]
    simp [htext, hnext, h, bind, Except.bind]

/-- A name is read as an operand. -/
theorem readsOperand_name (source : List Char) (extra : Info → Nat) {text : String} (h : IsIdentifier text) (i : Info) :
    ReadsOperand source ((Expr.name i text).layout extra) (.name i text) true := by
  have hkind (gap : List Char) : (Lexeme.word gap text).kind = .identifier := h.2
  refine readsOperand_token (l := fun gap => .word gap text) (t := fun start => .name start text) ?_ (fun _ => rfl) ?_ ?_
  · intro gap
    rw [hkind]
    exact nofun
  · intro _ start
    rw [Term.stop, utf8ByteSize_eq]
    rfl
  · intro gap n env c c' hc htext hnext
    have htext : c.text = text := htext.trans String.ofList_toList
    rw [primary, hc, hkind]
    simp [htext, hnext, bind, Except.bind]

/-- A truth value is read as an operand. -/
theorem readsOperand_boolean (source : List Char) (extra : Info → Nat) (value : Bool) (i : Info) :
    ReadsOperand source ((Expr.boolean i value).layout extra) (.boolean i value) true := by
  have hkind (gap : List Char) : (Lexeme.word gap (if value then "true" else "false")).kind = .boolean := by
    cases value <;> rfl
  refine readsOperand_token (l := fun gap => .word gap (if value then "true" else "false"))
    (t := fun start => .boolean start value) ?_ (fun _ => rfl) ?_ ?_
  · intro gap
    rw [hkind]
    exact nofun
  · intro _ start
    cases value <;> rfl
  · intro gap n env c c' hc htext hnext
    have htext : c.text = if value then "true" else "false" := htext.trans String.ofList_toList
    rw [primary, hc, hkind]
    cases value <;> simp [htext, hnext, bind, Except.bind]

/-- The missing value is read as an operand. -/
theorem readsOperand_null (source : List Char) (extra : Info → Nat) (i : Info) :
    ReadsOperand source ((Expr.null i).layout extra) (.null i) true := by
  have hkind (gap : List Char) : (Lexeme.word gap "null").kind = .null := rfl
  refine readsOperand_token (l := fun gap => .word gap "null") (t := Term.null) (fun _ => nofun) (fun _ => trivial)
    (fun _ _ => rfl) ?_
  intro gap n env c c' hc _ hnext
  rw [primary, hc, hkind]
  simp [hnext, bind, Except.bind]

/-! Parentheses stand where the strengths of the operands call for them -/

/-- A left operand that needs no parentheses is strong enough for its operator. -/
theorem leftOperand_fits {symbol : String} (hsymbol : symbol ∈ subsetBinary) {e : Expr} (hread : e.IsRead)
    (hclear : (isRelational symbol && e.isRelation) = false) {pairs : Nat}
    (hpairs : pairs = 0 → operatorStrength symbol ≤ e.strength) :
    operatorStrength symbol ≤ e.strengthIn pairs ∧ e.strengthIn pairs ≤ memberStrength ∧
      operatorStrength symbol ≤ e.toleranceIn pairs := by
  have hlow : operatorStrength symbol ≤ memberStrength :=
    Nat.le_of_lt (Nat.lt_trans (operatorStrength_lt symbol) (by decide))
  unfold Expr.strengthIn Expr.toleranceIn
  split
  case isFalse => exact ⟨hlow, Nat.le_refl _, hlow⟩
  case isTrue hnone =>
    have hstrength := hpairs hnone
    refine ⟨hstrength, e.strength_le, ?_⟩
    cases e with
    | binary _ _ symbol' _ =>
      have hall : ∀ s ∈ subsetBinary, ∀ s' ∈ subsetBinary, (isRelational s && isRelational s') = false →
          operatorStrength s ≤ operatorStrength s' → operatorStrength s ≤ toleranceOf s' := by decide +kernel
      exact hall symbol hsymbol symbol' hread.1 hclear hstrength
    | _ => exact hlow

/-- A right operand that needs no parentheses is stronger than its operator. -/
theorem rightOperand_fits {symbol : String} (hsymbol : symbol ∈ subsetBinary) {e : Expr} (hread : e.IsRead) {pairs : Nat}
    (hpairs : pairs = 0 → operatorStrength symbol < e.strength) :
    operatorStrength symbol < e.strengthIn pairs ∧ e.strengthIn pairs ≤ memberStrength ∧
      toleranceOf symbol ≤ e.toleranceIn pairs := by
  have hlow : ∀ s ∈ subsetBinary, operatorStrength s < memberStrength ∧ toleranceOf s ≤ memberStrength := by decide +kernel
  unfold Expr.strengthIn Expr.toleranceIn
  split
  case isFalse => exact ⟨(hlow symbol hsymbol).1, Nat.le_refl _, (hlow symbol hsymbol).2⟩
  case isTrue hnone =>
    have hstrength := hpairs hnone
    refine ⟨hstrength, e.strength_le, ?_⟩
    cases e with
    | binary _ _ symbol' _ =>
      have hall : ∀ s ∈ subsetBinary, ∀ s' ∈ subsetBinary, operatorStrength s < operatorStrength s' →
          toleranceOf s ≤ toleranceOf s' := by decide +kernel
      exact hall symbol hsymbol symbol' hread.1 hstrength
    | _ => exact (hlow symbol hsymbol).2

mutual

/-- Everything that was read and is printed clearly is read again. -/
theorem readable (source : List Char) (extra : Info → Nat) : ∀ {e : Expr}, e.IsRead → e.isClear = true →
    Readable source extra e
  | .number i _ _, h, _ => .of_operand h (readsOperand_number source extra h.2 i) rfl
  | .string i _ _, h, _ => .of_operand h (readsOperand_string source extra h.2 i) rfl
  | .boolean i value, h, _ => .of_operand h (readsOperand_boolean source extra value i) rfl
  | .null i, h, _ => .of_operand h (readsOperand_null source extra i) rfl
  | .name i _, h, _ => .of_operand h (readsOperand_name source extra h i) rfl
  | .member i object property, h, hclear => by
    simp only [Expr.isClear, Bool.and_eq_true] at hclear
    obtain ⟨_, hobject⟩ := (readable source extra h.1 hclear.2).enclose h.1
    exact .of_operand h (hobject.member h.2 i) rfl
  | .element i base position, h, hclear => by
    simp only [Expr.isClear, Bool.and_eq_true] at hclear
    obtain ⟨_, hbase⟩ := (readable source extra h.1 hclear.1).enclose h.1
    exact .of_operand h (hbase.element ((readable source extra h.2 hclear.2).whole h.2) i) rfl
  | .call i callee arguments, h, hclear => by
    simp only [Expr.isClear, Bool.and_eq_true] at hclear
    obtain ⟨_, hcallee⟩ := (readable source extra h.1 hclear.1).enclose h.1
    refine .of_operand h ?_ rfl
    have hcall := hcallee.call h.2 (allReadable source extra h.2 hclear.2) i
    rwa [← Expr.layouts_eq_map] at hcall
  | .array i items, h, hclear => by
    refine .of_operand h ?_ rfl
    have harray := readsOperand_array h (allReadable source extra h hclear) i
    rwa [← Expr.layouts_eq_map] at harray
  | .binary i left symbol right, h, hclear => by
    simp only [Expr.isClear, Bool.and_eq_true, Bool.not_eq_true'] at hclear
    have hleft : left.pairs extra (left.strength < operatorStrength symbol) = 0 → operatorStrength symbol ≤ left.strength :=
      fun hnone => by simpa using Expr.not_needed hnone
    have hright : right.pairs extra (right.strength ≤ operatorStrength symbol) = 0 → operatorStrength symbol < right.strength :=
      fun hnone => by simpa using Expr.not_needed hnone
    obtain ⟨hs, hmember, ht⟩ := leftOperand_fits h.1 h.2.1 hclear.1.1 hleft
    obtain ⟨hs', hmember', ht'⟩ := rightOperand_fits h.1 h.2.2 hright
    have hoperator := ((readable source extra h.2.1 hclear.1.2).encloseBinary h.2.1 _).operator
      ((readable source extra h.2.2 hclear.2).encloseBinary h.2.2 _) h.1 hs hmember ht hs' hmember' ht' i
    exact ⟨fun hstrength => absurd hstrength (Nat.ne_of_lt (Nat.lt_trans (operatorStrength_lt symbol) (by decide))),
      fun hstrength => absurd (operatorStrength_lt symbol) (Nat.not_lt.mpr hstrength), hoperator⟩
  | .unary i symbol operand, h, hclear => by
    simp only [Expr.isClear, Bool.and_eq_true] at hclear
    have hoperand := (readable source extra h.2 hclear.2).encloseUnary h.2
    exact .of_unary h (hoperand.sign h.1 i) (fun h => absurd h (show unaryStrength ≠ memberStrength by decide))

/-- Each of several expressions is read as a complete one. -/
theorem allReadable (source : List Char) (extra : Info → Nat) :
    ∀ {es : List Expr}, Expr.AllRead es → Expr.allClear es = true → ∀ e ∈ es, ReadsWhole source (e.whole extra) e
  | _ :: _, h, hclear, _, .head _ => (readable source extra h.1 (Bool.and_eq_true_iff.mp hclear).1).whole h.1
  | _ :: _, h, hclear, _, .tail _ he => allReadable source extra h.2 (Bool.and_eq_true_iff.mp hclear).2 _ he

end

end Primer.Source
