import Primer.Proofs.Print.Rebuild

/-!
# Reading printed statements

A reader that stands at the lexemes of a printed statement reads the statement, semicolon included, and what it reads
is built to that statement.
-/

set_option autoImplicit false

namespace Primer.Source

variable {o : Origin} {extra : Info → Nat}

/-! ## Statements that are expressions -/

/-- The reader reads a statement as an expression, in front of a semicolon or of the end of a header. -/
def ReadsSimple (o : Origin) (extra : Info → Nat) (s : Stmt) : Prop :=
  ∀ ⦃gap ls c n⦄, c.Shows o.source (s.layout extra 0 gap ++ ls) → 10 * (s.layout extra 0 gap ++ ls).length + 15 ≤ n →
    headIs [";", ")"] ls = true → ∀ env, ∃ t c',
    expression n env c = .ok (t, c') ∧ c'.Shows o.source ls ∧ t.EndsAt o.source (render ls) ∧
    (∀ start text, t ≠ .name start text) ∧ (buildSimple o t).Succeeds fun s' => s'.bare = s.bare

/-- Without a comma behind it an assignment is a complete expression. -/
theorem expression_of_assignment {n : Nat} {env : Surroundings} {c c' : Cursor} {t : Term}
    (h : assignment n env c = .ok (t, c')) (hcomma : c'.is "," = false) : expression (n + 1) env c = .ok (t, c') := by
  rw [expression, h]
  simp [hcomma, bind, Except.bind]

/-- A call is read as a simple statement. -/
theorem readsSimple_call {call : Call} (h : call.toExpr.IsRead) (hclear : call.toExpr.isClear = true) (i : Info) :
    ReadsSimple o extra (.call i call) := by
  intro gap ls c n hc hn hls env
  obtain ⟨t, c', ht, hexpression⟩ := ((readable o.source extra h hclear).wholeIn h 0).expression hc hn
    (headIs_mono hls (by decide)) env
  refine ⟨t, c', hexpression, ht.shows, ht.ends, ?_, buildSimple_call o ht.spells h i⟩
  rintro start text rfl
  exact ht.spells.elim

/-- A place is as strong as a member. -/
theorem isPlace_strength {e : Expr} (h : e.isPlace = true) : e.strength = memberStrength := by
  cases e <;> first | rfl | cases h

/-- An assignment is read as a simple statement. -/
theorem readsSimple_assign {a : Assignment} (h : a.IsRead) (htarget : a.target.isClear = true)
    (hvalue : a.value.isClear = true) : ReadsSimple o extra (.assign a) := by
  intro gap ls c n hc hn hls env
  simp only [Stmt.layout, Assignment.layout, List.append_assoc, List.cons_append] at hc hn
  have hmarks : ∀ s ∈ subsetAssign, s ∈ followers ∧ operatorStrength s = 0 ∧ s ∈ assignOperators := by decide
  obtain ⟨hfollows, hstrength, hassign⟩ := hmarks a.symbol h.1
  have htargetStarts : Starts a.target.OpensWith gap (a.target.layout extra gap) := Expr.layout_starts gap h.2.2.1
  have hlength := htargetStarts.length_pos
  obtain ⟨m, rfl⟩ : ∃ m, n = m + 2 := ⟨n - 2, by omega⟩
  obtain ⟨left, c₁, hleft, hconditional⟩ := (readable o.source extra h.2.2.1 htarget).binary.conditional (strength_pos h.2.2.1)
    a.target.strength_le hc (n := m) (by omega) (by simpa using hfollows) (by simpa using hstrength) env
  obtain ⟨next, hnext, hshows⟩ := hleft.shows.next
  rw [List.length_append, List.length_cons] at hn
  obtain ⟨right, c₂, hright, hassignment⟩ := (readable o.source extra h.2.2.2 hvalue).whole h.2.2.2 hshows (n := m) (by omega)
    (headIs_mono hls (by decide)) env
  refine ⟨.assign left a.symbol right, c₂, ?_, hright.shows, hright.ends, by simp,
    buildSimple_assign o hleft.spells hright.spells h⟩
  refine expression_of_assignment ?_ ((hright.shows.is _).trans (headIs_disjoint hls (by decide)))
  have hoperator : c₁.isOneOf assignOperators = true := by simpa [hleft.shows.isOneOf] using hassign
  rw [assignment, hconditional]
  simp [hoperator, hnext, isTarget_of_spells hleft.spells h.2.1, hassignment, hleft.shows.text_mark, bind, Except.bind]

/-- What is read with its signs is read as an expression, in front of what ends a statement. -/
theorem expression_of_unary {n : Nat} {env : Surroundings} {c c' : Cursor} {t : Term} {ls : List Lexeme}
    (h : unary n env c = .ok (t, c')) (hn : 0 < n) (hc' : c'.Shows o.source ls) (hls : headIs [";", ")"] ls = true) :
    expression (n + 4) env c = .ok (t, c') := by
  have hmarks (texts : List String) (hs : ∀ x ∈ [";", ")"], x ∉ texts) : c'.isOneOf texts = false :=
    (hc'.isOneOf _).trans (headIs_disjoint hls hs)
  have hquestion : c'.is "?" = false := (hc'.is _).trans (headIs_disjoint hls (by decide))
  have hstrength : headStrength ls = 0 := headStrength_of_closer (headIs_mono hls (by decide))
  have hbinary : binary (n + 1) env 1 c = .ok (t, c') := by
    rw [binary, h]
    exact binaryTail_stop hc' (headIs_mono hls (by decide)) (by simp [hstrength, readingLevel]) hn env t
  refine expression_of_assignment ?_ ((hc'.is _).trans (headIs_disjoint hls (by decide)))
  rw [assignment, conditional, hbinary]
  simp [hquestion, hmarks assignOperators (by decide), bind, Except.bind]

/-- An increment or decrement is read as a simple statement. -/
theorem readsSimple_bump {target : Expr} (h : target.IsRead) (hplace : target.isPlace = true)
    (hclear : target.isClear = true) {symbol : String} (hsymbol : symbol ∈ ["++", "--"]) (i : Info) :
    ReadsSimple o extra (.bump i target symbol) := by
  intro gap ls c n hc hn hls env
  simp only [Stmt.layout, List.append_assoc, List.singleton_append] at hc hn
  have hstarts : Starts Lexeme.Opens gap (target.layout extra gap) := Expr.layout_opens h (isPlace_strength hplace) gap
  have hlength := hstarts.length_pos
  obtain ⟨m, rfl⟩ : ∃ m, n = m + 5 := ⟨n - 5, by omega⟩
  obtain ⟨t, c₁, k, ht, hbehind, hk, hoperand⟩ := (readable o.source extra h hclear).operand (isPlace_strength hplace) hc (n := m)
    (by omega) env
  obtain ⟨last, hlast, hshows⟩ := ht.shows.next
  have hopen (texts : List String) (htexts : ∀ s ∈ ["(", "["], s ∉ texts) :
      headIs texts (target.layout extra gap ++ .mark [] symbol :: ls) = false := headIs_of_opens htexts hstarts _
  have hsigns : c.isOneOf unaryOperators = false := (hc.isOneOf _).trans (hopen _ (by decide))
  have hbumps : c.is "++" = false ∧ c.is "--" = false :=
    ⟨(hc.is _).trans (hopen _ (by decide)), (hc.is _).trans (hopen _ (by decide))⟩
  have hbump : (c₁.is "++" || c₁.is "--") = true := by
    rw [ht.shows.is, ht.shows.is, headIs_mark, headIs_mark]
    simp only [List.mem_cons, List.not_mem_nil, or_false] at hsymbol
    rcases hsymbol with rfl | rfl <;> rfl
  have hsameLine : c₁.afterLine = false := ht.shows.1.sameLine (by simp [Lexeme.mark]) (by simp [Lexeme.mark])
  have hstop : headIs [".", "[", "("] (.mark [] symbol :: ls) = false := by
    rw [headIs_mark]
    simp only [List.mem_cons, List.not_mem_nil, or_false] at hsymbol
    rcases hsymbol with rfl | rfl <;> rfl
  have hunary : unary (m + 1) env c = .ok (.bumped t symbol, last) := by
    rw [unary, hsigns, hbumps.1, hbumps.2, hoperand, accesses_stop ht.shows hstop (by omega)]
    simp [hbump, hsameLine, hlast, isTarget_of_spells ht.spells hplace, ht.shows.text_mark, bind, Except.bind]
  refine ⟨.bumped t symbol, last, expression_of_unary hunary (by omega) hshows hls, hshows, .of_behind ?_,
    by simp, buildSimple_bump o ht.spells h hplace i symbol⟩
  have hnarrow : ∀ s ∈ ["++", "--"], byteLength s.toList = 2 := by decide
  have hafter : Behind o.source (t.stop + byteLength symbol.toList) (render ls) := (hbehind rfl).append
  rw [hnarrow symbol hsymbol] at hafter
  exact hafter

/-- The statements that are expressions are read as such. -/
theorem readsSimple {s : Stmt} (hkind : s.isSimple = true) {inFunction top : Bool} (h : s.IsRead inFunction top)
    (hclear : s.everywhere Expr.isClear (fun _ => true) = true) : ReadsSimple o extra s := by
  cases s with
  | assign a =>
    simp only [Stmt.everywhere, Assignment.everywhere, Bool.true_and, Bool.and_eq_true] at hclear
    exact readsSimple_assign h hclear.1 hclear.2
  | bump i target symbol => exact readsSimple_bump h.2.1 h.1 hclear h.2.2 i
  | call i c => exact readsSimple_call h hclear i
  | _ => cases hkind

/-! ## Declared variables -/

/-- An identifier is read as such. -/
theorem Cursor.Shows.identifier {source : List Char} {c : Cursor} {gap : List Char} {name : String} {ls : List Lexeme}
    (hc : c.Shows source (.word gap name :: ls)) (hname : IsIdentifier name) :
    ∃ next, c.identifier = .ok (⟨c.start, name⟩, next) ∧ next.Shows source ls := by
  obtain ⟨next, hnext, hshows⟩ := hc.next
  have hkind : c.kind = .identifier := hc.1.kind.trans hname.2
  have htext : c.text = name := hc.1.text.trans String.ofList_toList
  refine ⟨next, ?_, hshows⟩
  simp [Cursor.identifier, hkind, htext, hnext, bind, Except.bind]

/-- A declared name is read up to what may stand behind it. -/
theorem readsVariable {d : Declared} (h : d.IsRead) (hclear : d.everywhere Expr.isClear (fun _ => true) = true)
    {gap : List Char} {ls : List Lexeme} {c : Cursor} {n : Nat} (hc : c.Shows o.source (d.layout extra gap ++ ls))
    (hn : 10 * (d.layout extra gap ++ ls).length + 14 ≤ n) (hls : headIs [",", ";"] ls = true) (env : Surroundings) :
    ∃ (v : Variable) (c' : Cursor), c'.Shows o.source ls ∧ v.Spells d ∧
      (∃ k, Behind o.source v.stop (List.replicate k ')' ++ render ls)) ∧
      variableList (n + 1) env c = (if c'.is "," then do
        let next ← c'.next
        let (rest, c) ← variableList n env next
        .ok (v :: rest, c)
      else .ok ([v], c')) := by
  unfold Declared.layout at hc hn
  unfold Declared.everywhere at hclear
  cases hfirst : d.first with
  | none =>
    rw [hfirst] at hc
    obtain ⟨next, hname, hshows⟩ := hc.identifier h.1
    have hplain : next.is "=" = false := (hshows.is _).trans (headIs_disjoint hls (by decide))
    refine ⟨⟨c.start, d.name, none⟩, next, hshows, ⟨rfl, by simp [hfirst]⟩, ⟨0, ?_⟩, ?_⟩
    · have hbehind := hc.1.behind
      rw [show (Lexeme.word gap d.name).text = d.name.toList from rfl, ← utf8ByteSize_eq] at hbehind
      exact hbehind
    · rw [variableList, hname]
      simp [hplain, bind, Except.bind]
  | some a =>
    rw [hfirst] at hc hn hclear
    obtain ⟨⟨i, htarget⟩, hsymbol, hvalue⟩ := h.2 a hfirst
    simp only [Assignment.everywhere, Bool.true_and, Bool.and_eq_true] at hclear
    simp only [Assignment.layout, htarget, hsymbol, Expr.layout, Layout.word, List.cons_append, List.nil_append] at hc hn
    obtain ⟨equals, hname, hshows⟩ := hc.identifier h.1
    obtain ⟨next, hnext, hshows'⟩ := hshows.next
    simp only [List.length_cons] at hn
    obtain ⟨t, c', ht, hassignment⟩ := ((readable o.source extra hvalue hclear.2).whole hvalue) hshows' (n := n) (by omega)
      (headIs_mono hls (by decide)) env
    refine ⟨⟨c.start, d.name, some t⟩, c', ht.shows, ⟨rfl, by simpa [hfirst] using ht.spells⟩, ht.ends, ?_⟩
    rw [variableList, hname]
    simp [hshows.is, hnext, hassignment, bind, Except.bind]

/-- Declared names are read up to the semicolon behind them. -/
theorem readsVariables {names : List Declared} (hne : names ≠ []) (h : ∀ d ∈ names, d.IsRead)
    (hclear : ∀ d ∈ names, d.everywhere Expr.isClear (fun _ => true) = true) {gap : List Char} {ls : List Lexeme}
    {c : Cursor} {n : Nat} (hc : c.Shows o.source (Layout.commas (names.map (Declared.layout extra)) gap ++ ls))
    (hn : 10 * (Layout.commas (names.map (Declared.layout extra)) gap ++ ls).length + 15 ≤ n) (hls : headIs [";"] ls = true)
    (env : Surroundings) :
    ∃ list c', variableList n env c = .ok (list, c') ∧ c'.Shows o.source ls ∧ Variable.AllSpell list names ∧
      ∀ start, ∃ k, Behind o.source (variablesStop start list) (List.replicate k ')' ++ render ls) := by
  -- The token in front moves on with each name, and the fuel goes down with the tokens that are left.
  induction names generalizing gap c n with
  | nil => exact absurd rfl hne
  | cons d ds ih =>
    obtain ⟨m, rfl⟩ : ∃ m, n = m + 1 := ⟨n - 1, by omega⟩
    cases ds with
    | nil =>
      simp only [List.map_cons, List.map_nil, Layout.commas] at hc hn
      obtain ⟨v, c', hshows, hv, hstop, hlist⟩ := readsVariable (h d List.mem_cons_self) (hclear d List.mem_cons_self) hc
        (n := m) (by omega) (headIs_mono hls (by decide)) env
      have hcomma : c'.is "," = false := (hshows.is _).trans (headIs_disjoint hls (by decide))
      refine ⟨[v], c', ?_, hshows, ⟨hv, trivial⟩, fun _ => hstop⟩
      rw [hlist, hcomma]
      rfl
    | cons d' ds =>
      simp only [List.map_cons, Layout.commas, List.append_assoc, List.cons_append] at hc hn ih
      have hdeclared : Starts _ gap (d.layout extra gap) := Declared.layout_starts (h d List.mem_cons_self) gap
      have hlength := hdeclared.length_pos
      obtain ⟨v, comma, hshows, hv, -, hlist⟩ := readsVariable (h d List.mem_cons_self) (hclear d List.mem_cons_self) hc
        (n := m) (by omega) (by simp) env
      obtain ⟨next, hnext, hshows'⟩ := hshows.next
      rw [List.length_append, List.length_cons] at hn
      obtain ⟨rest, c', hrest, hc', hspell, hstop⟩ := ih (by simp) (fun d' hd' => h d' (List.mem_cons_of_mem d hd'))
        (fun d' hd' => hclear d' (List.mem_cons_of_mem d hd')) hshows' (n := m) (by omega)
      refine ⟨v :: rest, c', ?_, hc', ⟨hv, hspell⟩, ?_⟩
      · rw [hlist]
        simp [hshows.is, hnext, hrest, bind, Except.bind]
      · intro start
        cases rest with
        | nil => exact hspell.elim
        | cons w rest => simpa [variablesStop] using hstop start

/-! ## Conditions and blocks -/

/-- A condition in parentheses is read. -/
theorem readsCondition {e : Expr} (h : e.IsRead) (hclear : e.isClear = true) {gap : List Char} {ls : List Lexeme}
    {c : Cursor} {n : Nat} (hc : c.Shows o.source (.mark gap "(" :: (e.whole extra [] ++ .mark [] ")" :: ls)))
    (hn : 10 * (e.whole extra [] ++ .mark [] ")" :: ls).length + 16 ≤ n) (env : Surroundings) :
    ∃ t c', t.Spells e ∧ c'.Shows o.source ls ∧ condition n env c = .ok (t, c') := by
  obtain ⟨m, rfl⟩ : ∃ m, n = m + 1 := ⟨n - 1, by omega⟩
  obtain ⟨first, hfirst, hshows⟩ := hc.expect
  obtain ⟨t, close, ht, hexpression⟩ := ((readable o.source extra h hclear).whole h).expression hshows (n := m) (by omega)
    (by simp) env
  obtain ⟨c', hclose, hc'⟩ := ht.shows.expect
  refine ⟨t, c', ht.spells, hc', ?_⟩
  rw [condition, hfirst]
  simp [hexpression, hclose, bind, Except.bind]

/-- The reader reads statements up to a closing brace. -/
def ReadsLines (o : Origin) (inFunction : Bool) (lines : Layout) (body : List Stmt) : Prop :=
  ∀ ⦃gap gap' ls c n⦄, c.Shows o.source (lines gap ++ .mark gap' "\x7d" :: ls) →
    10 * (lines gap ++ .mark gap' "\x7d" :: ls).length + 18 ≤ n → ∀ env : Surroundings, env.inFunction = inFunction →
    ∃ cs c', clauses n env c = .ok (cs, c') ∧ c'.Shows o.source (.mark gap' "\x7d" :: ls) ∧ Clause.AllBuild o false cs body

/-- A block is read as a statement. -/
theorem ReadsLines.block {inFunction : Bool} {lines : Layout} {body : List Stmt} (h : ReadsLines o inFunction lines body)
    {depth : Nat} {ls : List Lexeme} {c : Cursor} {n : Nat} (hc : c.Shows o.source (Layout.block depth lines ++ ls))
    (hn : 10 * (Layout.block depth lines ++ ls).length + 17 ≤ n) (env : Surroundings) (henv : env.inFunction = inFunction) :
    ∃ cl c', clause n env c = .ok (cl, c') ∧ c'.Shows o.source ls ∧ cl.BuildsBlock o body := by
  simp only [Layout.block, List.cons_append, List.append_assoc, List.nil_append] at hc hn
  rw [List.length_cons] at hn
  obtain ⟨m, rfl⟩ : ∃ m, n = m + 2 := ⟨n - 2, by omega⟩
  obtain ⟨first, hfirst, hshows⟩ := hc.expect
  obtain ⟨cs, close, hclauses, hclose, hbuild⟩ := h hshows (n := m) (by omega) env henv
  obtain ⟨c', hexpect, hc'⟩ := hclose.expect
  refine ⟨.block c.start cs, c', ?_, hc', c.start, cs, rfl, hbuild⟩
  rw [clause, if_pos hc.kind_mark, hc.text_mark]
  simp only [Source.block, hfirst, bind, Except.bind, hclauses, hexpect]

/-! ## Parameters -/

/-- The parameters of a function are read. -/
theorem readsParameters {names : List String} (h : ∀ name ∈ names, IsIdentifier name) {gap : List Char}
    {ls : List Lexeme} {c : Cursor} {n : Nat}
    (hc : c.Shows o.source (Layout.commas (names.map Layout.word) gap ++ .mark [] ")" :: ls))
    (hn : (Layout.commas (names.map Layout.word) gap ++ .mark [] ")" :: ls).length < n) :
    ∃ params c', parameters n c = .ok (params, c') ∧ c'.Shows o.source ls ∧ params.map Param.name = names := by
  -- The token in front moves on with each name, and the fuel goes down with the tokens that are left.
  induction names generalizing gap c n with
  | nil =>
    obtain ⟨m, rfl⟩ : ∃ m, n = m + 1 := ⟨n - 1, by omega⟩
    simp only [List.map_nil, Layout.commas, List.nil_append] at hc
    obtain ⟨c', hexpect, hshows⟩ := hc.expect
    refine ⟨[], c', ?_, hshows, rfl⟩
    rw [parameters, if_pos (by simp [hc.is]), hexpect]
    rfl
  | cons name names ih =>
    have hname := h name List.mem_cons_self
    have hopen {ls' : List Lexeme} (hc : c.Shows o.source (.word gap name :: ls')) : (c.is ")" || c.isEnd) = false := by
      have hkind : (Lexeme.word gap name).kind = .identifier := hname.2
      rw [hc.is, headIs_of_kind (by rw [hkind]; decide), Cursor.isEnd, hc.1.kind, hkind]
      rfl
    obtain ⟨m, rfl⟩ : ∃ m, n = m + 1 := ⟨n - 1, by omega⟩
    cases names with
    | nil =>
      simp only [List.map_cons, List.map_nil, Layout.commas, Layout.word, List.singleton_append] at hc hn
      obtain ⟨close, hidentifier, hclose⟩ := hc.identifier hname
      have hrest : close.Shows o.source (Layout.commas ([].map Layout.word) [] ++ .mark [] ")" :: ls) := hclose
      obtain ⟨params, c', hparams, hc', hnames⟩ := ih (by simp) hrest (n := m)
        (by simp only [List.length_cons] at hn; simp only [List.map_nil, Layout.commas, List.nil_append, List.length_cons]; omega)
      refine ⟨⟨c.start, name⟩ :: params, c', ?_, hc', by rw [List.map_cons, hnames]⟩
      rw [parameters, hopen hc, hidentifier]
      simp [hclose.is, hparams, bind, Except.bind]
    | cons name' names =>
      simp only [List.map_cons, Layout.commas, Layout.word, List.cons_append, List.nil_append] at hc hn
      obtain ⟨comma, hidentifier, hcomma⟩ := hc.identifier hname
      obtain ⟨next, hexpect, hnext⟩ := hcomma.expect
      simp only [List.length_cons] at hn
      obtain ⟨params, c', hparams, hc', hnames⟩ := ih (fun name' hmem => h name' (List.mem_cons_of_mem name hmem)) hnext
        (n := m) (by rw [List.map_cons]; omega)
      refine ⟨⟨c.start, name⟩ :: params, c', ?_, hc', by rw [List.map_cons, hnames]⟩
      rw [parameters, hopen hc, hidentifier]
      simp [hcomma.is, hexpect, hparams, bind, Except.bind]

/-! ## Statements -/

/-- How statements start that are no expressions. -/
def openers : List String := ["var", "if", "while", "for", "function", "return"]

/-- A lexeme that starts a statement. -/
def OpensStatement (l : Lexeme) : Prop := l.Opens ∨ ∃ s ∈ openers, l = .mark l.gap s

end Primer.Source

namespace Primer

open Source (OpensStatement openers isPlace_strength Lexeme)

/-- A statement with the semicolon behind it. -/
def Stmt.line (extra : Info → Nat) (depth : Nat) (s : Stmt) : Layout := fun gap =>
  s.layout extra depth gap ++ (if s.isBlock then [] else [.mark [] ";"])

variable {extra : Info → Nat}

/-- The lines of a body are the line of its first statement and those of the rest. -/
theorem Stmt.lines_cons (depth : Nat) (s : Stmt) (rest : List Stmt) (gap : List Char) :
    Stmt.lines extra depth (s :: rest) gap =
      s.line extra depth (gap ++ (indentation depth).toList) ++ Stmt.lines extra depth rest ['\n'] := rfl

/-- A statement that is an expression starts like an operand. -/
theorem Stmt.simple_opens (depth : Nat) {s : Stmt} (hkind : s.isSimple = true) {inFunction top : Bool}
    (h : s.IsRead inFunction top) (gap : List Char) : Starts Lexeme.Opens gap (s.layout extra depth gap) := by
  cases s with
  | assign a => exact (Expr.layout_opens h.2.2.1 (isPlace_strength h.2.1) gap).append _
  | bump => exact (Expr.layout_opens h.2.1 (isPlace_strength h.1) gap).append _
  | call i c => exact Expr.layout_opens h rfl gap
  | _ => cases hkind

/-- The line of a statement starts with what opens the statement. -/
theorem Stmt.line_starts (depth : Nat) {inFunction top : Bool} {s : Stmt} (h : s.IsRead inFunction top) (gap : List Char) :
    Starts OpensStatement gap (s.line extra depth gap) := by
  have hopener (keyword : String) (hkeyword : keyword ∈ openers) (ls : List Lexeme) :
      Starts OpensStatement gap (.mark gap keyword :: ls) := ⟨_, _, rfl, rfl, .inr ⟨keyword, hkeyword, rfl⟩⟩
  refine Starts.append ?_ _
  cases s with
  | assign | bump | call => exact (Stmt.simple_opens depth rfl h gap).imp fun _ => .inl
  | var => exact hopener "var" (by decide) _
  | cond => exact hopener "if" (by decide) _
  | «while» => exact hopener "while" (by decide) _
  | «for» => exact hopener "for" (by decide) _
  | function => exact hopener "function" (by decide) _
  | «return» i value =>
    cases value with
    | none => exact hopener "return" (by decide) _
    | some value => exact hopener "return" (by decide) _
  | _ => exact h.elim

end Primer

namespace Primer.Source

variable {o : Origin} {extra : Info → Nat}

/-- What opens a statement is none of the marks that do not. -/
theorem headIs_of_statement {texts : List String} (htexts : ∀ s ∈ ["(", "["] ++ openers, s ∉ texts) {gap : List Char}
    {ls : List Lexeme} (h : Starts OpensStatement gap ls) (more : List Lexeme) : headIs texts (ls ++ more) = false := by
  obtain ⟨l, rest, rfl, hgap, hl⟩ := h
  rcases hl with hl | ⟨s, hs, heq⟩
  · exact headIs_of_opens (fun s hs => htexts s (List.mem_append_left _ hs)) ⟨l, rest, rfl, hgap, hl⟩ more
  · rw [List.cons_append, heq, headIs_mark]
    simpa using htexts s (List.mem_append_right _ hs)

/-- Where a statement starts, the source does not end. -/
theorem isEnd_of_statement {gap : List Char} {ls more : List Lexeme} (h : Starts OpensStatement gap ls) {c : Cursor}
    {source : List Char} (hc : c.Shows source (ls ++ more)) : c.isEnd = false := by
  obtain ⟨l, rest, rfl, -, hl⟩ := h
  have hkind : l.kind ≠ .endOfInput := by
    rcases hl with hl | ⟨s, -, heq⟩
    · exact hl.not_end
    · rw [heq]
      exact nofun
  simp [Cursor.isEnd, hc.1.kind, hkind]

/-- A statement list does not start with `else`, nor does what closes a block. -/
theorem not_else_lines (depth : Nat) {inFunction top : Bool} {body : List Stmt} (h : Stmt.AllRead inFunction top body)
    {gap : List Char} {ls : List Lexeme} (hls : headIs ["else"] ls = false) :
    headIs ["else"] (Stmt.lines extra depth body gap ++ ls) = false := by
  cases body with
  | nil => exact hls
  | cons s rest =>
    rw [Stmt.lines_cons, List.append_assoc]
    exact headIs_of_statement (by decide) (Stmt.line_starts depth h.1 _) _

/-- The reader reads a statement with its semicolon, unless an `else` stands behind it. -/
def ReadsStatement (o : Origin) (inFunction top : Bool) (layout : Layout) (s : Stmt) : Prop :=
  ∀ ⦃gap ls c n⦄, c.Shows o.source (layout gap ++ ls) → 10 * (layout gap ++ ls).length + 17 ≤ n →
    headIs ["else"] ls = false → ∀ env : Surroundings, env.inFunction = inFunction →
    ∃ cl c', clause n env c = .ok (cl, c') ∧ c'.Shows o.source ls ∧ cl.Builds o top s

/-- A semicolon ends a statement. -/
theorem endStatement_semicolon {source : List Char} {c : Cursor} {ls : List Lexeme}
    (hc : c.Shows source (.mark [] ";" :: ls)) : ∃ c', c.endStatement = .ok c' ∧ c'.Shows source ls := by
  obtain ⟨c', hexpect, hshows⟩ := hc.expect
  have hsameLine : c.afterLine = false := hc.1.sameLine (by simp [Lexeme.mark]) nofun
  refine ⟨c', ?_, hshows⟩
  simp [Cursor.endStatement, hc.is, hsameLine, hexpect]

/-- A statement that starts like an expression is read as one. -/
theorem clause_of_opens {source : List Char} {gap : List Char} {ls more : List Lexeme} (h : Starts Lexeme.Opens gap ls)
    {c : Cursor} (hc : c.Shows source (ls ++ more)) (n : Nat) (env : Surroundings) :
    clause (n + 1) env c = termClause n env c := by
  obtain ⟨l, rest, rfl, -, hl⟩ := h
  by_cases hkind : l.kind = .mark
  · have htext : c.text = "(" ∨ c.text = "[" := by
      rcases hl.mark hkind with htext | htext
      · exact .inl (hc.1.text.trans (by rw [htext]))
      · exact .inr (hc.1.text.trans (by rw [htext]))
    rw [clause, if_pos (hc.1.kind.trans hkind)]
    rcases htext with htext | htext
    · rw [htext]
      rfl
    · rw [htext]
      rfl
  · rw [clause, if_neg (by rw [hc.1.kind]; exact hkind)]

/-- A simple statement is read from its line. -/
theorem readsStatement_simple {s : Stmt} (hkind : s.isSimple = true) {inFunction top : Bool}
    (h : s.IsRead inFunction top) (hclear : s.everywhere Expr.isClear (fun _ => true) = true) (depth : Nat) :
    ReadsStatement o inFunction top (s.line extra depth) s := by
  intro gap ls c n hc hn _ env _
  obtain ⟨m, rfl⟩ : ∃ m, n = m + 2 := ⟨n - 2, by omega⟩
  have hline : s.line extra depth gap = s.layout extra 0 gap ++ [.mark [] ";"] := by
    cases s <;> first | rfl | cases hkind
  rw [hline, List.append_assoc] at hc hn
  obtain ⟨t, close, hexpression, hclose, hends, hname, hbuild⟩ := readsSimple hkind h hclear hc (n := m) (by omega) (by simp) env
  obtain ⟨c', hnext, hshows⟩ := hclose.next
  have hterm : termClause (m + 1) env c = .ok (.term t, c') := by
    have hend : close.endTerm = .ok c' := by
      rw [Cursor.endTerm, if_pos (by simp [hclose.is]), hnext]
    rw [termClause, hexpression]
    cases t with
    | name start text => exact absurd rfl (hname start text)
    | _ => simp [hend, bind, Except.bind]
  refine ⟨.term t, c', ?_, hshows, Clause.builds_simple ?_ hbuild top⟩
  · rw [clause_of_opens (Stmt.simple_opens 0 hkind h gap) hc, hterm]
  · obtain ⟨k, hbehind⟩ := hends
    exact ⟨k, _, hbehind⟩

/-- A declaration is read from its line. -/
theorem readsStatement_var {names : List Declared} (hne : names ≠ []) (h : ∀ d ∈ names, d.IsRead)
    (hclear : ∀ d ∈ names, d.everywhere Expr.isClear (fun _ => true) = true) (i : Info) (inFunction top : Bool)
    (depth : Nat) : ReadsStatement o inFunction top ((Stmt.var i names).line extra depth) (.var i names) := by
  intro gap ls c n hc hn _ env _
  simp only [Stmt.line, Stmt.layout, Stmt.isBlock, Bool.false_eq_true, if_false, List.append_assoc, List.cons_append,
    List.nil_append] at hc hn
  rw [List.length_cons] at hn
  obtain ⟨m, rfl⟩ : ∃ m, n = m + 1 := ⟨n - 1, by omega⟩
  obtain ⟨first, hfirst, hshows⟩ := hc.next
  obtain ⟨list, close, hlist, hclose, hspell, hstop⟩ := readsVariables hne h hclear hshows (n := m) (by omega) (by simp) env
  obtain ⟨c', hend, hc'⟩ := endStatement_semicolon hclose
  obtain ⟨k, hbehind⟩ := hstop c.start
  refine ⟨.var c.start list, c', ?_, hc', Clause.builds_var c.start ⟨k, _, hbehind⟩ hspell h i top⟩
  rw [clause, if_pos hc.kind_mark, hc.text_mark]
  simp [hfirst, hlist, hend, bind, Except.bind]

/-- A `return` with a value is read from its line. -/
theorem readsStatement_return {value : Expr} (h : value.IsRead) (hclear : value.isClear = true) (i : Info) (top : Bool)
    (depth : Nat) : ReadsStatement o true top ((Stmt.return i (some value)).line extra depth) (.return i (some value)) := by
  intro gap ls c n hc hn _ env henv
  simp only [Stmt.line, Stmt.layout, Stmt.isBlock, Bool.false_eq_true, if_false, List.append_assoc, List.cons_append,
    List.nil_append] at hc hn
  rw [List.length_cons] at hn
  obtain ⟨m, rfl⟩ : ∃ m, n = m + 1 := ⟨n - 1, by omega⟩
  obtain ⟨first, hfirst, hshows⟩ := hc.next
  have hstarts : Starts value.OpensWith [' '] (value.whole extra [' ']) := Expr.whole_starts h [' ']
  have hend : first.isEnd = false := isEnd_of_starts hstarts hshows
  have hsameLine : first.afterLine = false := by
    obtain ⟨l, rest, hl, hgap, -⟩ := hstarts
    rw [hl, List.cons_append] at hshows
    exact hshows.1.sameLine (by simp [hgap]) fun hkind => by simp [Cursor.isEnd, hshows.1.kind, hkind] at hend
  have hmarks (text : String) (htext : ∀ s ∈ ["(", "[", "!", "+", "-"], s ∉ [text]) : first.is text = false :=
    (hshows.is _).trans (headIs_of_starts htext hstarts _)
  obtain ⟨t, close, ht, hexpression⟩ := ((readable o.source extra h hclear).whole h).expression hshows (n := m) (by omega)
    (by simp) env
  obtain ⟨c', hclose, hc'⟩ := endStatement_semicolon ht.shows
  obtain ⟨k, hbehind⟩ := ht.ends
  refine ⟨.return c.start (some t), c', ?_, hc', Clause.builds_return ⟨k, _, hbehind⟩ ht.spells h c.start i top⟩
  rw [clause, if_pos hc.kind_mark, hc.text_mark]
  simp [hfirst, henv, hsameLine, hmarks ";" (by decide), hmarks "\x7d" (by decide), hend, hexpression, hclose, bind,
    Except.bind]

/-- A `return` without a value is read from its line. -/
theorem readsStatement_return_nothing (i : Info) (top : Bool) (depth : Nat) :
    ReadsStatement o true top ((Stmt.return i none).line extra depth) (.return i none) := by
  intro gap ls c n hc hn _ env henv
  simp only [Stmt.line, Stmt.layout, Stmt.isBlock, Bool.false_eq_true, if_false, List.cons_append,
    List.nil_append] at hc hn
  obtain ⟨m, rfl⟩ : ∃ m, n = m + 1 := ⟨n - 1, by omega⟩
  obtain ⟨first, hfirst, hshows⟩ := hc.next
  obtain ⟨c', hend, hc'⟩ := endStatement_semicolon hshows
  refine ⟨.return c.start none, c', ?_, hc', Clause.builds_return_nothing ⟨0, _, hc.1.behind⟩ i top⟩
  rw [clause, if_pos hc.kind_mark, hc.text_mark]
  simp [hfirst, henv, hshows.is, hend, bind, Except.bind]

/-! ### Statements with blocks -/

section Blocks

variable {inFunction : Bool} {depth : Nat} {body : List Stmt}

/-- A keyword with a condition and a block behind it. -/
theorem readsGuarded {test : Expr} (h : test.IsRead) (hclear : test.isClear = true) {lines : Layout}
    (hbody : ReadsLines o inFunction lines body) {keyword : String} {gap : List Char} {ls : List Lexeme} {c : Cursor} {n : Nat}
    (hc : c.Shows o.source (Layout.guarded keyword (test.whole extra) (Layout.block depth lines) gap ++ ls))
    (hn : 10 * (Layout.guarded keyword (test.whole extra) (Layout.block depth lines) gap ++ ls).length + 16 ≤ n)
    (env env' : Surroundings) (henv : env'.inFunction = inFunction) :
    ∃ first t c₁ cl c', c.next = .ok first ∧ condition n env first = .ok (t, c₁) ∧ clause n env' c₁ = .ok (cl, c') ∧
      c'.Shows o.source ls ∧ t.Spells test ∧ cl.BuildsBlock o body := by
  simp only [Layout.guarded, List.append_assoc, List.cons_append] at hc hn
  simp only [List.length_cons] at hn
  obtain ⟨first, hfirst, hshows⟩ := hc.next
  obtain ⟨t, c₁, ht, hc₁, hcondition⟩ := readsCondition h hclear hshows (n := n) (by omega) env
  rw [List.length_append, List.length_cons] at hn
  obtain ⟨cl, c', hclause, hc', hbuild⟩ := hbody.block hc₁ (n := n) (by omega) env' henv
  exact ⟨first, t, c₁, cl, c', hfirst, hcondition, hclause, hc', ht, hbuild⟩

/-- A `while` is read from its lines if its body is. -/
theorem readsStatement_while {test : Expr} (h : test.IsRead) (hclear : test.isClear = true)
    (hbody : ReadsLines o inFunction (Stmt.lines extra (depth + 1) body) body) (i : Info) (top : Bool) :
    ReadsStatement o inFunction top ((Stmt.while i test body).line extra depth) (.while i test body) := by
  intro gap ls c n hc hn _ env henv
  simp only [Stmt.line, Stmt.layout, Stmt.isBlock, if_true, List.append_nil] at hc hn
  obtain ⟨m, rfl⟩ : ∃ m, n = m + 1 := ⟨n - 1, by omega⟩
  obtain ⟨first, t, c₁, cl, c', hfirst, hcondition, hclause, hc', ht, hbuild⟩ := readsGuarded h hclear hbody hc (n := m)
    (by omega) env env.loop henv
  refine ⟨.while c.start t cl, c', ?_, hc', Clause.builds_while ht h hbuild c.start i top⟩
  rw [clause, if_pos hc.kind_mark, hc.text_mark]
  simp [hfirst, hcondition, hclause, bind, Except.bind]

/-- The reader reads what hangs below a conditional, unless another `else` stands behind it. -/
def ReadsBranch (o : Origin) (extra : Info → Nat) (inFunction : Bool) (depth : Nat) (branch : Option Stmt) : Prop :=
  ∀ ⦃ls⦄ ⦃c : Cursor⦄ ⦃n⦄, c.Shows o.source (Stmt.branchLayout extra depth branch ++ ls) →
    10 * (Stmt.branchLayout extra depth branch ++ ls).length + 17 ≤ n → headIs ["else"] ls = false →
    ∀ env : Surroundings, env.inFunction = inFunction →
    (c.is "else" = false ∧ c.Shows o.source ls ∧ Clause.BuildsBranch o none branch) ∨
    ∃ next cl c', c.is "else" = true ∧ c.next = .ok next ∧ clause n env next = .ok (cl, c') ∧ c'.Shows o.source ls ∧
      Clause.BuildsBranch o (some cl) branch

/-- A missing branch is read as one. -/
theorem readsBranch_none (inFunction : Bool) (depth : Nat) : ReadsBranch o extra inFunction depth none :=
  fun _ _ _ hc _ hls _ _ => .inl ⟨(hc.is _).trans hls, hc, .pure rfl⟩

/-- An `else` is read if its body is. -/
theorem readsBranch_orElse (hbody : ReadsLines o inFunction (Stmt.lines extra (depth + 1) body) body) (i : Info) :
    ReadsBranch o extra inFunction depth (some (.orElse i body)) := by
  intro ls c n hc hn _ env henv
  simp only [Stmt.branchLayout, List.cons_append] at hc hn
  rw [List.length_cons] at hn
  obtain ⟨next, hnext, hshows⟩ := hc.next
  obtain ⟨cl, c', hclause, hc', hbuild⟩ := hbody.block hshows (n := n) (by omega) env henv
  exact .inr ⟨next, cl, c', by simp [hc.is], hnext, hclause, hc', Clause.builds_orElse hbuild i⟩

/-- A conditional is read with the branches below it. -/
theorem readsConditional {test : Expr} (h : test.IsRead) (hclear : test.isClear = true)
    (hbody : ReadsLines o inFunction (Stmt.lines extra (depth + 1) body) body) {branch : Option Stmt}
    (hbranch : ReadsBranch o extra inFunction depth branch) {gap : List Char} {ls : List Lexeme} {c : Cursor} {n : Nat}
    (hc : c.Shows o.source (Layout.guarded "if" (test.whole extra) (Layout.block depth (Stmt.lines extra (depth + 1) body)) gap ++
      (Stmt.branchLayout extra depth branch ++ ls)))
    (hn : 10 * (Layout.guarded "if" (test.whole extra) (Layout.block depth (Stmt.lines extra (depth + 1) body)) gap ++
      (Stmt.branchLayout extra depth branch ++ ls)).length + 17 ≤ n) (hls : headIs ["else"] ls = false)
    {env : Surroundings} (henv : env.inFunction = inFunction) :
    ∃ t cl d c', clause n env c = .ok (.cond c.start t cl d, c') ∧ c'.Shows o.source ls ∧ t.Spells test ∧
      cl.BuildsBlock o body ∧ Clause.BuildsBranch o d branch := by
  obtain ⟨m, rfl⟩ : ∃ m, n = m + 1 := ⟨n - 1, by omega⟩
  obtain ⟨first, t, c₁, cl, c₂, hfirst, hcondition, hclause, hc₂, ht, hbuild⟩ := readsGuarded h hclear hbody hc (n := m)
    (by omega) env env henv
  have hguard : 0 < (Layout.guarded "if" (test.whole extra) (Layout.block depth (Stmt.lines extra (depth + 1) body)) gap).length :=
    Nat.succ_pos _
  rw [List.length_append] at hn
  rw [clause, if_pos hc.kind_mark, hc.text_mark]
  rcases hbranch hc₂ (n := m) (by omega) hls env henv with ⟨helse, hc', hd⟩ | ⟨next, other, c', helse, hnext, hother, hc', hd⟩
  · refine ⟨t, cl, none, c₂, ?_, hc', ht, hbuild, hd⟩
    simp [hfirst, hcondition, hclause, helse, bind, Except.bind]
  · refine ⟨t, cl, some other, c', ?_, hc', ht, hbuild, hd⟩
    simp [hfirst, hcondition, hclause, helse, hnext, hother, bind, Except.bind]

/-- An `if` is read from its lines if its body and its other branch are. -/
theorem readsStatement_cond {test : Expr} (h : test.IsRead) (hclear : test.isClear = true)
    (hbody : ReadsLines o inFunction (Stmt.lines extra (depth + 1) body) body) {branch : Option Stmt}
    (hbranch : ReadsBranch o extra inFunction depth branch) (i : Info) (top : Bool) :
    ReadsStatement o inFunction top ((Stmt.cond i test body branch).line extra depth) (.cond i test body branch) := by
  intro gap ls c n hc hn hls env henv
  simp only [Stmt.line, Stmt.layout, Stmt.isBlock, if_true, List.append_nil, List.append_assoc] at hc hn
  obtain ⟨t, cl, d, c', hclause, hc', ht, hbuild, hd⟩ := readsConditional h hclear hbody hbranch hc hn hls henv
  exact ⟨_, c', hclause, hc', Clause.builds_cond ht h hbuild c.start hd i top⟩

/-- An `else if` is read if its body and its other branch are. -/
theorem readsBranch_elseIf {test : Expr} (h : test.IsRead) (hclear : test.isClear = true)
    (hbody : ReadsLines o inFunction (Stmt.lines extra (depth + 1) body) body) {branch : Option Stmt}
    (hbranch : ReadsBranch o extra inFunction depth branch) (i inner : Info) :
    ReadsBranch o extra inFunction depth (some (.elseIf i inner test body branch)) := by
  intro ls c n hc hn hls env henv
  simp only [Stmt.branchLayout, List.cons_append, List.append_assoc] at hc hn
  rw [List.length_cons] at hn
  obtain ⟨next, hnext, hshows⟩ := hc.next
  obtain ⟨t, cl, d, c', hclause, hc', ht, hbuild, hd⟩ := readsConditional h hclear hbody hbranch hshows (n := n) (by omega)
    hls henv
  exact .inr ⟨next, _, c', by simp [hc.is], hnext, hclause, hc', Clause.builds_elseIf ht h hbuild next.start hd i inner⟩

/-! ### Loops with a header -/

/-- The first part of a loop's header is read up to its semicolon. -/
theorem readsHeader {first : Option Stmt} (h : Stmt.IsReadPart Stmt.isVar first)
    (hclear : Stmt.everywhereIn Expr.isClear (fun _ => true) first = true) {gap : List Char} {ls : List Lexeme} {c : Cursor}
    {n : Nat} (hc : c.Shows o.source (.mark gap "for" :: .mark [' '] "(" :: (Stmt.headerLayout extra first ++ .mark [] ";" :: ls)))
    (hn : 10 * (Stmt.headerLayout extra first ++ .mark [] ";" :: ls).length + 15 ≤ n) (env : Surroundings) :
    ∃ header c', forClause (n + 1) env c = forRest n env c.start header c' ∧ c'.Shows o.source (.mark [] ";" :: ls) ∧
      (buildHeader o header).Succeeds fun first' => Stmt.bareIn first' = Stmt.bareIn first := by
  obtain ⟨c₁, hfor, hc₁⟩ := hc.expect
  obtain ⟨c₂, hopen, hc₂⟩ := hc₁.expect
  cases first with
  | none =>
    refine ⟨.empty, c₂, ?_, hc₂, .pure rfl⟩
    have hsemicolon : c₂.is ";" = true := by simp [hc₂.is, Stmt.headerLayout]
    rw [forClause, hfor]
    simp [hopen, hsemicolon, bind, Except.bind]
  | some s =>
    cases s with
    | var i names =>
      simp only [Stmt.headerLayout, Stmt.layout, List.cons_append] at hc₂ hn
      simp only [Stmt.everywhereIn, Stmt.everywhere, List.all_eq_true] at hclear
      rw [List.length_cons] at hn
      obtain ⟨c₃, hvar, hc₃⟩ := hc₂.next
      obtain ⟨list, c', hlist, hc', hspell, -⟩ := readsVariables h.2.1 h.2.2 hclear hc₃ (n := n) (by omega) (by simp)
        { env with allowIn := false }
      refine ⟨.declared list, c', ?_, hc', .bind (buildVar_spells o _ hspell h.2.2 i) ?_⟩
      · rw [forClause, hfor]
        simp [hopen, hc₂.is, hc'.is, hvar, hlist, bind, Except.bind]
      · intro _ hs
        refine .pure ?_
        simp only [Stmt.bareIn, hs]
    | _ => cases h.1

/-- The last part of a loop's header is read with the parenthesis behind it. -/
theorem readsUpdate {update : Option Stmt} (h : Stmt.IsReadPart Stmt.isSimple update)
    (hclear : Stmt.everywhereIn Expr.isClear (fun _ => true) update = true) {ls : List Lexeme} {c : Cursor} {n : Nat}
    (hc : c.Shows o.source (Stmt.updateLayout extra update ++ ls))
    (hn : 10 * (Stmt.updateLayout extra update ++ ls).length + 16 ≤ n) (env : Surroundings) :
    ∃ u close c', optionalTerm n env ")" c = .ok (u, close) ∧ close.expect ")" = .ok c' ∧ c'.Shows o.source ls ∧
      (∀ t ∈ u, ∃ s, update = some s ∧ (buildSimple o t).Succeeds fun s' => s'.bare = s.bare) ∧
      (u = none → update = none) := by
  obtain ⟨m, rfl⟩ : ∃ m, n = m + 1 := ⟨n - 1, by omega⟩
  cases update with
  | none =>
    simp only [Stmt.updateLayout, List.singleton_append] at hc
    obtain ⟨c', hclose, hc'⟩ := hc.expect
    refine ⟨none, c, c', ?_, hclose, hc', by simp, fun _ => rfl⟩
    rw [optionalTerm, if_pos (by simp [hc.is])]
  | some s =>
    simp only [Stmt.updateLayout, List.append_assoc, List.singleton_append] at hc hn
    obtain ⟨t, close, hexpression, hclose, -, -, hbuild⟩ := readsSimple h.1 h.2 hclear hc (n := m) (by omega) (by simp) env
    obtain ⟨c', hexpect, hc'⟩ := hclose.expect
    have hopen : c.is ")" = false :=
      (hc.is _).trans (headIs_of_opens (by decide) (Stmt.simple_opens 0 h.1 h.2 [' ']) _)
    refine ⟨some t, close, c', ?_, hexpect, hc', ?_, by simp⟩
    · rw [optionalTerm, if_neg (by simp [hopen]), hexpression]
      rfl
    · intro u hu
      obtain rfl := Option.some.inj hu
      exact ⟨s, rfl, hbuild⟩

/-- A `for` is read from its lines if its body is. -/
theorem readsStatement_for {first : Option Stmt} (hfirst : Stmt.IsReadPart Stmt.isVar first)
    (hfirstClear : Stmt.everywhereIn Expr.isClear (fun _ => true) first = true) {test : Expr} (h : test.IsRead)
    (hclear : test.isClear = true) {update : Option Stmt} (hupdate : Stmt.IsReadPart Stmt.isSimple update)
    (hupdateClear : Stmt.everywhereIn Expr.isClear (fun _ => true) update = true)
    (hbody : ReadsLines o inFunction (Stmt.lines extra (depth + 1) body) body) (i : Info) (top : Bool) :
    ReadsStatement o inFunction top ((Stmt.for i first test update body).line extra depth) (.for i first test update body) := by
  intro gap ls c n hc hn _ env henv
  simp only [Stmt.line, Stmt.layout, Stmt.isBlock, if_true, List.append_nil, List.append_assoc, List.cons_append] at hc hn
  rw [List.length_cons, List.length_cons] at hn
  obtain ⟨m, rfl⟩ : ∃ m, n = m + 4 := ⟨n - 4, by omega⟩
  obtain ⟨header, c₁, hheader, hc₁, hbuildFirst⟩ := readsHeader hfirst hfirstClear hc (n := m + 2) (by omega) env
  rw [List.length_append, List.length_cons] at hn
  obtain ⟨c₂, hsemicolon, hc₂⟩ := hc₁.expect
  have htest : c₂.is ";" = false :=
    (hc₂.is _).trans (headIs_of_starts (by decide) (Expr.whole_starts h [' ']) _)
  obtain ⟨t, c₃, ht, hexpression⟩ := ((readable o.source extra h hclear).whole h).expression hc₂ (n := m) (by omega)
    (by simp) env
  rw [List.length_append, List.length_cons] at hn
  obtain ⟨c₄, hsemicolon', hc₄⟩ := ht.shows.expect
  obtain ⟨u, close, c₅, hu, hclose, hc₅, hbuildUpdate, hnone⟩ := readsUpdate hupdate hupdateClear hc₄ (n := m + 1)
    (by omega) env
  have hlength : (Stmt.updateLayout extra update).length ≠ 0 := by
    cases update <;> simp [Stmt.updateLayout]
  rw [List.length_append] at hn
  obtain ⟨cl, c', hblock, hc', hbuild⟩ := hbody.block hc₅ (n := m + 1) (by omega) env.loop henv
  have htest' : optionalTerm (m + 1) env ";" c₂ = .ok (some t, c₃) := by
    rw [optionalTerm, if_neg (by simp [htest]), hexpression]
    rfl
  have hrest : forRest (m + 2) env c.start header c₁ = .ok (.for c.start header (some t) u cl, c') := by
    rw [forRest, hsemicolon]
    simp [htest', hsemicolon', hu, hclose, hblock, bind, Except.bind]
  refine ⟨_, c', ?_, hc', Clause.builds_for hbuildFirst ht.spells h hbuildUpdate hnone hbuild c.start i top⟩
  rw [clause, if_pos hc.kind_mark, hc.text_mark]
  simp [hheader, hrest]

/-! ### Functions -/

/-- A function is read from its lines if its body is. -/
theorem readsStatement_function {name : String} (hname : IsIdentifier name) {params : List String}
    (hparams : ∀ p ∈ params, IsIdentifier p) (hdistinct : params.Nodup)
    (hbody : ReadsLines o true (Stmt.lines extra (depth + 1) body) body) (i : Info) :
    ReadsStatement o inFunction true ((Stmt.function i name params body).line extra depth) (.function i name params body) := by
  intro gap ls c n hc hn _ env _
  simp only [Stmt.line, Stmt.layout, Layout.word, Layout.block, Stmt.isBlock, if_true, List.append_nil, List.append_assoc,
    List.cons_append, List.nil_append] at hc hn
  simp only [List.length_cons] at hn
  obtain ⟨m, rfl⟩ : ∃ m, n = m + 2 := ⟨n - 2, by omega⟩
  obtain ⟨c₁, hfunction, hc₁⟩ := hc.next
  obtain ⟨c₂, hidentifier, hc₂⟩ := hc₁.identifier hname
  obtain ⟨c₃, hopen, hc₃⟩ := hc₂.expect
  obtain ⟨list, c₄, hlist, hc₄, rfl⟩ := readsParameters hparams hc₃ (n := m) (by omega)
  rw [List.length_append, List.length_cons, List.length_cons] at hn
  obtain ⟨c₅, hbrace, hc₅⟩ := hc₄.expect
  obtain ⟨cs, close, hclauses, hclose, hbuild⟩ := hbody hc₅ (n := m) (by omega) .function rfl
  obtain ⟨c', hend, hc'⟩ := hclose.expect
  refine ⟨.function c.start name list cs, c', ?_, hc', Clause.builds_function hdistinct hbuild c.start name i⟩
  rw [clause, if_pos hc.kind_mark, hc.text_mark]
  simp [hfunction, hidentifier, functionRest, hopen, hlist, hbrace, hclauses, hend, bind, Except.bind]

end Blocks

/-! ## Statement lists -/

/-- No lines are read as no statements. -/
theorem readsLines_nil (inFunction : Bool) (depth : Nat) : ReadsLines o inFunction (Stmt.lines extra depth []) [] := by
  intro gap gap' ls c n hc hn env _
  obtain ⟨m, rfl⟩ : ∃ m, n = m + 1 := ⟨n - 1, by omega⟩
  refine ⟨[], c, ?_, hc, Clause.allBuild_nil false⟩
  rw [clauses, if_pos (by simp [hc.is, Stmt.lines])]

/-- The lines of a body are read if the first statement and the rest are. -/
theorem readsLines_cons {inFunction : Bool} {depth : Nat} {s : Stmt} {rest : List Stmt}
    (h : Stmt.AllRead inFunction false (s :: rest)) (hs : ReadsStatement o inFunction false (s.line extra depth) s)
    (hrest : ReadsLines o inFunction (Stmt.lines extra depth rest) rest) :
    ReadsLines o inFunction (Stmt.lines extra depth (s :: rest)) (s :: rest) := by
  intro gap gap' ls c n hc hn env henv
  obtain ⟨m, rfl⟩ : ∃ m, n = m + 1 := ⟨n - 1, by omega⟩
  have hstarts : Starts OpensStatement _ (s.line extra depth (gap ++ (indentation depth).toList)) :=
    Stmt.line_starts depth h.1 _
  have hlength := hstarts.length_pos
  rw [Stmt.lines_cons, List.append_assoc] at hc hn
  obtain ⟨cl, c₁, hclause, hc₁, hbuild⟩ := hs hc (n := m) (by omega) (not_else_lines depth h.2 (by simp)) env henv
  rw [List.length_append] at hn
  obtain ⟨cs, c', hclauses, hc', hbuildRest⟩ := hrest hc₁ (n := m) (by omega) env henv
  have hopen : (c.is "\x7d" || c.isEnd) = false := by
    rw [isEnd_of_statement hstarts hc, hc.is, headIs_of_statement (by decide) hstarts]
    rfl
  refine ⟨cl :: cs, c', ?_, hc', Clause.allBuild_cons hbuild hbuildRest⟩
  rw [clauses, if_neg (by simp [hopen]), hclause]
  simp [hclauses, bind, Except.bind]

mutual

/-- Every statement is read, if all its expressions are clear. -/
theorem readsStatement (o : Origin) (depth : Nat) {inFunction top : Bool} : ∀ {s : Stmt}, s.IsRead inFunction top →
    s.everywhere Expr.isClear (fun _ => true) = true → ReadsStatement o inFunction top (s.line extra depth) s
  | .var i names, h, hclear => by
    simp only [Stmt.everywhere, List.all_eq_true] at hclear
    exact readsStatement_var h.1 h.2 hclear i inFunction top depth
  | .assign _, h, hclear | .bump .., h, hclear | .call .., h, hclear => readsStatement_simple rfl h hclear depth
  | .cond i _ body _, h, hclear => by
    simp only [Stmt.everywhere, Bool.and_eq_true] at hclear
    exact readsStatement_cond h.1 hclear.1.1 (readsLines o (depth + 1) h.2.1 hclear.1.2)
      (readsBranch o depth h.2.2 hclear.2) i top
  | .while i _ body, h, hclear => by
    simp only [Stmt.everywhere, Bool.and_eq_true] at hclear
    exact readsStatement_while h.1 hclear.1 (readsLines o (depth + 1) h.2 hclear.2) i top
  | .for i _ _ _ body, h, hclear => by
    simp only [Stmt.everywhere, Bool.and_eq_true] at hclear
    exact readsStatement_for h.1 hclear.1.1.1 h.2.1 hclear.1.1.2 h.2.2.1 hclear.1.2
      (readsLines o (depth + 1) h.2.2.2 hclear.2) i top
  | .function i _ _ body, h, hclear => by
    obtain ⟨rfl, hname, hparams, hdistinct, hbody⟩ := h
    exact readsStatement_function hname hparams hdistinct (readsLines o (depth + 1) hbody hclear) i
  | .return i none, h, _ => by
    obtain ⟨rfl, -⟩ := h
    exact readsStatement_return_nothing i top depth
  | .return i (some _), h, hclear => by
    obtain ⟨rfl, hvalue⟩ := h
    exact readsStatement_return (hvalue _ rfl) hclear i top depth

/-- What hangs below a conditional is read, if all its expressions are clear. -/
theorem readsBranch (o : Origin) (depth : Nat) {inFunction : Bool} : ∀ {branch : Option Stmt},
    Stmt.IsReadBranch inFunction branch → Stmt.everywhereIn Expr.isClear (fun _ => true) branch = true →
    ReadsBranch o extra inFunction depth branch
  | none, _, _ => readsBranch_none inFunction depth
  | some (.elseIf i inner _ body branch), h, hclear => by
    simp only [Stmt.everywhereIn, Stmt.everywhere, Bool.and_eq_true] at hclear
    exact readsBranch_elseIf h.1 hclear.1.1 (readsLines o (depth + 1) h.2.1 hclear.1.2)
      (readsBranch o depth h.2.2 hclear.2) i inner
  | some (.orElse i body), h, hclear => readsBranch_orElse (readsLines o (depth + 1) h hclear) i

/-- Statements in a block are read, if all their expressions are clear. -/
theorem readsLines (o : Origin) (depth : Nat) {inFunction : Bool} : ∀ {body : List Stmt},
    Stmt.AllRead inFunction false body → Stmt.everywhereAll Expr.isClear (fun _ => true) body = true →
    ReadsLines o inFunction (Stmt.lines extra depth body) body
  | [], _, _ => readsLines_nil inFunction depth
  | _ :: _, h, hclear => by
    simp only [Stmt.everywhereAll, Bool.and_eq_true] at hclear
    exact readsLines_cons h (readsStatement o depth h.1 hclear.1) (readsLines o depth h.2 hclear.2)

end

/-- All statements of a source are read. -/
theorem readsProgram {body : List Stmt} (h : Stmt.AllRead false true body)
    (hclear : Stmt.everywhereAll Expr.isClear (fun _ => true) body = true) {gap gap' : List Char} {c : Cursor} {n : Nat}
    (hc : c.Shows o.source (Stmt.lines extra 0 body gap ++ [Lexeme.ending gap']))
    (hn : 10 * (Stmt.lines extra 0 body gap ++ [Lexeme.ending gap']).length + 18 ≤ n) :
    ∃ cs, topClauses n c = .ok cs ∧ Clause.AllBuild o true cs body := by
  induction body generalizing gap c n with
  | nil =>
    obtain ⟨m, rfl⟩ : ∃ m, n = m + 1 := ⟨n - 1, by omega⟩
    have hend : c.isEnd = true := by simp [Cursor.isEnd, show c.kind = .endOfInput from hc.1.kind]
    exact ⟨[], by rw [topClauses, if_pos hend], Clause.allBuild_nil true⟩
  | cons s rest ih =>
    simp only [Stmt.everywhereAll, Bool.and_eq_true] at hclear
    obtain ⟨m, rfl⟩ : ∃ m, n = m + 1 := ⟨n - 1, by omega⟩
    have hstarts : Starts OpensStatement _ (s.line extra 0 (gap ++ (indentation 0).toList)) := Stmt.line_starts 0 h.1 _
    have hlength := hstarts.length_pos
    rw [Stmt.lines_cons, List.append_assoc] at hc hn
    have hending : (Lexeme.ending gap').kind ≠ .mark := by simp [Lexeme.ending]
    obtain ⟨cl, c₁, hclause, hc₁, hbuild⟩ := readsStatement o 0 h.1 hclear.1 hc (n := m) (by omega)
      (not_else_lines 0 h.2 (headIs_of_kind hending [])) .top rfl
    rw [List.length_append] at hn
    obtain ⟨cs, hclauses, hbuildRest⟩ := ih h.2 hclear.2 hc₁ (n := m) (by omega)
    refine ⟨cl :: cs, ?_, Clause.allBuild_cons hbuild hbuildRest⟩
    rw [topClauses, if_neg (by simp [isEnd_of_statement hstarts hc]), hclause]
    simp [hclauses, bind, Except.bind]

end Primer.Source
