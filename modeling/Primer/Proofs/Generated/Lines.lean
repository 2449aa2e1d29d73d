import Std.Data.String.ToNat
import Primer.Proofs.Generated.Expression

/-!
# Lines of generated statements

A text is that of some lines if the lexemes of the statements in them are those of the text (`Stmt.Spelled`). The
statements that are made with the loops from `lo` up to `hi` mention no counters but those of these loops, and each
loop counts with its own (`Stmt.AreLines`). There is one lemma for each kind of statement.
-/

set_option autoImplicit false

namespace Primer

open Source (IsIdentifier Lexeme render)
open Layout

/-! ## Names with numbers -/

/-- The letters before the numbers in names. -/
def nameLetters : List Char := ['f', 'i', 'p', 'w']

/-- A name that is a letter with a number behind it. -/
def numbered (letter : Char) (n : Nat) : String := String.singleton letter ++ toString n

/-- A numbered name is its letter and the digits of its number. -/
theorem numbered_toList (letter : Char) (n : Nat) : (numbered letter n).toList = letter :: Nat.toDigits 10 n := by
  rw [numbered, String.toList_append, String.toList_singleton, Nat.toString_eq_repr, Nat.toList_repr]
  rfl

/-- A numbered name has one letter and one number. -/
theorem numbered_inj {letter letter' : Char} {n n' : Nat} (h : numbered letter n = numbered letter' n') :
    letter = letter' ∧ n = n' := by
  have hchars := congrArg String.toList h
  rw [numbered_toList, numbered_toList] at hchars
  obtain ⟨hletter, hdigits⟩ := List.cons.inj hchars
  refine ⟨hletter, Nat.repr_inj.mp (String.toList_inj.mp ?_)⟩
  rw [Nat.toList_repr, Nat.toList_repr, hdigits]

/-- A letter with a number behind it is no word that is kept for something else. -/
theorem isIdentifier_numbered {letter : Char} (hletter : letter ∈ nameLetters) (n : Nat) :
    IsIdentifier (numbered letter n) := by
  have hdigit : ∀ c ∈ Nat.toDigits 10 n, c.isDigit = true := fun c => Nat.isDigit_of_mem_toDigits (by decide) (by decide)
  obtain ⟨c, cs, hcons⟩ := List.exists_cons_of_ne_nil (Nat.toDigits_ne_nil : Nat.toDigits 10 n ≠ [])
  constructor
  · have hstart : ∀ l ∈ nameLetters, Source.isWordStart l = true ∧ Source.isPlainPart l = true :=
      Source.forall_of_all (by decide)
    rw [numbered_toList, Source.isPlainWord, List.all_cons, (hstart letter hletter).1, (hstart letter hletter).2]
    simp only [Bool.true_and, List.all_eq_true]
    intro c hc
    have hc := hdigit c hc
    have hplain : c ≠ '\\' := Source.ne_of_isDigit hc (by decide)
    simp [Source.isPlainPart, Source.isWordPart, Text.continuesWord, (Source.isAscii_of_isDigit hc).1, Char.isAlphanum, hc,
      hplain]
  · -- Behind its first character, no other word has a digit.
    have hother : ∀ word ∈ "true" :: "false" :: "null" :: (Source.reservedWords ++ Source.keywords),
        (word.toList[1]?).all Char.isDigit = false := by decide +kernel
    have hne : ∀ word ∈ "true" :: "false" :: "null" :: (Source.reservedWords ++ Source.keywords),
        numbered letter n ≠ word := by
      rintro word hword rfl
      have hword := hother _ hword
      rw [numbered_toList, hcons] at hword
      simp [hdigit c (by rw [hcons]; exact List.mem_cons_self)] at hword
    simp only [List.mem_cons, List.mem_append] at hne
    have hreserved : numbered letter n ∉ Source.reservedWords := fun h => hne _ (by simp [h]) rfl
    have hkeyword : numbered letter n ∉ Source.keywords := fun h => hne _ (by simp [h]) rfl
    simp [Source.wordKind, hne "true" (by simp), hne "false" (by simp), hne "null" (by simp), hreserved, hkeyword]

/-! ## Counters -/

/-- The counters of the loops with the numbers from `lo` up to `hi`. -/
def IsCounter (lo hi : Nat) (x : String) : Prop := ∃ k, lo ≤ k ∧ k < hi ∧ (x = numbered 'i' k ∨ x = numbered 'w' k)

/-- The names in statements that make the loops with these numbers. -/
def Mentioned (lo hi : Nat) (x : String) : Prop := NoCounter x ∨ IsCounter lo hi x

section Counters

variable {lo hi lo' hi' : Nat} {x : String}

/-- A counter of a range is one of each wider range. -/
theorem IsCounter.mono (hlo : lo' ≤ lo) (hhi : hi ≤ hi') (h : IsCounter lo hi x) : IsCounter lo' hi' x := by
  obtain ⟨k, hk, hk', hx⟩ := h
  exact ⟨k, by omega, by omega, hx⟩

/-- What may be mentioned in a range may be in each wider one. -/
theorem Mentioned.mono (hlo : lo' ≤ lo) (hhi : hi ≤ hi') (h : Mentioned lo hi x) : Mentioned lo' hi' x :=
  h.imp_right (.mono hlo hhi)

/-- A counter is a counter. -/
theorem IsCounter.not_noCounter (h : IsCounter lo hi x) : ¬ NoCounter x := by
  obtain ⟨k, -, -, rfl | rfl⟩ := h
  · exact fun hno => hno.1 (by rw [numbered_toList]; rfl)
  · exact fun hno => hno.2 (by rw [numbered_toList]; rfl)

/-- Statements do not mention the counters of loops that have been made before or after them. -/
theorem IsCounter.not_mentioned (h : IsCounter lo hi x) (hle : hi ≤ lo' ∨ hi' ≤ lo) : ¬ Mentioned lo' hi' x := by
  rintro (hno | ⟨k', hlo, hhi, hx'⟩)
  · exact h.not_noCounter hno
  · obtain ⟨k, hk, hk', hx⟩ := h
    have heq : k = k' := by
      rcases hx with rfl | rfl <;> rcases hx' with hx' | hx' <;> exact (numbered_inj hx').2
    omega

end Counters

/-! ## Statements and the code of their lines -/

/-- Two bodies in a row have counted loops if both have. -/
theorem Stmt.allCounted_append {own : String → Prop} {last : Option Stmt} {body rest : List Stmt}
    (hbody : Stmt.AllCounted own last body) (hrest : ∀ last, Stmt.AllCounted own last rest) :
    Stmt.AllCounted own last (body ++ rest) := by
  induction body generalizing last with
  | nil => exact hrest last
  | cons s body ih => exact ⟨hbody.1, ih hbody.2⟩

/-- Two bodies in a row keep to some names if both do. -/
theorem Stmt.allWithin_append {N : String → Prop} {B : List Stmt → Prop} {body rest : List Stmt}
    (hbody : Stmt.AllWithin N B body) (hrest : Stmt.AllWithin N B rest) : Stmt.AllWithin N B (body ++ rest) := by
  induction body with
  | nil => exact hrest
  | cons s body ih => exact ⟨hbody.1, ih hbody.2⟩

/-- A condition holds everywhere in two bodies in a row if it does in both. -/
theorem Stmt.everywhereAll_append {p : Expr → Bool} {q : String → Bool} (body rest : List Stmt) :
    Stmt.everywhereAll p q (body ++ rest) = (Stmt.everywhereAll p q body && Stmt.everywhereAll p q rest) := by
  induction body with
  | nil => rfl
  | cons s body ih => simp only [List.cons_append, Stmt.everywhereAll, ih, Bool.and_assoc]

/-- The lines of two bodies in a row stand below each other. -/
theorem Stmt.lines_append {extra : Info → Nat} (depth : Nat) (body rest : List Stmt) :
    Stmt.lines extra depth (body ++ rest) ['\n'] =
      Stmt.lines extra depth body ['\n'] ++ Stmt.lines extra depth rest ['\n'] := by
  induction body with
  | nil => rfl
  | cons s body ih => rw [List.cons_append, Stmt.lines_cons, ih, Stmt.lines_cons, List.append_assoc]

/-- The lines of two bodies in a row start in the gap of the first, unless it is empty. -/
theorem Stmt.lines_append_of_ne_nil {extra : Info → Nat} (depth : Nat) {body : List Stmt} (h : body ≠ []) (rest : List Stmt)
    (gap : List Char) : Stmt.lines extra depth (body ++ rest) gap =
      Stmt.lines extra depth body gap ++ Stmt.lines extra depth rest ['\n'] := by
  obtain ⟨s, body, rfl⟩ := List.exists_cons_of_ne_nil h
  rw [List.cons_append, Stmt.lines_cons, Stmt.lines_append, Stmt.lines_cons, List.append_assoc]

/-- A text is that of the lines of some statements, which can be read where they stand. -/
structure Stmt.Spelled (inFunction top : Bool) (depth : Nat) (body : List Stmt) (text : String) : Prop where
  read : Stmt.AllRead inFunction top body
  clear : Stmt.everywhereAll Expr.isClear (fun _ => true) body = true
  renders : render (Stmt.lines Info.id depth body ['\n']) ++ ['\n'] = ['\n'] ++ text.toList

/-- The generator indents as canonical code does. -/
theorem Generator.indent_eq (level : Nat) : Generator.indent level = indentation level := by
  apply String.toList_inj.mp
  rw [Generator.indent, indentation, String.toList_ofList]
  induction level with
  | zero => rfl
  | succ level ih =>
    rw [List.replicate_succ, String.join_cons, String.toList_append, ih]
    simp [Nat.mul_succ, List.replicate_succ]

/-- One level more is two spaces more. -/
theorem Generator.indent_succ (level : Nat) : Generator.indent (level + 1) = Generator.indent level ++ "  " := by
  apply String.toList_inj.mp
  rw [Generator.indent_eq, Generator.indent_eq, String.toList_append, indentation, indentation, String.toList_ofList,
    String.toList_ofList, Nat.mul_succ, ← List.replicate_append_replicate]
  rfl

section Spelled

variable {inFunction top : Bool} {depth : Nat} {body body' : List Stmt} {text text' : String}

/-- No text spells no statements. -/
theorem Stmt.Spelled.nil : Stmt.Spelled inFunction top depth [] "" := ⟨trivial, rfl, rfl⟩

/-- Two texts in a row spell two bodies in a row. -/
theorem Stmt.Spelled.append (h : Stmt.Spelled inFunction top depth body text)
    (h' : Stmt.Spelled inFunction top depth body' text') :
    Stmt.Spelled inFunction top depth (body ++ body') (text ++ text') where
  read := Stmt.allRead_append h.read h'.read
  clear := by rw [Stmt.everywhereAll_append, h.clear, h'.clear]; rfl
  renders := by
    rw [Stmt.lines_append, Source.render_append, List.append_assoc, h'.renders, ← List.append_assoc, h.renders]
    simp

/-- The line of one statement. -/
theorem Stmt.Spelled.line {s : Stmt} {code : String} (hread : s.IsRead inFunction top)
    (hclear : s.everywhere Expr.isClear (fun _ => true) = true) (hrenders : (s.layout Info.id depth).Renders code)
    (htext : text = Generator.indent depth ++ code ++ if s.isBlock then "\n" else ";\n") :
    Stmt.Spelled inFunction top depth [s] text where
  read := ⟨hread, trivial⟩
  clear := by rw [Stmt.everywhereAll, hclear]; rfl
  renders := by
    rw [Stmt.lines_cons, Stmt.line, htext, Generator.indent_eq]
    cases hblock : s.isBlock <;> simp [hrenders _, Stmt.lines]

end Spelled

/-! ## Lines of statements with loops -/

/-- Statements whose lines are a text and that make the loops from `lo` up to `hi`. -/
structure Stmt.AreLines (lo hi depth : Nat) (body : List Stmt) (text : String) : Prop where
  spelled : ∀ inFunction top, Stmt.Spelled inFunction top depth body text
  within : Stmt.AllWithin (Mentioned lo hi) (fun _ => False) body
  counted : ∀ own : String → Prop, (∀ x, IsCounter lo hi x → own x) → ∀ last, Stmt.AllCounted own last body

/-- A text is that of the lines of some statements that make the loops from `lo` up to `hi`. -/
def IsLines (depth lo : Nat) (text : String) (hi : Nat) : Prop :=
  lo ≤ hi ∧ ∃ body, Stmt.AreLines lo hi depth body text

/-- A body that keeps to some names keeps to more of them. -/
theorem Stmt.allWithin_mono {N N' : String → Prop} {B B' : List Stmt → Prop} (hN : ∀ x, N x → N' x)
    (hB : ∀ b, B b → B' b) {body : List Stmt} (h : Stmt.AllWithin N B body) : Stmt.AllWithin N' B' body :=
  Stmt.allWithin_join (fun x hx _ => hN x hx) (fun b hb _ => hB b hb) body h h

section Lines

variable {depth lo mid hi : Nat} {text text' : String}

/-- No text is the lines of an empty body. -/
theorem IsLines.nil : IsLines depth lo "" lo := ⟨Nat.le_refl lo, [], fun _ _ => .nil, trivial, fun _ _ _ => trivial⟩

/-- Lines below each other are lines. -/
theorem IsLines.append (h : IsLines depth lo text mid) (h' : IsLines depth mid text' hi) :
    IsLines depth lo (text ++ text') hi := by
  obtain ⟨hlo, body, hbody⟩ := h
  obtain ⟨hhi, body', hbody'⟩ := h'
  refine ⟨Nat.le_trans hlo hhi, body ++ body', ?_, ?_, ?_⟩
  · intro inFunction top
    exact (hbody.spelled inFunction top).append (hbody'.spelled inFunction top)
  · exact Stmt.allWithin_append (Stmt.allWithin_mono (fun _ => .mono (Nat.le_refl lo) hhi) (fun _ => id) hbody.within)
      (Stmt.allWithin_mono (fun _ => .mono hlo (Nat.le_refl hi)) (fun _ => id) hbody'.within)
  · intro own hown last
    exact Stmt.allCounted_append (hbody.counted own (fun x hx => hown x (hx.mono (Nat.le_refl lo) hhi)) last)
      (hbody'.counted own fun x hx => hown x (hx.mono hlo (Nat.le_refl hi)))

/-! ### Statements without blocks -/

/-- The line of a statement that is an expression. -/
theorem IsLines.simple {s : Stmt} {code : String} (hkind : s.isSimple = true) (hread : ∀ inFunction top, s.IsRead inFunction top)
    (hclear : s.everywhere Expr.isClear (fun _ => true) = true) (hwithin : s.Within NoCounter fun _ => False)
    (hrenders : (s.layout Info.id depth).Renders code) (htext : text = Generator.indent depth ++ code ++ ";\n") :
    IsLines depth lo text lo := by
  have hline : s.isBlock = false ∧ ∀ own last, s.Counted own last := by
    cases s <;> first | exact ⟨rfl, fun _ _ => trivial⟩ | cases hkind
  refine ⟨Nat.le_refl lo, [s], ?_, ?_, ?_⟩
  · intro inFunction top
    refine .line (hread _ _) hclear hrenders ?_
    rw [hline.1]
    exact htext
  · exact Stmt.allWithin_mono (fun _ => .inl) (fun _ => id) ⟨hwithin, trivial⟩
  · intro own _ last
    exact ⟨hline.2 own last, trivial⟩

/-- An expression without a number has no parentheses of its own. -/
theorem Expr.whole_of_bare {e : Expr} (h : e.info.id = 0) : e.whole Info.id = e.layout Info.id := by
  rw [Expr.whole, e.pairs_false, h]
  rfl

/-- An assignment to something that is no counter is a line. -/
theorem IsLines.assign {target symbol value : String} (htarget : IsTargetText NoCounter target)
    (hsymbol : symbol ∈ Source.subsetAssign) (hvalue : ∃ e : Expr, e.Written NoCounter value)
    (htext : text = Generator.indent depth ++ (target ++ " " ++ symbol ++ " " ++ value) ++ ";\n") :
    IsLines depth lo text lo := by
  obtain ⟨place, hplace, hid, htarget⟩ := htarget
  obtain ⟨e, he⟩ := hvalue
  have hrenders := htarget.renders
  rw [Expr.whole_of_bare hid] at hrenders
  have hclear : (Stmt.assign ⟨.blank, place, symbol, e⟩).everywhere Expr.isClear (fun _ => true) = true := by
    simp only [Stmt.everywhere, Assignment.everywhere, htarget.clear, he.clear, Bool.and_self]
  exact .simple (s := .assign ⟨.blank, place, symbol, e⟩) rfl (fun _ _ => ⟨hsymbol, hplace, htarget.read, he.read⟩) hclear
    ⟨htarget.within, he.within⟩ (Assignment.render_layout hrenders he.renders) htext

/-- A plain assignment to something that is no counter is a line. -/
theorem IsLines.store {target value : String} (htarget : IsTargetText NoCounter target)
    (hvalue : ∃ e : Expr, e.Written NoCounter value)
    (htext : text = Generator.indent depth ++ (target ++ " = " ++ value) ++ ";\n") : IsLines depth lo text lo := by
  have hsymbol : "=" ∈ Source.subsetAssign := by decide
  refine .assign htarget hsymbol hvalue ?_
  rw [htext, show " = " = " " ++ "=" ++ " " from rfl]
  simp only [String.append_assoc]

/-- An increment or decrement of something that is no counter is a line. -/
theorem IsLines.bump {target symbol : String} (htarget : IsTargetText NoCounter target) (hsymbol : symbol ∈ ["++", "--"])
    (htext : text = Generator.indent depth ++ (target ++ symbol) ++ ";\n") : IsLines depth lo text lo := by
  obtain ⟨place, hplace, hid, htarget⟩ := htarget
  have hrenders := htarget.renders
  rw [Expr.whole_of_bare hid] at hrenders
  refine .simple (s := .bump .blank place symbol) rfl (fun _ _ => ⟨hplace, htarget.read, hsymbol⟩) htarget.clear
    htarget.within ?_ htext
  intro gap
  simp [Stmt.layout, hrenders gap]

/-- A call is a line. -/
theorem IsLines.call {call : String} (h : IsCallText NoCounter call)
    (htext : text = Generator.indent depth ++ call ++ ";\n") : IsLines depth lo text lo := by
  obtain ⟨callee, arguments, hcall⟩ := h
  exact .simple (s := .call .blank ⟨.blank, callee, arguments⟩) rfl (fun _ _ => hcall.read) hcall.clear hcall.within
    hcall.renders htext

/-! ### Conditionals -/

/-- What hangs below a conditional: its code stands before the brace that closes the conditional. -/
structure Stmt.IsBranch (lo hi depth : Nat) (branch : Option Stmt) (text : String) : Prop where
  read : ∀ inFunction, Stmt.IsReadBranch inFunction branch
  clear : Stmt.everywhereIn Expr.isClear (fun _ => true) branch = true
  renders : (Generator.indent depth).toList ++ '\x7d' :: render (Stmt.branchLayout Info.id depth branch) =
    text.toList ++ (Generator.indent depth).toList ++ ['\x7d']
  within : Stmt.PartWithin (Mentioned lo hi) (fun _ => False) branch
  counted : ∀ own : String → Prop, (∀ x, IsCounter lo hi x → own x) → Stmt.BranchCounted own branch

/-- A text is that of what hangs below a conditional, with the loops from `lo` up to `hi`. -/
def IsBranch (depth lo : Nat) (text : String) (hi : Nat) : Prop :=
  lo ≤ hi ∧ ∃ branch, Stmt.IsBranch lo hi depth branch text

/-- A condition may have no other branch. -/
theorem IsBranch.none : IsBranch depth lo "" lo :=
  ⟨Nat.le_refl lo, .none, fun _ => trivial, rfl, by simp [Stmt.branchLayout], trivial, fun _ _ => trivial⟩

/-- An `else` is a branch if its body is lines. -/
theorem IsBranch.orElse {body : String} (hbody : IsLines (depth + 1) lo body hi)
    (htext : text = Generator.indent depth ++ "\x7d else \x7b\n" ++ body) : IsBranch depth lo text hi := by
  obtain ⟨hle, stmts, hbody⟩ := hbody
  have hblock := render_block (hbody.spelled false false).renders depth
  refine ⟨hle, some (.orElse .blank stmts), fun inFunction => (hbody.spelled inFunction false).read,
    (hbody.spelled false false).clear, ?_, hbody.within, fun own hown => hbody.counted own hown Option.none⟩
  simp [Stmt.branchLayout, hblock, htext, braced, Generator.indent_eq]

/-- An `else if` is a branch if its body is lines. -/
theorem IsBranch.elseIf {test body : String} (htest : ∃ e : Expr, e.Written NoCounter test)
    (hbody : IsLines (depth + 1) lo body hi)
    (htext : text = Generator.indent depth ++ "\x7d else if (" ++ test ++ ") \x7b\n" ++ body) :
    IsBranch depth lo text hi := by
  obtain ⟨e, he⟩ := htest
  obtain ⟨hle, stmts, hbody⟩ := hbody
  have hblock := render_block (hbody.spelled false false).renders depth
  have hclear : Stmt.everywhereIn Expr.isClear (fun _ => true) (some (.elseIf .blank .blank e stmts Option.none)) = true := by
    simp only [Stmt.everywhereIn, Stmt.everywhere, he.clear, (hbody.spelled false false).clear, Bool.and_self]
  refine ⟨hle, some (.elseIf .blank .blank e stmts Option.none),
    fun inFunction => ⟨he.read, (hbody.spelled inFunction false).read, trivial⟩, hclear, ?_,
    ⟨e.within_join (fun _ hx _ => .inl hx) he.within he.within, hbody.within, trivial⟩,
    fun own hown => ⟨hbody.counted own hown Option.none, trivial⟩⟩
  simp [Stmt.branchLayout, render_guarded he.renders, hblock, htext, braced, Generator.indent_eq]

/-- An `if` is lines if its body and its other branch are. -/
theorem IsLines.cond {test body others : String} (htest : ∃ e : Expr, e.Written NoCounter test)
    (hbody : IsLines (depth + 1) lo body mid) (hothers : IsBranch depth mid others hi)
    (htext : text = Generator.indent depth ++ "if (" ++ test ++ ") \x7b\n" ++ body ++ others ++ Generator.indent depth ++
      "\x7d\n") : IsLines depth lo text hi := by
  obtain ⟨e, he⟩ := htest
  obtain ⟨hlo, stmts, hbody⟩ := hbody
  obtain ⟨hhi, branch, hbranch⟩ := hothers
  have hblock := render_block (hbody.spelled false false).renders depth
  have hclear : (Stmt.cond .blank e stmts branch).everywhere Expr.isClear (fun _ => true) = true := by
    simp only [Stmt.everywhere, he.clear, (hbody.spelled false false).clear, hbranch.clear, Bool.and_self]
  have hrenders : ((Stmt.cond .blank e stmts branch).layout Info.id depth).Renders
      ("if (" ++ test ++ ") \x7b\n" ++ body ++ others ++ Generator.indent depth ++ "\x7d") := by
    intro gap
    have hclosing := hbranch.renders
    rw [Generator.indent_eq] at hclosing
    simp [Stmt.layout, render_guarded he.renders, hblock, braced, Generator.indent_eq, hclosing]
  refine ⟨Nat.le_trans hlo hhi, [.cond .blank e stmts branch], ?_, ⟨⟨?_, ?_, ?_⟩, trivial⟩, ?_⟩
  · intro inFunction top
    refine .line ⟨he.read, (hbody.spelled _ _).read, hbranch.read _⟩ hclear hrenders ?_
    rw [htext]
    simp [Stmt.isBlock, String.append_assoc]
  · exact e.within_join (fun _ hx _ => .inl hx) he.within he.within
  · exact Stmt.allWithin_mono (fun _ => .mono (Nat.le_refl lo) hhi) (fun _ => id) hbody.within
  · exact Stmt.partWithin_join (fun _ hx _ => .mono hlo (Nat.le_refl hi) hx) (fun _ hb _ => hb) branch hbranch.within
      hbranch.within
  · intro own hown last
    refine ⟨⟨?_, ?_⟩, trivial⟩
    · exact hbody.counted own (fun x hx => hown x (hx.mono (Nat.le_refl lo) hhi)) Option.none
    · apply hbranch.counted own
      intro x hx
      exact hown x (hx.mono hlo (Nat.le_refl hi))

end Lines

/-! ## Loops -/

/-- The statement that starts a counter. -/
def Stmt.starting (x : String) (n : Nat) : Stmt :=
  .var .blank [⟨.blank, x, some ⟨.blank, .name .blank x, "=",
    .number .blank (Source.numberValue (toString n)) (toString n)⟩⟩]

/-- The comparison of a counter with a number. -/
def Expr.comparing (x symbol : String) (n : Nat) : Expr :=
  .binary .blank (.name .blank x) symbol (.number .blank (Source.numberValue (toString n)) (toString n))

/-- The step of a counter. -/
def Stmt.moving (x symbol : String) : Stmt := .bump .blank (.name .blank x) symbol

/-- A small number is read back from its digits. -/
theorem numberValue_small : ∀ n ≤ countLimit, Source.numberValue (toString n) = Float.ofNat n := by decide +kernel

section Counter

variable {x symbol : String} {n : Nat}

/-- The comparison of a counter is written as generated. -/
theorem Expr.comparing_written {N : String → Prop} (hx : IsIdentifier x) (hN : N x)
    (hsymbol : symbol ∈ Source.subsetBinary) (hn : n ≤ countLimit) :
    (Expr.comparing x symbol n).Written N (x ++ " " ++ symbol ++ " " ++ toString n) := by
  have hname := operand_name hx hN
  have hsum : (Expr.name .blank x).IsSum := ⟨Nat.le_trans (by decide) hname.held, rfl⟩
  have hsmall : n < 20 := Nat.lt_of_le_of_lt hn (by decide)
  exact hname.attach hsymbol (fun _ => hsum) ((operand_number (isNumeral_small hsmall)).weaken (by decide))

/-- The comparison of a counter compares it. -/
theorem Expr.comparing_compares (hn : n ≤ countLimit) : (Expr.comparing x symbol n).ComparesCounter x symbol n :=
  ⟨rfl, rfl, numberValue_small n hn⟩

/-- The start of a counter is a statement that a reader can give. -/
theorem Stmt.starting_read (hx : IsIdentifier x) (hn : n ≤ countLimit) (inFunction top : Bool) :
    (Stmt.starting x n).IsRead inFunction top := by
  refine ⟨List.cons_ne_nil _ _, List.forall_mem_singleton.mpr ⟨hx, ?_⟩⟩
  rintro _ ⟨⟩
  exact ⟨⟨_, rfl⟩, rfl, isNumeral_small (Nat.lt_of_le_of_lt hn (by decide)), rfl⟩

/-- The start of a counter starts it. -/
theorem Stmt.starting_starts (hn : n ≤ countLimit) : (Stmt.starting x n).StartsCounter x n :=
  ⟨rfl, rfl, rfl, numberValue_small n hn⟩

/-- The start of a counter names only the counter. -/
theorem Stmt.starting_within {N : String → Prop} {B : List Stmt → Prop} (hN : N x) : (Stmt.starting x n).Within N B := by
  refine List.forall_mem_singleton.mpr ⟨hN, ?_⟩
  rintro _ ⟨⟩
  exact ⟨hN, trivial⟩

/-- The start of a counter is written as generated. -/
theorem Stmt.starting_renders (depth : Nat) :
    ((Stmt.starting x n).layout Info.id depth).Renders ("var " ++ x ++ " = " ++ toString n) := by
  intro gap
  let value : Expr := .number .blank (Source.numberValue (toString n)) (toString n)
  have hvalue : (value.whole Info.id).Renders (toString n) := by
    rw [Expr.whole_of_bare rfl]
    exact fun gap => by simp [value, Expr.layout]
  have hassigned : (Assignment.layout Info.id ⟨.blank, .name .blank x, "=", value⟩).Renders
      (x ++ " " ++ "=" ++ " " ++ toString n) := Assignment.render_layout (renders_word x) hvalue
  show render (.mark gap "var" :: Assignment.layout Info.id ⟨.blank, .name .blank x, "=", value⟩ [' ']) = _
  rw [Source.render_cons, hassigned]
  simp

/-- The move of a counter is a statement that a reader can give. -/
theorem Stmt.moving_read (hx : IsIdentifier x) (hsymbol : symbol ∈ ["++", "--"]) (inFunction top : Bool) :
    (Stmt.moving x symbol).IsRead inFunction top := ⟨rfl, hx, hsymbol⟩

/-- The move of a counter is written as generated. -/
theorem Stmt.moving_renders (depth : Nat) : ((Stmt.moving x symbol).layout Info.id depth).Renders (x ++ symbol) :=
  fun gap => by simp [Stmt.moving, Stmt.layout, Expr.layout, renders_word x gap]

/-- A body that avoids its counter lowers it with a decrement at the end. -/
theorem Stmt.lowersCounter_append {body : List Stmt} (hbody : Stmt.AllAvoid x body) {s : Stmt}
    (hs : s.MovesCounter x "--") : Stmt.LowersCounter x (body ++ [s]) := by
  induction body with
  | nil => exact hs
  | cons s' body ih =>
    obtain ⟨s'', rest, hcons⟩ := List.exists_cons_of_ne_nil (List.append_ne_nil_of_right_ne_nil body (List.cons_ne_nil s []))
    have hrest := ih hbody.2
    rw [List.cons_append]
    rw [hcons] at hrest ⊢
    exact ⟨hbody.1, hrest⟩

end Counter

section Lines

variable {depth lo hi n : Nat} {text body : String}

/-- Statements that are made with later loops do not mention a counter. -/
theorem Stmt.AreLines.avoid {stmts : List Stmt} (h : Stmt.AreLines (lo + 1) hi depth stmts text) {x : String}
    (hx : IsCounter lo (lo + 1) x) : Stmt.AllAvoid x stmts := by
  refine Stmt.allWithin_mono ?_ (fun _ _ => trivial) h.within
  intro y hy
  rintro rfl
  exact hx.not_mentioned (.inl (Nat.le_refl _)) hy

/-- A loop that counts up to a bound. -/
theorem IsLines.countUp {x : String} (hx : x = numbered 'i' lo) (hn : n ≤ countLimit)
    (hbody : IsLines (depth + 1) (lo + 1) body hi)
    (htext : text = Generator.indent depth ++ "for (var " ++ x ++ " = 0; " ++ x ++ " < " ++ toString n ++ "; " ++ x ++
      "++) \x7b\n" ++ body ++ Generator.indent depth ++ "\x7d\n") : IsLines depth lo text hi := by
  obtain ⟨hle, stmts, hbody⟩ := hbody
  have hidentifier : IsIdentifier x := hx ▸ isIdentifier_numbered (by decide) lo
  have hfirst : IsCounter lo (lo + 1) x := ⟨lo, Nat.le_refl lo, Nat.lt_succ_self lo, .inl hx⟩
  have hcounter : IsCounter lo hi x := hfirst.mono (Nat.le_refl lo) hle
  have htest : (Expr.comparing x "<" n).Written (Mentioned lo hi) _ :=
    Expr.comparing_written hidentifier (.inr hcounter) (by decide) hn
  have hblock := render_block (hbody.spelled false false).renders depth
  let loop : Stmt := .for .blank (some (.starting x 0)) (.comparing x "<" n) (some (.moving x "++")) stmts
  have hclear : loop.everywhere Expr.isClear (fun _ => true) = true := by
    simp only [loop, Stmt.everywhere, Stmt.everywhereIn, htest.clear, (hbody.spelled false false).clear]
    rfl
  have hrenders : (loop.layout Info.id depth).Renders ("for (var " ++ x ++ " = 0; " ++ x ++ " < " ++ toString n ++ "; " ++
      x ++ "++) \x7b\n" ++ body ++ Generator.indent depth ++ "\x7d") := by
    intro gap
    have hstart : ((Stmt.starting x 0).layout Info.id 0).Renders ("var " ++ x ++ " = " ++ toString 0) :=
      Stmt.starting_renders 0
    simp [loop, Stmt.layout, Stmt.headerLayout, Stmt.updateLayout, hstart [], htest.renders [' '],
      Stmt.moving_renders 0 [' '], hblock, braced, Generator.indent_eq]
  refine ⟨Nat.le_of_succ_le hle, [loop], ?_, ⟨⟨?_, htest.within, .inr hcounter, ?_⟩, trivial⟩, ?_⟩
  · intro inFunction top
    refine .line ⟨⟨rfl, Stmt.starting_read hidentifier (Nat.zero_le _) _ _⟩, htest.read,
      ⟨rfl, Stmt.moving_read hidentifier (by decide) _ _⟩, (hbody.spelled _ _).read⟩ hclear hrenders ?_
    rw [htext]
    simp [loop, Stmt.isBlock, String.append_assoc]
  · exact Stmt.starting_within (B := fun _ => False) (.inr hcounter)
  · exact Stmt.allWithin_mono (fun _ => .mono (Nat.le_succ lo) (Nat.le_refl hi)) (fun _ => id) hbody.within
  · intro own hown last
    refine ⟨⟨⟨x, n, hown x hcounter, hn, ?_, ?_, ?_, hbody.avoid hfirst⟩, ?_⟩, trivial⟩
    · exact ⟨_, rfl, Stmt.starting_starts (Nat.zero_le _)⟩
    · exact Expr.comparing_compares hn
    · exact ⟨_, rfl, rfl, rfl⟩
    · exact hbody.counted own (fun x hx => hown x (hx.mono (Nat.le_succ lo) (Nat.le_refl hi))) none

/-- A loop that counts down to zero, behind the statement that starts its counter. -/
theorem IsLines.countDown {x : String} (hx : x = numbered 'w' lo) (hn : n ≤ countLimit)
    (hbody : IsLines (depth + 1) (lo + 1) body hi)
    (htext : text = Generator.indent depth ++ "var " ++ x ++ " = " ++ toString n ++ ";\n" ++ Generator.indent depth ++
      "while (" ++ x ++ " > 0) \x7b\n" ++ body ++ Generator.indent depth ++ "  " ++ x ++ "--;\n" ++
      Generator.indent depth ++ "\x7d\n") : IsLines depth lo text hi := by
  obtain ⟨hle, stmts, hbody⟩ := hbody
  have hidentifier : IsIdentifier x := hx ▸ isIdentifier_numbered (by decide) lo
  have hfirst : IsCounter lo (lo + 1) x := ⟨lo, Nat.le_refl lo, Nat.lt_succ_self lo, .inr hx⟩
  have hcounter : IsCounter lo hi x := hfirst.mono (Nat.le_refl lo) hle
  have htest : (Expr.comparing x ">" 0).Written (Mentioned lo hi) _ :=
    Expr.comparing_written hidentifier (.inr hcounter) (by decide) (Nat.zero_le _)
  let step : String := Generator.indent (depth + 1) ++ (x ++ "--") ++ ";\n"
  have hinside (inFunction top : Bool) :
      Stmt.Spelled inFunction top (depth + 1) (stmts ++ [.moving x "--"]) (body ++ step) :=
    (hbody.spelled inFunction top).append
      (.line (Stmt.moving_read hidentifier (by decide) _ _) rfl (Stmt.moving_renders _) rfl)
  have hblock := render_block (hinside false false).renders depth
  let loop : Stmt := .while .blank (.comparing x ">" 0) (stmts ++ [.moving x "--"])
  have hclear : loop.everywhere Expr.isClear (fun _ => true) = true := by
    simp only [loop, Stmt.everywhere, htest.clear, (hinside false false).clear, Bool.and_self]
  have hrenders : (loop.layout Info.id depth).Renders ("while (" ++ x ++ " > 0) \x7b\n" ++ body ++ step ++
      Generator.indent depth ++ "\x7d") := by
    intro gap
    simp [loop, Stmt.layout, render_guarded htest.renders, hblock, braced, Generator.indent_eq]
  refine ⟨Nat.le_of_succ_le hle, [.starting x n, loop], ?_, ⟨Stmt.starting_within (.inr hcounter), ⟨htest.within, ?_⟩,
    trivial⟩, ?_⟩
  · intro inFunction top
    have hstart : Stmt.Spelled inFunction top depth [.starting x n] _ :=
      .line (Stmt.starting_read hidentifier hn _ _) rfl (Stmt.starting_renders depth) rfl
    have hloop : Stmt.Spelled inFunction top depth [loop] _ :=
      .line ⟨htest.read, (hinside _ _).read⟩ hclear hrenders rfl
    have hboth := hstart.append hloop
    refine (congrArg (Stmt.Spelled inFunction top depth [.starting x n, loop]) ?_).mpr hboth
    apply String.toList_inj.mp
    simp [htext, loop, step, Stmt.starting, Stmt.isBlock, Generator.indent_succ]
  · refine Stmt.allWithin_append ?_ ⟨.inr hcounter, trivial⟩
    exact Stmt.allWithin_mono (fun _ => .mono (Nat.le_succ lo) (Nat.le_refl hi)) (fun _ => id) hbody.within
  · intro own hown last
    refine ⟨trivial, ⟨⟨x, n, hown x hcounter, hn, ?_, ?_, ?_⟩, ?_⟩, trivial⟩
    · exact ⟨_, rfl, Stmt.starting_starts hn⟩
    · exact Expr.comparing_compares (Nat.zero_le _)
    · exact Stmt.lowersCounter_append (hbody.avoid hfirst) ⟨rfl, rfl⟩
    · refine Stmt.allCounted_append ?_ fun _ => ⟨trivial, trivial⟩
      exact hbody.counted own (fun x hx => hown x (hx.mono (Nat.le_succ lo) (Nat.le_refl hi))) none

end Lines

end Primer
