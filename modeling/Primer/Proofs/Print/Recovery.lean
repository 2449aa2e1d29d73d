import Mathlib.Order.Filter.AtTopBot.Basic
import Primer.Proofs.Print.Rebuild

/-!
# Trees from their code

The tree of an expression of names can be read off its code. The reader (`readLevel`) knows the strengths of the
operators and groups to the left; nothing else says how an expression is built where the printer leaves parentheses out.
It is not the reader of sources, which takes two signs side by side for one mark.

What a text gives is said for every text behind it that does not continue it: a text is read as an operand and goes on
with what stands behind it (`ReadsOperand`), or as an expression of some strength (`Reads`). For each kind of expression
one lemma puts the texts of the parts together, and so the code of an expression is read as the expression
(`Expr.reads`). Two expressions with the same code are then the same tree (`Expr.code_eq_iff`).
-/

set_option autoImplicit false

namespace Primer

open Filter (atTop)
open Source (Next subsetBinary subsetUnary)

/-! ## Expressions of names -/

/-- The characters of canonical code that stand in no name. -/
def isCodeMark (c : Char) : Bool := [' ', '.', ',', '(', ')', '[', ']', '!', '+', '-'].contains c

/-- A name that canonical code can show; every identifier is one. -/
def IsCodeName (name : String) : Prop := name.toList ≠ [] ∧ name.toList.all (fun c => !isCodeMark c) = true

instance (name : String) : Decidable (IsCodeName name) := inferInstanceAs (Decidable (_ ∧ _))

mutual

/-- An expression that is built from names by the operators, members, elements, calls and arrays. -/
def Expr.OfNames : Expr → Prop
  | .name _ text => IsCodeName text
  | .member _ object property => object.OfNames ∧ IsCodeName property
  | .element _ base position => base.OfNames ∧ position.OfNames
  | .call _ callee arguments => callee.OfNames ∧ Expr.AllOfNames arguments
  | .array _ items => Expr.AllOfNames items
  | .binary _ left symbol right => symbol ∈ subsetBinary ∧ left.OfNames ∧ right.OfNames
  | .unary _ symbol operand => symbol ∈ subsetUnary ∧ operand.OfNames
  | .number .. | .string .. | .boolean .. | .null _ => False

/-- Several expressions of names. -/
def Expr.AllOfNames : List Expr → Prop
  | [] => True
  | e :: es => e.OfNames ∧ Expr.AllOfNames es

end

namespace Recovery

/-! ## The reader -/

/-- The name at the beginning of a text. -/
def nameOf (cs : List Char) : String := String.ofList (cs.takeWhile fun c => !isCodeMark c)

/-- What stands behind the name at the beginning of a text. -/
def behindName (cs : List Char) : List Char := cs.dropWhile fun c => !isCodeMark c

/-- The operator between two operands that a text begins with, and what stands behind it. -/
def operatorAhead : List Char → Option (String × List Char)
  | ' ' :: cs =>
    let symbol := String.ofList (cs.takeWhile (· != ' '))
    if subsetBinary.contains symbol then some (symbol, (cs.dropWhile (· != ' ')).drop 1) else none
  | _ => none

mutual

/-- Reads an operand with everything that is asked of it: members, elements and calls. -/
def readOperand : Nat → List Char → Option (Expr × List Char)
  | 0, _ => none
  | _ + 1, [] => none
  | n + 1, c :: cs =>
    if c = '(' then
      match readLevel n 1 cs with
      | some (e, ')' :: rest) => readSuffixes n e rest
      | _ => none
    else if c = '[' then
      match readItems n ']' cs with
      | some (es, rest) => readSuffixes n (.array .blank es) rest
      | none => none
    else if subsetUnary.contains (String.singleton c) then
      match readOperand n cs with
      | some (e, rest) => some (.unary .blank (String.singleton c) e, rest)
      | none => none
    else readSuffixes n (.name .blank (nameOf (c :: cs))) (behindName (c :: cs))

/-- Reads what is asked of an expression that has been read. -/
def readSuffixes : Nat → Expr → List Char → Option (Expr × List Char)
  | 0, _, _ => none
  | n + 1, e, '.' :: cs => readSuffixes n (.member .blank e (nameOf cs)) (behindName cs)
  | n + 1, e, '[' :: cs =>
    match readLevel n 1 cs with
    | some (i, ']' :: rest) => readSuffixes n (.element .blank e i) rest
    | _ => none
  | n + 1, e, '(' :: cs =>
    match readItems n ')' cs with
    | some (es, rest) => readSuffixes n (.call .blank e es) rest
    | none => none
  | _ + 1, e, cs => some (e, cs)

/-- Reads an expression whose operators bind at least as strongly as `p`. -/
def readLevel : Nat → Nat → List Char → Option (Expr × List Char)
  | 0, _, _ => none
  | n + 1, p, cs =>
    match readOperand n cs with
    | some (e, rest) => readTail n p e rest
    | none => none

/-- Reads the operators behind an expression, grouped to the left. -/
def readTail : Nat → Nat → Expr → List Char → Option (Expr × List Char)
  | 0, _, _, _ => none
  | n + 1, p, left, cs =>
    match operatorAhead cs with
    | none => some (left, cs)
    | some (symbol, rest) =>
      if p ≤ operatorStrength symbol then
        match readLevel n (operatorStrength symbol + 1) rest with
        | some (right, rest) => readTail n p (.binary .blank left symbol right) rest
        | none => none
      else some (left, cs)

/-- Reads expressions with commas between them, up to a bracket. -/
def readItems : Nat → Char → List Char → Option (List Expr × List Char)
  | 0, _, _ => none
  | _ + 1, _, [] => none
  | n + 1, close, c :: cs => if c = close then some ([], cs) else readSome n close (c :: cs)

/-- Reads at least one expression, and the others behind it, up to a bracket. -/
def readSome : Nat → Char → List Char → Option (List Expr × List Char)
  | 0, _, _ => none
  | n + 1, close, cs =>
    match readLevel n 1 cs with
    | some (e, c :: rest) =>
      if c = close then some ([e], rest)
      else if c = ',' then (readSome n close (rest.drop 1)).map fun r => (e :: r.1, r.2)
      else none
    | _ => none

end

/-! ## Results of the reader -/

/-- With enough steps a reader has a result. -/
def Settles {α : Type} (read : Nat → Option α) (r : α) : Prop := ∀ᶠ n in atTop, read n = some r

section Settling

variable {α β γ : Type} {f : Nat → Option α} {g : Nat → Option β} {read : Nat → Option γ} {x x' : α} {y : β} {r : γ}

/-- A reader settles if it does so with one more unit of fuel. -/
theorem settles_of_succ (h : ∀ᶠ n in atTop, read (n + 1) = some r) : Settles read r := by
  rw [Settles, ← Filter.map_add_atTop_eq_nat 1]
  exact h

/-- A reader settles if it gives its answer with any fuel at all. -/
theorem Settles.start (h : ∀ n, read (n + 1) = some r) : Settles read r :=
  settles_of_succ (.of_forall h)

/-- A reader settles if it gives its answer whenever another one does. -/
theorem Settles.step (h : Settles f x) (hstep : ∀ n, f n = some x → read (n + 1) = some r) : Settles read r :=
  settles_of_succ (h.mono hstep)

/-- A reader settles if it gives its answer whenever two others do. -/
theorem Settles.both (hf : Settles f x) (hg : Settles g y)
    (hstep : ∀ n, f n = some x → g n = some y → read (n + 1) = some r) : Settles read r :=
  settles_of_succ ((hf.and hg).mono fun n h => hstep n h.1 h.2)

/-- A reader settles on one answer at most. -/
theorem Settles.unique (h : Settles f x) (h' : Settles f x') : x = x' := by
  obtain ⟨n, hn, hn'⟩ := (Filter.Eventually.and h h').exists
  exact Option.some.inj (hn.symm.trans hn')

end Settling

/-! ## What may stand behind a text -/

variable {rest text : List Char} {e : Expr} {s : Nat}

/-- No name goes on here. -/
def EndsName (rest : List Char) : Prop := Next (fun c => isCodeMark c = true) rest

/-- Nothing is asked here of an operand. -/
def EndsOperand (rest : List Char) : Prop := Next (fun c => c ∈ [' ', ',', ')', ']']) rest

/-- An expression of a strength ends here, before operators that bind no stronger. -/
def EndsLevel (s : Nat) (rest : List Char) : Prop :=
  EndsOperand rest ∧ ∀ symbol after, operatorAhead rest = some (symbol, after) → operatorStrength symbol ≤ s

/-- A whole expression ends here. -/
def EndsWhole (rest : List Char) : Prop := Next (fun c => c ∈ [',', ')', ']']) rest

/-- What ends an operand ends a name. -/
theorem EndsOperand.endsName (h : EndsOperand rest) : EndsName rest := by
  have hmarks : ∀ c ∈ [' ', ',', ')', ']'], isCodeMark c = true := Source.forall_of_all (by decide)
  exact h.imp hmarks

/-- What ends a complete expression ends an operand. -/
theorem EndsWhole.endsOperand (h : EndsWhole rest) : EndsOperand rest := h.imp fun _ => List.mem_cons_of_mem ' '

/-- No operator stands where a complete expression ends. -/
theorem EndsWhole.operatorAhead (h : EndsWhole rest) : operatorAhead rest = none := by
  unfold Recovery.operatorAhead
  split
  · exact absurd h.of_cons (by decide)
  · rfl

/-- What ends a complete expression ends every level of operators. -/
theorem EndsWhole.endsLevel (h : EndsWhole rest) (s : Nat) : EndsLevel s rest := by
  refine ⟨h.endsOperand, ?_⟩
  rw [h.operatorAhead]
  nofun

/-- What ends a level ends each stronger one. -/
theorem EndsLevel.mono {s' : Nat} (hs : s ≤ s') (h : EndsLevel s rest) : EndsLevel s' rest :=
  ⟨h.1, fun symbol after hahead => (h.2 symbol after hahead).trans hs⟩

/-- An operator between spaces is seen. -/
theorem operatorAhead_operator {symbol : String} (h : symbol ∈ subsetBinary) (rest : List Char) :
    operatorAhead (' ' :: (symbol.toList ++ ' ' :: rest)) = some (symbol, rest) := by
  have hblank : ∀ t ∈ subsetBinary, t.toList.all (· != ' ') = true := by decide +kernel
  have hnext : Next (fun c => (c != ' ') = false) (' ' :: rest) := .cons (by decide)
  simp only [operatorAhead, Source.takeWhile_run (hblank symbol h) hnext, Source.dropWhile_run (hblank symbol h) hnext,
    String.ofList_toList, List.contains_iff_mem.mpr h, if_true, List.drop_one, List.tail_cons]

/-- An operator ends the levels that are no weaker. -/
theorem endsLevel_operator {symbol : String} (h : symbol ∈ subsetBinary) (hs : operatorStrength symbol ≤ s)
    (rest : List Char) : EndsLevel s (' ' :: (symbol.toList ++ ' ' :: rest)) := by
  refine ⟨.cons (by decide), ?_⟩
  rw [operatorAhead_operator h]
  rintro _ _ ⟨⟩
  exact hs

/-- No suffix is read where an operand ends. -/
theorem readSuffixes_end (h : EndsOperand rest) (n : Nat) (e : Expr) : readSuffixes (n + 1) e rest = some (e, rest) := by
  cases rest with
  | nil => rfl
  | cons c cs =>
    have hc := h.of_cons
    rw [readSuffixes]
    · rintro _ ⟨⟩
      exact absurd hc (by decide)
    · rintro _ ⟨⟩
      exact absurd hc (by decide)
    · rintro _ ⟨⟩
      exact absurd hc (by decide)

/-! ## Texts that are read -/

/-- A text begins an expression. -/
def Opens (text : List Char) : Prop := ∃ c cs, text = c :: cs ∧ c ∉ [')', ']']

/-- A text is read as an operand, and what stands behind it is asked of it. -/
def ReadsOperand (text : List Char) (e : Expr) : Prop :=
  ∀ ⦃rest r⦄, EndsName rest → Settles (readSuffixes · e rest) r → Settles (readOperand · (text ++ rest)) r

/-- A text is read as an expression that binds with some strength. -/
structure Reads (s : Nat) (text : List Char) (e : Expr) : Prop where
  opens : Opens text
  operand : memberStrength ≤ s → ReadsOperand text e
  signed : unaryStrength ≤ s → ∀ ⦃rest⦄, EndsOperand rest → Settles (readOperand · (text ++ rest)) (e, rest)
  level : ∀ ⦃p rest r⦄, p ≤ s → EndsLevel s rest → Settles (readTail · p e rest) r →
    Settles (readLevel · p (text ++ rest)) r

/-- What is read as a signed operand is read at every level below a member. -/
theorem Reads.of_signed (hopens : Opens text) (hs : s < memberStrength)
    (h : ∀ ⦃rest⦄, EndsOperand rest → Settles (readOperand · (text ++ rest)) (e, rest)) : Reads s text e where
  opens := hopens
  operand hmember := absurd hs (Nat.not_lt.mpr hmember)
  signed _ := h
  level p rest r _ hrest htail := by
    apply (h hrest.1).both htail
    intro n hn hn'
    rw [readLevel, hn]
    exact hn'

/-- What is read as an operand is read at every level. -/
theorem Reads.of_operand (hopens : Opens text) (h : ReadsOperand text e) (s : Nat) : Reads s text e := by
  have hsigned : ∀ ⦃rest⦄, EndsOperand rest → Settles (readOperand · (text ++ rest)) (e, rest) := by
    intro rest hrest
    exact h hrest.endsName (.start fun n => readSuffixes_end hrest n e)
  refine ⟨hopens, fun _ => h, fun _ => hsigned, ?_⟩
  intro p rest r _ hrest htail
  apply (hsigned hrest.1).both htail
  intro n hn hn'
  rw [readLevel, hn]
  exact hn'

/-- What is read at a level is read at each weaker one. -/
theorem Reads.mono {s' : Nat} (hs : s ≤ s') (h : Reads s' text e) : Reads s text e where
  opens := h.opens
  operand hmember := h.operand (hmember.trans hs)
  signed hunary := h.signed (hunary.trans hs)
  level _ _ _ hp hrest := h.level (hp.trans hs) (hrest.mono hs)

/-- What is read at a level is read as a complete expression. -/
theorem Reads.whole (hs : 0 < s) (h : Reads s text e) (hrest : EndsWhole rest) :
    Settles (readLevel · 1 (text ++ rest)) (e, rest) := by
  refine h.level hs (hrest.endsLevel s) (.start ?_)
  intro n
  rw [readTail, hrest.operatorAhead]

/-- In parentheses everything is an operand. -/
theorem Reads.enclosed (hs : 0 < s) (h : Reads s text e) (s' : Nat) : Reads s' ('(' :: (text ++ [')'])) e := by
  refine .of_operand ⟨_, _, rfl, by decide⟩ ?_ s'
  intro rest r _ hsuffixes
  apply (h.whole hs (.cons (by decide) : EndsWhole (')' :: rest))).both hsuffixes
  intro n hn hn'
  rw [List.cons_append, List.append_assoc, readOperand, if_pos rfl]
  change (match readLevel n 1 (text ++ ')' :: rest) with
    | some (e, ')' :: rest) => readSuffixes n e rest
    | _ => none) = some r
  rw [hn]
  exact hn'

/-- With the parentheses that the printer adds, a text is strong enough for its place. -/
theorem Reads.guarded {code : String} {needed : Bool} {s' : Nat} (hs : 0 < s) (h : Reads s code.toList e)
    (hneeded : needed = false → s' ≤ s) : Reads s' (parenthesize needed code).toList e := by
  cases needed with
  | false => exact h.mono (hneeded rfl)
  | true =>
    have henclosed := h.enclosed hs s'
    simpa [parenthesize] using henclosed

/-! ## One lemma for each kind of expression -/

variable {base : List Char}

/-- A name is read up to where it ends. -/
theorem nameOf_append {name : String} (h : IsCodeName name) (hrest : EndsName rest) : nameOf (name.toList ++ rest) = name := by
  rw [nameOf, Source.takeWhile_run h.2 (hrest.imp (by simp)), String.ofList_toList]

/-- Behind a name stands what ends it. -/
theorem behindName_append {name : String} (h : IsCodeName name) (hrest : EndsName rest) :
    behindName (name.toList ++ rest) = rest :=
  Source.dropWhile_run h.2 (hrest.imp (by simp))

/-- A sign is one character, and no bracket. -/
theorem exists_sign {symbol : String} (h : symbol ∈ subsetUnary) :
    ∃ c : Char, symbol = String.singleton c ∧ isCodeMark c = true ∧ c ∉ ['(', ')', '[', ']'] := by
  simp only [subsetUnary, List.mem_cons, List.not_mem_nil, or_false] at h
  rcases h with rfl | rfl | rfl
  · exact ⟨'!', rfl, by decide⟩
  · exact ⟨'+', rfl, by decide⟩
  · exact ⟨'-', rfl, by decide⟩

/-- A name is read as itself. -/
theorem reads_name {name : String} (h : IsCodeName name) (s : Nat) : Reads s name.toList (.name .blank name) := by
  obtain ⟨c, cs, hname⟩ := List.exists_cons_of_ne_nil h.1
  have hall := h.2
  rw [hname, List.all_cons, Bool.and_eq_true] at hall
  have hmark : ∀ m, isCodeMark m = true → c ≠ m := by
    rintro _ hm rfl
    rw [hm] at hall
    cases hall.1
  have hclose : c ∉ [')', ']'] := by simpa using ⟨hmark ')' (by decide), hmark ']' (by decide)⟩
  refine .of_operand ⟨c, cs, hname, hclose⟩ ?_ s
  intro rest r hrest hsuffixes
  apply hsuffixes.step
  intro n hn
  have hsign : ¬subsetUnary.contains (String.singleton c) = true := by
    intro hmem
    obtain ⟨m, hm, hmark', -⟩ := exists_sign (List.contains_iff_mem.mp hmem)
    have hc : c = m := by simpa using congrArg String.toList hm
    exact hmark m hmark' hc
  have hread : readOperand (n + 1) (name.toList ++ rest) =
      readSuffixes n (.name .blank (nameOf (name.toList ++ rest))) (behindName (name.toList ++ rest)) := by
    rw [hname, List.cons_append, readOperand, if_neg (hmark '(' (by decide)), if_neg (hmark '[' (by decide)), if_neg hsign]
  rw [hread, nameOf_append h hrest, behindName_append h hrest]
  exact hn

/-- A text opens an expression if a part in front of it does. -/
theorem Opens.append (h : Opens base) (more : List Char) : Opens (base ++ more) := by
  obtain ⟨c, cs, rfl, hc⟩ := h
  exact ⟨c, cs ++ more, rfl, hc⟩

/-- A member is read from its object and its name. -/
theorem reads_member {name : String} (hbase : Reads memberStrength base e) (hname : IsCodeName name) (s : Nat) :
    Reads s (base ++ '.' :: name.toList) (.member .blank e name) := by
  refine .of_operand (hbase.opens.append _) ?_ s
  intro rest r hrest hsuffixes
  rw [List.append_assoc]
  refine hbase.operand le_rfl (.cons (by decide)) (hsuffixes.step ?_)
  intro n hn
  rw [List.cons_append, readSuffixes, nameOf_append hname hrest, behindName_append hname hrest]
  exact hn

/-- An element is read from its array and its position. -/
theorem reads_element {position : List Char} {i : Expr} (hbase : Reads memberStrength base e) (hs : 0 < s)
    (hposition : Reads s position i) (s' : Nat) :
    Reads s' (base ++ '[' :: (position ++ [']'])) (.element .blank e i) := by
  refine .of_operand (hbase.opens.append _) ?_ s'
  intro rest r hrest hsuffixes
  have hread := hposition.whole hs (.cons (by decide) : EndsWhole (']' :: rest))
  rw [List.append_assoc]
  refine hbase.operand le_rfl (.cons (by decide)) (hread.both hsuffixes ?_)
  intro n hn hn'
  simp only [List.cons_append, List.append_assoc, List.nil_append, readSuffixes, hn]
  exact hn'

/-- A sign is read with its operand. -/
theorem reads_unary {symbol : String} {operand : List Char} (hsymbol : symbol ∈ subsetUnary)
    (hoperand : Reads unaryStrength operand e) :
    Reads unaryStrength (symbol.toList ++ operand) (.unary .blank symbol e) := by
  obtain ⟨c, rfl, -, hc⟩ := exists_sign hsymbol
  simp only [List.mem_cons, List.not_mem_nil, or_false, not_or] at hc
  refine .of_signed ⟨c, operand, by simp, by simp [hc]⟩ (by decide) ?_
  intro rest hrest
  apply (hoperand.signed le_rfl hrest).step
  intro n hn
  simp only [String.toList_singleton, List.cons_append, List.nil_append, readOperand]
  rw [if_neg hc.1, if_neg hc.2.2.1, if_pos (List.contains_iff_mem.mpr hsymbol), hn]

/-- A binary operation is read from its operands. -/
theorem reads_binary {left right : List Char} {l r : Expr} {symbol : String} (hsymbol : symbol ∈ subsetBinary)
    (hleft : Reads (operatorStrength symbol) left l) (hright : Reads (operatorStrength symbol + 1) right r) :
    Reads (operatorStrength symbol) (left ++ ' ' :: (symbol.toList ++ ' ' :: right)) (.binary .blank l symbol r) := by
  have hweak := operatorStrength_lt symbol
  refine ⟨hleft.opens.append _, ?_, ?_, ?_⟩
  · intro hmember
    exact absurd (hweak.trans (by decide)) (Nat.not_lt.mpr hmember)
  · intro hunary
    exact absurd hweak (Nat.not_lt.mpr hunary)
  intro p rest out hp hrest htail
  -- The operators behind the right operand bind no stronger, so the right operand ends before them.
  have hends : Settles (readTail · (operatorStrength symbol + 1) r rest) (r, rest) := by
    refine .start ?_
    intro n
    rw [readTail]
    split
    · rfl
    · next symbol' after hahead => exact if_neg (Nat.not_le.mpr (Nat.lt_succ_of_le (hrest.2 symbol' after hahead)))
  have hoperand := hright.level le_rfl (hrest.mono (Nat.le_succ _)) hends
  rw [List.append_assoc, List.cons_append, List.append_assoc, List.cons_append]
  refine hleft.level hp (endsLevel_operator hsymbol le_rfl _) (hoperand.both htail ?_)
  intro n hn hn'
  rw [readTail, operatorAhead_operator hsymbol]
  simp only [if_pos hp, hn]
  exact hn'

/-! ## Several expressions -/

/-- The text of several expressions in front of a bracket. -/
def listText (close : Char) : List (List Char) → List Char
  | [] => [close]
  | [text] => text ++ [close]
  | text :: next :: more => text ++ ',' :: ' ' :: listText close (next :: more)

/-- A list of texts and expressions, each text read as its expression. -/
def AreRead (xs : List (List Char × Expr)) : Prop := ∀ x ∈ xs, ∃ s, 0 < s ∧ Reads s x.1 x.2

/-- A list with items is read up to its closing mark. -/
theorem readSome_listText {close : Char} (hclose : close ∈ [')', ']']) {x : List Char × Expr}
    {xs : List (List Char × Expr)} (h : AreRead (x :: xs)) (rest : List Char) :
    Settles (readSome · close (listText close ((x :: xs).map Prod.fst) ++ rest)) ((x :: xs).map Prod.snd, rest) := by
  have hcomma : close ≠ ',' := by
    rintro rfl
    exact absurd hclose (by decide)
  have hends : close ∈ [',', ')', ']'] := List.mem_cons_of_mem _ hclose
  induction xs generalizing x with
  | nil =>
    obtain ⟨s, hs, hx⟩ := h x List.mem_cons_self
    apply (hx.whole hs (.cons hends : EndsWhole (close :: rest))).step
    intro n hn
    simp only [List.map_cons, List.map_nil, listText, List.append_assoc, List.cons_append, List.nil_append, readSome, hn,
      if_true]
  | cons y ys ih =>
    obtain ⟨s, hs, hx⟩ := h x List.mem_cons_self
    have hmore := ih fun z hz => h z (List.mem_cons_of_mem x hz)
    have hends : EndsWhole (',' :: ' ' :: (listText close ((y :: ys).map Prod.fst) ++ rest)) := .cons (by decide)
    have hread := hx.whole hs hends
    apply hread.both hmore
    intro n hn hn'
    simp only [List.map_cons, listText, List.append_assoc, List.cons_append] at hn hn' ⊢
    simp only [readSome, hn, if_neg hcomma.symm, if_true, List.drop_one, List.tail_cons, hn', Option.map_some]

/-- A list is read up to its closing mark. -/
theorem readItems_listText {close : Char} (hclose : close ∈ [')', ']']) {xs : List (List Char × Expr)}
    (h : AreRead xs) (rest : List Char) :
    Settles (readItems · close (listText close (xs.map Prod.fst) ++ rest)) (xs.map Prod.snd, rest) := by
  cases xs with
  | nil => exact .start fun n => if_pos rfl
  | cons x xs =>
    apply (readSome_listText hclose h rest).step
    intro n hn
    obtain ⟨s, hs, hx⟩ := h x List.mem_cons_self
    obtain ⟨c, cs, htext, hc⟩ := hx.opens
    have hne : c ≠ close := by
      rintro rfl
      exact hc hclose
    have hopens : ∃ ds, listText close ((x :: xs).map Prod.fst) ++ rest = c :: ds := by
      cases xs <;> simp [listText, htext]
    obtain ⟨ds, hds⟩ := hopens
    rw [hds] at hn ⊢
    rw [readItems, if_neg hne, hn]

/-- An array is read from its items. -/
theorem reads_array {xs : List (List Char × Expr)} (h : AreRead xs) (s : Nat) :
    Reads s ('[' :: listText ']' (xs.map Prod.fst)) (.array .blank (xs.map Prod.snd)) := by
  refine .of_operand ⟨_, _, rfl, by decide⟩ ?_ s
  intro rest r _ hsuffixes
  apply (readItems_listText (by decide : ']' ∈ [')', ']']) h rest).both hsuffixes
  intro n hn hn'
  rw [List.cons_append, readOperand, if_neg (by decide), if_pos rfl, hn]
  exact hn'

/-- A call is read from its callee and its arguments. -/
theorem reads_call {xs : List (List Char × Expr)} (hbase : Reads memberStrength base e) (h : AreRead xs) (s : Nat) :
    Reads s (base ++ '(' :: listText ')' (xs.map Prod.fst)) (.call .blank e (xs.map Prod.snd)) := by
  refine .of_operand (hbase.opens.append _) ?_ s
  intro rest r _ hsuffixes
  rw [List.append_assoc]
  have hitems := readItems_listText (by decide : ')' ∈ [')', ']']) h rest
  refine hbase.operand le_rfl (.cons (by decide)) (hitems.both hsuffixes ?_)
  intro n hn hn'
  rw [List.cons_append, readSuffixes, hn]
  exact hn'

end Recovery

/-! ## The code of an expression -/

open Recovery

/-- An expression of names has a strength. -/
theorem Expr.OfNames.strength_pos {e : Expr} (h : e.OfNames) : 0 < e.strength := by
  cases e with
  | binary _ _ symbol _ => exact Source.operatorStrength_pos symbol h.1
  | _ => exact Nat.succ_pos _

/-- The text of a list is the codes of its items with commas between them. -/
theorem listText_codes (close : Char) (es : List Expr) :
    listText close ((es.map fun e => (e.code.toList, e.bare)).map Prod.fst) =
      (", ".intercalate (Expr.codes es)).toList ++ [close] := by
  rw [Expr.codes_eq_map, List.map_map]
  induction es with
  | nil => rfl
  | cons e es ih =>
    cases es with
    | nil => simp [listText]
    | cons e' es =>
      rw [List.map_cons] at ih
      rw [List.map_cons, List.map_cons, listText, ih]
      simp

/-- The items of a list without their places are the bare ones. -/
theorem map_bare (es : List Expr) : (es.map fun e => (e.code.toList, e.bare)).map Prod.snd = Expr.allBare es := by
  induction es with
  | nil => rfl
  | cons e es ih => rw [List.map_cons, List.map_cons, ih, Expr.allBare]

/-- In front of a mark that asks something of it, an expression is an operand. -/
theorem Expr.OfNames.reads_base {e : Expr} (h : e.OfNames) (hread : Reads e.strength e.code.toList e.bare) :
    Reads memberStrength (parenthesize (e.strength < memberStrength) e.code).toList e.bare :=
  hread.guarded h.strength_pos fun hneeded => Nat.not_lt.mp (of_decide_eq_false hneeded)

mutual

/-- The code of an expression is read as the expression. -/
theorem Expr.reads : ∀ {e : Expr}, e.OfNames → Reads e.strength e.code.toList e.bare
  | .name _ text, h => by
    rw [Expr.code, Expr.bare]
    exact reads_name h _
  | .member _ object property, h => by
    have hbase := h.1.reads_base (Expr.reads h.1)
    have hmember := reads_member hbase h.2 memberStrength
    simpa [Expr.code, Expr.bare, Expr.strength] using hmember
  | .element _ base position, h => by
    have hbase := h.1.reads_base (Expr.reads h.1)
    have helement := reads_element hbase h.2.strength_pos (Expr.reads h.2) memberStrength
    simpa [Expr.code, Expr.bare, Expr.strength] using helement
  | .call _ callee arguments, h => by
    have hbase := h.1.reads_base (Expr.reads h.1)
    have hcall := reads_call hbase (Expr.reads_all h.2) memberStrength
    rw [listText_codes, map_bare] at hcall
    simpa [Expr.code, Expr.bare, Expr.strength] using hcall
  | .array _ items, h => by
    have harray := reads_array (Expr.reads_all h) memberStrength
    rw [listText_codes, map_bare] at harray
    simpa [Expr.code, Expr.bare, Expr.strength] using harray
  | .binary _ left symbol right, h => by
    have hleft := (Expr.reads h.2.1).guarded h.2.1.strength_pos
      fun hneeded : decide (left.strength < operatorStrength symbol) = false => Nat.not_lt.mp (of_decide_eq_false hneeded)
    have hright := (Expr.reads h.2.2).guarded h.2.2.strength_pos
      fun hneeded : decide (right.strength ≤ operatorStrength symbol) = false => Nat.not_le.mp (of_decide_eq_false hneeded)
    have hbinary := reads_binary h.1 hleft hright
    simpa [Expr.code, Expr.bare, Expr.strength] using hbinary
  | .unary _ symbol operand, h => by
    have hoperand := (Expr.reads h.2).guarded h.2.strength_pos
      fun hneeded : decide (operand.strength < unaryStrength) = false => Nat.not_lt.mp (of_decide_eq_false hneeded)
    have hunary := reads_unary h.1 hoperand
    simpa [Expr.code, Expr.bare, Expr.strength] using hunary

/-- Each of several expressions of names is read from its code. -/
theorem Expr.reads_all : ∀ {es : List Expr}, Expr.AllOfNames es → AreRead (es.map fun e => (e.code.toList, e.bare))
  | [], _ => fun _ hmem => absurd hmem List.not_mem_nil
  | _ :: _, h => List.forall_mem_cons.mpr ⟨⟨_, h.1.strength_pos, Expr.reads h.1⟩, Expr.reads_all h.2⟩

end

/-- Expressions of names have the same code only if they are the same tree, apart from the numbers and the places of
their nodes. -/
theorem Expr.code_eq_iff {e e' : Expr} (h : e.OfNames) (h' : e'.OfNames) : e.code = e'.code ↔ e.bare = e'.bare := by
  constructor
  · intro hcode
    have hread := (Expr.reads h).whole h.strength_pos (.nil : EndsWhole [])
    have hread' := (Expr.reads h').whole h'.strength_pos (.nil : EndsWhole [])
    rw [← hcode] at hread'
    exact congrArg Prod.fst (hread.unique hread')
  · intro hbare
    rw [← e.code_bare, hbare, e'.code_bare]

/-- The two ways to group a difference of differences have codes of their own. -/
theorem Expr.code_tells_grouping : ∃ e e' : Expr,
    e = .binary .blank (.name .blank "a") "-" (.binary .blank (.name .blank "b") "-" (.name .blank "c")) ∧
      e' = .binary .blank (.binary .blank (.name .blank "a") "-" (.name .blank "b")) "-" (.name .blank "c") ∧
        e.OfNames ∧ e'.OfNames ∧ (e.code = e'.code ↔ e.bare = e'.bare) ∧ e.code ≠ e'.code := by
  have ha : IsCodeName "a" := by decide
  have hb : IsCodeName "b" := by decide
  have hc : IsCodeName "c" := by decide
  have hminus : "-" ∈ subsetBinary := by decide
  have h : (Expr.binary .blank (.name .blank "a") "-" (.binary .blank (.name .blank "b") "-" (.name .blank "c"))).OfNames :=
    ⟨hminus, ha, hminus, hb, hc⟩
  have h' : (Expr.binary .blank (.binary .blank (.name .blank "a") "-" (.name .blank "b")) "-" (.name .blank "c")).OfNames :=
    ⟨hminus, ⟨hminus, ha, hb⟩, hc⟩
  refine ⟨_, _, rfl, rfl, h, h', Expr.code_eq_iff h h', ?_⟩
  rw [Ne, Expr.code_eq_iff h h']
  simp [Expr.bare]

/-- Signs are told apart, too: the code of a sign before a sign is no other tree. -/
example : (Expr.unary .blank "-" (.unary .blank "-" (.name .blank "a"))).code = "--a" := by decide

end Primer
