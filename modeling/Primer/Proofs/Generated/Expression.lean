import Primer.Proofs.Generated.Making
import Primer.Proofs.Generated.Written

/-!
# Generated expressions

Whatever a generator chooses, the texts that it makes are the code of expressions: numbers, names, elements and calls,
with operators and parentheses between and around them. The names in them are never those of counters, and a function
is called only if it has been made before.
-/

set_option autoImplicit false

namespace Primer

open Source (IsIdentifier IsMember IsNumeral IsQuotation Lexeme render)
open Layout

/-! ## Names -/

/-- A name that no counter has. -/
def NoCounter (x : String) : Prop := x.toList.head? ≠ some 'i' ∧ x.toList.head? ≠ some 'w'

/-- A name that generated expressions may mention. -/
structure IsPlainName (x : String) : Prop where
  identifier : IsIdentifier x
  noCounter : NoCounter x

/-- Variables that there are some of. -/
structure AreVariables (vars : List String) : Prop where
  some : vars ≠ []
  plain : ∀ x ∈ vars, IsPlainName x

/-! ## Parts of expressions -/

section Parts

variable {N : String → Prop} {e : Expr} {text : String}

/-- A name is an operand. -/
theorem operand_name {x : String} (h : IsIdentifier x) (hN : N x) :
    (Expr.name .blank x).Operand N memberStrength x :=
  .of_layout (e := .name .blank x) h rfl hN rfl (Nat.le_refl _) (by decide) (renders_word x)

/-- A number is an operand. -/
theorem operand_number {literal : String} (h : IsNumeral literal.toList) :
    (Expr.number .blank (Source.numberValue literal) literal).Operand N memberStrength literal :=
  .of_layout (e := .number .blank (Source.numberValue literal) literal) ⟨h, rfl⟩ rfl trivial rfl (Nat.le_refl _)
    (by decide) fun gap => by simp [Expr.layout]

/-- A member of an operand is an operand, unless the operand is a whole number. -/
theorem Expr.Operand.member (h : e.Operand N memberStrength text) (hwhole : e.isWholeNumber = false) {property : String}
    (hproperty : IsMember property) :
    (Expr.member .blank e property).Operand N memberStrength (text ++ "." ++ property) := by
  refine .of_layout ⟨h.read, hproperty⟩ ?_ h.within rfl (Nat.le_refl _) (by decide) ?_
  · simp only [Expr.isClear, hwhole, h.clear, Bool.not_false, Bool.and_true]
  · intro gap
    rw [Expr.layout, Expr.whole_left h.held]
    simp [h.renders gap, renders_word property []]

/-- An element of an operand is an operand. -/
theorem Expr.Operand.element (h : e.Operand N memberStrength text) {position : Expr} {index : String}
    (hposition : position.Written N index) :
    (Expr.element .blank e position).Operand N memberStrength (text ++ "[" ++ index ++ "]") := by
  refine .of_layout ⟨h.read, hposition.read⟩ ?_ ⟨h.within, hposition.within⟩ rfl (Nat.le_refl _) (by decide) ?_
  · simp only [Expr.isClear, h.clear, hposition.clear, Bool.and_true]
  · intro gap
    have hindex := hposition.renders []
    rw [Expr.whole] at hindex
    rw [Expr.layout, Expr.whole_left h.held]
    simp [h.renders gap, hindex]

/-- Several expressions with commas between them. -/
structure Expr.AllWritten (N : String → Prop) (es : List Expr) (texts : List String) : Prop where
  read : Expr.AllRead es
  clear : Expr.allClear es = true
  within : Expr.AllWithin N es
  renders : render (commas (Expr.layouts Info.id es) []) = (String.intercalate ", " texts).toList

/-- Texts each of which is the code of some expression. -/
theorem Expr.AllWritten.of_texts {texts : List String} (h : ∀ text ∈ texts, ∃ e : Expr, e.Written N text) :
    ∃ es, Expr.AllWritten N es texts := by
  have hpairs : ∃ ps : List (Expr × String), ps.map Prod.snd = texts ∧ ∀ p ∈ ps, p.1.Written N p.2 := by
    induction texts with
    | nil => exact ⟨[], rfl, fun _ hp => absurd hp List.not_mem_nil⟩
    | cons text texts ih =>
      obtain ⟨e, he⟩ := h text List.mem_cons_self
      obtain ⟨ps, rfl, hps⟩ := ih fun text htext => h text (List.mem_cons_of_mem _ htext)
      exact ⟨(e, text) :: ps, rfl, List.forall_mem_cons.mpr ⟨he, hps⟩⟩
  obtain ⟨ps, rfl, hps⟩ := hpairs
  have hrenders : render (commas (Expr.layouts Info.id (ps.map Prod.fst)) []) =
      (String.intercalate ", " (ps.map Prod.snd)).toList := by
    rw [Expr.layouts_eq_map, List.map_map]
    exact render_commas fun p hp => (hps p hp).renders
  have hparts : Expr.AllRead (ps.map Prod.fst) ∧ Expr.allClear (ps.map Prod.fst) = true ∧
      Expr.AllWithin N (ps.map Prod.fst) := by
    clear hrenders h
    induction ps with
    | nil => exact ⟨trivial, rfl, trivial⟩
    | cons p ps ih =>
      obtain ⟨hread, hclear, hwithin⟩ := ih fun p hp => hps p (List.mem_cons_of_mem _ hp)
      have hp := hps p List.mem_cons_self
      exact ⟨⟨hp.read, hread⟩, Bool.and_eq_true_iff.mpr ⟨hp.clear, hclear⟩, hp.within, hwithin⟩
  exact ⟨ps.map Prod.fst, hparts.1, hparts.2.1, hparts.2.2, hrenders⟩

/-- A call of an operand is an operand. -/
theorem Expr.Operand.call (h : e.Operand N memberStrength text) {arguments : List Expr} {texts : List String}
    (harguments : Expr.AllWritten N arguments texts) :
    (Expr.call .blank e arguments).Operand N memberStrength (text ++ "(" ++ String.intercalate ", " texts ++ ")") := by
  refine .of_layout ⟨h.read, harguments.read⟩ ?_ ⟨h.within, harguments.within⟩ rfl (Nat.le_refl _) (by decide) ?_
  · simp only [Expr.isClear, h.clear, harguments.clear, Bool.and_true]
  · intro gap
    rw [Expr.layout, Expr.whole_left h.held]
    simp [h.renders gap, harguments.renders]

/-- A text is an operand that is a single name, number, text, member, element or call. -/
def IsAtom (N : String → Prop) (text : String) : Prop :=
  ∃ e : Expr, e.Operand N memberStrength text ∧ e.strength = memberStrength

/-- A text is that of a variable, a member or an element. -/
def IsTargetText (N : String → Prop) (text : String) : Prop :=
  ∃ e : Expr, e.isPlace = true ∧ e.info.id = 0 ∧ e.Operand N memberStrength text

/-- A text is that of a call. -/
def IsCallText (N : String → Prop) (text : String) : Prop :=
  ∃ callee arguments, (Expr.call .blank callee arguments).Operand N memberStrength text

/-- A call is an atom. -/
theorem IsCallText.atom (h : IsCallText N text) : IsAtom N text := by
  obtain ⟨callee, arguments, hcall⟩ := h
  exact ⟨_, hcall, rfl⟩

/-- What is as strong as a member is no comparison. -/
theorem Expr.noRelation_of_strength {e : Expr} (h : e.strength = memberStrength) : e.isRelation = false := by
  cases e
  case binary i left symbol right => exact absurd h (Nat.ne_of_lt (Nat.lt_trans (operatorStrength_lt symbol) (by decide)))
  all_goals rfl

/-- An atom is a term. -/
theorem IsAtom.term (h : IsAtom N text) : IsTerm N text := by
  obtain ⟨e, he, hstrength⟩ := h
  exact .of_operand (he.weaken (by decide)) (e.noRelation_of_strength hstrength)

/-- An atom behind a minus is a term. -/
theorem IsAtom.negative (h : IsAtom N text) : IsTerm N ("-" ++ text) := by
  obtain ⟨e, he, hstrength⟩ := h
  refine .of_operand ((he.weaken (by decide)).sign (by decide) ?_) rfl
  cases e
  case unary => exact absurd hstrength (show unaryStrength ≠ memberStrength by decide)
  all_goals rfl

end Parts

/-! ## Numbers -/

/-- A text that is scanned completely as a number is a numeral. -/
theorem Source.isNumeral_of_scan {text : List Char} (hstart : startsNumber text = true)
    (htext : (scanNumeral text).text = text) (hlegal : (scanNumeral text).legal = true) : IsNumeral text := by
  have hscan : scanNumeral text = ⟨(scanNumeral text).text, (scanNumeral text).legal, (scanNumeral text).rest⟩ := rfl
  rw [htext, hlegal] at hscan
  exact scanNumeral_isNumeral hstart hscan

/-- A small number is written as a numeral. -/
theorem isNumeral_small {n : Nat} (hn : n < 20) : IsNumeral (toString n).toList := by
  have hall : ∀ n < 20, Source.startsNumber (toString n).toList = true ∧
      (Source.scanNumeral (toString n).toList).text = (toString n).toList ∧
      (Source.scanNumeral (toString n).toList).legal = true := by decide +kernel
  obtain ⟨hstart, htext, hlegal⟩ := hall n hn
  exact Source.isNumeral_of_scan hstart htext hlegal

/-- A small number and a half is written as a numeral. -/
theorem isNumeral_half {n : Nat} (hn : n < 5) : IsNumeral (toString n ++ ".5").toList := by
  have hall : ∀ n < 5, Source.startsNumber (toString n ++ ".5").toList = true ∧
      (Source.scanNumeral (toString n ++ ".5").toList).text = (toString n ++ ".5").toList ∧
      (Source.scanNumeral (toString n ++ ".5").toList).legal = true := by decide +kernel
  obtain ⟨hstart, htext, hlegal⟩ := hall n hn
  exact Source.isNumeral_of_scan hstart htext hlegal

/-! ## Generated expressions -/

namespace Generator

open Generate

variable {functions : List (String × Nat)}

/-- A name is an atom. -/
theorem isAtom_name {x : String} (h : IsPlainName x) : IsAtom NoCounter x :=
  ⟨_, operand_name h.identifier h.noCounter, rfl⟩

/-- A number is an atom. -/
theorem isAtom_number {literal : String} (h : IsNumeral literal.toList) : IsAtom NoCounter literal :=
  ⟨_, operand_number h, rfl⟩

/-- The array that every program declares. -/
theorem operand_array : (Expr.name .blank "arr").Operand NoCounter memberStrength "arr" :=
  operand_name ⟨by decide, by decide⟩ ⟨by decide, by decide⟩

/-- An element of the array is written as generated. -/
theorem element_written {n : Nat} (hn : n < 20) : (Expr.element .blank (.name .blank "arr")
    (.number .blank (Source.numberValue (toString n)) (toString n))).Operand NoCounter memberStrength
      ("arr[" ++ toString n ++ "]") := operand_array.element (operand_number (isNumeral_small hn)).toWritten

/-- The length of the array is written as generated. -/
theorem length_written :
    (Expr.member .blank (.name .blank "arr") "length").Operand NoCounter memberStrength "arr.length" :=
  operand_array.member rfl ⟨by decide, by decide⟩

/-- The text is written as generated. -/
theorem text_written : (Expr.string .blank "t" "\"t\"").Operand NoCounter memberStrength "\"t\"" := by
  have hscan : Source.scanText '"' ['t', '"'] = ⟨['t', '"'], true, []⟩ := rfl
  have hquotation : IsQuotation ['"', 't', '"'] := Source.scanText_isQuotation (by decide) hscan
  refine .of_layout ⟨hquotation, rfl⟩ rfl trivial rfl (Nat.le_refl _) (by decide) ?_
  intro gap
  simp [Expr.layout]

/-- Two expressions with an operator between them. -/
theorem operator_makes {m : Generate String} (hm : m.Makes functions (IsTerm NoCounter)) : (do
      let left ← m
      let symbol ← pick ["+", "-", "*", "/", "%"]
      let right ← m
      return left ++ " " ++ symbol ++ " " ++ right : Generate String).Makes functions (IsTerm NoCounter) := by
  refine .bind hm ?_
  intro _ hleft
  refine .bind (pick_makes nofun) ?_
  intro _ hsymbol
  refine .bind hm ?_
  intro _ hright
  exact .pure (hleft.operator hright hsymbol)

/-- The functions of mathematics that generated expressions call. -/
theorem math_term {name text : String} (hname : name ∈ ["Math.abs", "Math.floor", "Math.round", "Math.sqrt"])
    (h : IsTerm NoCounter text) : IsTerm NoCounter (name ++ "(" ++ text ++ ")") := by
  have hmath : (Expr.name .blank "Math").Operand NoCounter memberStrength "Math" :=
    operand_name ⟨by decide, by decide⟩ ⟨by decide, by decide⟩
  have hsplit : ∃ property ∈ ["abs", "floor", "round", "sqrt"], name = "Math" ++ "." ++ property := by
    revert name
    decide
  obtain ⟨property, hproperty, rfl⟩ := hsplit
  have hmember : ∀ property ∈ ["abs", "floor", "round", "sqrt"], IsMember property := by
    intro property h
    simp only [List.mem_cons, List.not_mem_nil, or_false] at h
    rcases h with rfl | rfl | rfl | rfl <;> exact ⟨by decide, by decide⟩
  obtain ⟨e, he, -⟩ := h.sum
  have hargument : ∀ t ∈ [text], ∃ e : Expr, e.Written NoCounter t :=
    List.forall_mem_singleton.mpr ⟨e, he⟩
  obtain ⟨es, hes⟩ := Expr.AllWritten.of_texts hargument
  exact IsAtom.term ⟨.call .blank (.member .blank (.name .blank "Math") property) es,
    (hmath.member rfl (hmember property hproperty)).call hes, rfl⟩

section Expressions

variable {vars : List String} (hvars : AreVariables vars)

include hvars

/-- Generated atoms are atoms. -/
theorem atom_makes : (atom vars).Makes functions (IsAtom NoCounter) := by
  refine .bind (choose_makes (by decide)) ?_
  intro c _
  split
  · refine .imp (digits_makes (by decide)) ?_
    intro text htext
    obtain ⟨n, hn, rfl⟩ := htext
    exact isAtom_number (isNumeral_small hn)
  · refine .bind (digits_makes (by decide)) ?_
    intro text htext
    refine .pure ?_
    obtain ⟨n, hn, rfl⟩ := htext
    exact isAtom_number (isNumeral_half hn)
  · refine .bind (digits_makes (by decide)) ?_
    intro text htext
    refine .pure ?_
    obtain ⟨n, hn, rfl⟩ := htext
    exact ⟨_, element_written (by omega), rfl⟩
  · exact .pure ⟨_, length_written, rfl⟩
  · exact .pure ⟨_, text_written, rfl⟩
  · refine .imp (pick_makes hvars.some) ?_
    intro x hx
    exact isAtom_name (hvars.plain x hx)

/-- A call of a function that has been made. -/
theorem call_makes (hfunctions : ∀ f ∈ functions, IsPlainName f.1) (hsome : functions ≠ []) :
    (call vars).Makes functions (IsCallText NoCounter) := by
  refine .get ?_
  intro g hg
  rw [hg]
  refine .bind (choose_makes (List.length_pos_iff.mpr hsome)) ?_
  intro i hi
  rw [List.getElem?_eq_getElem hi, Option.getD_some]
  have hplain := hfunctions _ (List.getElem_mem hi)
  generalize functions[i] = f at hplain ⊢
  obtain ⟨name, arity⟩ := f
  refine .bind (times_makes (atom_makes hvars) arity) ?_
  intro texts htexts
  refine .pure ?_
  obtain ⟨es, hes⟩ := Expr.AllWritten.of_texts fun text htext => (htexts text htext).imp fun e he => he.1.toWritten
  exact ⟨.name .blank name, es, (operand_name hplain.identifier hplain.noCounter).call hes⟩

/-- Generated expressions are terms. -/
theorem expression_makes (hfunctions : ∀ f ∈ functions, IsPlainName f.1) (room : Nat) :
    (expression vars room).Makes functions (IsTerm NoCounter) := by
  have hatom : (atom vars).Makes functions (IsTerm NoCounter) := .imp (atom_makes hvars) fun _ => IsAtom.term
  induction room with
  | zero => exact hatom
  | succ room ih =>
    refine .bind (choose_makes (by decide)) ?_
    intro c _
    split
    · exact hatom
    · exact hatom
    · exact hatom
    · exact operator_makes ih
    · exact operator_makes ih
    · exact .bind ih fun text htext => .pure htext.wrap
    · refine .bind (pick_makes (by decide)) ?_
      intro name hname
      exact .bind ih fun text htext => .pure (math_term hname htext)
    · refine .get ?_
      intro g hg
      split
      case isTrue =>
        refine .bind (atom_makes hvars) ?_
        intro text htext
        exact .pure htext.negative
      case isFalse hsome =>
        refine .imp (call_makes hvars hfunctions ?_) fun _ hcall => hcall.atom.term
        intro hnone
        exact hsome (by rw [hg, hnone]; rfl)

/-- A condition is a comparison of two expressions, perhaps a negated one or one with another comparison behind it. -/
theorem condition_makes (hfunctions : ∀ f ∈ functions, IsPlainName f.1) :
    (condition vars).Makes functions fun text => ∃ e : Expr, e.Written NoCounter text := by
  have hside := expression_makes hvars hfunctions (depth - 1)
  refine .bind hside ?_
  intro left hleft
  refine .bind (pick_makes (by decide)) ?_
  intro symbol hsymbol
  refine .bind hside ?_
  intro right hright
  have hbinary : ∀ s ∈ ["<", ">", "<=", ">=", "==", "!="], s ∈ Source.subsetBinary := by decide
  obtain ⟨e, he, hsum⟩ := hleft.sum
  obtain ⟨test, htest, -⟩ := hright.follows he (hbinary symbol hsymbol) fun _ => hsum
  refine .bind (choose_makes (by decide)) ?_
  intro c _
  split
  · have hsigned : test.wrap.isSigned "!" = false := by
      cases test <;> simp [Expr.wrap, Expr.isSigned]
    have hnegated := ((htest.wrap.weaken (by decide)).sign (by decide) hsigned).toWritten
    refine .pure ⟨.unary .blank "!" test.wrap, ?_⟩
    rw [show "!(" = "!" ++ "(" from rfl]
    simpa only [String.append_assoc] using hnegated
  · refine .bind (pick_makes hvars.some) ?_
    intro x hx
    refine .pure ?_
    have hname := operand_name (hvars.plain x hx).identifier (hvars.plain x hx).noCounter
    have hzero : (Expr.number .blank (Source.numberValue "0") "0").Operand NoCounter memberStrength "0" :=
      operand_number (isNumeral_small (n := 0) (by decide))
    have hfirst : (test.attach "&&" _).Written NoCounter _ :=
      htest.attach (by decide) (absurd · (by decide)) (hname.weaken (by decide))
    have hboth : ((test.attach "&&" _).attach "!=" _).Written NoCounter _ :=
      hfirst.attach (by decide) (absurd · (by decide)) (hzero.weaken (by decide))
    refine ⟨(test.attach "&&" (.name .blank x)).attach "!=" (.number .blank (Source.numberValue "0") "0"), ?_⟩
    rw [show " && " = " " ++ "&&" ++ " " from rfl, show " != 0" = " " ++ "!=" ++ " " ++ "0" from rfl]
    simpa only [String.append_assoc] using hboth
  · exact .pure ⟨test, htest⟩

/-- What is assigned to is a variable or an element of the array. -/
theorem target_makes : (target vars).Makes functions (IsTargetText NoCounter) := by
  refine .bind (choose_makes (by decide)) ?_
  intro c _
  split
  · refine .bind (digits_makes (by decide)) ?_
    intro text htext
    refine .pure ?_
    obtain ⟨n, hn, rfl⟩ := htext
    exact ⟨_, rfl, rfl, element_written (by omega)⟩
  · refine .imp (pick_makes hvars.some) ?_
    intro x hx
    exact ⟨_, rfl, rfl, operand_name (hvars.plain x hx).identifier (hvars.plain x hx).noCounter⟩

end Expressions

end Generator

end Primer
