import Primer.Proofs.Markup.Fragment
import Primer.Proofs.Number.Written
import Primer.Proofs.Run.Plain

/-!
# Operands in messages

A message that refuses an operand shows its short form between tags. The short form is put there as it is, also where a
text of the program looks like a tag. It is shown as it is unless it holds a closing tag
(`fragment_shown_unless_closed`), and this is so only for a text with a closing tag in it
(`closeTag_infix_describe_iff`): quoting leaves angle brackets alone, and no other short form has any.

That such a text is not shown at all, anywhere in the message, needs the quotes around it. What stands around the
operand has no quotes, so the whole quoted text would have to lie in its own place, where the tag was taken out
(`not_infix_of_cut`).
-/

set_option autoImplicit false

namespace Primer.Markup

/-! ## What is shown of a cut text -/

variable {x : Char} {u w l before after : List Char}

/-- A pattern is not found in front of a text if its first character is not there. -/
theorem infix_of_head_not_mem (before : List Char) (h : x :: u <:+: before ++ l) (hx : x ∉ before) : x :: u <:+: l := by
  induction before with
  | nil => exact h
  | cons d before ih =>
    obtain ⟨hd, hbefore⟩ := not_or.mp (mt List.mem_cons.mpr hx)
    rw [List.cons_append, List.infix_cons_iff] at h
    rcases h with hprefix | hinside
    · exact absurd (List.cons_prefix_cons.mp hprefix).1 hd
    · exact ih hinside hbefore

/-- A pattern whose last character does not come behind a text lies within the text. -/
theorem infix_of_last_not_mem (after : List Char) (h : w ++ [x] <:+: l ++ after) (hx : x ∉ after) :
    w ++ [x] <:+: l := by
  rw [← List.reverse_infix, List.reverse_append, List.reverse_singleton, List.singleton_append] at h ⊢
  rw [List.reverse_append] at h
  exact infix_of_head_not_mem after.reverse h (mt List.mem_reverse.mp hx)

/-- What a message shows is left of the message when characters are taken out. -/
theorem plain_sublist (cs : List Char) : ((segmentsOf cs).flatMap fun s => s.text.toList).Sublist cs := by
  conv_rhs => rw [← flatMap_source_segmentsOf cs]
  induction segmentsOf cs with
  | nil => exact List.Sublist.refl _
  | cons s segments ih =>
    rw [List.flatMap_cons, List.flatMap_cons]
    refine List.Sublist.append ?_ ih
    unfold Segment.source
    split
    · have hvar : (var s.text).toList = openTag ++ (s.text.toList ++ closeTag) := by simp [var, openTag, closeTag]
      rw [hvar]
      exact (List.sublist_append_left _ _).trans (List.sublist_append_right _ _)
    · exact List.Sublist.refl _

/-- A quoted text that is cut at a closing tag is not shown: what is left of it is too short. -/
theorem not_infix_of_cut {quoted inner rest shown : List Char} (hfirst : quoted = '"' :: u)
    (hlast : quoted = w ++ ['"']) (hcut : quoted = inner ++ (closeTag ++ rest)) (hbefore : '"' ∉ before)
    (hafter : '"' ∉ after) (hshown : shown.Sublist (rest ++ after)) : ¬quoted <:+: before ++ (inner ++ shown) := by
  intro h
  obtain ⟨Y, Z, rfl, hY, hZ⟩ := List.sublist_append_iff.mp hshown
  rw [hfirst] at h
  have hinside := infix_of_head_not_mem before h hbefore
  rw [← hfirst, hlast, ← List.append_assoc] at hinside
  have hlength := (infix_of_last_not_mem Z hinside (fun hmem => hafter (hZ.subset hmem))).length_le
  rw [← hlast, hcut] at hlength
  have hshort := hY.length_le
  simp only [List.length_append, closeTag, List.length_cons, List.length_nil] at hlength
  omega

end Primer.Markup

namespace Primer.Text

open Markup

variable {cs t : List Char}

/-- No hexadecimal digit opens a tag. -/
theorem hexDigits_ne_open (width n : Nat) : ∀ c ∈ hexDigits width n, c ≠ '<' := by
  have hdigit : ∀ k < 16, hexDigit k ≠ '<' := by decide
  induction width with
  | zero => nofun
  | succ width ih => exact List.forall_mem_cons.mpr ⟨hdigit _ (Nat.mod_lt _ (by decide)), ih⟩

/-- A character of a text is quoted as it is, or by an escape without angle brackets. -/
theorem jsonChar_cases (c : Char) : jsonChar c = [c] ∨ ∃ e, jsonChar c = '\\' :: e ∧ '<' ∉ e := by
  unfold jsonChar
  iterate 7
    refine iteInduction (motive := fun cs => cs = [c] ∨ ∃ e, cs = '\\' :: e ∧ '<' ∉ e) (fun _ => ?_) fun _ => ?_
    · exact .inr ⟨_, rfl, by decide⟩
  split
  · refine .inr ⟨_, rfl, ?_⟩
    simpa using fun h => hexDigits_ne_open 4 c.toNat _ h rfl
  · exact .inl rfl

/-- What is quoted as it is stands in front of a quoted text only if it stands in front of the text. -/
theorem prefix_of_prefix_quoted (hslash : '\\' ∉ t) (hquote : '"' ∉ t) (h : t <+: cs.flatMap jsonChar ++ ['"']) :
    t <+: cs := by
  induction t generalizing cs with
  | nil => exact List.nil_prefix
  | cons d t ih =>
    obtain ⟨hd, hslash⟩ := not_or.mp (mt List.mem_cons.mpr hslash)
    obtain ⟨hd', hquote⟩ := not_or.mp (mt List.mem_cons.mpr hquote)
    cases cs with
    | nil => exact absurd (List.cons_prefix_cons.mp h).1.symm hd'
    | cons c cs =>
      rw [List.flatMap_cons, List.append_assoc] at h
      rcases jsonChar_cases c with hc | ⟨e, hc, -⟩
      · rw [hc, List.singleton_append, List.cons_prefix_cons] at h
        exact List.cons_prefix_cons.mpr ⟨h.1, ih hslash hquote h.2⟩
      · rw [hc, List.cons_append, List.cons_prefix_cons] at h
        exact absurd h.1.symm hd

/-- A closing tag in a quoted text was in the text. -/
theorem infix_of_infix_quoted (h : closeTag <:+: cs.flatMap jsonChar ++ ['"']) : closeTag <:+: cs := by
  induction cs with
  | nil => exact absurd h (by decide)
  | cons c cs ih =>
    rw [List.flatMap_cons, List.append_assoc] at h
    rcases jsonChar_cases c with hc | ⟨e, hc, he⟩
    · rw [hc, List.singleton_append, List.infix_cons_iff] at h
      rcases h with hprefix | hinside
      · apply List.IsPrefix.isInfix
        apply prefix_of_prefix_quoted (by decide) (by decide)
        rw [List.flatMap_cons, hc]
        exact hprefix
      · exact (ih hinside).trans (List.suffix_cons c cs).isInfix
    · rw [hc] at h
      exact (ih (infix_of_head_not_mem ('\\' :: e) h (by simpa using he))).trans (List.suffix_cons c cs).isInfix

/-- A quoted text holds a closing tag if the text does. -/
theorem closeTag_infix_quoteJson_iff (s : String) : closeTag <:+: (quoteJson s).toList ↔ closeTag <:+: s.toList := by
  have hquoted : (quoteJson s).toList = ['"'] ++ (s.toList.flatMap jsonChar ++ ['"']) := by simp [quoteJson]
  rw [hquoted]
  constructor
  · intro h
    exact infix_of_infix_quoted (infix_of_head_not_mem ['"'] h (by decide))
  · rintro ⟨before, after, hs⟩
    refine ⟨'"' :: before.flatMap jsonChar, after.flatMap jsonChar ++ ['"'], ?_⟩
    rw [← hs, List.flatMap_append, List.flatMap_append]
    simp [closeTag, jsonChar]

end Primer.Text

namespace Primer

open Markup

namespace Value

/-- A text that holds a closing tag. -/
def HoldsClosing : Value → Prop
  | .string s => closeTag <:+: s.toList
  | _ => False

end Value

namespace Memory

variable {m : Memory} {v : Value}

/-- The short form of a value holds a closing tag only if the value is such a text. -/
theorem closeTag_infix_describe_iff : closeTag <:+: (m.describe v).toList ↔ (m.settle v).HoldsClosing := by
  unfold describe
  have hnone {s : String} (h : '<' ∉ s.toList) : ¬closeTag <:+: s.toList := by
    intro hinside
    exact h (hinside.subset (by decide))
  cases m.settle v
  case string s => exact Text.closeTag_infix_quoteJson_iff s
  case number x =>
    change closeTag <:+: (if Number.isFinite x then Number.render x else "null").toList ↔ False
    split
    · exact iff_of_false (hnone (Number.not_mem_render ‹_› (by decide))) id
    · exact iff_of_false (hnone (by decide)) id
  case boolean b => cases b <;> exact iff_of_false (hnone (by decide)) id
  case absent | undefined | pending => exact iff_of_false (hnone (s := "undefined") (by decide)) id
  case null => exact iff_of_false (hnone (s := "null") (by decide)) id
  case array => exact iff_of_false (hnone (s := "[array]") (by decide)) id
  case object => exact iff_of_false (hnone (s := "[object]") (by decide)) id
  case function | hostFunction => exact iff_of_false (hnone (s := "[function]") (by decide)) id
  case hostVariable | arrayLength | textLength => exact iff_of_false (hnone (s := "[variable]") (by decide)) id
  case cell => exact iff_of_false (hnone (s := "") (by decide)) id

/-- A message shows the short form of a value as it is, unless the value is a text that holds a closing tag. -/
def ShowsOperand (m : Memory) (v : Value) (message : String) : Prop :=
  (m.describe v).toList <:+: (plain message).toList ↔ ¬(m.settle v).HoldsClosing

/-- A text that holds a closing tag is quoted in its short form. -/
theorem quoted_of_holdsClosing (h : (m.settle v).HoldsClosing) :
    ∃ u w, (m.describe v).toList = '"' :: u ∧ (m.describe v).toList = w ++ ['"'] := by
  unfold describe
  cases hsettled : m.settle v with
  | string s => exact ⟨_, '"' :: s.toList.flatMap Text.jsonChar, String.toList_ofList, String.toList_ofList⟩
  | _ =>
    rw [hsettled] at h
    exact h.elim

/-- In a message with a text between tags in front of the operand, neither of them nor what stands around them holds a
quote, so the operand can be shown in its own place only. -/
theorem showsOperand_of_message {head middle after : String} (hhead : ¬closeTag <:+: head.toList)
    (hmiddle : ¬openTag <:+: middle.toList) (hquotes : '"' ∉ (head ++ middle ++ after).toList) :
    m.ShowsOperand v ("" ++ var head ++ (middle ++ var (m.describe v) ++ after)) := by
  unfold ShowsOperand
  rw [plain_append_var (by decide) hhead, ← closeTag_infix_describe_iff]
  constructor
  · intro hshown hclosed
    obtain ⟨⟨inner, rest⟩, hsplit⟩ := Option.ne_none_iff_exists'.mp (mt splitAt_eq_none_iff.mp (not_not.mpr hclosed))
    obtain ⟨u, w, hfirst, hlast⟩ := quoted_of_holdsClosing (closeTag_infix_describe_iff.mp hclosed)
    simp only [String.toList_append, List.mem_append, not_or] at hquotes
    have hbefore : '"' ∉ head.toList ++ middle.toList := by simp [hquotes]
    have hafter : '"' ∉ closeTag ++ after.toList := by simp [hquotes, closeTag]
    refine not_infix_of_cut hfirst hlast (splitAt_eq_append hsplit) hbefore hafter (plain_sublist _) ?_
    simpa [toList_plain, segments_append_var hmiddle after (splitAt_append hsplit _), flatMap_text_textSegment]
      using hshown
  · intro hopen
    rw [plain_append_var hmiddle hopen]
    exact ⟨head.toList ++ middle.toList, (plain after).toList, by simp⟩

/-- The refusal of an operand shows it. -/
theorem showsOperand_notA {symbol kind : String} (hsymbol : ¬closeTag <:+: symbol.toList)
    (hquotes : '"' ∉ (symbol ++ kind).toList) : m.ShowsOperand v (m.notA symbol v kind).2 := by
  have hmessage : (m.notA symbol v kind).2 =
      "" ++ var symbol ++ (" not possible since " ++ var (m.describe v) ++ (" is not " ++ kind)) := by
    apply String.toList_inj.mp
    simp [notA, var]
  rw [hmessage]
  apply showsOperand_of_message hsymbol (by decide)
  simpa using hquotes

/-- What is refused as a finite number is refused as not a number. -/
theorem finiteNumber_eq_error {symbol : String} {r : Refusal} (h : m.finiteNumber symbol v = .error r) :
    r = m.notA symbol v "a number" := by
  unfold finiteNumber at h
  split at h
  · split at h
    · cases h
    · cases h
      rfl
  · cases h
    rfl

/-- The operators that refuse operands for their kind. -/
def strictSymbols : List String := numericSymbols ++ ["+", "+=", "&&", "||"]

/-- The kinds that operators want their operands to be. -/
def operandKinds : List String := ["a number", "a number or string", "a boolean"]

/-- No operator holds a closing tag or a quotation mark. -/
theorem quoteless_symbols : ∀ symbol ∈ strictSymbols, ¬closeTag <:+: symbol.toList ∧ '"' ∉ symbol.toList := by decide

/-- No kind of operands holds a quotation mark. -/
theorem quoteless_kinds : ∀ kind ∈ operandKinds, '"' ∉ kind.toList := by decide +kernel

/-- A message says of one of two operands that it is not of the kind that an operator wants. -/
def RefusesOperand (m : Memory) (symbol : String) (a b : Value) (message : String) : Prop :=
  ∃ v kind, (v = a ∨ v = b) ∧ kind ∈ operandKinds ∧ message = (m.notA symbol v kind).2

variable {symbol message : String} {a b : Value}

/-- Where two numbers are wanted, and what is done with them is not refused for a kind, an operand is no number. -/
theorem refuses_of_finiteNumber {rest : Float → Float → Except Refusal Value}
    (hrest : ∀ x y, rest x y ≠ .error (.type, message))
    (h : (do
      let x ← m.finiteNumber symbol a
      let y ← m.finiteNumber symbol b
      rest x y) = .error (.type, message)) : m.RefusesOperand symbol a b message := by
  cases ha : m.finiteNumber symbol a with
  | error r =>
    rw [ha] at h
    cases h
    exact ⟨a, "a number", .inl rfl, by decide, congrArg Prod.snd (finiteNumber_eq_error ha)⟩
  | ok x =>
    cases hb : m.finiteNumber symbol b with
    | error r =>
      rw [ha, hb] at h
      cases h
      exact ⟨b, "a number", .inr rfl, by decide, congrArg Prod.snd (finiteNumber_eq_error hb)⟩
    | ok y =>
      rw [ha, hb] at h
      exact absurd h (hrest x y)

/-- A symbol that is one of two strict ones is strict. -/
theorem mem_strictSymbols {p q : String} (hp : p ∈ strictSymbols) (hq : q ∈ strictSymbols)
    (h : (symbol = p || symbol = q) = true) : symbol ∈ strictSymbols := by
  rcases Bool.or_eq_true_iff.mp h with hsymbol | hsymbol
  · rw [of_decide_eq_true hsymbol]
    exact hp
  · rw [of_decide_eq_true hsymbol]
    exact hq

/-- An operator that refuses an operand for its kind says so of one of its operands. -/
theorem checked_eq_type (h : m.checked symbol a b = .error (.type, message)) :
    symbol ∈ strictSymbols ∧ m.RefusesOperand symbol a b message := by
  unfold checked at h
  split_ifs at h with hnumeric hsum ha hb hlogical hand
  · have hsymbol : symbol ∈ numericSymbols := by simpa using hnumeric
    refine ⟨List.mem_append_left _ hsymbol, refuses_of_finiteNumber ?_ h⟩
    intro x y
    split <;> exact nofun
  · cases h
    exact ⟨mem_strictSymbols (by decide) (by decide) hsum, a, "a number or string", .inl rfl, by decide, rfl⟩
  · cases h
    exact ⟨mem_strictSymbols (by decide) (by decide) hsum, b, "a number or string", .inr rfl, by decide, rfl⟩
  -- the two logical operators differ only in what they make of two truth values
  iterate 2
    · refine ⟨mem_strictSymbols (by decide) (by decide) hlogical, ?_⟩
      split at h
      · cases h
      · cases h
        exact ⟨b, "a boolean", .inr rfl, by decide, rfl⟩
      · cases h
        exact ⟨a, "a boolean", .inl rfl, by decide, rfl⟩
  · cases h

/-- A condition that is refused is no truth value, and the message says so. -/
theorem testValue_eq_failed {σ : Type} {cfg : Setting σ} {info : Info} {tag : String} {s t : RunState σ} {e : Failure}
    (h : testValue cfg info tag v s = .failed e t) :
    ∃ f, e = .fault f ∧ f.kind = .type ∧ f.message =
      "" ++ var tag ++ (" is not possible since " ++ var (s.memory.describe v) ++ " is not a boolean") := by
  unfold testValue at h
  split at h
  · cases h
  · split at h
    · cases h
    · cases h
      refine ⟨_, rfl, rfl, ?_⟩
      apply String.toList_inj.mp
      simp [RunState.faultAt, var]

end Memory

/-- What is put between the tags of a message is a fragment of its own, shown as it is and escaped inside one element,
unless it holds a closing tag itself; the texts around it may be any without an opening tag. So a message of the wrong
kind of an operand or of a condition shows the operand as it is, unless this is a text that holds a closing tag. -/
theorem fragment_shown_unless_closed (m : Memory) (v : Value) :
    (∀ a s b : String, ¬openTag <:+: a.toList → ¬openTag <:+: b.toList →
      (plain (a ++ var s ++ b) = a ++ s ++ b ∧ html (a ++ var s ++ b) = escape a ++ var (escape s) ++ escape b ↔
        ¬closeTag <:+: s.toList)) ∧
    (∀ symbol kind : String, ¬closeTag <:+: symbol.toList → '"' ∉ (symbol ++ kind).toList →
      m.ShowsOperand v (m.notA symbol v kind).2) ∧
    (∀ (symbol message : String) (a b : Value), m.checked symbol a b = .error (.type, message) →
      ∃ v kind, (v = a ∨ v = b) ∧ message = (m.notA symbol v kind).2 ∧ m.ShowsOperand v message) ∧
    ∀ {σ : Type} (cfg : Setting σ) (info : Info) (tag : String) (s t : RunState σ) (e : Failure),
      ¬closeTag <:+: tag.toList → '"' ∉ tag.toList → testValue cfg info tag v s = .failed e t →
      ∃ f, e = .fault f ∧ f.kind = .type ∧ s.memory.ShowsOperand v f.message := by
  refine ⟨?_, ?_, ?_, ?_⟩
  · intro a s b ha hb
    constructor
    · intro h hs
      exact html_append_var_ne ha hs b (escape b) h.2
    · intro hs
      rw [plain_append_var ha hs, html_append_var ha hs, plain_of_not_infix hb, html_of_not_infix hb]
      exact ⟨rfl, rfl⟩
  · intro symbol kind
    exact Memory.showsOperand_notA
  · intro symbol message a b h
    obtain ⟨hsymbol, v, kind, hv, hkind, rfl⟩ := Memory.checked_eq_type h
    obtain ⟨htag, hquoteless⟩ := Memory.quoteless_symbols symbol hsymbol
    refine ⟨v, kind, hv, rfl, Memory.showsOperand_notA htag ?_⟩
    rw [String.toList_append, List.mem_append, not_or]
    exact ⟨hquoteless, Memory.quoteless_kinds kind hkind⟩
  · intro σ cfg info tag s t e htag hquotes h
    obtain ⟨f, he, hkind, hmessage⟩ := Memory.testValue_eq_failed h
    refine ⟨f, he, hkind, ?_⟩
    rw [hmessage]
    apply Memory.showsOperand_of_message htag (by decide)
    simpa using hquotes

/-- A text that looks like a tag of a web page, in a message and as an operand. -/
theorem tag_like_text_shown : ¬openTag <:+: "".toList ∧ ¬openTag <:+: " < 2".toList ∧
    plain ("" ++ var "<b>" ++ " < 2") = "" ++ "<b>" ++ " < 2" ∧
    html ("" ++ var "<b>" ++ " < 2") = escape "" ++ var (escape "<b>") ++ escape " < 2" ∧
    ¬closeTag <:+: "-".toList ∧ '"' ∉ ("-" ++ "a number").toList ∧
    (Memory.empty.describe (.string "<b>")).toList <:+:
      (plain (Memory.empty.notA "-" (.string "<b>") "a number").2).toList ∧
    (∃ message v, Memory.empty.checked "-" (.string "<b>") (.number 1.0) = .error (.type, message) ∧
      Memory.empty.ShowsOperand v message) ∧
    ¬closeTag <:+: "if".toList ∧ '"' ∉ "if".toList ∧
    ∃ f t, testValue (.plain .safe none .none) default "if" (.string "<b>") .plain = .failed (.fault f) t ∧
      RunState.plain.memory.ShowsOperand (.string "<b>") f.message := by
  have hbefore : ¬openTag <:+: "".toList := by decide
  have hafter : ¬openTag <:+: " < 2".toList := by decide
  have hsymbol : ¬closeTag <:+: "-".toList := by decide
  have hquotes : '"' ∉ ("-" ++ "a number").toList := by decide
  have hopen : ¬closeTag <:+: "<b>".toList := by decide
  obtain ⟨hfragment, hrefusal, hchecked, htest⟩ := fragment_shown_unless_closed Memory.empty (.string "<b>")
  obtain ⟨hplain, hhtml⟩ := (hfragment "" "<b>" " < 2" hbefore hafter).mpr hopen
  obtain ⟨v, kind, -, -, hshown⟩ := hchecked "-" (Memory.empty.notA "-" (.string "<b>") "a number").2 (.string "<b>")
    (.number 1.0) rfl
  obtain ⟨f, he, -, hcondition⟩ := htest (.plain .safe none .none) default "if" .plain _ _ (by decide) (by decide) rfl
  exact ⟨hbefore, hafter, hplain, hhtml, hsymbol, hquotes, (hrefusal "-" "a number" hsymbol hquotes).mpr hopen,
    ⟨_, v, rfl, hshown⟩, by decide, by decide, ⟨f, _, congrArg (Outcome.failed · _) he, hcondition⟩⟩

/-- A text with a closing tag ends its fragment there: the tag is not shown, and what is behind it stands outside. In the
refusal of such an operand, its short form is not shown. -/
theorem closing_tag_ends_fragment : plain ("" ++ var "x</var>y" ++ "") = "xy</var>" ∧
    html ("" ++ var "x</var>y" ++ "") = "<var>x</var>y&lt;/var&gt;" ∧
    ¬(Memory.empty.describe (.string "x</var>y")).toList <:+:
      (plain (Memory.empty.notA "-" (.string "x</var>y") "a number").2).toList := by
  have hopen : ¬openTag <:+: "".toList := by decide
  have hsplit : splitAt closeTag ("x</var>y".toList ++ (closeTag ++ "".toList)) = some (['x'], "y</var>".toList) := rfl
  have hrest : segmentsOf "y</var>".toList = textSegment "y</var>".toList := segmentsOf_of_not_infix (by decide)
  have hsegments := segments_append_var hopen "" hsplit
  rw [hrest] at hsegments
  refine ⟨?_, ?_, ?_⟩
  · apply String.toList_inj.mp
    rw [toList_plain, hsegments]
    rfl
  · apply String.toList_inj.mp
    rw [toList_html, hsegments]
    rfl
  · have hshown : Memory.empty.ShowsOperand (.string "x</var>y")
        (Memory.empty.notA "-" (.string "x</var>y") "a number").2 :=
      Memory.showsOperand_notA (by decide) (by decide)
    intro hinside
    exact hshown.mp hinside ⟨"x".toList, "y".toList, rfl⟩

end Primer
