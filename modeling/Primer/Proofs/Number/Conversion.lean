import Mathlib.Data.List.TakeWhile
import Primer.Value.Conversion
import Primer.Proofs.Number.Numeral

/-!
# Texts as numbers

The number that the standard of JavaScript (its fifth edition) gives for an ASCII text (`IsStandard`). The text is a
literal with white space around it, and the number is the one that is nearest to what the literal denotes; a text of
white space is zero, and any other text is no number.

`textToNumber` agrees with the standard on every text but those whose literal is too large, and there it gives no
number (`textToNumber_standard_unless_too_large`). The characters of a text decide which kind of literal it can be: one
with the mark of a hexadecimal integer, one of the three infinities, or a decimal literal; on each of these the reader
and the grammar are compared by themselves (`IsReading`).
-/

set_option autoImplicit false

namespace Primer

open Number

/-! ## The standard -/

/-- The white space among the ASCII characters. -/
def IsSpace (c : Char) : Prop := (9 ≤ c.toNat ∧ c.toNat ≤ 13) ∨ c.toNat = 32

/-- A hexadecimal digit and its value. -/
inductive IsHexDigit : Char → Nat → Prop where
  | decimal {c : Char} (hlow : '0' ≤ c) (hhigh : c ≤ '9') : IsHexDigit c (c.toNat - '0'.toNat)
  | small {c : Char} (hlow : 'a' ≤ c) (hhigh : c ≤ 'f') : IsHexDigit c (c.toNat - 'a'.toNat + 10)
  | capital {c : Char} (hlow : 'A' ≤ c) (hhigh : c ≤ 'F') : IsHexDigit c (c.toNat - 'A'.toNat + 10)

/-- Hexadecimal digits and the natural that they denote. -/
inductive IsHexadecimal : List Char → Nat → Prop where
  | digit {c : Char} {d : Nat} (hc : IsHexDigit c d) : IsHexadecimal [c] d
  | more {cs : List Char} {n : Nat} {c : Char} {d : Nat} (hcs : IsHexadecimal cs n) (hc : IsHexDigit c d) :
    IsHexadecimal (cs ++ [c]) (16 * n + d)

/-- An infinity in letters, and whether it is the negative one. -/
inductive IsInfinity : List Char → Bool → Prop where
  | unsigned : IsInfinity "Infinity".toList false
  | plus : IsInfinity "+Infinity".toList false
  | minus : IsInfinity "-Infinity".toList true

/-- A numeric literal and the number that it stands for. -/
inductive IsLiteral : List Char → Float → Prop where
  | decimal {cs : List Char} {negative : Bool} {v : ℚ} {b : Nat} (h : IsDecimal cs negative v) (hb : IsNearest v b) :
    IsLiteral cs (withSign negative b)
  | hexadecimal {mark : Char} {ds : List Char} {n b : Nat} (hmark : mark = 'x' ∨ mark = 'X') (h : IsHexadecimal ds n)
    (hb : IsNearest n b) : IsLiteral ('0' :: mark :: ds) (withSign false b)
  | infinity {cs : List Char} {negative : Bool} (h : IsInfinity cs negative) : IsLiteral cs (infinity negative)

/-- A numeric text and the number that it stands for: a literal with white space around it, or nothing else. -/
inductive IsNumericText : List Char → Float → Prop where
  | blank {cs : List Char} (h : ∀ c ∈ cs, IsSpace c) : IsNumericText cs 0.0
  | literal {before cs after : List Char} {x : Float} (hbefore : ∀ c ∈ before, IsSpace c)
    (hafter : ∀ c ∈ after, IsSpace c) (h : IsLiteral cs x) : IsNumericText (before ++ cs ++ after) x

/-- The number that the standard gives for a text. -/
def IsStandard (cs : List Char) (x : Float) : Prop :=
  IsNumericText cs x ∨ (∀ y, ¬IsNumericText cs y) ∧ x = nan

/-- A literal that the reader refuses: a decimal one that is rounded to infinity, or a hexadecimal one that does not fit
into sixty-four bits. -/
inductive IsTooLarge : List Char → Prop where
  | decimal {cs : List Char} {negative : Bool} {v : ℚ} (h : IsDecimal cs negative v) (hb : IsNearest v infinityBits) :
    IsTooLarge cs
  | hexadecimal {mark : Char} {ds : List Char} {n : Nat} (hmark : mark = 'x' ∨ mark = 'X') (h : IsHexadecimal ds n)
    (hn : 2 ^ 64 ≤ n) : IsTooLarge ('0' :: mark :: ds)

/-- A text with such a literal. -/
inductive HasTooLarge : List Char → Prop where
  | literal {before cs after : List Char} (hbefore : ∀ c ∈ before, IsSpace c) (hafter : ∀ c ∈ after, IsSpace c)
    (h : IsTooLarge cs) : HasTooLarge (before ++ cs ++ after)

/-! ## Hexadecimal integers -/

variable {c mark : Char} {cs ds before after : List Char} {n d b : Nat} {x y : Float} {v : ℚ} {negative : Bool}

/-- The value of a hexadecimal digit is computed as it is defined. -/
theorem hexValue_iff : hexValue? c = some d ↔ IsHexDigit c d := by
  unfold hexValue?
  simp only [Bool.and_eq_true, decide_eq_true_eq]
  constructor
  · intro h
    split at h
    · rename_i hc
      cases h
      exact .decimal hc.1 hc.2
    · split at h
      · rename_i hc
        cases h
        exact .small hc.1 hc.2
      · split at h
        · rename_i hc
          cases h
          exact .capital hc.1 hc.2
        · cases h
  · intro h
    cases h with
    | decimal hlow hhigh => rw [if_pos ⟨hlow, hhigh⟩]
    | small hlow hhigh =>
      have hdecimal : ¬('0' ≤ c ∧ c ≤ '9') := fun h => absurd (Char.le_trans hlow h.2) (by decide)
      rw [if_neg hdecimal, if_pos ⟨hlow, hhigh⟩]
    | capital hlow hhigh =>
      have hdecimal : ¬('0' ≤ c ∧ c ≤ '9') := fun h => absurd (Char.le_trans hlow h.2) (by decide)
      have hsmall : ¬('a' ≤ c ∧ c ≤ 'f') := fun h => absurd (Char.le_trans h.1 hhigh) (by decide)
      rw [if_neg hdecimal, if_neg hsmall, if_pos ⟨hlow, hhigh⟩]

/-- A hexadecimal digit is below 16. -/
theorem IsHexDigit.lt (h : IsHexDigit c d) : d < 16 := by
  cases h with
  | decimal hlow hhigh =>
    have hle : c.toNat ≤ 57 := hhigh
    show c.toNat - 48 < 16
    omega
  | small hlow hhigh =>
    have hle : c.toNat ≤ 102 := hhigh
    show c.toNat - 97 + 10 < 16
    omega
  | capital hlow hhigh =>
    have hle : c.toNat ≤ 70 := hhigh
    show c.toNat - 65 + 10 < 16
    omega

/-- A hexadecimal number has digits. -/
theorem IsHexadecimal.ne_nil (h : IsHexadecimal ds n) : ds ≠ [] := by
  cases h with
  | digit hc => exact List.cons_ne_nil _ _
  | more hcs hc => exact List.append_ne_nil_of_right_ne_nil _ (List.cons_ne_nil _ _)

/-- One more digit is read after the others. -/
theorem readDigits_append_digit (ds : List Char) (c : Char) :
    readDigits hexValue? 16 (ds ++ [c]) =
      (if ds = [] then some 0 else readDigits hexValue? 16 ds).bind fun n =>
        (hexValue? c).bind fun d => some (16 * n + d) := by
  have hfits : ∀ n, ((hexValue? c).bind fun d => if d < 16 then some (16 * n + d) else none) =
      (hexValue? c).bind fun d => some (16 * n + d) := by
    intro n
    cases hd : hexValue? c with
    | none => rfl
    | some d => exact if_pos (hexValue_iff.mp hd).lt
  have hne : (ds ++ [c]).isEmpty = false := by simp
  unfold readDigits
  rw [hne, List.foldl_append]
  by_cases hds : ds = []
  · subst hds
    exact hfits 0
  · have hds' : ds.isEmpty = false := by simpa using hds
    rw [if_neg hds, hds', if_neg Bool.false_ne_true, if_neg Bool.false_ne_true]
    exact congrArg _ (funext hfits)

/-- What is read as hexadecimal digits are the hexadecimal integers of the grammar. -/
theorem readDigits_iff : readDigits hexValue? 16 ds = some n ↔ IsHexadecimal ds n := by
  -- The digits are taken from the end, as the grammar puts them together.
  induction ds using List.reverseRecOn generalizing n with
  | nil => exact ⟨fun h => (by cases h), fun h => absurd rfl h.ne_nil⟩
  | append_singleton ds c ih =>
    rw [readDigits_append_digit, Option.bind_eq_some_iff]
    simp only [Option.bind_eq_some_iff, hexValue_iff, Option.some.injEq]
    constructor
    · rintro ⟨k, hk, d, hc, rfl⟩
      split at hk
      · rename_i hds
        subst hds
        cases hk
        rw [Nat.mul_zero, Nat.zero_add]
        exact .digit hc
      · exact .more (ih.mp hk) hc
    · intro h
      generalize htext : ds ++ [c] = text at h
      cases h with
      | @digit c' d hc =>
        obtain ⟨rfl, htail⟩ := List.append_inj' (show ds ++ [c] = [] ++ [c'] from htext) rfl
        cases htail
        exact ⟨0, rfl, _, hc, by omega⟩
      | @more ds' k _ d hds hc =>
        obtain ⟨rfl, htail⟩ := List.append_inj' htext rfl
        cases htail
        exact ⟨k, by rw [if_neg hds.ne_nil]; exact ih.mpr hds, d, hc, rfl⟩

/-! ## White space -/

/-- Blanks around characters that are none are taken away. -/
theorem trimChars_surrounded (hbefore : ∀ c ∈ before, Text.isBlank c = true) (hcs : ∀ c ∈ cs, Text.isBlank c = false)
    (hafter : ∀ c ∈ after, Text.isBlank c = true) : Text.trimChars (before ++ cs ++ after) = cs := by
  have hfirst : (before ++ cs ++ after).dropWhile Text.isBlank = (cs ++ after).dropWhile Text.isBlank := by
    rw [List.append_assoc, List.dropWhile_append_of_pos hbefore]
  unfold Text.trimChars Text.trimEnd
  rw [hfirst]
  match cs with
  | [] =>
    rw [List.nil_append, List.dropWhile_eq_nil_iff.mpr hafter]
    rfl
  | c :: cs =>
    have hc : ¬Text.isBlank c = true := by simp [hcs c List.mem_cons_self]
    have hlast : ∀ c ∈ after.reverse, Text.isBlank c = true := fun c h => hafter c (List.mem_reverse.mp h)
    rw [List.cons_append, List.dropWhile_cons_of_neg hc, ← List.cons_append, List.reverse_append,
      List.dropWhile_append_of_pos hlast]
    have hstop : ((c :: cs).reverse).dropWhile Text.isBlank = (c :: cs).reverse := by
      rw [List.dropWhile_eq_self_iff]
      intro hpos
      rw [hcs _ (List.mem_reverse.mp (List.getElem_mem hpos))]
      exact Bool.false_ne_true
    rw [hstop, List.reverse_reverse]

/-- Among the ASCII characters the blanks are the white space of the standard. -/
theorem isBlank_iff (hc : c.toNat < 128) : Text.isBlank c = true ↔ IsSpace c := by
  unfold Text.isBlank IsSpace
  simp only [Bool.or_eq_true, Bool.and_eq_true, decide_eq_true_eq, beq_iff_eq]
  omega

/-- An ASCII text is what is left of it with white space around it. -/
theorem exists_spaces (hs : ∀ c ∈ cs, c.toNat < 128) :
    ∃ before after, cs = before ++ Text.trimChars cs ++ after ∧ (∀ c ∈ before, IsSpace c) ∧ ∀ c ∈ after, IsSpace c := by
  have hspace : ∀ c ∈ cs, Text.isBlank c = true → IsSpace c := fun c hc => (isBlank_iff (hs c hc)).mp
  have htaken : ∀ {ds : List Char} {c : Char}, c ∈ ds.takeWhile Text.isBlank → Text.isBlank c = true :=
    fun {ds} {c} => List.all_eq_true.mp (List.all_takeWhile (l := ds)) c
  refine ⟨cs.takeWhile Text.isBlank, ((cs.dropWhile Text.isBlank).reverse.takeWhile Text.isBlank).reverse, ?_, ?_, ?_⟩
  · unfold Text.trimChars Text.trimEnd
    rw [List.append_assoc, ← List.reverse_append, List.takeWhile_append_dropWhile, List.reverse_reverse,
      List.takeWhile_append_dropWhile]
  · intro c hc
    exact hspace c ((List.takeWhile_prefix _).subset hc) (htaken hc)
  · intro c hc
    have hc' := List.mem_reverse.mp hc
    have hmem := List.mem_reverse.mp ((List.takeWhile_prefix _).subset hc')
    exact hspace c ((List.dropWhile_suffix _).subset hmem) (htaken hc')

/-! ## The characters of literals -/

/-- A digit can stand in a numeral. -/
theorem isNumeralChar_of_isDigit (h : c.isDigit = true) : isNumeralChar c = true := by
  unfold isNumeralChar
  rw [h]
  rfl

/-- The characters of an exponent can stand in a numeral. -/
theorem areNumeralChars_of_exponent {es : List Char} {e : Int} (h : IsExponent es e) :
    ∀ c ∈ es, isNumeralChar c = true := by
  have hmarks : ∀ mark, mark = 'e' ∨ mark = 'E' → isNumeralChar mark = true := by
    rintro mark (rfl | rfl) <;> rfl
  cases h with
  | absent => exact fun _ h => by cases h
  | unsigned hmark hne hds =>
    rw [List.forall_mem_cons]
    exact ⟨hmarks _ hmark, fun c hc => isNumeralChar_of_isDigit (hds c hc)⟩
  | plus hmark hne hds =>
    rw [List.forall_mem_cons, List.forall_mem_cons]
    exact ⟨hmarks _ hmark, rfl, fun c hc => isNumeralChar_of_isDigit (hds c hc)⟩
  | minus hmark hne hds =>
    rw [List.forall_mem_cons, List.forall_mem_cons]
    exact ⟨hmarks _ hmark, rfl, fun c hc => isNumeralChar_of_isDigit (hds c hc)⟩

/-- The characters of a numeral without a sign can stand in a numeral. -/
theorem areNumeralChars_of_unsigned (h : IsUnsigned cs v) : ∀ c ∈ cs, isNumeralChar c = true := by
  cases h with
  | whole hne hds hes =>
    rw [List.forall_mem_append]
    exact ⟨fun c hc => isNumeralChar_of_isDigit (hds c hc), areNumeralChars_of_exponent hes⟩
  | mixed hne hds hfs hes =>
    rw [List.forall_mem_append, List.forall_mem_cons, List.forall_mem_append]
    exact ⟨fun c hc => isNumeralChar_of_isDigit (hds c hc), rfl, fun c hc => isNumeralChar_of_isDigit (hfs c hc),
      areNumeralChars_of_exponent hes⟩
  | fraction hne hfs hes =>
    rw [List.forall_mem_cons, List.forall_mem_append]
    exact ⟨rfl, fun c hc => isNumeralChar_of_isDigit (hfs c hc), areNumeralChars_of_exponent hes⟩

/-- A decimal literal is made of the characters that are let through to the reader. -/
theorem areNumeralChars_of_decimal (h : IsDecimal cs negative v) : ∀ c ∈ cs, isNumeralChar c = true := by
  cases h with
  | unsigned h => exact areNumeralChars_of_unsigned h
  | plus h => exact List.forall_mem_cons.mpr ⟨rfl, areNumeralChars_of_unsigned h⟩
  | minus h => exact List.forall_mem_cons.mpr ⟨rfl, areNumeralChars_of_unsigned h⟩

/-! ## The kinds of literals -/

/-- The mark of a hexadecimal number stands in no numeral. -/
theorem not_isNumeralChar_mark (hmark : mark = 'x' ∨ mark = 'X') : isNumeralChar mark = false := by
  rcases hmark with rfl | rfl <;> rfl

/-- A text with the mark of a hexadecimal integer is no decimal literal. -/
theorem not_isDecimal_of_mark (hmark : mark = 'x' ∨ mark = 'X') : ¬IsDecimal ('0' :: mark :: ds) negative v := by
  intro h
  have hchars := areNumeralChars_of_decimal h mark (List.mem_cons_of_mem _ List.mem_cons_self)
  rw [not_isNumeralChar_mark hmark] at hchars
  cases hchars

/-- The word for infinity is no decimal number. -/
theorem not_isDecimal_of_isInfinity {negative' : Bool} (h : IsInfinity cs negative) : ¬IsDecimal cs negative' v := by
  intro hdecimal
  have hchars := areNumeralChars_of_decimal hdecimal 'n' (by cases h <;> decide)
  cases hchars

/-- What starts with a zero is no infinity. -/
theorem not_isInfinity_of_mark : ¬IsInfinity ('0' :: cs) negative := by
  generalize htext : '0' :: cs = text
  rintro (_ | _ | _) <;> cases htext

/-- An infinity has one sign. -/
theorem IsInfinity.unique {negative' : Bool} (h : IsInfinity cs negative) (h' : IsInfinity cs negative') :
    negative = negative' := by
  have hminus : cs.head? = some '-' ↔ negative = true := by cases h <;> decide
  have hminus' : cs.head? = some '-' ↔ negative' = true := by cases h' <;> decide
  rw [Bool.eq_iff_iff, ← hminus, hminus']

/-- The integer that is nearest to a natural. -/
theorem nearest_eq_of_isNearest (h : IsNearest n b) : nearest false n 1 = withSign false b := by
  have hbits := nearestBits_isNearest n Nat.one_pos
  rw [Nat.cast_one, div_one] at hbits
  rw [nearest, hbits.unique h]

/-- Behind the hexadecimal mark a literal is a hexadecimal number. -/
theorem isLiteral_hexadecimal_iff (hmark : mark = 'x' ∨ mark = 'X') :
    IsLiteral ('0' :: mark :: ds) y ↔ ∃ n, IsHexadecimal ds n ∧ y = nearest false n 1 := by
  constructor
  · generalize htext : '0' :: mark :: ds = text
    rintro (⟨h, hb⟩ | ⟨_, h, hb⟩ | h)
    · subst htext
      exact absurd h (not_isDecimal_of_mark hmark)
    · cases htext
      exact ⟨_, h, (nearest_eq_of_isNearest hb).symm⟩
    · subst htext
      exact absurd h not_isInfinity_of_mark
  · rintro ⟨n, h, rfl⟩
    have hbits := nearestBits_isNearest n Nat.one_pos
    rw [Nat.cast_one, div_one] at hbits
    exact .hexadecimal hmark h hbits

/-- A hexadecimal number is too large from `2 ^ 64` on. -/
theorem isTooLarge_hexadecimal_iff (hmark : mark = 'x' ∨ mark = 'X') :
    IsTooLarge ('0' :: mark :: ds) ↔ ∃ n, IsHexadecimal ds n ∧ 2 ^ 64 ≤ n := by
  constructor
  · generalize htext : '0' :: mark :: ds = text
    rintro (⟨h, hb⟩ | ⟨_, h, hn⟩)
    · subst htext
      exact absurd h (not_isDecimal_of_mark hmark)
    · cases htext
      exact ⟨_, h, hn⟩
  · rintro ⟨n, h, hn⟩
    exact .hexadecimal hmark h hn

/-- The word for infinity is a literal of infinity only. -/
theorem isLiteral_infinity_iff (h : IsInfinity cs negative) : IsLiteral cs y ↔ y = infinity negative := by
  constructor
  · rintro (⟨h', hb⟩ | ⟨_, h', hb⟩ | h')
    · exact absurd h' (not_isDecimal_of_isInfinity h)
    · exact absurd h not_isInfinity_of_mark
    · rw [h.unique h']
  · rintro rfl
    exact .infinity h

/-- An infinity that is written as one is not too large. -/
theorem not_isTooLarge_infinity (h : IsInfinity cs negative) : ¬IsTooLarge cs := by
  rintro (⟨h', hb⟩ | ⟨_, h', hb⟩)
  · exact absurd h' (not_isDecimal_of_isInfinity h)
  · exact absurd h not_isInfinity_of_mark

/-- A text that can only be a decimal literal. -/
structure IsPlain (cs : List Char) : Prop where
  unmarked : ∀ mark ds, mark = 'x' ∨ mark = 'X' → cs ≠ '0' :: mark :: ds
  finite : ∀ negative, ¬IsInfinity cs negative

/-- A plain literal is a decimal numeral. -/
theorem isLiteral_plain_iff (h : IsPlain cs) : IsLiteral cs y ↔ ∃ n, readNumeral cs = some n ∧ y = n.toFloat := by
  constructor
  · rintro (⟨h', hb⟩ | ⟨hmark, h', hb⟩ | h')
    · obtain ⟨n, hread, rfl, rfl⟩ := isDecimal_iff.mp h'
      exact ⟨n, hread, by rw [Numeral.toFloat, n.bits_isNearest.unique hb]⟩
    · exact absurd rfl (h.unmarked _ _ hmark)
    · exact absurd h' (h.finite _)
  · rintro ⟨n, hread, rfl⟩
    exact .decimal (isDecimal_iff.mpr ⟨n, hread, rfl, rfl⟩) n.bits_isNearest

/-- A plain literal is too large if the nearest number is infinite. -/
theorem isTooLarge_plain_iff (h : IsPlain cs) :
    IsTooLarge cs ↔ ∃ n, readNumeral cs = some n ∧ n.bits = infinityBits := by
  constructor
  · rintro (⟨h', hb⟩ | ⟨hmark, h', hb⟩)
    · obtain ⟨n, hread, rfl, rfl⟩ := isDecimal_iff.mp h'
      exact ⟨n, hread, n.bits_isNearest.unique hb⟩
    · exact absurd rfl (h.unmarked _ _ hmark)
  · rintro ⟨n, hread, hbits⟩
    exact .decimal (isDecimal_iff.mpr ⟨n, hread, rfl, rfl⟩) (hbits ▸ n.bits_isNearest)

/-! ## The reader -/

/-- The check of the characters refuses no literal. -/
theorem decimal_eq (s : String) : trimmedToNumber.decimal s =
    (readNumeral s.toList).elim nan fun n => if n.bits = infinityBits then nan else n.toFloat := by
  unfold trimmedToNumber.decimal readDecimal
  cases hread : readNumeral s.toList with
  | none => split <;> rfl
  | some n =>
    have hchars := areNumeralChars_of_decimal (isDecimal_iff.mpr ⟨n, hread, rfl, rfl⟩)
    rw [if_pos (List.all_eq_true.mpr hchars)]
    dsimp only [Option.elim]
    by_cases hbits : n.bits = infinityBits
    · rw [if_pos hbits, if_pos hbits]
    · rw [if_neg hbits, if_neg hbits]

/-- A hexadecimal text becomes the number of its digits, or no number from `2 ^ 64` on. -/
theorem trimmedToNumber_hexadecimal (hmark : mark = 'x' ∨ mark = 'X') :
    trimmedToNumber (String.ofList ('0' :: mark :: ds)) =
      (readDigits hexValue? 16 ds).elim nan fun n => if n < 2 ^ 64 then nearest false n 1 else nan := by
  cases ds with
  | nil => rcases hmark with rfl | rfl <;> rfl
  | cons d ds =>
    have hmark' : (decide (mark = 'x') || decide (mark = 'X')) = true := by simpa using hmark
    simp only [trimmedToNumber, String.toList_ofList, hmark', if_true]
    cases readDigits hexValue? 16 (d :: ds) with
    | none => rfl
    | some n => rfl

/-- The word for infinity becomes infinity. -/
theorem trimmedToNumber_infinity (h : IsInfinity cs negative) :
    trimmedToNumber (String.ofList cs) = infinity negative := by
  cases h <;> rfl

/-- A plain text is read as a decimal number. -/
theorem trimmedToNumber_plain (hne : cs ≠ []) (h : IsPlain cs) :
    trimmedToNumber (String.ofList cs) = trimmedToNumber.decimal (String.ofList cs) := by
  have hletters : ∀ {text : String} {negative : Bool}, IsInfinity text.toList negative → String.ofList cs ≠ text := by
    rintro text negative hinfinity rfl
    rw [String.toList_ofList] at hinfinity
    exact h.finite _ hinfinity
  unfold trimmedToNumber
  split
  · rename_i hnil
    rw [String.toList_ofList] at hnil
    exact absurd hnil hne
  · rename_i x d ds htext
    rw [String.toList_ofList] at htext
    split
    · rename_i hmark
      rw [Bool.or_eq_true, decide_eq_true_eq, decide_eq_true_eq] at hmark
      exact absurd htext (h.unmarked _ _ hmark)
    · rfl
  · simp only [hletters .unsigned, hletters .plus, hletters .minus, decide_false, Bool.or_self, Bool.false_eq_true,
      if_false]

/-- The number that is no number is none. -/
theorem isNaN_nan : isNaN nan = true := by
  decide +kernel

/-- A pattern up to the one of infinity is a number. -/
theorem withSign_ne_nan (hb : b ≤ infinityBits) : withSign negative b ≠ nan := by
  intro h
  have hpattern := (isNaN_iff_pattern nan).mp isNaN_nan
  rw [← h, pattern_withSign hb] at hpattern
  exact absurd hb (Nat.not_le.mpr hpattern)

/-- A number against the literals of a text: the one that its only literal stands for, or no number if that is too
large or if there is no literal. -/
inductive IsReading (cs : List Char) : Float → Prop where
  | exact {x : Float} (h : ∀ y, IsLiteral cs y ↔ y = x) (hfits : ¬IsTooLarge cs) : IsReading cs x
  | tooLarge {x : Float} (h : ∀ y, IsLiteral cs y ↔ y = x) (hx : x ≠ nan) (hlarge : IsTooLarge cs) : IsReading cs nan
  | malformed (h : ∀ y, ¬IsLiteral cs y) (hfits : ¬IsTooLarge cs) : IsReading cs nan

/-- A hexadecimal text is read as the standard says, unless it is too large. -/
theorem isReading_hexadecimal (hmark : mark = 'x' ∨ mark = 'X') :
    IsReading ('0' :: mark :: ds) (trimmedToNumber (String.ofList ('0' :: mark :: ds))) := by
  rw [trimmedToNumber_hexadecimal hmark]
  have hliteral (y : Float) : IsLiteral ('0' :: mark :: ds) y ↔ _ := isLiteral_hexadecimal_iff hmark
  have hlarge : IsTooLarge ('0' :: mark :: ds) ↔ _ := isTooLarge_hexadecimal_iff hmark
  simp only [← readDigits_iff] at hliteral hlarge
  cases hread : readDigits hexValue? 16 ds with
  | none =>
    simp only [hread, reduceCtorEq, false_and, exists_false, iff_false] at hliteral hlarge
    exact .malformed hliteral hlarge
  | some n =>
    simp only [hread, Option.some.injEq, exists_eq_left'] at hliteral hlarge
    dsimp only [Option.elim]
    by_cases hn : n < 2 ^ 64
    · rw [if_pos hn]
      exact .exact hliteral (mt hlarge.mp (Nat.not_le.mpr hn))
    · rw [if_neg hn]
      have hbits := nearestBits_isNearest n Nat.one_pos
      exact .tooLarge hliteral (withSign_ne_nan hbits.1) (hlarge.mpr (Nat.le_of_not_lt hn))

/-- The word for infinity is read as the standard says. -/
theorem isReading_infinity (h : IsInfinity cs negative) : IsReading cs (trimmedToNumber (String.ofList cs)) := by
  rw [trimmedToNumber_infinity h]
  exact .exact (fun _ => isLiteral_infinity_iff h) (not_isTooLarge_infinity h)

/-- A plain text is read as the standard says, unless it is too large. -/
theorem isReading_plain (hne : cs ≠ []) (h : IsPlain cs) : IsReading cs (trimmedToNumber (String.ofList cs)) := by
  rw [trimmedToNumber_plain hne h, decimal_eq, String.toList_ofList]
  have hliteral (y : Float) := isLiteral_plain_iff (y := y) h
  have hlarge := isTooLarge_plain_iff h
  cases hread : readNumeral cs with
  | none =>
    simp only [hread, reduceCtorEq, false_and, exists_false, iff_false] at hliteral hlarge
    exact .malformed hliteral hlarge
  | some n =>
    simp only [hread, Option.some.injEq, exists_eq_left'] at hliteral hlarge
    dsimp only [Option.elim]
    by_cases hbits : n.bits = infinityBits
    · rw [if_pos hbits]
      exact .tooLarge hliteral (withSign_ne_nan n.bits_isNearest.1) (hlarge.mpr hbits)
    · rw [if_neg hbits]
      exact .exact hliteral (mt hlarge.mp hbits)

/-- The reader goes through the kinds of literals. -/
theorem isReading_trimmedToNumber (hne : cs ≠ []) : IsReading cs (trimmedToNumber (String.ofList cs)) := by
  by_cases hmarked : ∃ mark ds, (mark = 'x' ∨ mark = 'X') ∧ cs = '0' :: mark :: ds
  · obtain ⟨mark, ds, hmark, rfl⟩ := hmarked
    exact isReading_hexadecimal hmark
  · by_cases hinfinite : ∃ negative, IsInfinity cs negative
    · obtain ⟨negative, h⟩ := hinfinite
      exact isReading_infinity h
    · refine isReading_plain hne ⟨fun mark ds hmark h => hmarked ⟨mark, ds, hmark, h⟩, ?_⟩
      intro negative h
      exact hinfinite ⟨negative, h⟩

/-! ## Texts with white space -/

/-- A visible ASCII character is no blank. -/
theorem isBlank_eq_false (hlow : 32 < c.toNat) (hhigh : c.toNat < 128) : Text.isBlank c = false := by
  rw [← Bool.not_eq_true, isBlank_iff hhigh]
  unfold IsSpace
  omega

/-- What can stand in a numeral is no blank. -/
theorem isBlank_eq_false_of_isNumeralChar (h : isNumeralChar c = true) : Text.isBlank c = false := by
  unfold isNumeralChar at h
  simp only [Bool.or_eq_true, beq_iff_eq] at h
  rcases h with ((((h | rfl) | rfl) | rfl) | rfl) | rfl
  · rw [Char.isDigit_iff_toNat] at h
    have hzero : '0'.toNat = 48 := rfl
    have hnine : '9'.toNat = 57 := rfl
    exact isBlank_eq_false (by omega) (by omega)
  all_goals rfl

/-- A hexadecimal digit is no blank. -/
theorem isBlank_eq_false_of_isHexadecimal (h : IsHexadecimal ds n) : ∀ c ∈ ds, Text.isBlank c = false := by
  have hdigit : ∀ {c d}, IsHexDigit c d → Text.isBlank c = false := by
    intro c d hc
    cases hc with
    | decimal hlow hhigh =>
      have hlow' : 48 ≤ c.toNat := hlow
      have hhigh' : c.toNat ≤ 57 := hhigh
      exact isBlank_eq_false (by omega) (by omega)
    | small hlow hhigh =>
      have hlow' : 97 ≤ c.toNat := hlow
      have hhigh' : c.toNat ≤ 102 := hhigh
      exact isBlank_eq_false (by omega) (by omega)
    | capital hlow hhigh =>
      have hlow' : 65 ≤ c.toNat := hlow
      have hhigh' : c.toNat ≤ 70 := hhigh
      exact isBlank_eq_false (by omega) (by omega)
  induction h with
  | digit hc => exact fun c hmem => List.mem_singleton.mp hmem ▸ hdigit hc
  | more hcs hc ih =>
    rw [List.forall_mem_append]
    exact ⟨ih, fun c hmem => List.mem_singleton.mp hmem ▸ hdigit hc⟩

/-- A literal contains no blanks. -/
theorem IsLiteral.notBlank (h : IsLiteral cs x) : cs ≠ [] ∧ ∀ c ∈ cs, Text.isBlank c = false := by
  cases h with
  | decimal h hb =>
    refine ⟨?_, fun c hc => isBlank_eq_false_of_isNumeralChar (areNumeralChars_of_decimal h c hc)⟩
    rintro rfl
    obtain ⟨n, hread, -⟩ := isDecimal_iff.mp h
    cases hread
  | hexadecimal hmark h hb =>
    refine ⟨List.cons_ne_nil _ _, ?_⟩
    rw [List.forall_mem_cons, List.forall_mem_cons]
    exact ⟨rfl, by rcases hmark with rfl | rfl <;> rfl, isBlank_eq_false_of_isHexadecimal h⟩
  | infinity h =>
    have hchars : cs.all (fun c => !Text.isBlank c) = true := by cases h <;> rfl
    refine ⟨by cases h <;> nofun, fun c hc => ?_⟩
    simpa using List.all_eq_true.mp hchars c hc

/-- What is too large is a literal. -/
theorem IsTooLarge.exists_isLiteral (h : IsTooLarge cs) : ∃ x, IsLiteral cs x := by
  cases h with
  | decimal h hb => exact ⟨_, .decimal h hb⟩
  | hexadecimal hmark h hn => exact ⟨_, (isLiteral_hexadecimal_iff hmark).mpr ⟨_, h, rfl⟩⟩

/-- The literal of an ASCII text is what is left of it without blanks. -/
theorem trimChars_of_literal (hbefore : ∀ c ∈ before, IsSpace c) (hafter : ∀ c ∈ after, IsSpace c)
    (h : ∀ c ∈ cs, Text.isBlank c = false) : Text.trimChars (before ++ cs ++ after) = cs := by
  have hblank : ∀ c, IsSpace c → Text.isBlank c = true := by
    intro c hc
    have hascii : c.toNat < 128 := by
      unfold IsSpace at hc
      omega
    exact (isBlank_iff hascii).mpr hc
  apply trimChars_surrounded (fun c hc => hblank c (hbefore c hc)) h
  intro c hc
  exact hblank c (hafter c hc)

/-- A text is numeric if it is blank or a literal without the blanks around it. -/
theorem isNumericText_iff (hs : ∀ c ∈ cs, c.toNat < 128) :
    IsNumericText cs y ↔ Text.trimChars cs = [] ∧ y = 0.0 ∨ IsLiteral (Text.trimChars cs) y := by
  constructor
  · intro h
    cases h with
    | blank h =>
      have htrim : Text.trimChars (cs ++ [] ++ []) = [] := trimChars_of_literal h (by simp) (by simp)
      rw [List.append_nil, List.append_nil] at htrim
      exact .inl ⟨htrim, rfl⟩
    | literal hbefore hafter h =>
      rw [trimChars_of_literal hbefore hafter h.notBlank.2]
      exact .inr h
  · obtain ⟨before, after, htext, hbefore, hafter⟩ := exists_spaces hs
    generalize Text.trimChars cs = body at htext
    subst htext
    rintro (⟨rfl, rfl⟩ | h)
    · apply IsNumericText.blank
      rw [List.append_nil, List.forall_mem_append]
      exact ⟨hbefore, hafter⟩
    · exact .literal hbefore hafter h

/-- The blanks around a text do not matter for its being too large. -/
theorem hasTooLarge_iff (hs : ∀ c ∈ cs, c.toNat < 128) : HasTooLarge cs ↔ IsTooLarge (Text.trimChars cs) := by
  constructor
  · rintro ⟨hbefore, hafter, h⟩
    obtain ⟨x, hx⟩ := h.exists_isLiteral
    rw [trimChars_of_literal hbefore hafter hx.notBlank.2]
    exact h
  · obtain ⟨before, after, htext, hbefore, hafter⟩ := exists_spaces hs
    intro h
    rw [htext]
    exact ⟨hbefore, hafter, h⟩

/-- A numeric text has its number as its standard value. -/
theorem isStandard_iff_of_numeric (h : ∀ y, IsNumericText cs y ↔ y = x) : IsStandard cs y ↔ y = x := by
  unfold IsStandard
  rw [h]
  constructor
  · rintro (rfl | ⟨hnone, -⟩)
    · rfl
    · exact absurd ((h x).mpr rfl) (hnone x)
  · exact .inl

/-- A text that is not numeric has no number as its standard value. -/
theorem isStandard_iff_of_malformed (h : ∀ y, ¬IsNumericText cs y) : IsStandard cs y ↔ y = nan := by
  unfold IsStandard
  constructor
  · rintro (hnumeric | ⟨-, rfl⟩)
    · exact absurd hnumeric (h y)
    · rfl
  · exact fun hy => .inr ⟨h, hy⟩

/-- The number of an ASCII text is the one that the standard gives for it, unless its literal is too large. -/
theorem textToNumber_standard_unless_too_large (s : String) (hs : ∀ c ∈ s.toList, c.toNat < 128) :
    ∃ x, (∀ y, IsStandard s.toList y ↔ y = x) ∧ (textToNumber s = x ↔ ¬HasTooLarge s.toList) ∧
      (HasTooLarge s.toList → textToNumber s = nan) := by
  have hnumeric (y : Float) := isNumericText_iff (y := y) hs
  have htrimmed : textToNumber s = trimmedToNumber (String.ofList (Text.trimChars s.toList)) := rfl
  rw [hasTooLarge_iff hs, htrimmed]
  generalize Text.trimChars s.toList = body at hnumeric
  by_cases hbody : body = []
  · subst hbody
    have hfits : ¬IsTooLarge [] := fun h => h.exists_isLiteral.elim fun _ h => h.notBlank.1 rfl
    refine ⟨0.0, ?_, iff_of_true rfl hfits, fun h => absurd h hfits⟩
    intro y
    refine isStandard_iff_of_numeric ?_
    intro y
    rw [hnumeric]
    exact ⟨fun h => (h.resolve_right fun h => h.notBlank.1 rfl).2, fun h => .inl ⟨rfl, h⟩⟩
  · have hliteral : ∀ y, IsNumericText s.toList y ↔ IsLiteral body y := by
      intro y
      rw [hnumeric]
      exact or_iff_right fun h => hbody h.1
    have hreading := isReading_trimmedToNumber hbody
    generalize trimmedToNumber (String.ofList body) = read at hreading
    cases hreading with
    | exact h hfits =>
      exact ⟨read, fun y => isStandard_iff_of_numeric fun y => (hliteral y).trans (h y), iff_of_true rfl hfits,
        fun h => absurd h hfits⟩
    | @tooLarge x h hx hlarge =>
      exact ⟨x, fun y => isStandard_iff_of_numeric fun y => (hliteral y).trans (h y),
        iff_of_false hx.symm (not_not.mpr hlarge), fun _ => rfl⟩
    | malformed h hfits =>
      exact ⟨nan, fun y => isStandard_iff_of_malformed fun y => mt (hliteral y).mp (h y), iff_of_true rfl hfits,
        fun _ => rfl⟩

/-- A padded text with a hexadecimal integer. -/
theorem hexadecimal_text_standard : (∀ c ∈ " 0x1F\n".toList, c.toNat < 128) ∧
    ∃ x, (∀ y, IsStandard " 0x1F\n".toList y ↔ y = x) ∧
      (textToNumber " 0x1F\n" = x ↔ ¬HasTooLarge " 0x1F\n".toList) ∧
      (HasTooLarge " 0x1F\n".toList → textToNumber " 0x1F\n" = nan) :=
  ⟨by simp, textToNumber_standard_unless_too_large " 0x1F\n" (by simp)⟩

/-- A decimal literal behind the largest number stands for infinity, and the reader refuses it. -/
theorem power_of_ten_refused :
    IsStandard "1e400".toList (infinity false) ∧ textToNumber "1e400" ≠ infinity false := by
  have hexponent : IsExponent ['e', '4', '0', '0'] 400 :=
    .unsigned (.inl rfl) (List.cons_ne_nil _ _) (by decide)
  have hdecimal : IsDecimal ['1', 'e', '4', '0', '0'] false (1 * 10 ^ (400 : Int)) := by
    have h : IsUnsigned (['1'] ++ ['e', '4', '0', '0']) _ := .whole (List.cons_ne_nil _ _) (by decide) hexponent
    exact .unsigned (by simpa [natural, Nat.ofDigitChars_cons] using h)
  have hnearest : IsNearest (1 * 10 ^ (400 : Int)) infinityBits := by
    have h := nearestDecimalBits_isNearest 1 400
    rwa [Nat.cast_one] at h
  have hread : textToNumber "1e400" = nan := rfl
  refine ⟨.inl ?_, ?_⟩
  · have h : IsNumericText ([] ++ ['1', 'e', '4', '0', '0'] ++ []) (withSign false infinityBits) :=
      .literal (by simp) (by simp) (.decimal hdecimal hnearest)
    exact h
  · rw [hread]
    exact (withSign_ne_nan le_rfl).symm

end Primer
