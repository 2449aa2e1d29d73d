import Primer.Source.Program

/-!
# Scanning what was scanned

A token that was scanned once is scanned again wherever its text stands, as long as what stands behind it does
not run into it. This module says so for words, numbers, texts and punctuation marks: each has a property that
everything scanned has (`scanWord_isPlain`, `scanNumeral_isNumeral`, `scanText_isQuoted`), and that property is all
that is needed to scan the text again in front of something else.
-/

set_option autoImplicit false

namespace Primer.Source

/-! ## Lengths -/

/-- No characters take no bytes. -/
@[simp]
theorem byteLength_nil : byteLength [] = 0 := rfl

/-- Counting bytes from a start value adds the length to it. -/
theorem foldl_utf8Size (cs : List Char) (n : Nat) :
    cs.foldl (fun n c => n + c.utf8Size) n = n + byteLength cs := by
  induction cs generalizing n with
  | nil => rfl
  | cons c cs ih =>
    show cs.foldl _ (n + c.utf8Size) = n + cs.foldl _ (0 + c.utf8Size)
    rw [ih, ih]
    omega

/-- A character adds its own bytes to those behind it. -/
@[simp]
theorem byteLength_cons (c : Char) (cs : List Char) : byteLength (c :: cs) = c.utf8Size + byteLength cs := by
  show cs.foldl _ (0 + c.utf8Size) = _
  rw [foldl_utf8Size]
  omega

/-- The bytes of two texts in a row add up. -/
@[simp]
theorem byteLength_append (cs ds : List Char) : byteLength (cs ++ ds) = byteLength cs + byteLength ds := by
  induction cs with
  | nil => simp
  | cons c cs ih =>
    rw [List.cons_append, byteLength_cons, byteLength_cons, ih]
    omega

/-- A string of characters has as many bytes as they have. -/
theorem utf8ByteSize_ofList (cs : List Char) : (String.ofList cs).utf8ByteSize = byteLength cs := by
  induction cs with
  | nil => rfl
  | cons c cs ih => rw [String.ofList_cons, String.utf8ByteSize_append, ih, String.utf8ByteSize_singleton, byteLength_cons]

/-- The bytes of a string are those of its characters. -/
theorem utf8ByteSize_eq (s : String) : s.utf8ByteSize = byteLength s.toList := by
  rw [← utf8ByteSize_ofList, String.ofList_toList]

/-- What holds of some characters can be checked for one after the other. -/
theorem forall_of_all {P : Char → Prop} [DecidablePred P] {cs : List Char} (h : cs.all (fun c => decide (P c)) = true) :
    ∀ c ∈ cs, P c := fun c hc => of_decide_eq_true (List.all_eq_true.mp h c hc)

/-! ## What may stand behind a token -/

/-- A property of the next character, if there is one. -/
def Next (p : Char → Prop) (rest : List Char) : Prop := ∀ c ∈ rest.head?, p c

/-- At the end of a text there is no next character to fail a condition. -/
theorem Next.nil {p : Char → Prop} : Next p [] := nofun

/-- The next character of a text is its first. -/
theorem Next.cons {p : Char → Prop} {c : Char} {cs : List Char} (h : p c) : Next p (c :: cs) := by
  intro d hd
  cases hd
  exact h

/-- The first character meets what the next one does. -/
theorem Next.of_cons {p : Char → Prop} {c : Char} {cs : List Char} (h : Next p (c :: cs)) : p c := h c rfl

/-- The next character meets every weaker condition. -/
theorem Next.imp {p q : Char → Prop} (hpq : ∀ c, p c → q c) {rest : List Char} (h : Next p rest) : Next q rest :=
  fun c hc => hpq c (h c hc)

/-- Nothing is taken if the next character already stops. -/
theorem takeWhile_of_next {p : Char → Bool} {rest : List Char} (h : Next (fun c => p c = false) rest) :
    rest.takeWhile p = [] := by
  cases rest with
  | nil => rfl
  | cons c cs => exact List.takeWhile_cons_of_neg (by simp [h.of_cons])

/-- Nothing is dropped if the next character already stops. -/
theorem dropWhile_of_next {p : Char → Bool} {rest : List Char} (h : Next (fun c => p c = false) rest) :
    rest.dropWhile p = rest := by
  cases rest with
  | nil => rfl
  | cons c cs => exact List.dropWhile_cons_of_neg (by simp [h.of_cons])

/-- A run of characters is the same in front of anything that does not continue it. -/
theorem takeWhile_run {p : Char → Bool} {run rest : List Char} (hrun : run.all p = true)
    (h : Next (fun c => p c = false) rest) : (run ++ rest).takeWhile p = run := by
  rw [List.takeWhile_append_of_pos fun c hc => List.all_eq_true.mp hrun c hc, takeWhile_of_next h, List.append_nil]

/-- A run is dropped up to the character that stops it. -/
theorem dropWhile_run {p : Char → Bool} {run rest : List Char} (hrun : run.all p = true)
    (h : Next (fun c => p c = false) rest) : (run ++ rest).dropWhile p = rest := by
  rw [List.dropWhile_append_of_pos fun c hc => List.all_eq_true.mp hrun c hc, dropWhile_of_next h]

/-! ## Words -/

/-- Whether a character can be written inside a word as it is. -/
def isPlainPart (c : Char) : Bool := isWordPart c && c != '\\'

/-- Whether a text is a word that is written without escapes. -/
def isPlainWord : List Char → Bool
  | [] => false
  | c :: cs => isWordStart c && (c :: cs).all isPlainPart

/-- What can start a word can go on in one. -/
theorem Text.continuesWord_of_startsWord {c : Char} (h : Text.startsWord c = true) : Text.continuesWord c = true := by
  unfold Text.startsWord at h
  unfold Text.continuesWord
  split at h
  case isTrue hascii => simp [hascii, Char.isAlphanum, h]
  case isFalse hascii =>
    rw [if_neg hascii]
    split at h <;> simp_all

/-- The first character of a word can stand inside a word. -/
theorem isWordPart_of_isWordStart {c : Char} (h : isWordStart c = true) : isWordPart c = true := by
  unfold isWordStart at h
  unfold isWordPart
  simp only [Bool.or_eq_true, beq_iff_eq] at *
  rcases h with ((h | h) | h) | h
  · exact .inl (.inl h)
  · exact .inr (by rw [h]; decide)
  · exact .inl (.inr h)
  · exact .inr (Text.continuesWord_of_startsWord h)

/-- A word goes on as long as its characters are parts of words. -/
theorem scanWord_cons (first : Bool) (off : Nat) {c : Char} (hc : c ≠ '\\') (cs : List Char) :
    scanWord first off (c :: cs) =
      if isWordPart c then (scanWord false (off + c.utf8Size) cs).after c else ⟨[], true, c :: cs, off⟩ := by
  rw [scanWord, if_neg hc]
  exact fun _ _ _ _ _ h _ => hc h

/-- A word without escapes is scanned as it is. -/
theorem scanWord_plain {cs rest : List Char} (hcs : cs.all isPlainPart = true)
    (hrest : Next (fun c => isWordPart c = false) rest) (first : Bool) (off : Nat) :
    scanWord first off (cs ++ rest) = ⟨cs, true, rest, off + byteLength cs⟩ := by
  induction cs generalizing first off with
  | nil =>
    cases rest with
    | nil => simp [scanWord]
    | cons c rest =>
      have hc : c ≠ '\\' := by
        rintro rfl
        exact absurd hrest.of_cons (by decide)
      rw [List.nil_append, scanWord_cons first off hc, if_neg (by simp [hrest.of_cons])]
      simp
  | cons c cs ih =>
    simp only [List.all_cons, Bool.and_eq_true, isPlainPart, bne_iff_ne] at hcs
    rw [List.cons_append, scanWord_cons first off hcs.1.2, if_pos hcs.1.1, ih hcs.2]
    simp [Word.after, Nat.add_assoc]

/-- A word broken by a bad escape is not legal. -/
theorem brokenWord_illegal (off : Nat) (cs : List Char) : (brokenWord off cs).legal = false := by
  unfold brokenWord
  split <;> rfl

/-- All characters of a word that was scanned can be written as they are. -/
theorem scanWord_parts {first : Bool} {off : Nat} {cs : List Char} (h : (scanWord first off cs).legal = true) :
    (scanWord first off cs).name.all isPlainPart = true := by
  fun_induction scanWord first off cs with
  | case1 | case7 => rfl
  | case2 | case3 | case5 => rw [brokenWord_illegal] at h; cases h
  | case4 first off a b d e cs x hx hlegal ih =>
    simp only [Bool.or_eq_true, decide_eq_true_eq, not_or, Bool.not_eq_true', Bool.not_eq_false] at hlegal
    have hpart : isWordPart x = true := by
      cases first with
      | true => exact isWordPart_of_isWordStart hlegal.2
      | false => exact hlegal.2
    simp only [Word.after, List.all_cons, Bool.and_eq_true, isPlainPart, bne_iff_ne]
    exact ⟨⟨hpart, hlegal.1⟩, ih h⟩
  | case6 first off c cs _ hescape hpart ih =>
    simp only [Word.after, List.all_cons, Bool.and_eq_true, isPlainPart, bne_iff_ne]
    exact ⟨⟨hpart, hescape⟩, ih h⟩

/-- The first character of a word that was scanned can start a word. -/
theorem scanWord_starts {first : Bool} {off : Nat} {cs : List Char} (hfirst : first = true)
    (hcs : ∃ c, cs.head? = some c ∧ isWordStart c = true) (h : (scanWord first off cs).legal = true) :
    ∃ x tail, (scanWord first off cs).name = x :: tail ∧ isWordStart x = true := by
  fun_induction scanWord first off cs with
  | case1 =>
    obtain ⟨c, hc, -⟩ := hcs
    cases hc
  | case2 | case3 | case5 =>
    rw [brokenWord_illegal] at h
    cases h
  | case4 first off a b d e cs x hx hlegal _ =>
    simp only [hfirst, if_true, Bool.or_eq_true, decide_eq_true_eq, not_or, Bool.not_eq_true', Bool.not_eq_false]
      at hlegal
    exact ⟨x, _, rfl, hlegal.2⟩
  | case6 first off c cs =>
    obtain ⟨_, ⟨⟩, hstart⟩ := hcs
    exact ⟨c, _, rfl, hstart⟩
  | case7 first off c cs _ _ hpart =>
    obtain ⟨_, ⟨⟩, hstart⟩ := hcs
    exact absurd (isWordPart_of_isWordStart hstart) hpart

/-- A word that was scanned can be written without escapes. -/
theorem scanWord_isPlain {off : Nat} {c : Char} {cs : List Char} (hc : isWordStart c = true)
    (h : (scanWord true off (c :: cs)).legal = true) : isPlainWord (scanWord true off (c :: cs)).name = true := by
  have hparts := scanWord_parts h
  obtain ⟨x, tail, hname, hx⟩ := scanWord_starts rfl ⟨c, rfl, hc⟩ h
  rw [hname] at hparts ⊢
  exact Bool.and_eq_true_iff.mpr ⟨hx, hparts⟩

/-! ## Numbers -/

/-- The letters by their codes. -/
theorem isAlpha_iff {c : Char} :
    c.isAlpha = true ↔ (65 ≤ c.toNat ∧ c.toNat ≤ 90) ∨ 97 ≤ c.toNat ∧ c.toNat ≤ 122 := by
  show (decide (c.val ≥ 'A'.val ∧ c.val ≤ 'Z'.val) || (decide (c.val ≥ 'a'.val) && decide (c.val ≤ 'z'.val))) = true ↔ _
  simp only [Bool.or_eq_true, Bool.and_eq_true, decide_eq_true_eq, ge_iff_le, UInt32.le_iff_toNat_le, Char.reduceVal,
    UInt32.reduceToNat]
  exact Iff.rfl

/-- The digits by their codes. -/
theorem isDigit_iff {c : Char} : c.isDigit = true ↔ 48 ≤ c.toNat ∧ c.toNat ≤ 57 := by
  simp only [Char.isDigit, Bool.and_eq_true, decide_eq_true_eq, ge_iff_le, UInt32.le_iff_toNat_le, Char.reduceVal,
    UInt32.reduceToNat]
  exact Iff.rfl

/-- A digit is an ASCII character and no letter. -/
theorem isAscii_of_isDigit {c : Char} (h : c.isDigit = true) : Text.isAscii c = true ∧ c.isAlpha = false := by
  obtain ⟨hle, hge⟩ := isDigit_iff.mp h
  refine ⟨decide_eq_true (by omega), ?_⟩
  rw [Bool.eq_false_iff, ne_eq, isAlpha_iff]
  omega

/-- A digit differs from everything that is none. -/
theorem ne_of_isDigit {c d : Char} (hc : c.isDigit = true) (hd : d.isDigit = false) : c ≠ d := by
  rintro rfl
  rw [hc] at hd
  cases hd

/-- No digit starts a word. -/
theorem isWordStart_of_isDigit {c : Char} (h : c.isDigit = true) : isWordStart c = false := by
  obtain ⟨hascii, halpha⟩ := isAscii_of_isDigit h
  simp only [isWordStart, Text.startsWord, hascii, halpha, if_true, Bool.or_false, Bool.or_eq_false_iff,
    beq_eq_false_iff_ne]
  exact ⟨⟨ne_of_isDigit h (by decide), ne_of_isDigit h (by decide)⟩, ne_of_isDigit h (by decide)⟩

/-- What may stand behind a number: neither a word nor a digit. -/
def EndsNumber (c : Char) : Prop := isWordStart c = false ∧ c.isDigit = false

/-- Only the part in front decides on the next character, unless it is empty. -/
theorem Next.append {p : Char → Prop} {cs ds ds' : List Char} (h : Next p (cs ++ ds)) (h' : Next p ds') :
    Next p (cs ++ ds') := by
  cases cs with
  | nil => exact h'
  | cons c cs => exact .cons h.of_cons

/-- What is left after dropping starts with a character that stops. -/
theorem next_dropWhile (p : Char → Bool) (cs : List Char) : Next (fun c => p c = false) (cs.dropWhile p) := by
  intro c hc
  have := List.head?_dropWhile_not p cs
  rw [hc] at this
  simpa using this

/-- What ends a number does not clash with it. -/
theorem clashes_of_ends {rest : List Char} (h : Next EndsNumber rest) : clashesWithNumber rest = false := by
  cases rest with
  | nil => rfl
  | cons c cs =>
    have hc := h.of_cons
    simp [clashesWithNumber, hc.1, hc.2]

/-- Before something that ends a number, the numeral is legal and complete. -/
theorem endNumber_ends {text rest : List Char} (h : Next EndsNumber rest) :
    endNumber text rest = ⟨text, true, rest⟩ := by
  simp [endNumber, clashes_of_ends h]

/-- No mark of an exponent ends a number. -/
theorem EndsNumber.ne_exponent {c : Char} (h : EndsNumber c) : ¬ (c = 'e' ∨ c = 'E') := by
  rintro (rfl | rfl)
  · exact absurd h.1 (by decide)
  · exact absurd h.1 (by decide)

/-- A code below 128 takes one byte. -/
theorem utf8Size_of_val_lt {c : Char} (h : c.val.toNat < 128) : c.utf8Size = 1 := by
  rw [Char.utf8Size, if_pos]
  exact UInt32.le_iff_toNat_le.mpr (Nat.le_of_lt_succ h)

/-- A digit takes one byte. -/
theorem utf8Size_of_isDigit {c : Char} (h : c.isDigit = true) : c.utf8Size = 1 := by
  obtain ⟨-, hle⟩ := isDigit_iff.mp h
  exact utf8Size_of_val_lt (show c.toNat < 128 by omega)

/-- Whether all characters of a text have a single byte. -/
def isNarrow (text : List Char) : Bool := text.all fun c => c.utf8Size == 1

/-- A text of one-byte characters has as many bytes as characters. -/
theorem byteLength_of_isNarrow {text : List Char} (h : isNarrow text = true) : byteLength text = text.length := by
  induction text with
  | nil => rfl
  | cons c cs ih =>
    simp only [isNarrow, List.all_cons, Bool.and_eq_true, beq_iff_eq] at h
    rw [byteLength_cons, ih h.2, h.1, List.length_cons, Nat.add_comm]

/-- Two texts in a row are narrow if both are. -/
@[simp]
theorem isNarrow_append (cs ds : List Char) : isNarrow (cs ++ ds) = (isNarrow cs && isNarrow ds) := List.all_append

/-- A text is narrow if its first character takes one byte and the rest is narrow. -/
@[simp]
theorem isNarrow_cons (c : Char) (cs : List Char) : isNarrow (c :: cs) = (c.utf8Size == 1 && isNarrow cs) := rfl

/-- What is taken by a condition of one-byte characters is narrow. -/
theorem isNarrow_takeWhile {p : Char → Bool} (h : ∀ c, p c = true → c.utf8Size = 1) (cs : List Char) :
    isNarrow (cs.takeWhile p) = true := by
  have hall : (cs.takeWhile p).all p = true := List.all_takeWhile
  exact List.all_eq_true.mpr fun c hc => by simp [h c (List.all_eq_true.mp hall c hc)]

/-- Digits are narrow. -/
theorem isNarrow_digits (cs : List Char) : isNarrow (cs.takeWhile Char.isDigit) = true :=
  isNarrow_takeWhile (fun _ => utf8Size_of_isDigit) cs

/-- The sign of an exponent, and what follows it. -/
def splitExponent : List Char → List Char × List Char
  | '+' :: ds => (['+'], ds)
  | '-' :: ds => (['-'], ds)
  | ds => ([], ds)

/-- The sign of an exponent and what follows it make up the whole. -/
theorem splitExponent_append (cs : List Char) : (splitExponent cs).1 ++ (splitExponent cs).2 = cs := by
  unfold splitExponent
  split <;> rfl

/-- A sign is split off again in front of other digits. -/
theorem splitExponent_again (cs : List Char) {ds : List Char} (hds : ∃ d, ds.head? = some d ∧ d.isDigit = true) :
    splitExponent ((splitExponent cs).1 ++ ds) = ((splitExponent cs).1, ds) := by
  have hplain : splitExponent ds = ([], ds) := by
    obtain ⟨d, hd, hdigit⟩ := hds
    unfold splitExponent
    split
    · cases hd
      exact absurd hdigit (by decide)
    · cases hd
      exact absurd hdigit (by decide)
    · rfl
  have hsign : (splitExponent cs).1 = ['+'] ∨ (splitExponent cs).1 = ['-'] ∨ (splitExponent cs).1 = [] := by
    unfold splitExponent
    split <;> simp
  rcases hsign with h | h | h
  · rw [h]
    rfl
  · rw [h]
    rfl
  · rw [h]
    exact hplain

/-- The sign of an exponent is narrow. -/
theorem isNarrow_splitExponent (cs : List Char) : isNarrow (splitExponent cs).1 = true := by
  unfold splitExponent
  split <;> rfl

/-- An exponent is read where its mark stands, and needs a digit. -/
theorem scanExponent_cons (before : List Char) (c : Char) (cs : List Char) :
    scanExponent before (c :: cs) =
      if (c = 'e' || c = 'E') = true then
        if ((splitExponent cs).2.takeWhile Char.isDigit).isEmpty then
          ⟨before ++ c :: (splitExponent cs).1, false, (splitExponent cs).2⟩
        else endNumber (before ++ c :: (splitExponent cs).1 ++ (splitExponent cs).2.takeWhile Char.isDigit)
          ((splitExponent cs).2.dropWhile Char.isDigit)
      else endNumber before (c :: cs) := rfl

/-- A legal end of a number leaves the numeral and the rest as they were. -/
theorem endNumber_legal {text rest text' rest' : List Char} (h : endNumber text rest = ⟨text', true, rest'⟩) :
    text' = text ∧ rest' = rest := by
  have := Numeral.mk.inj h
  exact ⟨this.1.symm, this.2.2.symm⟩

/-- A run of digits that was taken off a text is the same in front of what does not continue it. -/
theorem takeWhile_again {p : Char → Bool} (cs : List Char) {rest : List Char} (h : Next (fun c => p c = false) rest) :
    (cs.takeWhile p ++ rest).takeWhile p = cs.takeWhile p :=
  takeWhile_run List.all_takeWhile h

/-- What was taken is dropped again, up to a rest that stops. -/
theorem dropWhile_again {p : Char → Bool} (cs : List Char) {rest : List Char} (h : Next (fun c => p c = false) rest) :
    (cs.takeWhile p ++ rest).dropWhile p = rest :=
  dropWhile_run List.all_takeWhile h

/-- How a number goes on behind the characters before it: it is scanned again in front of what may stand there. -/
structure Again (scan : List Char → Numeral) (ok : List Char → Prop) (cs before text rest tail : List Char) : Prop where
  eq_text : text = before ++ tail
  source : cs = tail ++ rest
  narrow : isNarrow tail = true
  again : ∀ rest', ok rest' → scan (tail ++ rest') = ⟨text, true, rest'⟩

/-- An exponent is scanned again wherever a number may end behind it. -/
theorem scanExponent_again {before cs text rest : List Char} (h : scanExponent before cs = ⟨text, true, rest⟩) :
    ∃ tail, Again (scanExponent before) (Next EndsNumber) cs before text rest tail := by
  have hnone (rest' : List Char) (h' : Next EndsNumber rest') : scanExponent before rest' = ⟨before, true, rest'⟩ := by
    cases rest' with
    | nil => rfl
    | cons c cs => rw [scanExponent_cons, if_neg (by simpa using h'.of_cons.ne_exponent), endNumber_ends h']
  cases cs with
  | nil =>
    cases h
    exact ⟨[], by simp, rfl, rfl, hnone⟩
  | cons c cs =>
    rw [scanExponent_cons] at h
    split at h
    case isFalse =>
      obtain ⟨rfl, rfl⟩ := endNumber_legal h
      exact ⟨[], by simp, rfl, rfl, hnone⟩
    case isTrue hc =>
      split at h
      case isTrue => cases h
      case isFalse hdigits =>
        obtain ⟨rfl, rfl⟩ := endNumber_legal h
        have hsource := splitExponent_append cs
        generalize (splitExponent cs).2 = ds at *
        refine ⟨c :: (splitExponent cs).1 ++ ds.takeWhile Char.isDigit, by simp, ?_, ?_, fun rest' h' => ?_⟩
        · rw [List.append_assoc, List.takeWhile_append_dropWhile, List.cons_append, hsource]
        · have hexponent : c.utf8Size = 1 := by
            simp only [Bool.or_eq_true, decide_eq_true_eq] at hc
            rcases hc with rfl | rfl <;> rfl
          simp [hexponent, isNarrow_splitExponent, isNarrow_digits]
        · have hhead : ∃ d, (ds.takeWhile Char.isDigit ++ rest').head? = some d ∧ d.isDigit = true := by
            cases hrun : ds.takeWhile Char.isDigit with
            | nil => exact absurd (by rw [hrun]; rfl) hdigits
            | cons d run =>
              refine ⟨d, rfl, ?_⟩
              have hall : (ds.takeWhile Char.isDigit).all Char.isDigit = true := List.all_takeWhile
              rw [hrun, List.all_cons, Bool.and_eq_true] at hall
              exact hall.1
          have hnext : Next (fun c => c.isDigit = false) rest' := h'.imp fun _ h => h.2
          rw [List.append_assoc, List.cons_append, scanExponent_cons, if_pos hc, splitExponent_again cs hhead,
            takeWhile_again ds hnext, dropWhile_again ds hnext, if_neg hdigits, endNumber_ends h']

/-- A fraction is scanned again wherever a number may end behind it and no point follows a whole number. -/
theorem scanFraction_again {before cs text rest : List Char} (h : scanFraction before cs = ⟨text, true, rest⟩) :
    ∃ tail, Again (scanFraction before)
      (fun rest' => Next EndsNumber rest' ∧ (tail = [] → Next (· ≠ '.') rest')) cs before text rest tail := by
  by_cases hdot : ∃ cs', cs = '.' :: cs'
  · obtain ⟨cs, rfl⟩ := hdot
    obtain ⟨tail, htext, hsource, hnarrow, hagain⟩ := scanExponent_again h
    refine ⟨'.' :: (cs.takeWhile Char.isDigit ++ tail), by simp [htext], ?_, ?_, fun rest' h' => ?_⟩
    · rw [List.cons_append, List.append_assoc, ← hsource, List.takeWhile_append_dropWhile]
    · simp [hnarrow, isNarrow_digits, show '.'.utf8Size = 1 from rfl]
    · have hnext : Next (fun c => c.isDigit = false) (tail ++ rest') := by
        have := next_dropWhile Char.isDigit cs
        rw [hsource] at this
        exact this.append (h'.1.imp fun _ h => h.2)
      rw [List.cons_append, List.append_assoc, scanFraction, takeWhile_again cs hnext, dropWhile_again cs hnext]
      exact hagain rest' h'.1
  · have hplain (ds : List Char) (hds : Next (· ≠ '.') ds) : scanFraction before ds = scanExponent before ds := by
      cases ds with
      | nil => rfl
      | cons d ds =>
        rw [scanFraction]
        rintro _ ⟨⟩
        exact hds.of_cons rfl
    have hcs : Next (· ≠ '.') cs := by
      rintro c hc rfl
      cases cs with
      | nil => cases hc
      | cons d ds =>
        cases hc
        exact hdot ⟨ds, rfl⟩
    rw [hplain cs hcs] at h
    obtain ⟨tail, htext, hsource, hnarrow, hagain⟩ := scanExponent_again h
    refine ⟨tail, htext, hsource, hnarrow, ?_⟩
    intro rest' h'
    rw [hplain]
    · exact hagain rest' h'.1
    · cases tail with
      | nil => exact h'.2 rfl
      | cons d tail =>
        rw [hsource] at hcs
        exact .cons hcs.of_cons

/-- Whether a number is written with digits only, and not in octal: a point behind it would belong to it. -/
def isWhole (text : List Char) : Bool := text.all Char.isDigit && (text.head? != some '0' || text.length == 1)

/-- Whether a text starts like a number. -/
def startsNumber : List Char → Bool
  | [] => false
  | c :: cs => c.isDigit || (c = '.' && (cs.head?.map Char.isDigit).getD false)

/-- Reads a number: behind a point, only its fraction and its exponent are left. -/
def scanNumeral (cs : List Char) : Numeral := if cs.head? = some '.' then scanFraction [] cs else scanNumber cs

/-- A number as it is written: it is scanned in front of all that does not run into it. -/
structure IsNumeral (text : List Char) : Prop where
  starts : startsNumber text = true
  narrow : isNarrow text = true
  scans : ∀ rest, Next EndsNumber rest → (isWhole text = true → Next (· ≠ '.') rest) →
    scanNumeral (text ++ rest) = ⟨text, true, rest⟩

/-- A numeral has characters. -/
theorem IsNumeral.ne_empty {text : String} (h : IsNumeral text.toList) : text ≠ "" := by
  rintro rfl
  exact absurd h.starts (by decide)

/-- Ends a number that starts with a zero and consists of octal digits. -/
def endOctal (ds rest : List Char) : Numeral :=
  match rest with
  | '8' :: _ | '9' :: _ => ⟨'0' :: ds, false, rest⟩
  | _ => endNumber ('0' :: ds) rest

/-- What a zero in front decides about a number. -/
theorem scanNumber_zero (x : Char) (after : List Char) :
    scanNumber ('0' :: x :: after) =
      if (x = 'x' || x = 'X') = true then
        if (after.takeWhile isHexDigit).isEmpty then ⟨['0', x], false, after⟩
        else endNumber ('0' :: x :: after.takeWhile isHexDigit) (after.dropWhile isHexDigit)
      else if x = '.' then scanFraction ['0'] (x :: after)
      else if (x = 'e' || x = 'E') = true then scanExponent ['0'] (x :: after)
      else endOctal ((x :: after).takeWhile isOctalDigit) ((x :: after).dropWhile isOctalDigit) := rfl

/-- A number without a zero in front of something begins with its digits. -/
theorem scanNumber_other {cs : List Char} (h : ∀ x after, cs ≠ '0' :: x :: after) :
    scanNumber cs = scanFraction (cs.takeWhile Char.isDigit) (cs.dropWhile Char.isDigit) := by
  rw [scanNumber]
  exact h

/-- An octal numeral is legal before something that ends a number. -/
theorem endOctal_ends {ds rest : List Char} (h : Next EndsNumber rest) :
    endOctal ds rest = ⟨'0' :: ds, true, rest⟩ := by
  unfold endOctal
  split
  · exact absurd h.of_cons.2 (by decide)
  · exact absurd h.of_cons.2 (by decide)
  · exact endNumber_ends h

/-- A legal octal numeral is its zero and its digits. -/
theorem endOctal_legal {ds rest text' rest' : List Char} (h : endOctal ds rest = ⟨text', true, rest'⟩) :
    text' = '0' :: ds ∧ rest' = rest := by
  unfold endOctal at h
  split at h
  · cases h
  · cases h
  · exact endNumber_legal h

/-- An octal digit is a digit. -/
theorem isDigit_of_isOctalDigit {c : Char} (h : isOctalDigit c = true) : c.isDigit = true := by
  simp only [isOctalDigit, Bool.and_eq_true, decide_eq_true_eq] at h
  have hle : '7' ≤ '9' := by decide
  simp only [Char.isDigit, Bool.and_eq_true, decide_eq_true_eq]
  exact ⟨h.1, Char.le_trans h.2 hle⟩

/-- The hexadecimal digits by their codes. -/
theorem toNat_of_isHexDigit {c : Char} (h : isHexDigit c = true) :
    48 ≤ c.toNat ∧ c.toNat ≤ 57 ∨ 65 ≤ c.toNat ∧ c.toNat ≤ 70 ∨ 97 ≤ c.toNat ∧ c.toNat ≤ 102 := by
  unfold isHexDigit Number.hexValue? at h
  simp only [Bool.and_eq_true, decide_eq_true_eq, Char.le_def, UInt32.le_iff_toNat_le, Char.reduceVal,
    UInt32.reduceToNat] at h
  have hcode : c.toNat = c.val.toNat := rfl
  rw [hcode]
  split at h
  · omega
  · split at h
    · omega
    · split at h
      · omega
      · cases h

/-- A hexadecimal digit is a letter or a digit. -/
theorem isWordStart_of_isHexDigit {c : Char} (h : isHexDigit c = true) : isWordStart c = true ∨ c.isDigit = true := by
  have hrange := toNat_of_isHexDigit h
  have hascii : Text.isAscii c = true := decide_eq_true (by omega)
  simp only [isWordStart, Text.startsWord, hascii, if_true, Bool.or_eq_true, isAlpha_iff, isDigit_iff]
  omega

/-- A hexadecimal digit takes one byte. -/
theorem utf8Size_of_isHexDigit {c : Char} (h : isHexDigit c = true) : c.utf8Size = 1 := by
  have hrange := toNat_of_isHexDigit h
  exact utf8Size_of_val_lt (show c.toNat < 128 by omega)

/-- No octal digit ends a number. -/
theorem EndsNumber.not_octal {c : Char} (h : EndsNumber c) : isOctalDigit c = false := by
  cases hc : isOctalDigit c with
  | false => rfl
  | true => exact absurd (isDigit_of_isOctalDigit hc) (by simp [h.2])

/-- No hexadecimal digit ends a number. -/
theorem EndsNumber.not_hex {c : Char} (h : EndsNumber c) : isHexDigit c = false := by
  cases hc : isHexDigit c with
  | false => rfl
  | true => rcases isWordStart_of_isHexDigit hc with h' | h' <;> simp [h.1, h.2] at h'

/-- A zero alone. -/
theorem scanNumber_alone {rest : List Char} (h : Next EndsNumber rest) (hdot : Next (· ≠ '.') rest) :
    scanNumber ('0' :: rest) = ⟨['0'], true, rest⟩ := by
  cases rest with
  | nil => rfl
  | cons c cs =>
    have hc := h.of_cons
    have hx : ¬ (c = 'x' || c = 'X') = true := by
      simp only [Bool.or_eq_true, decide_eq_true_eq]
      rintro (rfl | rfl) <;> exact absurd hc.1 (by decide)
    have hnext : Next (fun c => isOctalDigit c = false) (c :: cs) := h.imp fun _ => EndsNumber.not_octal
    rw [scanNumber_zero, if_neg hx, if_neg hdot.of_cons, if_neg (by simpa using hc.ne_exponent),
      takeWhile_of_next hnext, dropWhile_of_next hnext, endOctal_ends h]

/-- A text that starts with a digit and is scanned as a number in front of everything that does not continue it. -/
structure IsScanned (text : List Char) : Prop where
  digit : ∃ d tail, text = d :: tail ∧ d.isDigit = true
  narrow : isNarrow text = true
  again : ∀ rest', Next EndsNumber rest' → (isWhole text = true → Next (· ≠ '.') rest') →
    scanNumber (text ++ rest') = ⟨text, true, rest'⟩

/-- A hexadecimal number is scanned again. -/
theorem isScanned_hexadecimal {x : Char} {after : List Char} (hx : (x = 'x' || x = 'X') = true)
    (hdigits : ¬(after.takeWhile isHexDigit).isEmpty = true) : IsScanned ('0' :: x :: after.takeWhile isHexDigit) := by
  have hnarrow : x.utf8Size = 1 := by
    simp only [Bool.or_eq_true, decide_eq_true_eq] at hx
    rcases hx with rfl | rfl <;> rfl
  refine ⟨⟨'0', _, rfl, rfl⟩, ?_, ?_⟩
  · simp [hnarrow, isNarrow_takeWhile (fun _ => utf8Size_of_isHexDigit), show '0'.utf8Size = 1 from rfl]
  · intro rest' h' _
    have hnext : Next (fun c => isHexDigit c = false) rest' := h'.imp fun _ => EndsNumber.not_hex
    rw [List.cons_append, List.cons_append, scanNumber_zero, if_pos hx, takeWhile_again after hnext,
      dropWhile_again after hnext, if_neg hdigits, endNumber_ends h']

/-- An octal number, or a zero alone, is scanned again. -/
theorem isScanned_octal {x : Char} {after : List Char} (hx : ¬(x = 'x' || x = 'X') = true) (hdot : ¬x = '.')
    (he : ¬(x = 'e' || x = 'E') = true) : IsScanned ('0' :: (x :: after).takeWhile isOctalDigit) := by
  have hoctals := isNarrow_takeWhile (fun _ h => utf8Size_of_isDigit (isDigit_of_isOctalDigit h)) (x :: after)
  refine ⟨⟨'0', _, rfl, rfl⟩, hoctals, ?_⟩
  intro rest' h' hdot'
  have hnext : Next (fun c => isOctalDigit c = false) rest' := h'.imp fun _ => EndsNumber.not_octal
  by_cases hoctal : isOctalDigit x = true
  · rw [List.takeWhile_cons_of_pos hoctal, List.cons_append, List.cons_append, scanNumber_zero, if_neg hx,
      if_neg hdot, if_neg he, ← List.cons_append, ← List.takeWhile_cons_of_pos hoctal, takeWhile_again _ hnext,
      dropWhile_again _ hnext, endOctal_ends h']
  · rw [List.takeWhile_cons_of_neg hoctal] at hdot' ⊢
    exact scanNumber_alone h' (hdot' rfl)

/-- What was scanned as a number that starts with a zero is scanned again. -/
theorem isScanned_zero {x : Char} {after text rest : List Char}
    (h : scanNumber ('0' :: x :: after) = ⟨text, true, rest⟩) : IsScanned text := by
  rw [scanNumber_zero] at h
  split at h
  case isTrue hx =>
    split at h
    case isTrue => cases h
    case isFalse hdigits =>
      obtain ⟨rfl, rfl⟩ := endNumber_legal h
      exact isScanned_hexadecimal hx hdigits
  case isFalse hx =>
    split at h
    case isTrue hdot =>
      obtain ⟨tail, rfl, hsource, hnarrow, hagain⟩ := scanFraction_again h
      refine ⟨⟨'0', _, rfl, rfl⟩, hnarrow, ?_⟩
      intro rest' h' hdot'
      cases tail with
      | nil => exact scanNumber_alone h' (hdot' rfl)
      | cons c tail =>
        obtain ⟨rfl, -⟩ := List.cons.inj hsource
        show scanNumber ('0' :: x :: (tail ++ rest')) = _
        rw [scanNumber_zero, if_neg hx, if_pos hdot]
        exact hagain rest' ⟨h', nofun⟩
    case isFalse hdot =>
      split at h
      case isTrue he =>
        obtain ⟨tail, rfl, hsource, hnarrow, hagain⟩ := scanExponent_again h
        refine ⟨⟨'0', _, rfl, rfl⟩, hnarrow, ?_⟩
        intro rest' h' hdot'
        cases tail with
        | nil => exact scanNumber_alone h' (hdot' rfl)
        | cons c tail =>
          obtain ⟨rfl, -⟩ := List.cons.inj hsource
          show scanNumber ('0' :: x :: (tail ++ rest')) = _
          rw [scanNumber_zero, if_neg hx, if_neg hdot, if_pos he]
          exact hagain rest' h'
      case isFalse he =>
        obtain ⟨rfl, rfl⟩ := endOctal_legal h
        exact isScanned_octal hx hdot he

/-- What was scanned as a number that starts with a digit is scanned again. -/
theorem isScanned_of_scanNumber {cs text rest : List Char} (hstart : ∃ d, cs.head? = some d ∧ d.isDigit = true)
    (h : scanNumber cs = ⟨text, true, rest⟩) : IsScanned text := by
  by_cases hzero : ∃ x after, cs = '0' :: x :: after
  · obtain ⟨x, after, rfl⟩ := hzero
    exact isScanned_zero h
  · rw [scanNumber_other fun x after h => hzero ⟨x, after, h⟩] at h
    obtain ⟨tail, rfl, hsource, hnarrow, hagain⟩ := scanFraction_again h
    obtain ⟨d, hd, hdigit⟩ := hstart
    cases cs with
    | nil => cases hd
    | cons c cs =>
      obtain rfl : c = d := Option.some.inj hd
      refine ⟨⟨c, cs.takeWhile Char.isDigit ++ tail, ?_, hdigit⟩, ?_, ?_⟩
      · rw [List.takeWhile_cons_of_pos hdigit]
        rfl
      · rw [isNarrow_append, isNarrow_digits, hnarrow, Bool.and_self]
      · intro rest' h' hdot
        by_cases hc : c = '0'
        · subst hc
          cases cs with
          | cons x after => exact absurd ⟨x, after, rfl⟩ hzero
          | nil =>
            obtain rfl : tail = [] := (List.append_eq_nil_iff.mp hsource.symm).1
            exact scanNumber_alone h' (hdot rfl)
        · have hnext : Next (fun c => c.isDigit = false) (tail ++ rest') := by
            have := next_dropWhile Char.isDigit (c :: cs)
            rw [hsource] at this
            exact this.append (h'.imp fun _ h => h.2)
          rw [List.append_assoc, scanNumber_other, takeWhile_again _ hnext, dropWhile_again _ hnext]
          · refine hagain rest' ⟨h', ?_⟩
            intro htail
            apply hdot
            subst htail
            rw [List.append_nil, isWhole, List.all_takeWhile, List.takeWhile_cons_of_pos hdigit]
            simp [hc]
          · intro x after heq
            rw [List.takeWhile_cons_of_pos hdigit] at heq
            exact hc (List.cons.inj heq).1

/-- A number that was scanned is scanned wherever it stands. -/
theorem scanNumeral_isNumeral {cs text rest : List Char} (hstart : startsNumber cs = true)
    (h : scanNumeral cs = ⟨text, true, rest⟩) : IsNumeral text := by
  unfold scanNumeral at h
  split at h
  case isTrue hdot =>
    cases cs with
    | nil => cases hdot
    | cons c cs =>
      obtain rfl : c = '.' := Option.some.inj hdot
      have hdigit : ∃ d run, cs.takeWhile Char.isDigit = d :: run ∧ d.isDigit = true := by
        cases cs with
        | nil => cases hstart
        | cons d cs =>
          have hd : d.isDigit = true := by simpa [startsNumber, show '.'.isDigit = false from rfl] using hstart
          exact ⟨d, _, List.takeWhile_cons_of_pos hd, hd⟩
      obtain ⟨d, run, hrun, hd⟩ := hdigit
      obtain ⟨tail, rfl, -, hnarrow, -⟩ := scanExponent_again h
      obtain ⟨_, rfl, -, -, hagain⟩ := scanFraction_again h
      rw [hrun] at hagain ⊢
      refine ⟨by simp [startsNumber, hd], ?_, fun rest' h' _ => ?_⟩
      · rw [← hrun]
        simp [isNarrow_digits, hnarrow, show '.'.utf8Size = 1 from rfl]
      exact (if_pos (by simp)).trans (hagain rest' ⟨h', by simp⟩)
  case isFalse hdot =>
    have hhead : ∃ d, cs.head? = some d ∧ d.isDigit = true := by
      cases cs with
      | nil => cases hstart
      | cons c cs =>
        simp only [startsNumber, Bool.or_eq_true, Bool.and_eq_true, decide_eq_true_eq] at hstart
        rcases hstart with hstart | ⟨rfl, -⟩
        · exact ⟨c, rfl, hstart⟩
        · exact absurd rfl hdot
    obtain ⟨⟨d, tail, rfl, hd⟩, hnarrow, hscans⟩ := isScanned_of_scanNumber hhead h
    refine ⟨by simp [startsNumber, hd], hnarrow, ?_⟩
    intro rest' h' hdot'
    rw [scanNumeral, if_neg, hscans rest' h' hdot']
    rintro ⟨⟩
    exact absurd hd (by decide)

/-! ## Texts -/

/-- Whether a character can stand around a text. -/
def isQuote (c : Char) : Bool := c = '"' || c.toNat = 39

/-- A text as it is written with its quotes: it is scanned in front of anything. -/
structure IsQuotation (text : List Char) : Prop where
  scans : ∃ quote cs, text = quote :: cs ∧ isQuote quote = true ∧
    ∀ rest, scanText quote (cs ++ rest) = ⟨cs, true, rest⟩

/-- A quotation has characters. -/
theorem IsQuotation.ne_empty {text : String} (h : IsQuotation text.toList) : text ≠ "" := by
  rintro rfl
  obtain ⟨quote, cs, heq, -⟩ := h
  cases heq

/-- A quotation mark differs from everything that is none. -/
theorem isQuote_ne {quote c : Char} (h : isQuote quote = true) (hc : isQuote c = false) : quote ≠ c := by
  rintro rfl
  rw [h] at hc
  cases hc

/-- A character inside a text that is neither a quote nor a backslash nor the end of a line. -/
theorem scanText_cons {quote c : Char} (hc : c ≠ '\\') (hend : c ≠ '\r') (cs : List Char) :
    scanText quote (c :: cs) =
      if c = quote then ⟨[c], true, cs⟩
      else if isLineEnd c then ⟨[c], false, cs⟩ else (scanText quote cs).after [c] := by
  rw [scanText]
  · exact fun h _ => hc h
  · exact fun _ h _ => hc h
  · exact fun _ _ h _ => hc h
  · exact fun _ h _ => hend h

/-- A quotation that goes on behind some characters is legal if its rest is. -/
theorem Quotation.of_after {cs text rest : List Char} {q : Quotation} (h : q.after cs = ⟨text, true, rest⟩) :
    ∃ text', q = ⟨text', true, rest⟩ ∧ text = cs ++ text' := by
  obtain ⟨text', legal, rest'⟩ := q
  obtain ⟨rfl, rfl, rfl⟩ := Quotation.mk.inj h
  exact ⟨text', rfl, rfl⟩

/-- A text that was scanned is scanned again: it ends with its quote, whatever follows. -/
theorem scanText_again {quote : Char} (hquote : isQuote quote = true) {cs text rest : List Char}
    (h : scanText quote cs = ⟨text, true, rest⟩) :
    cs = text ++ rest ∧ text ≠ [] ∧ ∀ rest', scanText quote (text ++ rest') = ⟨text, true, rest'⟩ := by
  fun_induction scanText quote cs generalizing text with
  | case1 | case2 | case5 | case7 => cases h
  | case3 cs ih =>
    obtain ⟨text', h', rfl⟩ := Quotation.of_after h
    obtain ⟨rfl, -, hagain⟩ := ih h'
    refine ⟨rfl, nofun, ?_⟩
    intro rest'
    show scanText quote ('\\' :: '\r' :: '\n' :: (text' ++ rest')) = _
    rw [scanText, hagain]
    rfl
  | case4 c cs hline ih =>
    obtain ⟨text', h', rfl⟩ := Quotation.of_after h
    obtain ⟨rfl, hne, hagain⟩ := ih h'
    refine ⟨rfl, nofun, ?_⟩
    intro rest'
    show scanText quote ('\\' :: c :: (text' ++ rest')) = _
    rw [scanText, hagain]
    · rfl
    · -- The text goes on, so what follows the backslash is what it was.
      cases text' with
      | nil => exact absurd rfl hne
      | cons d text' =>
        intro tail hc heq
        exact hline (text' ++ rest) hc (by rw [List.cons_append, (List.cons.inj heq).1])
  | case6 cs =>
    obtain ⟨rfl, -, rfl⟩ := Quotation.mk.inj h
    refine ⟨rfl, nofun, ?_⟩
    intro rest'
    rw [List.singleton_append, scanText_cons (isQuote_ne hquote (by decide)) (isQuote_ne hquote (by decide)), if_pos rfl]
  | case8 c cs hnil _ hcons _ hquote' hend ih =>
    obtain ⟨text', h', rfl⟩ := Quotation.of_after h
    obtain ⟨rfl, -, hagain⟩ := ih h'
    have hescape : c ≠ '\\' := by
      intro hc
      cases hrest : text' ++ rest with
      | nil => exact hnil hc hrest
      | cons d tail => exact hcons d tail hc hrest
    have hreturn : c ≠ '\r' := by
      rintro rfl
      exact hend (by decide)
    refine ⟨rfl, nofun, ?_⟩
    intro rest'
    rw [List.append_assoc, List.singleton_append, scanText_cons hescape hreturn, if_neg hquote', if_neg hend, hagain]
    rfl

/-- A legal text together with its first mark is a quotation. -/
theorem scanText_isQuotation {quote : Char} (hquote : isQuote quote = true) {cs text rest : List Char}
    (h : scanText quote cs = ⟨text, true, rest⟩) : IsQuotation (quote :: text) :=
  ⟨quote, text, rfl, hquote, (scanText_again hquote h).2.2⟩

/-! ## Punctuation -/

/-- Whether a character may belong to a longer mark that starts like a given one. -/
def extendsMark (text : List Char) (c : Char) : Bool := punctuation.any fun p => (text ++ [c]).isPrefixOf p

/-- Two conditions that agree on a list find the same in it. -/
theorem find?_congr {α : Type} {p q : α → Bool} {xs : List α} (h : ∀ x ∈ xs, p x = q x) : xs.find? p = xs.find? q := by
  induction xs with
  | nil => rfl
  | cons x xs ih =>
    rw [List.find?_cons, List.find?_cons, h x List.mem_cons_self, ih fun y hy => h y (List.mem_cons_of_mem x hy)]

/-- A mark is found in front of all that does not make it a longer one. -/
theorem find?_mark {text rest : List Char} (htext : text ∈ punctuation)
    (hrest : Next (fun c => extendsMark text c = false) rest) :
    punctuation.find? (fun p => p.isPrefixOf (text ++ rest)) = some text := by
  have hsame : ∀ p ∈ punctuation, p.isPrefixOf (text ++ rest) = p.isPrefixOf text := by
    intro p hp
    rw [Bool.eq_iff_iff, List.isPrefixOf_iff_prefix, List.isPrefixOf_iff_prefix]
    refine ⟨?_, fun h => h.trans (List.prefix_append ..)⟩
    intro h
    rcases List.prefix_or_prefix_of_prefix h (List.prefix_append text rest) with h' | ⟨tail, rfl⟩
    · exact h'
    · cases tail with
      | nil =>
        simp only [List.append_nil, List.prefix_rfl]
      | cons c tail =>
        obtain ⟨rest', hrest'⟩ := (List.prefix_append_right_inj text).mp h
        have hc : extendsMark text c = true := by
          refine List.any_eq_true.mpr ⟨_, hp, List.isPrefixOf_iff_prefix.mpr ⟨tail, ?_⟩⟩
          rw [List.append_assoc, List.singleton_append]
        rw [← hrest', List.cons_append] at hrest
        rw [hrest.of_cons] at hc
        cases hc
  have halone : ∀ text ∈ punctuation, punctuation.find? (fun p => p.isPrefixOf text) = some text := by decide +kernel
  rw [← halone text htext]
  exact find?_congr hsame

end Primer.Source
