import Primer.Proofs.Print.Legal
import Primer.Proofs.Print.Lexeme

/-!
# Where tokens lie in a source

A token knows the offset behind it and the text behind it, and the two belong together: the text is what follows that
offset in the source (`ScannedAs.behind`, `Pattern.scan_behind`). Each function of the scanner takes its part of this:
it consumes some characters and moves the offset by as many bytes. Besides, a token takes up as many bytes as its text
has, apart from words with escapes (`ScannedAs.length`), and its last character is none at which the search for a
semicolon would go on, unless it is all of the token (`ScannedAs.exists_last`).
-/

set_option autoImplicit false

namespace Primer.Source

variable {source : List Char}

/-- Behind a character stands what follows it. -/
theorem Behind.cons {off : Nat} {c : Char} {cs : List Char} (h : Behind source off (c :: cs)) :
    Behind source (off + c.utf8Size) cs := by
  have happend : Behind source (off + byteLength [c]) cs := Behind.append h
  simpa using happend

/-! ## Gaps -/

/-- The place of a part of a gap: a slash that may start a comment has been passed, but is not given up. -/
def Gap.At (source : List Char) (off : Nat) (cs : List Char) : Gap → Prop
  | .slash => 0 < off ∧ Behind source (off - 1) ('/' :: cs)
  | _ => Behind source off cs

/-- A gap stands behind what came before it. -/
theorem Gap.At.behind {off : Nat} {cs : List Char} {gap : Gap} (h : gap.At source off cs) : Behind source off cs := by
  cases gap with
  | slash =>
    have hcons : Behind source (off - 1 + 1) cs := h.2.cons
    rwa [Nat.sub_add_cancel h.1] at hcons
  | plain | lineComment | blockComment | blockStar => exact h

/-- What is left behind a gap stands where the gap ends. -/
theorem skipGap_behind {cs : List Char} {gap : Gap} {off : Nat} (mayEnd afterLine : Bool) (h : gap.At source off cs) :
    Gives (skipGap gap off mayEnd afterLine cs) fun a => Behind source a.offset a.rest := by
  -- Whether one is in a comment changes from character to character, so it is generalized.
  induction cs generalizing gap off mayEnd afterLine with
  | nil =>
    cases gap with
    | plain | lineComment => exact .ok h
    | slash => exact .ok h.2
    | blockComment | blockStar => exact .error _
  | cons c cs ih =>
    have hnext := h.behind.cons
    cases gap with
    | plain =>
      refine .ite (fun hslash => ih _ _ ?_) fun _ => .ite (fun _ => ih _ _ hnext) fun _ => .ite (fun _ => ih _ _ hnext)
        fun _ => .ok h
      subst hslash
      exact ⟨Nat.succ_pos off, h⟩
    | slash =>
      refine .ite (fun _ => ih _ _ hnext) ?_
      intro _
      exact .ite (fun _ => ih _ _ hnext) fun _ => .ok h.2
    | lineComment => exact .ite (fun _ => ih _ _ hnext) fun _ => ih _ _ hnext
    | blockComment =>
      refine ih _ _ ?_
      split <;> exact hnext
    | blockStar =>
      refine ih _ _ ?_
      repeat' split
      all_goals exact hnext

/-! ## Words -/

/-- The characters at which the search for a semicolon does not give up. -/
def searched : List Char := [' ', '\t', '\r', '\n', ';', ')', '/']

/-- Whether none of the characters occurs at which the search for a semicolon does not give up. -/
def isUnsearched (text : List Char) : Bool := text.all fun c => !searched.contains c

/-- A text of characters that are not searched for is unsearched. -/
theorem isUnsearched_of_all {p : Char → Bool} (hp : ∀ c ∈ searched, p c = false) {text : List Char}
    (h : text.all p = true) : isUnsearched text = true := by
  apply List.all_eq_true.mpr
  intro c hc
  cases hsearched : searched.contains c with
  | false => rfl
  | true =>
    have hpc := List.all_eq_true.mp h c hc
    rw [hp c (List.contains_iff_mem.mp hsearched)] at hpc
    cases hpc

/-- Two texts in a row are unsearched if both are. -/
theorem isUnsearched_append (cs ds : List Char) : isUnsearched (cs ++ ds) = (isUnsearched cs && isUnsearched ds) :=
  List.all_append

/-- An escape that stands for a character has hexadecimal digits. -/
theorem of_hexChar {a b d e x : Char} (h : hexChar? a b d e = some x) : [a, b, d, e].all isHexDigit = true := by
  have hdigit (c : Char) (n : Nat) (hc : Number.hexValue? c = some n) : isHexDigit c = true := by
    rw [isHexDigit, hc]
    rfl
  simp only [hexChar?, Number.readDigits, List.isEmpty_cons, Bool.false_eq_true, if_false, List.foldl_cons,
    List.foldl_nil, Option.bind_eq_bind, Option.bind_eq_some_iff] at h
  obtain ⟨_, ⟨_, ⟨_, ⟨_, ⟨_, -, _, ha, -⟩, _, hb, -⟩, _, hd, -⟩, _, he, -⟩, -⟩ := h
  simp [hdigit a _ ha, hdigit b _ hb, hdigit d _ hd, hdigit e _ he]

/-- The part of a text that was scanned, and the offset behind it. -/
structure Consumes (off : Nat) (cs text : List Char) (stop : Nat) (rest : List Char) : Prop where
  append : text ++ rest = cs
  stop_eq : stop = off + byteLength text

/-- What was consumed moves on to where the rest stands. -/
theorem Consumes.behind {off stop : Nat} {cs text rest : List Char} (h : Consumes off cs text stop rest)
    (hcs : Behind source off cs) : Behind source stop rest := by
  rw [← h.append] at hcs
  rw [h.stop_eq]
  exact hcs.append

/-- Consuming goes on behind what was consumed before. -/
theorem Consumes.after {off stop : Nat} {cs text rest : List Char} (before : List Char)
    (h : Consumes (off + byteLength before) cs text stop rest) :
    Consumes off (before ++ cs) (before ++ text) stop rest where
  append := by rw [List.append_assoc, h.append]
  stop_eq := by rw [h.stop_eq, byteLength_append, Nat.add_assoc]

/-- A broken word consumes some text. -/
theorem brokenWord_consumes (off : Nat) (cs : List Char) :
    ∃ text, Consumes off ('\\' :: cs) text (brokenWord off cs).offset (brokenWord off cs).rest := by
  unfold brokenWord
  split
  case h_1 cs =>
    have hdigits : isNarrow ((cs.take 3).takeWhile isHexDigit) = true :=
      isNarrow_takeWhile (fun _ => utf8Size_of_isHexDigit) _
    have hstart : (cs.take 3).takeWhile isHexDigit <+: cs := (List.takeWhile_prefix _).trans (List.take_prefix 3 cs)
    simp only
    generalize (cs.take 3).takeWhile isHexDigit = digits at hdigits hstart ⊢
    obtain ⟨more, rfl⟩ := hstart
    refine ⟨'\\' :: 'u' :: digits, by simp, ?_⟩
    rw [byteLength_cons, byteLength_cons, byteLength_of_isNarrow hdigits]
    show off + 2 + digits.length = off + (1 + (1 + digits.length))
    omega
  case h_2 => exact ⟨['\\'], rfl, rfl⟩

/-- A word that is well formed is made of characters that stand in words. -/
theorem scanWord_consumes (first : Bool) (off : Nat) (cs : List Char) :
    ∃ text, Consumes off cs text (scanWord first off cs).offset (scanWord first off cs).rest ∧
      ((scanWord first off cs).legal = true →
        isUnsearched text = true ∧ (text = [] → (scanWord first off cs).name = [])) := by
  fun_induction scanWord first off cs with
  | case1 | case7 => exact ⟨[], ⟨rfl, rfl⟩, fun _ => ⟨rfl, fun _ => rfl⟩⟩
  | case2 first off a b d e cs | case3 first off a b d e cs =>
    obtain ⟨text, htext⟩ := brokenWord_consumes off ('u' :: a :: b :: d :: e :: cs)
    refine ⟨text, htext, ?_⟩
    intro hlegal
    rw [brokenWord_illegal] at hlegal
    cases hlegal
  | case4 first off a b d e cs x hx _ ih =>
    obtain ⟨text, htext, hparts⟩ := ih
    have hdigits := of_hexChar hx
    have hnarrow : isNarrow [a, b, d, e] = true := by
      apply List.all_eq_true.mpr
      intro c hc
      simp [utf8Size_of_isHexDigit (List.all_eq_true.mp hdigits c hc)]
    have hlength : byteLength ['\\', 'u', a, b, d, e] = 6 := byteLength_of_isNarrow (show isNarrow _ = true from hnarrow)
    have hescape : isUnsearched (['\\', 'u'] ++ [a, b, d, e]) = true := by
      rw [isUnsearched_append, isUnsearched_of_all (p := isHexDigit) (forall_of_all (by decide)) hdigits]
      rfl
    refine ⟨['\\', 'u', a, b, d, e] ++ text, .after ['\\', 'u', a, b, d, e] ?_, ?_⟩
    · rw [hlength]
      exact htext
    · intro hlegal
      refine ⟨?_, fun hnil => absurd hnil (List.cons_ne_nil _ _)⟩
      rw [isUnsearched_append, Bool.and_eq_true]
      exact ⟨hescape, (hparts hlegal).1⟩
  | case5 first off cs =>
    obtain ⟨text, htext⟩ := brokenWord_consumes off cs
    refine ⟨text, htext, ?_⟩
    intro hlegal
    rw [brokenWord_illegal] at hlegal
    cases hlegal
  | case6 first off c cs _ _ hpart ih =>
    obtain ⟨text, htext, hparts⟩ := ih
    have hc : isUnsearched [c] = true :=
      isUnsearched_of_all (p := isWordPart) (forall_of_all (by decide)) (by simp [hpart])
    refine ⟨[c] ++ text, .after [c] ?_, ?_⟩
    · rw [byteLength_cons, byteLength_nil, Nat.add_zero]
      exact htext
    · intro hlegal
      refine ⟨?_, fun hnil => absurd hnil (List.cons_ne_nil _ _)⟩
      rw [isUnsearched_append, hc, (hparts hlegal).1, Bool.and_self]

/-- A word without an escape is as long as its name. -/
theorem scanWord_length (first : Bool) (off : Nat) {cs : List Char} (h : '\\' ∉ cs) :
    (scanWord first off cs).offset = off + byteLength (scanWord first off cs).name := by
  fun_induction scanWord first off cs with
  | case1 | case7 => rfl
  | case2 | case3 | case4 => exact absurd List.mem_cons_self h
  | case5 => exact absurd List.mem_cons_self h
  | case6 first off c cs _ _ _ ih =>
    have hrest := ih fun hmem => h (List.mem_cons_of_mem c hmem)
    simp only [Word.after, byteLength_cons, hrest, Nat.add_assoc]

/-! ## Numbers -/

/-- Whether a text has only characters that can be part of a number. -/
def isNumberText (text : List Char) : Bool := text.all fun c => isHexDigit c || ['x', 'X', '.', '+', '-'].contains c

/-- Two texts in a row are text of a number if both are. -/
@[simp]
theorem isNumberText_append (cs ds : List Char) : isNumberText (cs ++ ds) = (isNumberText cs && isNumberText ds) :=
  List.all_append

/-- A digit is a hexadecimal digit. -/
theorem isHexDigit_of_isDigit {c : Char} (h : c.isDigit = true) : isHexDigit c = true := by
  simp only [Char.isDigit, Bool.and_eq_true, decide_eq_true_eq] at h
  have hrange : '0' ≤ c ∧ c ≤ '9' := h
  simp [isHexDigit, Number.hexValue?, hrange]

/-- Hexadecimal digits that are taken are text of a number. -/
theorem isNumberText_takeWhile {p : Char → Bool} (hp : ∀ c, p c = true → isHexDigit c = true) (cs : List Char) :
    isNumberText (cs.takeWhile p) = true := by
  have hall : (cs.takeWhile p).all p = true := List.all_takeWhile
  apply List.all_eq_true.mpr
  intro c hc
  rw [hp c (List.all_eq_true.mp hall c hc), Bool.true_or]

/-- Digits are text of a number. -/
theorem isNumberText_digits (cs : List Char) : isNumberText (cs.takeWhile Char.isDigit) = true :=
  isNumberText_takeWhile (fun _ => isHexDigit_of_isDigit) cs

/-- The text of a number is narrow. -/
theorem isNarrow_of_isNumberText {text : List Char} (h : isNumberText text = true) : isNarrow text = true := by
  apply List.all_eq_true.mpr
  intro c hc
  have hwidth : ∀ d ∈ ['x', 'X', '.', '+', '-'], d.utf8Size = 1 := forall_of_all (by decide)
  rcases Bool.or_eq_true_iff.mp (List.all_eq_true.mp h c hc) with hhex | hmark
  · simp [utf8Size_of_isHexDigit hhex]
  · simp [hwidth c (List.contains_iff_mem.mp hmark)]

/-- The text of a number is unsearched. -/
theorem isUnsearched_of_isNumberText {text : List Char} (h : isNumberText text = true) : isUnsearched text = true :=
  isUnsearched_of_all (forall_of_all (by decide)) h

/-- A number as it was scanned from a text, and what follows it. -/
structure Numeral.Splits (n : Numeral) (cs : List Char) : Prop where
  append : n.text ++ n.rest = cs
  text : isNumberText n.text = true

/-- The end of a numeral splits the text where the number stops. -/
theorem endNumber_splits {text : List Char} (h : isNumberText text = true) (rest : List Char) :
    (endNumber text rest).Splits (text ++ rest) := ⟨rfl, h⟩

/-- An exponent splits the text where the number stops. -/
theorem scanExponent_splits {before : List Char} (h : isNumberText before = true) (cs : List Char) :
    (scanExponent before cs).Splits (before ++ cs) := by
  cases cs with
  | nil => exact ⟨rfl, h⟩
  | cons c cs =>
    rw [scanExponent_cons]
    split
    case isFalse => exact endNumber_splits h (c :: cs)
    case isTrue hc =>
      have hmark : isNumberText ([c] ++ (splitExponent cs).1) = true := by
        simp only [Bool.or_eq_true, decide_eq_true_eq] at hc
        unfold splitExponent
        rcases hc with rfl | rfl <;> split <;> rfl
      have htext : isNumberText (before ++ ([c] ++ (splitExponent cs).1)) = true := by
        rw [isNumberText_append, h, hmark, Bool.and_self]
      have hsplit := splitExponent_append cs
      split
      · refine ⟨?_, htext⟩
        simp only [List.append_assoc, List.cons_append, hsplit]
      · refine ⟨?_, ?_⟩
        · simp only [endNumber, List.append_assoc, List.cons_append, List.takeWhile_append_dropWhile, hsplit]
        · exact (isNumberText_append _ _).trans (by rw [isNumberText_digits, Bool.and_true, ← htext]; rfl)

/-- A fraction splits the text where the number stops. -/
theorem scanFraction_splits {before : List Char} (h : isNumberText before = true) (cs : List Char) :
    (scanFraction before cs).Splits (before ++ cs) := by
  unfold scanFraction
  split
  case h_1 cs =>
    have hpoint : isNumberText (before ++ (['.'] ++ cs.takeWhile Char.isDigit)) = true := by
      rw [isNumberText_append, h, isNumberText_append, isNumberText_digits]
      rfl
    have hsplits := scanExponent_splits hpoint (cs.dropWhile Char.isDigit)
    rwa [List.append_assoc, List.append_assoc, List.takeWhile_append_dropWhile] at hsplits
  case h_2 => exact scanExponent_splits h cs

/-- An octal numeral splits the text where the number stops. -/
theorem endOctal_splits {ds : List Char} (h : isNumberText ds = true) (rest : List Char) :
    (endOctal ds rest).Splits ('0' :: ds ++ rest) := by
  have hzero : isNumberText ('0' :: ds) = true := h
  unfold endOctal
  split
  · exact ⟨rfl, hzero⟩
  · exact ⟨rfl, hzero⟩
  · exact endNumber_splits hzero rest

/-- A scanned number splits the text where it stops. -/
theorem scanNumber_splits (cs : List Char) : (scanNumber cs).Splits cs := by
  by_cases hzero : ∃ x after, cs = '0' :: x :: after
  · obtain ⟨x, after, rfl⟩ := hzero
    rw [scanNumber_zero]
    split
    case isTrue hx =>
      have hmark : isNumberText ['0', x] = true := by
        simp only [Bool.or_eq_true, decide_eq_true_eq] at hx
        rcases hx with rfl | rfl <;> rfl
      split
      · exact ⟨rfl, hmark⟩
      · have hdigits : isNumberText (['0', x] ++ after.takeWhile isHexDigit) = true := by
          rw [isNumberText_append, hmark, isNumberText_takeWhile fun _ => id, Bool.and_self]
        have hsplits := endNumber_splits hdigits (after.dropWhile isHexDigit)
        rwa [List.append_assoc, List.takeWhile_append_dropWhile] at hsplits
    case isFalse =>
      split
      · exact scanFraction_splits (by decide) (x :: after)
      · split
        · exact scanExponent_splits (by decide) (x :: after)
        · have hdigits : isNumberText ((x :: after).takeWhile isOctalDigit) = true :=
            isNumberText_takeWhile (fun _ h => isHexDigit_of_isDigit (isDigit_of_isOctalDigit h)) _
          have hsplits := endOctal_splits hdigits ((x :: after).dropWhile isOctalDigit)
          rwa [List.cons_append, List.takeWhile_append_dropWhile] at hsplits
  · rw [scanNumber_other fun x after heq => hzero ⟨x, after, heq⟩]
    have hsplits := scanFraction_splits (isNumberText_digits cs) (cs.dropWhile Char.isDigit)
    rwa [List.takeWhile_append_dropWhile] at hsplits

/-- A scanned numeral splits the text where it stops. -/
theorem scanNumeral_splits (cs : List Char) : (scanNumeral cs).Splits cs := by
  unfold scanNumeral
  split
  · exact scanFraction_splits rfl cs
  · exact scanNumber_splits cs

/-- A numeral has as many bytes as characters. -/
theorem Numeral.Splits.length {n : Numeral} {cs : List Char} (h : n.Splits cs) : byteLength n.text = n.text.length :=
  byteLength_of_isNarrow (isNarrow_of_isNumberText h.text)

/-! ## Texts and regular expressions -/

/-- A quotation mark takes one byte. -/
theorem utf8Size_of_isQuote {quote : Char} (h : isQuote quote = true) : quote.utf8Size = 1 := by
  simp only [isQuote, Bool.or_eq_true, decide_eq_true_eq] at h
  rcases h with rfl | h
  · rfl
  · exact utf8Size_of_val_lt (show quote.toNat < 128 by omega)

/-- A scanned text and what is behind it make up the whole. -/
theorem scanText_append (quote : Char) (cs : List Char) : (scanText quote cs).text ++ (scanText quote cs).rest = cs := by
  fun_induction scanText quote cs with
  | case1 | case2 | case5 | case6 | case7 => rfl
  | case3 cs ih => exact congrArg (['\\', '\r', '\n'] ++ ·) ih
  | case4 c cs _ ih => exact congrArg (['\\', c] ++ ·) ih
  | case8 c cs _ _ _ _ _ _ ih => exact congrArg (c :: ·) ih

/-- A text that is closed ends with its quote. -/
theorem scanText_closed {quote : Char} {cs : List Char} (h : (scanText quote cs).legal = true) :
    ∃ before, (scanText quote cs).text = before ++ [quote] := by
  fun_induction scanText quote cs with
  | case1 | case2 | case5 | case7 => cases h
  | case3 cs ih =>
    obtain ⟨before, hbefore⟩ := ih h
    exact ⟨['\\', '\r', '\n'] ++ before, congrArg (['\\', '\r', '\n'] ++ ·) hbefore⟩
  | case4 c cs _ ih =>
    obtain ⟨before, hbefore⟩ := ih h
    exact ⟨['\\', c] ++ before, congrArg (['\\', c] ++ ·) hbefore⟩
  | case6 => exact ⟨[], rfl⟩
  | case8 c cs _ _ _ _ _ _ ih =>
    obtain ⟨before, hbefore⟩ := ih h
    exact ⟨c :: before, congrArg (c :: ·) hbefore⟩

/-- Behind a regular expression stands what was left of the source. -/
theorem Pattern.scan_behind {off : Nat} {inClass escaped : Bool} {cs : List Char} {p : Pattern}
    (hscan : Pattern.scan off inClass escaped cs = some p) (h : Behind source off cs) :
    Behind source p.stop p.rest := by
  -- A slash ends the expression unless it is escaped or in a class, and so does the end of a line in a class.
  fun_induction Pattern.scan off inClass escaped cs generalizing p with
  | case1 =>
    cases hscan
    exact h
  | case2 | case3 | case6 => cases hscan
  | case4 _ _ _ _ ih =>
    obtain ⟨q, hq, rfl⟩ := Option.map_eq_some_iff.mp hscan
    have hbehind : Behind source q.stop q.rest := ih hq h.cons.cons
    exact hbehind
  | case5 =>
    cases hscan
    exact h.cons.cons
  | case7 | case8 =>
    cases hscan
    exact h.cons
  | case9 =>
    rename_i ih
    obtain ⟨q, hq, rfl⟩ := Option.map_eq_some_iff.mp hscan
    have hbehind : Behind source q.stop q.rest := ih hq h.cons
    exact hbehind

/-! ## Tokens -/

/-- What can be scanned behind a gap. -/
inductive ScannedAs (gap : AfterGap) : Cursor → Prop
  | ending (hrest : gap.rest = []) :
    ScannedAs gap ⟨.endOfInput, "", gap.offset, [], gap.offset, gap.afterLine, false⟩
  | word {name : String} {w : Word} (hword : scanWord true gap.offset gap.rest = w) (hname : name = String.ofList w.name)
      (hstart : ∃ c cs, gap.rest = c :: cs ∧ isWordStart c = true) (hlegal : w.legal = true) :
    ScannedAs gap ⟨(wordKind name).1, name, gap.offset, w.rest, w.offset, gap.afterLine, (wordKind name).2⟩
  | brokenWord {w : Word} (hword : scanWord true gap.offset gap.rest = w)
      (hstart : ∃ c cs, gap.rest = c :: cs ∧ isWordStart c = true) :
    ScannedAs gap ⟨.illegal, "", gap.offset, w.rest, w.offset, gap.afterLine, false⟩
  | number {n : Numeral} (hnumber : scanNumeral gap.rest = n) (hstart : startsNumber gap.rest = true) :
    ScannedAs gap ⟨if n.legal then .number else .illegal, String.ofList n.text, gap.offset, n.rest,
      gap.offset + n.text.length, gap.afterLine, true⟩
  | string {quote : Char} {cs : List Char} {q : Quotation} (hrest : gap.rest = quote :: cs) (hquote : isQuote quote = true)
      (htext : scanText quote cs = q) (kind : Kind) (text : String)
      (hkind : kind = .string ∧ text = String.ofList (quote :: q.text) ∨ kind = .illegal ∧ text = "")
      (hlegal : kind = .string → q.legal = true) :
    ScannedAs gap ⟨kind, text, gap.offset, q.rest, gap.offset + 1 + byteLength q.text, gap.afterLine, true⟩
  | punctuation {p rest : List Char} (hp : p ∈ punctuation) (hrest : gap.rest = p ++ rest) :
    ScannedAs gap ⟨.mark, String.ofList p, gap.offset, rest, gap.offset + p.length, gap.afterLine,
      endingPunctuation.contains (String.ofList p)⟩

/-- A token is scanned from what stands behind its gap. -/
theorem scanToken_scannedAs (gap : AfterGap) : Gives (scanToken gap) (ScannedAs gap) := by
  obtain ⟨rest, off, mayEnd, afterLine⟩ := gap
  unfold scanToken
  simp only
  split
  case h_1 => exact .ok (.ending rfl)
  case h_2 c cs =>
    refine .ite (fun hword => .ite (fun hlegal => .ok ?_) fun _ => .ok ?_) fun _ =>
      .ite (fun hnumber => .ok ?_) fun _ => .ite (fun hquote => .ite (fun hlegal => .ok ?_) fun _ => .ok ?_) fun _ => ?_
    · exact .word rfl rfl ⟨c, cs, rfl, hword⟩ hlegal
    · exact .brokenWord rfl ⟨c, cs, rfl, hword⟩
    · have hscan : (if c = '.' then scanFraction [] (c :: cs) else scanNumber (c :: cs)) = scanNumeral (c :: cs) := by
        simp [scanNumeral]
      rw [hscan]
      exact .number rfl hnumber
    · exact .string rfl hquote rfl .string _ (.inl ⟨rfl, rfl⟩) fun _ => hlegal
    · exact .string rfl hquote rfl .illegal "" (.inr ⟨rfl, rfl⟩) nofun
    · split
      · exact .error _
      · next p hp =>
        have hmem := List.mem_of_find?_eq_some hp
        have hfits : p.isPrefixOf (c :: cs) = true :=
          List.find?_some (p := fun p : List Char => p.isPrefixOf (c :: cs)) hp
        obtain ⟨rest, hrest⟩ := List.isPrefixOf_iff_prefix.mp hfits
        rw [← hrest, List.drop_left]
        exact .ok (.punctuation hmem rfl)

namespace ScannedAs

variable {gap : AfterGap} {c : Cursor}

/-- A scanned token starts where its gap ends. -/
theorem start (h : ScannedAs gap c) : c.start = gap.offset := by
  cases h <;> rfl

/-- Behind a scanned token stands what was left of the source. -/
theorem behind (h : ScannedAs gap c) (hgap : Behind source gap.offset gap.rest) : Behind source c.stop c.rest := by
  cases h with
  | ending hrest => rwa [hrest] at hgap
  | word hword | brokenWord hword =>
    rw [← hword]
    obtain ⟨text, htext, -⟩ := scanWord_consumes true gap.offset gap.rest
    exact htext.behind hgap
  | number hnumber =>
    have hsplits := scanNumeral_splits gap.rest
    rw [hnumber] at hsplits
    rw [← hsplits.append] at hgap
    have hrest := hgap.append
    rwa [hsplits.length] at hrest
  | @string quote cs q hrest hquote htext =>
    rw [hrest] at hgap
    have hcs := hgap.cons
    have happend := scanText_append quote cs
    rw [htext] at happend
    rw [utf8Size_of_isQuote hquote, ← happend] at hcs
    exact hcs.append
  | punctuation hp hrest =>
    rw [hrest] at hgap
    have hlength := byteLength_punctuation _ hp
    simp only
    rw [← hlength]
    exact hgap.append

end ScannedAs

/-- A token that is a word, be it a name or not. -/
def Cursor.IsWord (c : Cursor) : Prop :=
  c.kind ∈ [.identifier, .reserved, .boolean, .null] ∨ c.kind = .mark ∧ c.text ∈ keywords

/-- A word that is a mark is a keyword. -/
theorem wordKind_mark {name : String} (h : (wordKind name).1 = .mark) : name ∈ keywords := by
  unfold wordKind at h
  split at h
  · cases h
  · split at h
    · cases h
    · split at h
      · cases h
      · split at h
        case isTrue hmem => exact List.contains_iff_mem.mp hmem
        case isFalse => cases h

/-- What was consumed ends in a character that is searched for only if it is the only one. -/
theorem Consumes.exists_last {off stop : Nat} {cs text rest : List Char} (h : Consumes off cs text stop rest)
    (hne : text ≠ []) (hun : isUnsearched text = true) :
    ∃ before x, Consumes off cs (before ++ [x]) stop rest ∧ (x ∈ searched → before = []) := by
  refine ⟨text.dropLast, text.getLast hne, by rwa [List.dropLast_concat_getLast], fun hx => ?_⟩
  have hnot := List.all_eq_true.mp hun _ (List.getLast_mem hne)
  rw [List.contains_iff_mem.mpr hx] at hnot
  cases hnot

/-- A mark ends in a character that is searched for only if it is the only one. -/
theorem getLast_of_punctuation : ∀ p ∈ punctuation, p ≠ [] ∧ (p.getLastD ' ' ∈ searched → p.dropLast = []) := by decide +kernel

namespace ScannedAs

variable {gap : AfterGap} {c : Cursor}

/-- Apart from words, which may be written with escapes, a token is as long as its text. -/
theorem length (h : ScannedAs gap c) :
    c.IsWord ∨ c.kind = .illegal ∨ c.stop = c.start + c.text.utf8ByteSize := by
  cases h with
  | ending => exact .inr (.inr rfl)
  | @word name =>
    left
    have hkind := wordKind_mem name
    simp only [List.mem_cons, List.not_mem_nil, or_false] at hkind
    rcases hkind with h | h | h | h | h
    · exact .inl (by simp [h])
    · exact .inl (by simp [h])
    · exact .inl (by simp [h])
    · exact .inr ⟨h, wordKind_mark h⟩
    · exact .inl (by simp [h])
  | brokenWord => exact .inr (.inl rfl)
  | number hnumber =>
    have hsplits := scanNumeral_splits gap.rest
    rw [hnumber] at hsplits
    right
    right
    simp only
    rw [utf8ByteSize_ofList, hsplits.length]
  | string hrest hquote htext kind text hkind =>
    rcases hkind with ⟨-, rfl⟩ | ⟨hkind, -⟩
    · right
      right
      simp only
      rw [utf8ByteSize_ofList, byteLength_cons, utf8Size_of_isQuote hquote, Nat.add_assoc]
    · exact .inr (.inl hkind)
  | punctuation hp hrest =>
    right
    right
    simp only
    rw [utf8ByteSize_ofList, byteLength_punctuation _ hp]

/-- A word without escapes is as long as its name, too. -/
theorem word_length (h : ScannedAs gap c) (hword : c.IsWord) (hescape : '\\' ∉ gap.rest) :
    c.stop = c.start + c.text.utf8ByteSize := by
  cases h with
  | ending => rfl
  | @word name w hscan hname =>
    have hlength := scanWord_length true gap.offset hescape
    rw [hscan] at hlength
    simp only
    rw [hlength, hname, utf8ByteSize_ofList]
  | brokenWord => simp [Cursor.IsWord] at hword
  | @number n =>
    cases hlegal : n.legal <;> simp [Cursor.IsWord, hlegal] at hword
  | string _ _ _ kind _ hkind => rcases hkind with ⟨rfl, -⟩ | ⟨rfl, -⟩ <;> simp [Cursor.IsWord] at hword
  | punctuation hp =>
    simp only
    rw [utf8ByteSize_ofList, byteLength_punctuation _ hp]

/-- A legal token does not end with a character at which the search for a semicolon goes on, or it is that character. -/
theorem exists_last (h : ScannedAs gap c) (hlegal : c.kind ≠ .illegal) (hmore : c.kind ≠ .endOfInput) :
    ∃ before x, Consumes gap.offset gap.rest (before ++ [x]) c.stop c.rest ∧ (x ∈ searched → before = []) := by
  cases h with
  | ending => exact absurd rfl hmore
  | word hword _ hstart hw =>
    subst hword
    obtain ⟨d, cs, hrest, hd⟩ := hstart
    obtain ⟨text, htext, hparts⟩ := scanWord_consumes true gap.offset gap.rest
    obtain ⟨x, tail, hname, -⟩ := scanWord_starts rfl ⟨d, by rw [hrest]; rfl, hd⟩ hw
    obtain ⟨hun, hnil⟩ := hparts hw
    refine htext.exists_last ?_ hun
    intro htext
    cases hname.symm.trans (hnil htext)
  | brokenWord => exact absurd rfl hlegal
  | number hnumber hstart =>
    have hsplits := scanNumeral_splits gap.rest
    have hstarts := scanNumeral_starts hstart
    rw [hnumber] at hsplits hstarts
    obtain ⟨d, tail, htext, -⟩ := hstarts
    have hconsumes : Consumes gap.offset gap.rest _ _ _ := ⟨hsplits.append, rfl⟩
    rw [hsplits.length] at hconsumes
    exact hconsumes.exists_last (by simp [htext]) (isUnsearched_of_isNumberText hsplits.text)
  | @string quote cs q hrest hquote htext kind text hkind hclosed =>
    have hstring : kind = .string := hkind.elim And.left fun h => absurd h.1 hlegal
    subst htext
    obtain ⟨before, hbefore⟩ := scanText_closed (hclosed hstring)
    have happend := scanText_append quote cs
    rw [hbefore] at happend
    have hquotes : ∀ d ∈ searched, isQuote d = false := forall_of_all (by decide)
    refine ⟨quote :: before, quote, ⟨?_, ?_⟩, ?_⟩
    · rw [hrest, List.cons_append]
      exact congrArg (quote :: ·) happend
    · simp only [hbefore, List.cons_append, byteLength_cons, utf8Size_of_isQuote hquote, Nat.add_assoc]
    · intro hmem
      rw [hquotes quote hmem] at hquote
      cases hquote
  | @punctuation p rest hp hrest =>
    obtain ⟨hne, hlast⟩ := getLast_of_punctuation p hp
    rw [List.getLastD_eq_getLast?, List.getLast?_eq_some_getLast hne, Option.getD_some] at hlast
    refine ⟨p.dropLast, p.getLast hne, ?_, hlast⟩
    rw [List.dropLast_concat_getLast]
    exact ⟨hrest.symm, by rw [byteLength_punctuation p hp]⟩

end ScannedAs

end Primer.Source
