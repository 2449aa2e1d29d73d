import Primer.Proofs.Print.Rebuild
import Primer.Proofs.Semicolon.Position

/-!
# The search for a semicolon

The search starts at the offset where a statement ends, and looks at characters. What follows there are tokens: closing
parentheses that belong to the statement, and then the next token (`Reaches`). As long as the gaps before them hold
nothing that the search does not know (`isKnownGap`), it finds a semicolon if and only if that next token is one
(`Reaches.semicolonFollows_iff`).
-/

set_option autoImplicit false

namespace Primer.Source

variable {source : List Char}

/-! ## Gaps -/

/-- A text that starts with a token, or is empty: no gap is left before it. -/
def StartsToken (rest : List Char) : Prop :=
  Next (fun c => isLineEnd c = false ∧ isSpace c = false) rest ∧
    ∀ cs, rest = '/' :: cs → Next (fun c => c ≠ '/' ∧ c ≠ '*') cs

/-- Whether a gap between tokens has only blanks that are spaces, tabs and line breaks, and only comments that end with
their line feed or with the source. A closing parenthesis does not end the gap. -/
def isKnownGap (gap : Gap) : List Char → Bool
  | [] => true
  | c :: cs =>
    match gap with
    | .plain =>
      if c = '/' then isKnownGap .slash cs
      else if c = ' ' || c = '\t' || c = '\r' || c = '\n' || c = ')' then isKnownGap .plain cs
      else !(isLineEnd c || isSpace c)
    | .slash =>
      if c = '/' then isKnownGap .lineComment cs
      else if c = '*' then isKnownGap .blockComment cs
      else true
    | .lineComment =>
      if isLineEnd c then (c = '\n' || (c = '\r' && cs.head? = some '\n')) && isKnownGap .plain cs
      else isKnownGap .lineComment cs
    | .blockComment => isKnownGap (if c = '*' then .blockStar else .blockComment) cs
    | .blockStar => isKnownGap (if c = '/' then .plain else if c = '*' then .blockStar else .blockComment) cs

/-- Behind a gap stands what can start a token. -/
theorem skipGap_startsToken {cs : List Char} (gap : Gap) (off : Nat) (mayEnd afterLine : Bool) :
    Gives (skipGap gap off mayEnd afterLine cs) fun a => StartsToken a.rest := by
  -- The cases are those of the gap: between tokens, behind a slash, in a comment.
  induction cs generalizing gap off mayEnd afterLine with
  | nil =>
    cases gap with
    | plain | lineComment => exact .ok ⟨.nil, nofun⟩
    | slash =>
      refine .ok ⟨.cons (by decide), ?_⟩
      rintro _ ⟨⟩
      exact .nil
    | blockComment | blockStar => exact .error _
  | cons c cs ih =>
    cases gap with
    | plain =>
      refine .ite (fun _ => ih ..) ?_
      intro hslash
      refine .ite (fun _ => ih ..) ?_
      intro hline
      refine .ite (fun _ => ih ..) ?_
      intro hspace
      refine .ok ⟨.cons ⟨Bool.eq_false_iff.mpr hline, Bool.eq_false_iff.mpr hspace⟩, ?_⟩
      rintro _ ⟨⟩
      exact absurd rfl hslash
    | slash =>
      refine .ite (fun _ => ih ..) ?_
      intro hslash
      refine .ite (fun _ => ih ..) ?_
      intro hstar
      refine .ok ⟨.cons (by decide), ?_⟩
      rintro _ ⟨⟩
      exact .cons ⟨hslash, hstar⟩
    | lineComment => exact .ite (fun _ => ih ..) fun _ => ih ..
    | blockComment | blockStar => exact ih ..

/-- Where a token starts, nothing is skipped. -/
theorem StartsToken.skipGap {rest : List Char} (h : StartsToken rest) (off : Nat) (mayEnd afterLine : Bool) :
    ∃ mayEnd', skipGap .plain off mayEnd afterLine rest =
      .ok ⟨rest, off, mayEnd', if rest = [] then afterLine || mayEnd else afterLine⟩ := by
  cases rest with
  | nil => exact ⟨false, rfl⟩
  | cons c cs =>
    have hc := h.1.of_cons
    refine ⟨mayEnd, ?_⟩
    rw [if_neg (List.cons_ne_nil c cs)]
    by_cases hslash : c = '/'
    · subst hslash
      exact skipGap_slash ((h.2 cs rfl).imp fun d hd => by simp [hd.1, hd.2]) off mayEnd afterLine
    · simp [Source.skipGap, hslash, hc.1, hc.2]

/-- A known blank in front changes nothing about whether a semicolon follows. -/
theorem isKnownGap_blank {c : Char} {cs : List Char} (hblank : (isLineEnd c || isSpace c) = true)
    (hknown : isKnownGap .plain (c :: cs) = true) :
    semicolonFollows .plain (c :: cs) = semicolonFollows .plain cs ∧ isKnownGap .plain cs = true := by
  have hslash : c ≠ '/' := by
    rintro rfl
    exact absurd hblank (by decide)
  have hsemicolon : c ≠ ';' := by
    rintro rfl
    exact absurd hblank (by decide)
  simp only [isKnownGap, if_neg hslash, hblank] at hknown
  split at hknown
  case isTrue hc => exact ⟨by rw [semicolonFollows, if_neg hsemicolon, if_pos hc], hknown⟩
  case isFalse => cases hknown

/-- The search for a semicolon passes a known gap like the reader. -/
theorem skipGap_known {cs : List Char} (gap : Gap) (off : Nat) (mayEnd afterLine : Bool)
    (hknown : isKnownGap gap cs = true) :
    Gives (skipGap gap off mayEnd afterLine cs) fun a =>
      semicolonFollows gap cs = semicolonFollows .plain a.rest ∧ isKnownGap .plain a.rest = true := by
  induction cs generalizing gap off mayEnd afterLine with
  | nil =>
    cases gap with
    | plain | lineComment | slash => exact .ok ⟨rfl, rfl⟩
    | blockComment | blockStar => exact .error _
  | cons c cs ih =>
    cases gap with
    | plain =>
      refine .ite (fun hslash => ?_) fun hslash => .ite (fun hline => ?_) fun hline => .ite (fun hspace => ?_) fun hspace =>
        .ok ⟨rfl, hknown⟩
      · subst hslash
        exact ih .slash _ _ _ hknown
      · obtain ⟨hfollows, hrest⟩ := isKnownGap_blank (by simp [hline]) hknown
        rw [hfollows]
        exact ih .plain _ _ _ hrest
      · obtain ⟨hfollows, hrest⟩ := isKnownGap_blank (by simp [hspace]) hknown
        rw [hfollows]
        exact ih .plain _ _ _ hrest
    | slash =>
      refine .ite ?_ ?_
      · intro hslash
        subst hslash
        exact ih .lineComment _ _ _ hknown
      · intro hslash
        refine .ite ?_ ?_
        · intro hstar
          subst hstar
          exact ih .blockComment _ _ _ hknown
        · intro hstar
          refine .ok ⟨?_, hknown⟩
          rfl
    | lineComment =>
      refine .ite ?_ ?_
      · intro hline
        simp only [isKnownGap, hline, if_true, Bool.and_eq_true, Bool.or_eq_true, decide_eq_true_eq] at hknown
        have hfollows : semicolonFollows .lineComment (c :: cs) = semicolonFollows .plain cs := by
          rcases hknown.1 with rfl | ⟨rfl, hfeed⟩
          · rfl
          · -- The reader ends the comment at the carriage return, the search at the line feed behind it.
            obtain ⟨rest, rfl⟩ := List.head?_eq_some_iff.mp hfeed
            rfl
        rw [hfollows]
        exact ih .plain _ _ _ hknown.2
      · intro hline
        have hfeed : c ≠ '\n' := by
          rintro rfl
          exact hline (by decide)
        simp only [isKnownGap, if_neg hline] at hknown
        rw [semicolonFollows, if_neg hfeed]
        exact ih .lineComment _ _ _ hknown
    | blockComment => exact ih _ _ _ _ hknown
    | blockStar => exact ih _ _ _ _ hknown

/-! ## Semicolons and closing parentheses -/

/-- A mark with which no other one starts. -/
theorem eq_singleton_of_punctuation : ∀ p ∈ punctuation,
    (p.head? = some ';' → p = [';']) ∧ (p.head? = some ')' → p = [')']) := by decide +kernel

/-- A token with one text has no other. -/
theorem is_of_ne {c : Cursor} {text text' : String} (h : c.is text = true) (hne : text ≠ text') : c.is text' = false := by
  simp only [Cursor.is, Bool.and_eq_true, decide_eq_true_eq] at h
  simp [Cursor.is, h.2, hne]

namespace ScannedAs

variable {gap : AfterGap} {c : Cursor}

/-- A punctuation mark is written as it is. -/
theorem rest_of_is {text : String} (htext : text ∉ keywords) (h : ScannedAs gap c) (his : c.is text = true) :
    gap.rest = text.toList ++ c.rest := by
  simp only [Cursor.is, Bool.and_eq_true, decide_eq_true_eq] at his
  obtain ⟨hkind, rfl⟩ := his
  cases h with
  | ending | brokenWord => cases hkind
  | word => exact absurd (wordKind_mark hkind) htext
  | number =>
    simp only at hkind
    split at hkind <;> cases hkind
  | string _ _ _ kind _ hstring =>
    simp only at hkind
    simp [hkind] at hstring
  | punctuation _ hrest => simpa using hrest

/-- Behind the end of the source nothing is left. -/
theorem rest_of_ending (h : ScannedAs gap c) (hkind : c.kind = .endOfInput) : c.rest = [] := by
  cases h with
  | ending => rfl
  | @word name =>
    have hmem := wordKind_mem name
    simp only at hkind
    rw [hkind] at hmem
    exact absurd hmem (by decide)
  | brokenWord | punctuation => cases hkind
  | number =>
    simp only at hkind
    split at hkind <;> cases hkind
  | string _ _ _ kind _ hstring =>
    simp only at hkind
    simp [hkind] at hstring

/-- A semicolon or a closing parenthesis behind a gap is a token. -/
theorem is_of_rest {mark : Char} (hmark : mark ∈ [';', ')']) (h : ScannedAs gap c) {cs : List Char}
    (hrest : gap.rest = mark :: cs) : c.is (String.ofList [mark]) = true ∧ c.rest = cs := by
  have hplain : ∀ d ∈ [';', ')'], isWordStart d = false ∧ isQuote d = false ∧ d.isDigit = false ∧ d ≠ '.' :=
    forall_of_all (by decide)
  obtain ⟨hword, hquote, hdigit, hdot⟩ := hplain mark hmark
  have hnoWord : ¬ ∃ d ds, gap.rest = d :: ds ∧ isWordStart d = true := by
    rintro ⟨d, ds, heq, hd⟩
    obtain ⟨rfl, -⟩ := List.cons.inj (heq.symm.trans hrest)
    rw [hword] at hd
    cases hd
  cases h with
  | ending hnil => cases hnil.symm.trans hrest
  | word _ _ hstart | brokenWord _ hstart => exact absurd hstart hnoWord
  | number _ hstart =>
    rw [hrest] at hstart
    simp [startsNumber, hdigit, hdot] at hstart
  | string hstring hstart =>
    obtain ⟨rfl, -⟩ := List.cons.inj (hstring.symm.trans hrest)
    rw [hquote] at hstart
    cases hstart
  | @punctuation p rest hp heq =>
    have hsingle := eq_singleton_of_punctuation p hp
    cases p with
    | nil => exact absurd hp (by decide)
    | cons d p =>
      obtain ⟨rfl, htail⟩ := List.cons.inj (heq.symm.trans hrest)
      have hp : p = [] := by
        simp only [List.mem_cons, List.not_mem_nil, or_false] at hmark
        rcases hmark with rfl | rfl
        · exact (List.cons.inj (hsingle.1 rfl)).2
        · exact (List.cons.inj (hsingle.2 rfl)).2
      subst hp
      exact ⟨by simp [Cursor.is], htail⟩

end ScannedAs

/-- At a token, the search finds a semicolon if the token is one, and goes on behind a closing parenthesis. -/
theorem semicolonFollows_token {gap : AfterGap} {c : Cursor} (h : ScannedAs gap c) (hgap : StartsToken gap.rest) :
    semicolonFollows .plain gap.rest = (c.is ";" || (c.is ")" && semicolonFollows .plain c.rest)) := by
  by_cases hsemicolon : ∃ cs, gap.rest = ';' :: cs
  · obtain ⟨cs, hrest⟩ := hsemicolon
    have his : c.is ";" = true := (h.is_of_rest (by decide) hrest).1
    rw [his, hrest]
    rfl
  have hnot : c.is ";" = false := Bool.eq_false_iff.mpr fun his =>
    hsemicolon ⟨_, h.rest_of_is (by decide) his⟩
  by_cases hclose : ∃ cs, gap.rest = ')' :: cs
  · obtain ⟨cs, hrest⟩ := hclose
    obtain ⟨his, htail⟩ := h.is_of_rest (by decide) hrest
    have his : c.is ")" = true := his
    rw [hnot, his, htail, hrest]
    rfl
  have hnot' : c.is ")" = false := Bool.eq_false_iff.mpr fun his =>
    hclose ⟨_, h.rest_of_is (by decide) his⟩
  rw [hnot, hnot', Bool.false_and, Bool.or_false]
  cases hrest : gap.rest with
  | nil => rfl
  | cons d cs =>
    rw [hrest] at hgap hsemicolon hclose
    have hd := hgap.1.of_cons
    have hpassed : ∀ e ∈ [' ', '\t', '\r', '\n'], isLineEnd e = true ∨ isSpace e = true := forall_of_all (by decide)
    by_cases hslash : d = '/'
    · subst hslash
      have hnext := hgap.2 cs rfl
      cases cs with
      | nil => rfl
      | cons e cs => simp [semicolonFollows, hnext.of_cons]
    · have hne : d ∉ [' ', '\t', '\r', '\n'] := by
        intro hmem
        have hblank := hpassed d hmem
        simp [hd.1, hd.2] at hblank
      simp only [List.mem_cons, List.not_mem_nil, or_false, not_or] at hne
      have hsemicolon : d ≠ ';' := by
        rintro rfl
        exact hsemicolon ⟨cs, rfl⟩
      have hclose : d ≠ ')' := by
        rintro rfl
        exact hclose ⟨cs, rfl⟩
      simp [semicolonFollows, hslash, hne, hsemicolon, hclose]

/-! ## Tokens of a source -/

/-- A token of a source, as reading comes by it: a regular expression is passed as a whole, and a line end before a token
may have ended a statement. -/
inductive TokenOf (source : List Char) : Cursor → Prop
  | first {c : Cursor} (h : Cursor.first source = .ok c) : TokenOf source c
  | next {c c' : Cursor} (hc : TokenOf source c) (h : c.next = .ok c') : TokenOf source c'
  | pattern {c c' : Cursor} {p : Pattern} (hc : TokenOf source c) (hslash : c.isOneOf ["/", "/="] = true)
      (hscan : Pattern.scan c.stop false false c.rest = some p)
      (h : Cursor.next { c with rest := p.rest, stop := p.stop, mayEnd := true } = .ok c') : TokenOf source c'
  | sameLine {c : Cursor} (hc : TokenOf source c) : TokenOf source { c with afterLine := false }

/-- A gap of a source has been skipped up to a token. -/
structure AfterGap.Shows (source : List Char) (gap : AfterGap) (c : Cursor) : Prop where
  behind : Behind source gap.offset gap.rest
  starts : StartsToken gap.rest
  scans : scanToken gap = .ok c

/-- A token that is shown behind a gap was scanned there. -/
theorem AfterGap.Shows.scannedAs {gap : AfterGap} {c : Cursor} (h : gap.Shows source c) : ScannedAs gap c :=
  (scanToken_scannedAs gap).of_ok c h.scans

/-- A token that was read stands behind some gap. -/
theorem exists_gap {off : Nat} {mayEnd afterLine : Bool} {rest : List Char} {c : Cursor} (hrest : Behind source off rest)
    (h : (skipGap .plain off mayEnd afterLine rest >>= scanToken) = .ok c) :
    ∃ gap : AfterGap, skipGap .plain off mayEnd afterLine rest = .ok gap ∧ gap.Shows source c := by
  cases hgap : skipGap .plain off mayEnd afterLine rest with
  | error m =>
    rw [hgap] at h
    cases h
  | ok gap =>
    rw [hgap] at h
    have hplain : Gap.At source off rest .plain := hrest
    exact ⟨gap, rfl, (skipGap_behind mayEnd afterLine hplain).of_ok gap hgap,
      (skipGap_startsToken .plain off mayEnd afterLine).of_ok gap hgap, h⟩

/-- Whether a gap has a line end decides that of the token and nothing else. -/
theorem scanToken_afterLine (gap : AfterGap) (afterLine : Bool) :
    scanToken { gap with afterLine := afterLine } = (scanToken gap).map fun c => { c with afterLine := afterLine } := by
  unfold scanToken
  simp only
  repeat' split
  all_goals rfl

/-- A token of the source is shown behind some gap. -/
theorem TokenOf.shown {c : Cursor} (h : TokenOf source c) : ∃ gap : AfterGap, gap.Shows source c := by
  induction h with
  | first h =>
    obtain ⟨gap, -, hshows⟩ := exists_gap ⟨[], rfl, rfl⟩ h
    exact ⟨gap, hshows⟩
  | next _ h ih =>
    obtain ⟨gap, hgap⟩ := ih
    obtain ⟨gap', -, hshows⟩ := exists_gap (hgap.scannedAs.behind hgap.behind) h
    exact ⟨gap', hshows⟩
  | pattern _ _ hscan h ih =>
    obtain ⟨gap, hgap⟩ := ih
    obtain ⟨gap', -, hshows⟩ := exists_gap (Pattern.scan_behind hscan (hgap.scannedAs.behind hgap.behind)) h
    exact ⟨gap', hshows⟩
  | sameLine _ ih =>
    obtain ⟨gap, hgap⟩ := ih
    refine ⟨{ gap with afterLine := false }, hgap.behind, hgap.starts, ?_⟩
    rw [scanToken_afterLine, hgap.scans]
    rfl

/-- A token behind an offset of a source, with only a gap in between. -/
structure Follows (source : List Char) (off : Nat) (c : Cursor) : Prop where
  token : TokenOf source c
  shown : ∃ mayEnd afterLine rest, Behind source off rest ∧
    (skipGap .plain off mayEnd afterLine rest >>= scanToken) = .ok c

namespace TokenOf

variable {c c' : Cursor}

/-- Behind a token stands what is left of the source. -/
theorem behind (h : TokenOf source c) : Behind source c.stop c.rest := by
  obtain ⟨gap, hgap⟩ := h.shown
  exact hgap.scannedAs.behind hgap.behind

/-- The next token follows where a token stops. -/
theorem follows (hc : TokenOf source c) (h : c.next = .ok c') : Follows source c.stop c' :=
  ⟨hc.next h, c.mayEnd, false, c.rest, hc.behind, h⟩

/-- The token behind a regular expression follows where the expression stops. -/
theorem follows_pattern {p : Pattern} (hc : TokenOf source c) (hslash : c.isOneOf ["/", "/="] = true)
    (hscan : Pattern.scan c.stop false false c.rest = some p)
    (h : Cursor.next { c with rest := p.rest, stop := p.stop, mayEnd := true } = .ok c') :
    Follows source p.stop c' :=
  ⟨hc.pattern hslash hscan h, true, false, p.rest, Pattern.scan_behind hscan hc.behind, h⟩

/-- A token stands at its own start. -/
theorem follows_start (h : TokenOf source c) : Follows source c.start c := by
  obtain ⟨gap, hgap⟩ := h.shown
  refine ⟨h, false, gap.afterLine, gap.rest, ?_, ?_⟩
  · rw [hgap.scannedAs.start]
    exact hgap.behind
  · obtain ⟨mayEnd', hskip⟩ := hgap.starts.skipGap gap.offset false gap.afterLine
    rw [hgap.scannedAs.start, hskip, Bool.or_false, ite_self]
    exact hgap.scans

end TokenOf

/-! ## Behind a statement -/

/-- A token that stands behind an offset, with only gaps and closing parentheses in between. -/
inductive Reaches (source : List Char) : Nat → Cursor → Prop
  | here {off : Nat} {c : Cursor} (h : Follows source off c) : Reaches source off c
  | close {off : Nat} {c c' : Cursor} (h : Follows source off c) (hclose : c.is ")" = true)
      (hrest : Reaches source c.stop c') : Reaches source off c'
  /-- The offset is that of the last byte of the token, and the search ends there. -/
  | last {off : Nat} {c : Cursor} (h : TokenOf source c) (hmark : c.is ";" = false ∧ c.is ")" = false)
      (hsearch : semicolonFollows .plain (dropBytes off source) = false) : Reaches source off c

/-- Behind a known gap a semicolon is found exactly where one follows. -/
theorem Follows.semicolonFollows_eq {off : Nat} {c : Cursor} (h : Follows source off c)
    (hknown : isKnownGap .plain (dropBytes off source) = true) :
    semicolonFollows .plain (dropBytes off source) =
        (c.is ";" || (c.is ")" && semicolonFollows .plain (dropBytes c.stop source))) ∧
      (c.is ")" = true → isKnownGap .plain (dropBytes c.stop source) = true) := by
  obtain ⟨mayEnd, afterLine, rest, hrest, hscan⟩ := h.shown
  rw [dropBytes_behind hrest] at hknown ⊢
  rw [dropBytes_behind h.token.behind]
  obtain ⟨gap, hgap, hshows⟩ := exists_gap hrest hscan
  obtain ⟨hfollows, hknown⟩ := (skipGap_known .plain off mayEnd afterLine hknown).of_ok gap hgap
  rw [hfollows]
  refine ⟨semicolonFollows_token hshows.scannedAs hshows.starts, ?_⟩
  intro hclose
  rw [hshows.scannedAs.rest_of_is (by decide) hclose] at hknown
  exact hknown

namespace Reaches

variable {off : Nat} {c c' : Cursor}

/-- Behind known gaps and closing parentheses, the search finds a semicolon if and only if the next token is one. -/
theorem semicolonFollows_iff (h : Reaches source off c) (hopen : c.is ")" = false)
    (hknown : isKnownGap .plain (dropBytes off source) = true) :
    semicolonFollows .plain (dropBytes off source) = true ↔ c.is ";" = true := by
  induction h with
  | here h => rw [(h.semicolonFollows_eq hknown).1, hopen, Bool.false_and, Bool.or_false]
  | close h hclose _ ih =>
    obtain ⟨hfollows, hrest⟩ := h.semicolonFollows_eq hknown
    rw [hfollows, is_of_ne hclose (by decide), hclose, Bool.false_or, Bool.true_and]
    exact ih hopen (hrest hclose)
  | last _ hmark hsearch => rw [hsearch, hmark.1]

/-- What is reached is a token of the source. -/
theorem token (h : Reaches source off c) : TokenOf source c := by
  induction h with
  | here h => exact h.token
  | close _ _ _ ih => exact ih
  | last h => exact h

/-- One more closing parenthesis. -/
theorem step (h : Reaches source off c) (hclose : c.is ")" = true) (hnext : Follows source c.stop c') :
    Reaches source off c' := by
  induction h with
  | here h => exact .close h hclose (.here hnext)
  | close h hclose' _ ih => exact .close h hclose' (ih hclose hnext)
  | last _ hmark => cases hclose.symm.trans hmark.2

end Reaches

/-- Dropping a text and more drops the more from what follows it. -/
theorem dropBytes_append (before cs : List Char) (n : Nat) :
    dropBytes (byteLength before + n) (before ++ cs) = dropBytes n cs := by
  induction before with
  | nil => rw [byteLength_nil, Nat.zero_add, List.nil_append]
  | cons c before ih =>
    have hpos := c.utf8Size_pos
    rw [byteLength_cons, List.cons_append, dropBytes, if_neg (by omega), if_pos (by omega), ← ih]
    congr 1
    omega

/-- A character counts as following from each of its bytes. -/
theorem dropBytes_last (before : List Char) (x : Char) (rest : List Char) :
    dropBytes (byteLength (before ++ [x]) - 1) (before ++ x :: rest) = x :: rest := by
  have hpos := x.utf8Size_pos
  have hlength : byteLength (before ++ [x]) - 1 = byteLength before + (x.utf8Size - 1) := by
    rw [byteLength_append, byteLength_cons, byteLength_nil]
    omega
  rw [hlength, dropBytes_append, dropBytes]
  split
  · rfl
  · rw [if_neg (by omega)]

/-- A character that is not searched for ends the search. -/
theorem semicolonFollows_of_not_searched {x : Char} (hx : x ∉ searched) (rest : List Char) :
    semicolonFollows .plain (x :: rest) = false := by
  simp only [searched, List.mem_cons, List.not_mem_nil, or_false, not_or] at hx
  simp [semicolonFollows, hx]

namespace TokenOf

variable {c : Cursor}

/-- From the end of a source, nothing follows but its last byte. -/
theorem reaches_ending (hc : TokenOf source c) (hkind : c.kind = .endOfInput) (hlast : source.getLast? ≠ some ';') :
    Reaches source (c.stop - 1) c := by
  obtain ⟨rest, hrest, hstop⟩ := hc.behind
  have hmark (text : String) : c.is text = false := by simp [Cursor.is, hkind]
  obtain ⟨gap, hgap⟩ := hc.shown
  refine .last hc ⟨hmark ";", hmark ")"⟩ ?_
  rw [hgap.scannedAs.rest_of_ending hkind, List.append_nil] at hrest
  subst hrest
  rcases List.eq_nil_or_concat source with rfl | ⟨before, x, hsource⟩
  · rfl
  · rw [List.concat_eq_append] at hsource
    subst hsource
    have hx : x ≠ ';' := by
      rintro rfl
      exact hlast List.getLast?_concat
    rw [hstop, dropBytes_last before x []]
    simp [semicolonFollows, hx]

/-- A token is reached from its last byte, unless the source ends with a semicolon there. -/
theorem reaches_last (hc : TokenOf source c) (hlegal : c.kind ≠ .illegal)
    (hlast : c.kind = .endOfInput → source.getLast? ≠ some ';') : Reaches source (c.stop - 1) c := by
  by_cases hend : c.kind = .endOfInput
  · exact hc.reaches_ending hend (hlast hend)
  obtain ⟨gap, hgap⟩ := hc.shown
  obtain ⟨before, x, htext, hsingle⟩ := hgap.scannedAs.exists_last hlegal hend
  obtain ⟨front, hsource, hoffset⟩ := hgap.behind
  by_cases hx : x ∈ searched
  · have hwidth : ∀ d ∈ searched, d.utf8Size = 1 := forall_of_all (by decide)
    have hstop : c.stop - 1 = c.start := by
      rw [htext.stop_eq, hsingle hx, hgap.scannedAs.start]
      simp [hwidth x hx]
    rw [hstop]
    exact .here hc.follows_start
  · have hmark (mark : Char) (hmark : mark ∈ [';', ')']) : c.is (String.ofList [mark]) = false := by
      apply Bool.eq_false_iff.mpr
      intro his
      refine hx ?_
      have hwords : ∀ d ∈ [';', ')'], String.ofList [d] ∉ keywords := forall_of_all (by decide)
      have hrest := hgap.scannedAs.rest_of_is (hwords mark hmark) his
      rw [← htext.append, String.toList_ofList, List.append_cancel_right_eq] at hrest
      have hsearched : ∀ d ∈ [';', ')'], d ∈ searched := forall_of_all (by decide)
      have hmem : x ∈ [mark] := hrest ▸ List.mem_append_right before List.mem_cons_self
      rw [List.mem_singleton.mp hmem]
      exact hsearched mark hmark
    refine .last hc ⟨hmark ';' (by decide), hmark ')' (by decide)⟩ ?_
    have hbehind : source = (front ++ before) ++ x :: c.rest := by
      rw [hsource, ← htext.append]
      simp
    have hstop : c.stop = byteLength ((front ++ before) ++ [x]) := by
      rw [htext.stop_eq, hoffset, List.append_assoc, byteLength_append front]
    rw [hbehind, hstop, dropBytes_last]
    exact semicolonFollows_of_not_searched hx c.rest

end TokenOf

end Primer.Source
