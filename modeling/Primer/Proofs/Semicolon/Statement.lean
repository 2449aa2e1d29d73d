import Primer.Proofs.Semicolon.Search

/-!
# Simple statements

The statements that must be closed by a semicolon (`Clause.allSimple`), the offset from which it is looked for
(`Clause.stop`) and the token that follows each of them in its source (`Clause.EndsBefore`). Where a statement ends is
taken from its tree, and there are sources whose trees do not tell. A source is plainly written (`PlainlyWritten`) if
they do: the tree keeps the name of a word and not how it was written, it puts the end of an increment two bytes behind
its operand, and it puts the end of a regular expression with flags at the last byte of the token behind it.
-/

set_option autoImplicit false

namespace Primer.Source

variable {source : List Char}

/-! ## Simple statements -/

mutual

/-- The simple statements in a statement, in order: those that must be closed by a semicolon. -/
def Clause.simple : Clause → List Clause
  | .term t => [.term t]
  | .var start list => [.var start list]
  | .return start value => [.return start value]
  | .cond _ _ body branch => body.simple ++ Clause.simpleIn branch
  | .while _ _ body | .for _ _ _ _ body => body.simple
  | .function _ _ _ body | .block _ body => Clause.allSimple body
  | .empty _ | .foreign .. => []

/-- The simple statements in a statement that may be absent. -/
def Clause.simpleIn : Option Clause → List Clause
  | none => []
  | some c => c.simple

/-- The simple statements in several statements. -/
def Clause.allSimple : List Clause → List Clause
  | [] => []
  | c :: cs => c.simple ++ Clause.allSimple cs

end

/-- The offset from which the semicolon of a simple statement is looked for. -/
def Clause.stop : Clause → Nat
  | .term t => t.stop
  | .var start list => variablesStop start list
  | .return start value => (value.map Term.stop).getD (start + 6)
  | c => c.start

/-- A simple statement of a source was read, and this is the next token. -/
inductive Clause.EndsBefore (source : List Char) : Clause → Cursor → Prop
  | term {n : Nat} {env : Surroundings} {c after : Cursor} {t : Term} (hc : TokenOf source c)
      (hread : expression n env c = .ok (t, after)) (hafter : after.is ")" = false) : EndsBefore source (.term t) after
  | var {n : Nat} {env : Surroundings} {c c' after : Cursor} {list : List Variable} (hc : TokenOf source c)
      (hvar : c.is "var" = true) (hnext : c.next = .ok c') (hread : variableList n env c' = .ok (list, after))
      (hafter : after.is ")" = false) : EndsBefore source (.var c.start list) after
  | returnNothing {c after : Cursor} (hc : TokenOf source c) (hreturn : c.is "return" = true)
      (hnext : c.next = .ok after) (hafter : after.is ")" = false) : EndsBefore source (.return c.start none) after
  | returnValue {n : Nat} {env : Surroundings} {c c' after : Cursor} {t : Term} (hc : TokenOf source c)
      (hreturn : c.is "return" = true) (hnext : c.next = .ok c') (hread : expression n env c' = .ok (t, after))
      (hafter : after.is ")" = false) : EndsBefore source (.return c.start (some t)) after

/-- Every simple statement in several statements was read from a source. -/
def Clause.AllEnd (source : List Char) (simple : List Clause) : Prop := ∀ s ∈ simple, ∃ after, s.EndsBefore source after

/-- Two lists of statements end if both do. -/
theorem Clause.AllEnd.append {simple more : List Clause} (h : Clause.AllEnd source simple)
    (hmore : Clause.AllEnd source more) : Clause.AllEnd source (simple ++ more) := by
  intro s hs
  rcases List.mem_append.mp hs with hs | hs
  · exact h s hs
  · exact hmore s hs

/-! ## Plainly written sources -/

/-- A source in which the end of every expression can be told from its tree. -/
structure PlainlyWritten (source : List Char) : Prop where
  /-- No word has an escape: it takes up as many bytes as its name. -/
  words : ∀ c, TokenOf source c → c.IsWord → c.stop = c.start + c.text.utf8ByteSize
  /-- What is incremented is not in parentheses, and the operator stands right behind it. -/
  bumps : ∀ n env c e after, TokenOf source c → operand n env c = .ok (e, after) → TokenOf source after →
    e.isTarget = true → (after.is "++" || after.is "--") = true → after.afterLine = false → after.start = e.stop
  /-- Behind a regular expression with flags, there is a token, or the end of a source that does not end with a
  semicolon. -/
  flags : ∀ c p after last, TokenOf source c → c.isOneOf ["/", "/="] = true →
    Pattern.scan c.stop false false c.rest = some p →
      Cursor.next { c with rest := p.rest, stop := p.stop, mayEnd := true } = .ok after → after.kind = .identifier →
        after.next = .ok last → last.kind ≠ .illegal ∧ (last.kind = .endOfInput → source.getLast? ≠ some ';')

/-! ## Single tokens -/

/-- In a sequence the second step may use what the first one gave. -/
theorem Gives.bind_of_eq {α β : Type} {P : α → Prop} {Q : β → Prop} {x : Except Mistake α} {f : α → Except Mistake β}
    (hx : Gives x P) (hf : ∀ a, x = .ok a → P a → Gives (f a) Q) : Gives (x >>= f) Q := by
  constructor
  intro b h
  cases x with
  | error m => cases h
  | ok a => exact (hf a rfl (hx.of_ok a rfl)).of_ok b h

/-- The words of truth values. -/
theorem wordKind_boolean {name : String} (h : (wordKind name).1 = .boolean) : name = "true" ∨ name = "false" := by
  unfold wordKind at h
  split at h
  case isTrue hname => simpa using hname
  case isFalse =>
    repeat' split at h
    all_goals cases h

/-- The word of the missing value. -/
theorem wordKind_null {name : String} (h : (wordKind name).1 = .null) : name = "null" := by
  unfold wordKind at h
  split at h
  case isTrue => cases h
  case isFalse =>
    split at h
    case isTrue hname => exact hname
    case isFalse =>
      repeat' split at h
      all_goals cases h

namespace ScannedAs

variable {gap : AfterGap} {c : Cursor}

/-- A token of any other kind is a word. -/
theorem kind_of_word (h : ScannedAs gap c) (hkind : c.kind ∉ [.endOfInput, .illegal, .number, .string, .mark]) :
    (wordKind c.text).1 = c.kind := by
  cases h with
  | ending | brokenWord | punctuation => simp at hkind
  | word => rfl
  | @number n => cases hlegal : n.legal <;> simp [hlegal] at hkind
  | string _ _ _ kind _ hstring => rcases hstring with ⟨rfl, -⟩ | ⟨rfl, -⟩ <;> simp at hkind

/-- A scanned truth value has the text of one. -/
theorem boolean_text (h : ScannedAs gap c) (hkind : c.kind = .boolean) : c.text = "true" ∨ c.text = "false" :=
  wordKind_boolean ((h.kind_of_word (by simp [hkind])).trans hkind)

/-- A scanned missing value has its text. -/
theorem null_text (h : ScannedAs gap c) (hkind : c.kind = .null) : c.text = "null" :=
  wordKind_null ((h.kind_of_word (by simp [hkind])).trans hkind)

/-- A word that can stand behind a point is legal. -/
theorem legal_of_member (h : ScannedAs gap c) (hmember : isMemberName c.text = true) : c.kind ≠ .illegal := by
  intro hkind
  cases h with
  | ending | punctuation => cases hkind
  | @word name =>
    have hmem := wordKind_mem name
    simp only at hkind
    rw [hkind] at hmem
    exact absurd hmem (by decide)
  | brokenWord => cases hmember
  | number hnumber hstart =>
    have hstarts := scanNumeral_starts hstart
    rw [hnumber] at hstarts
    simp [not_isMemberName_of_starts hstarts] at hmember
  | string _ _ _ kind _ hstring =>
    simp only at hkind
    rcases hstring with ⟨hstring, -⟩ | ⟨-, rfl⟩
    · cases hkind.symm.trans hstring
    · cases hmember

end ScannedAs

namespace TokenOf

variable {c : Cursor}

/-- The next token follows where a token stops. -/
theorem next_follows (hc : TokenOf source c) : Gives c.next (Follows source c.stop) := ⟨fun _ h => hc.follows h⟩

/-- Behind an expected mark the next token follows where the mark stops. -/
theorem expect_follows (hc : TokenOf source c) (text : String) :
    Gives (c.expect text) fun c' => c.is text = true ∧ Follows source c.stop c' :=
  .ite (fun his => hc.next_follows.imp fun _ h => ⟨his, h⟩) fun _ => .error _

/-- In a plainly written source a token is as long as its text. -/
theorem stop_eq (hplain : PlainlyWritten source) (hc : TokenOf source c) (hkind : c.kind ≠ .illegal) :
    c.stop = c.start + c.text.utf8ByteSize := by
  obtain ⟨gap, hgap⟩ := hc.shown
  rcases hgap.scannedAs.length with h | h | h
  · exact hplain.words c hc h
  · exact absurd h hkind
  · exact h

/-- In a plainly written source a mark is as long as its text. -/
theorem stop_of_is (hplain : PlainlyWritten source) (hc : TokenOf source c) {text : String} (h : c.is text = true) :
    c.stop = c.start + text.utf8ByteSize := by
  simp only [Cursor.is, Bool.and_eq_true, decide_eq_true_eq] at h
  rw [hc.stop_eq hplain (by simp [h.1]), h.2]

/-- Behind a name the next token follows where the name stops. -/
theorem identifier_follows (hplain : PlainlyWritten source) (hc : TokenOf source c) :
    Gives c.identifier fun r => Follows source (r.1.start + r.1.name.utf8ByteSize) r.2 := by
  refine .ite ?_ fun _ => .error _
  intro hkind
  refine .bind hc.next_follows ?_
  intro next hnext
  refine .ok ?_
  simp only
  rw [← hc.stop_eq hplain (by simp [hkind])]
  exact hnext

/-- The end of a statement, unless it is left in place. -/
theorem endStatement_gives (hc : TokenOf source c) :
    Gives c.endStatement fun c' => TokenOf source c' ∧ (c'.is ")" = false → c.is ")" = false) := by
  refine .ite (fun _ => .ok ⟨hc, id⟩) ?_
  intro hbracket
  refine .ite (fun _ => .ok ⟨hc.sameLine, id⟩) ?_
  intro _
  exact (hc.expect_follows ";").imp fun c' h => ⟨h.2.token, fun _ => is_of_ne h.1 (by decide)⟩

/-- The end of an expression passes no closing parenthesis over. -/
theorem endTerm_gives (hc : TokenOf source c) :
    Gives c.endTerm fun c' => TokenOf source c' ∧ (c'.is ")" = false → c.is ")" = false) := by
  refine .ite ?_ fun _ => .ite (fun _ => .ok ⟨hc.sameLine, id⟩) fun _ => .ite (fun _ => .ok ⟨hc, id⟩) fun _ => .error _
  intro his
  apply hc.next_follows.imp
  intro c' h
  exact ⟨h.token, fun _ => is_of_ne his (by decide)⟩

end TokenOf

/-- What is no mark is no closing parenthesis. -/
theorem is_close_of_kind {c : Cursor} (h : c.kind ≠ .mark) : c.is ")" = false := by
  simp [Cursor.is, h]

/-- A token with another text is no closing parenthesis. -/
theorem is_close_of_text {c : Cursor} {text : String} (h : c.text = text) (hne : text ≠ ")") : c.is ")" = false := by
  simp [Cursor.is, h, hne]

/-- One of some other marks is no closing parenthesis. -/
theorem is_close_of_isOneOf {c : Cursor} {texts : List String} (h : c.isOneOf texts = true) (hne : ")" ∉ texts) :
    c.is ")" = false := by
  simp only [Cursor.isOneOf, Bool.and_eq_true, decide_eq_true_eq, List.contains_iff_mem] at h
  refine is_close_of_text rfl ?_
  rintro htext
  rw [htext] at h
  exact hne h.2

end Primer.Source
