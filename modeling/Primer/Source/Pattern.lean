import Primer.Source.Token

/-!
# Regular expressions

The subset has no regular expressions, but a source may hold one. It is read up to the slash that closes
it, and its brackets and references must be sound: `Pattern.scan` finds where it ends, and
`Pattern.fault?` gives the first thing that is wrong with it.
-/

set_option autoImplicit false

namespace Primer.Source

/-- What ends a regular expression. Inside a class of characters, a slash does not. -/
inductive PatternEnd where
  | slash
  /-- The end of a line inside a class. -/
  | line
  /-- The end of the source inside a class. -/
  | source
  deriving Repr, DecidableEq, Inhabited

/-- A regular expression as written behind its opening slash, what ends it, and what follows. -/
structure Pattern where
  text : List Char
  ending : PatternEnd
  rest : List Char
  /-- The offset of what follows. -/
  stop : Nat

/-- Puts a character in front of a regular expression. -/
def Pattern.after (c : Char) (p : Pattern) : Pattern := { p with text := c :: p.text }

/-- Reads a regular expression whose opening slash has been read; `none` when neither a slash nor the
inside of a class ends it. -/
def Pattern.scan (off : Nat) (inClass escaped : Bool) : List Char → Option Pattern
  | [] => if inClass then some ⟨[], .source, [], off⟩ else none
  | '\r' :: '\n' :: cs =>
    if !inClass then none
    else if escaped then (scan (off + 2) true false cs).map (Pattern.after '\n')
    else some ⟨[], .line, cs, off + 2⟩
  | c :: cs =>
    let next := off + c.utf8Size
    if isLineEnd c && !inClass then none
    else if isLineEnd c && !escaped then some ⟨[], .line, cs, next⟩
    else if c = '/' && !inClass && !escaped then some ⟨[], .slash, cs, next⟩
    else
      let within := if escaped then inClass else c = '[' || (inClass && c != ']')
      (scan next within (c = '\\' && !escaped) cs).map (Pattern.after c)

/-- What is left of a regular expression: nothing when a line ended it, and all but the last character
when the source did. -/
def Pattern.body (p : Pattern) : List Char :=
  match p.ending with
  | .slash => p.text
  | .line => []
  | .source => p.text.dropLast

/-- What can be wrong with a regular expression. -/
inductive PatternFault where
  | strayParenthesis
  | openGroup
  | openClass
  /-- A group that looks ahead, told by its mark. -/
  | lookahead (mark : Char)
  /-- A reference to an earlier group by its digits. -/
  | reference (digits : List Char)
  deriving Repr, DecidableEq

/-- The wording of a fault. -/
def PatternFault.message : PatternFault → String
  | .strayParenthesis => "Unmatched ')'"
  | .openGroup => "Unterminated group"
  | .openClass => "Unterminated character class"
  | .lookahead mark => "re2: Invalid (?" ++ String.singleton mark ++ ") <lookahead>"
  | .reference digits => "re2: Invalid \\" ++ String.ofList digits ++ " <backreference>"

/-- The reference that digits behind a backslash make: a number that starts with eight or nine, or a
single octal digit other than zero. Longer octal numbers name a character. -/
def reference? (cs : List Char) : Option PatternFault :=
  let digits := cs.takeWhile Char.isDigit
  let octal := cs.takeWhile isOctalDigit
  match octal, digits with
  | [], [] => none
  | [], _ => some (.reference digits)
  | [d], _ => if d = '0' then none else some (.reference [d])
  | _, _ => none

/-- The first fault of a regular expression, inside some number of groups and perhaps a class. -/
def patternFault? (groups : Nat) (inClass escaped : Bool) : List Char → Option PatternFault
  | [] => if inClass then some .openClass else if groups = 0 then none else some .openGroup
  | c :: cs =>
    if escaped then (reference? (c :: cs)).or (patternFault? groups inClass false cs)
    else if c = '\\' then patternFault? groups inClass true cs
    else if inClass then patternFault? groups (c != ']') false cs
    else if c = '[' then patternFault? groups true false cs
    else if c = '(' then
      match cs with
      | '?' :: '=' :: _ => some (.lookahead '=')
      | '?' :: '!' :: _ => some (.lookahead '!')
      | _ => patternFault? (groups + 1) false false cs
    else if c = ')' then
      if groups = 0 then some .strayParenthesis else patternFault? (groups - 1) false false cs
    else patternFault? groups false false cs

/-- The first fault of a regular expression. -/
def Pattern.fault? (p : Pattern) : Option PatternFault := patternFault? 0 false false p.body

end Primer.Source
