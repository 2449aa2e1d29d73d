import Primer.Number.Reading
import Primer.Text.Category
import Primer.Text.Blank
import Primer.Source.Position

/-!
# Tokens

The words, literals and punctuation of a JavaScript source. `scan` reads the next token together with
what follows it; a token remembers whether a line ended before it in a place where a statement may end.
A malformed number, text or word is a token of kind `illegal`, which no rule of the grammar accepts; a
character that starts no token, and a comment that never ends, are mistakes at once.
-/

set_option autoImplicit false

namespace Primer.Source

/-- A mistake found while reading, at a byte offset. -/
structure Mistake where
  offset : Nat
  message : String
  deriving Repr, DecidableEq, Inhabited

/-- The kinds of tokens. -/
inductive Kind where
  | endOfInput
  | illegal
  | identifier
  /-- A word that the language keeps for later use. -/
  | reserved
  | number
  | string
  | boolean
  | null
  /-- A keyword or a punctuation mark, told apart by its text. -/
  | mark
  deriving Repr, DecidableEq, Inhabited

/-- The current token of a source and what follows it. -/
structure Cursor where
  kind : Kind
  /-- The token as written; for words, with escapes decoded. -/
  text : String
  start : Nat
  /-- What follows the token. -/
  rest : List Char
  /-- The offset of what follows. -/
  stop : Nat
  /-- Whether a line ended before the token where a statement may end. -/
  afterLine : Bool
  /-- Whether a statement may end after the token. -/
  mayEnd : Bool
  deriving Repr, Inhabited

/-- The part of a gap between tokens that is being skipped. -/
inductive Gap where
  | plain
  /-- Behind a slash that may start a comment. -/
  | slash
  | lineComment
  | blockComment
  /-- Behind a star that may end a block comment. -/
  | blockStar
  deriving Repr, DecidableEq

/-- What lies behind a gap. -/
structure AfterGap where
  rest : List Char
  offset : Nat
  mayEnd : Bool
  afterLine : Bool

/-- Whether a character separates tokens without ending a line. -/
def isSpace (c : Char) : Bool :=
  c.toNat == 0xfeff || (Text.isBlank c && !isLineEnd c)

/-- Skips white space, line ends and comments. A line end outside of block comments counts once, and only
where a statement may end. -/
def skipGap (gap : Gap) (off : Nat) (mayEnd afterLine : Bool) : List Char → Except Mistake AfterGap
  | [] =>
    match gap with
    | .blockComment | .blockStar => .error ⟨off, "Unexpected end of input"⟩
    | .slash => .ok ⟨['/'], off - 1, mayEnd, afterLine⟩
    | _ => .ok ⟨[], off, false, afterLine || mayEnd⟩
  | c :: cs =>
    let next := off + c.utf8Size
    match gap with
    | .slash =>
      if c = '/' then skipGap .lineComment next mayEnd afterLine cs
      else if c = '*' then skipGap .blockComment next mayEnd afterLine cs
      else .ok ⟨'/' :: c :: cs, off - 1, mayEnd, afterLine⟩
    | .blockComment =>
      skipGap (if c = '*' then .blockStar else .blockComment) next mayEnd afterLine cs
    | .blockStar =>
      skipGap (if c = '/' then .plain else if c = '*' then .blockStar else .blockComment) next mayEnd
        afterLine cs
    | .lineComment =>
      if isLineEnd c then skipGap .plain next false (afterLine || mayEnd) cs
      else skipGap .lineComment next mayEnd afterLine cs
    | .plain =>
      if c = '/' then skipGap .slash next mayEnd afterLine cs
      else if isLineEnd c then skipGap .plain next false (afterLine || mayEnd) cs
      else if isSpace c then skipGap .plain next mayEnd afterLine cs
      else .ok ⟨c :: cs, off, mayEnd, afterLine⟩

/-- Whether a character can start a word; a backslash starts an escape. -/
def isWordStart (c : Char) : Bool := c == '$' || c == '_' || c == '\\' || Text.startsWord c

/-- Whether a character can stand inside a word. -/
def isWordPart (c : Char) : Bool := c == '$' || c == '\\' || Text.continuesWord c

/-- The character that four hexadecimal digits name; halves of a pair become the replacement
character. -/
def hexChar? (a b c d : Char) : Option Char := do
  let n ← Number.readDigits Number.hexValue? 16 [a, b, c, d]
  some (if 0xd800 ≤ n && n < 0xe000 then Char.ofNat 0xfffd else Char.ofNat n)

/-- Whether a character is a hexadecimal digit. -/
def isHexDigit (c : Char) : Bool := (Number.hexValue? c).isSome

/-- A word with its escapes decoded, whether it is well formed, and what follows it. -/
structure Word where
  name : List Char
  legal : Bool
  rest : List Char
  offset : Nat

/-- Puts a character in front of a word. -/
def Word.after (c : Char) (w : Word) : Word := { w with name := c :: w.name }

/-- The word that ends at a bad escape, which starts at an offset: of the digits behind its letter, those
before the bad one have been read, and at most three. -/
def brokenWord (off : Nat) : List Char → Word
  | 'u' :: cs =>
    let digits := (cs.take 3).takeWhile isHexDigit
    ⟨[], false, cs.drop digits.length, off + 2 + digits.length⟩
  | cs => ⟨[], false, cs, off + 1⟩

/-- Reads a word. An escape must name a character that is legal at its place and no backslash. -/
def scanWord (first : Bool) (off : Nat) : List Char → Word
  | [] => ⟨[], true, [], off⟩
  | '\\' :: 'u' :: a :: b :: d :: e :: cs =>
    match hexChar? a b d e with
    | none => brokenWord off ('u' :: a :: b :: d :: e :: cs)
    | some x =>
      if x = '\\' || !(if first then isWordStart x else isWordPart x) then
        brokenWord off ('u' :: a :: b :: d :: e :: cs)
      else (scanWord false (off + 6) cs).after x
  | c :: cs =>
    if c = '\\' then brokenWord off cs
    else if isWordPart c then (scanWord false (off + c.utf8Size) cs).after c
    else ⟨[], true, c :: cs, off⟩

/-- Whether a number may not be followed directly by this text. -/
def clashesWithNumber : List Char → Bool
  | [] => false
  | c :: _ => isWordStart c || c.isDigit

/-- A number as written, whether it is well formed, and what follows it. -/
structure Numeral where
  text : List Char
  legal : Bool
  rest : List Char

/-- Ends a number: directly behind it, no word and no digit may start. -/
def endNumber (text rest : List Char) : Numeral := ⟨text, !clashesWithNumber rest, rest⟩

/-- Reads an optional exponent and ends the number. -/
def scanExponent (before : List Char) : List Char → Numeral
  | c :: cs =>
    if c = 'e' || c = 'E' then
      let (sign, ds) := match cs with
        | '+' :: ds => (['+'], ds)
        | '-' :: ds => (['-'], ds)
        | ds => ([], ds)
      let text := before ++ c :: sign
      if (ds.takeWhile Char.isDigit).isEmpty then ⟨text, false, ds⟩
      else endNumber (text ++ ds.takeWhile Char.isDigit) (ds.dropWhile Char.isDigit)
    else endNumber before (c :: cs)
  | [] => ⟨before, true, []⟩

/-- Reads an optional fraction and an optional exponent. -/
def scanFraction (before : List Char) : List Char → Numeral
  | '.' :: cs => scanExponent (before ++ '.' :: cs.takeWhile Char.isDigit) (cs.dropWhile Char.isDigit)
  | cs => scanExponent before cs

/-- Whether a character is an octal digit. -/
def isOctalDigit (c : Char) : Bool := '0' ≤ c && c ≤ '7'

/-- Reads a number that starts with a digit: hexadecimal after `0x`, octal after another zero, else
decimal. -/
def scanNumber (cs : List Char) : Numeral :=
  match cs with
  | '0' :: x :: after =>
    if x = 'x' || x = 'X' then
      let ds := after.takeWhile isHexDigit
      if ds.isEmpty then ⟨['0', x], false, after⟩
      else endNumber ('0' :: x :: ds) (after.dropWhile isHexDigit)
    else if x = '.' then scanFraction ['0'] (x :: after)
    else if x = 'e' || x = 'E' then scanExponent ['0'] (x :: after)
    else
      let ds := (x :: after).takeWhile isOctalDigit
      let rest := (x :: after).dropWhile isOctalDigit
      match rest with
      | '8' :: _ | '9' :: _ => ⟨'0' :: ds, false, rest⟩
      | _ => endNumber ('0' :: ds) rest
  | _ => scanFraction (cs.takeWhile Char.isDigit) (cs.dropWhile Char.isDigit)

/-- A text as written behind its opening quote, whether a quote closes it, and what follows. -/
structure Quotation where
  text : List Char
  legal : Bool
  rest : List Char

/-- Puts characters in front of a text. -/
def Quotation.after (cs : List Char) (q : Quotation) : Quotation := { q with text := cs ++ q.text }

/-- Reads a text up to its closing quote; the end of a line or of the source ends it too early. What ends
it is included. A backslash takes the next character with it, and a whole line end. -/
def scanText (quote : Char) : List Char → Quotation
  | [] => ⟨[], false, []⟩
  | ['\\'] => ⟨['\\'], false, []⟩
  | '\\' :: '\r' :: '\n' :: cs => (scanText quote cs).after ['\\', '\r', '\n']
  | '\\' :: c :: cs => (scanText quote cs).after ['\\', c]
  | '\r' :: '\n' :: cs => ⟨['\r', '\n'], false, cs⟩
  | c :: cs =>
    if c = quote then ⟨[c], true, cs⟩
    else if isLineEnd c then ⟨[c], false, cs⟩
    else (scanText quote cs).after [c]

/-- The keywords. -/
def keywords : List String :=
  ["if", "in", "do", "var", "for", "new", "try", "this", "else", "case", "void", "with", "while",
   "break", "catch", "throw", "return", "typeof", "delete", "switch", "default", "finally",
   "function", "continue", "debugger", "instanceof"]

/-- The words that are kept for later use. -/
def reservedWords : List String :=
  ["const", "class", "enum", "export", "extends", "import", "super"]

/-- The keywords after which a statement may end. -/
def endingKeywords : List String :=
  ["this", "break", "throw", "return", "continue", "debugger"]

/-- The kind of a word, and whether a statement may end after it. -/
def wordKind (name : String) : Kind × Bool :=
  if name = "true" || name = "false" then (.boolean, true)
  else if name = "null" then (.null, true)
  else if reservedWords.contains name then (.reserved, false)
  else if keywords.contains name then (.mark, endingKeywords.contains name)
  else (.identifier, true)

/-- The punctuation marks, longer ones first. -/
def punctuation : List (List Char) :=
  [">>>=", "<<=", ">>=", ">>>", "===", "!==", "&^=", "++", "+=", "--", "-=", "*=", "/=", "%=", "^=",
   "<=", "<<", ">=", ">>", "==", "!=", "&&", "&=", "&^", "||", "|=", "\x7b", "\x7d", "(", ")", "[", "]",
   ";", ",", ":", "?", "~", ".", "+", "-", "*", "/", "%", "^", "<", ">", "=", "!", "&", "|"].map
    String.toList

/-- The punctuation marks after which a statement may end. -/
def endingPunctuation : List String := [")", "]", "\x7d", "++", "--", "/", "/="]

/-- The number of bytes of a text. -/
def byteLength (cs : List Char) : Nat := cs.foldl (fun n c => n + c.utf8Size) 0

/-- Reads the token that starts at a character which is neither white space nor part of a comment. -/
def scanToken (gap : AfterGap) : Except Mistake Cursor :=
  let off := gap.offset
  let make (kind : Kind) (text : String) (rest : List Char) (stop : Nat) (mayEnd : Bool) : Cursor :=
    ⟨kind, text, off, rest, stop, gap.afterLine, mayEnd⟩
  match gap.rest with
  | [] => .ok (make .endOfInput "" [] off false)
  | c :: cs =>
    if isWordStart c then
      let w := scanWord true off (c :: cs)
      let name := String.ofList w.name
      let (kind, mayEnd) := wordKind name
      if w.legal then .ok (make kind name w.rest w.offset mayEnd)
      else .ok (make .illegal "" w.rest w.offset false)
    else if c.isDigit || (c = '.' && (cs.head?.map Char.isDigit).getD false) then
      let n := if c = '.' then scanFraction [] (c :: cs) else scanNumber (c :: cs)
      .ok (make (if n.legal then .number else .illegal) (String.ofList n.text) n.rest
        (off + n.text.length) true)
    else if c = '"' || c.toNat = 39 then
      let q := scanText c cs
      let stop := off + 1 + byteLength q.text
      if q.legal then .ok (make .string (String.ofList (c :: q.text)) q.rest stop true)
      else .ok (make .illegal "" q.rest stop true)
    else
      match punctuation.find? fun p => p.isPrefixOf (c :: cs) with
      | none => .error ⟨off, "Unexpected token ILLEGAL"⟩
      | some p =>
        let text := String.ofList p
        .ok (make .mark text ((c :: cs).drop p.length) (off + p.length) (endingPunctuation.contains text))

/-- Reads the next token behind a cursor. -/
def Cursor.next (c : Cursor) : Except Mistake Cursor := do
  scanToken (← skipGap .plain c.stop c.mayEnd false c.rest)

/-- Reads the first token of a source. -/
def Cursor.first (source : List Char) : Except Mistake Cursor := do
  scanToken (← skipGap .plain 0 false false source)

end Primer.Source
