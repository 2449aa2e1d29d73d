import Primer.Breakdown
import Primer.Number.Reading
import Primer.Text.Category

/-!
# Quoted text

Two ways to write a text between double quotes. `quoteJson` escapes what a JSON string must escape and
nothing else; `readJson?` reads back by the grammar of JSON strings, which also knows escapes that are
never written. `quoteShown` escapes every character that cannot be shown as it is, for messages that
quote a text that somebody typed.
-/

set_option autoImplicit false

namespace Primer.Text

/-- A lower-case hexadecimal digit. -/
def hexDigit (n : Nat) : Char := if n < 10 then Char.ofNat (48 + n) else Char.ofNat (87 + n)

/-- A natural in hexadecimal with exactly `width` digits, high digits first. -/
def hexDigits : Nat → Nat → List Char
  | 0, _ => []
  | width + 1, n => hexDigit (n / Nat.pow 16 width % 16) :: hexDigits width n

/-- A character inside a JSON string. -/
def jsonChar (c : Char) : List Char :=
  if c = '"' then ['\\', '"']
  else if c = '\\' then ['\\', '\\']
  else if c = '\x08' then ['\\', 'b']
  else if c = '\x0c' then ['\\', 'f']
  else if c = '\n' then ['\\', 'n']
  else if c = '\r' then ['\\', 'r']
  else if c = '\t' then ['\\', 't']
  else if c.toNat < 0x20 then '\\' :: 'u' :: hexDigits 4 c.toNat
  else [c]

/-- A text as a JSON string literal. -/
def quoteJson (s : String) : String :=
  String.ofList ('"' :: (s.toList.flatMap jsonChar ++ ['"']))

/-- The hexadecimal digits in order. -/
def digitTable : Array Char :=
  #['0', '1', '2', '3', '4', '5', '6', '7', '8', '9', 'a', 'b', 'c', 'd', 'e', 'f']

/-- A character inside a JSON string, with the digits of an escape looked up in the table. -/
def jsonChar? (c : Char) : Except Breakdown (List Char) :=
  if c.toNat < 0x20 && ! (['\x08', '\x0c', '\n', '\r', '\t'].contains c) then do
    let high ← entryAt digitTable (c.toNat / 16)
    let low ← entryAt digitTable (c.toNat % 16)
    .ok ['\\', 'u', '0', '0', high, low]
  else .ok (jsonChar c)

/-- A text as a JSON string literal, or the breakdown of writing it. -/
def quoteJson? (s : String) : Except Breakdown String := do
  let inside ← s.toList.mapM jsonChar?
  .ok (String.ofList ('"' :: (inside.flatten ++ ['"'])))

/-- The character that a letter behind a backslash stands for in a JSON string. -/
def jsonEscape? : Char → Option Char
  | '"' => some '"'
  | '\\' => some '\\'
  | '/' => some '/'
  | 'b' => some '\x08'
  | 'f' => some '\x0c'
  | 'n' => some '\n'
  | 'r' => some '\r'
  | 't' => some '\t'
  | _ => none

/-- The unit that the four hexadecimal digits of an escape name. -/
def unit? (a b c d : Char) : Option Nat := Number.readDigits Number.hexValue? 16 [a, b, c, d]

/-- Whether a unit is the first half of a pair. -/
def isHighHalf (n : Nat) : Bool := 0xd800 ≤ n && n < 0xdc00

/-- Whether a unit is the second half of a pair. -/
def isLowHalf (n : Nat) : Bool := 0xdc00 ≤ n && n < 0xe000

/-- The character that two halves name together. -/
def pairChar (high low : Nat) : Char := Char.ofNat (0x10000 + (high - 0xd800) * 0x400 + (low - 0xdc00))

/-- Reads the inside of a JSON string up to the closing quote, which must come last. A character below
the space must be escaped. The first half of a pair is kept until the escape behind it brings the other
one, and no half stands alone. -/
def readJsonChars? (high : Option Nat) : List Char → Option (List Char)
  | '\\' :: 'u' :: a :: b :: c :: d :: cs =>
    match unit? a b c d, high with
    | none, _ => none
    | some n, some h => if isLowHalf n then (readJsonChars? none cs).map (pairChar h n :: ·) else none
    | some n, none =>
      if isHighHalf n then readJsonChars? (some n) cs
      else if isLowHalf n then none
      else (readJsonChars? none cs).map (Char.ofNat n :: ·)
  | '\\' :: c :: cs =>
    match jsonEscape? c, high with
    | some x, none => (readJsonChars? none cs).map (x :: ·)
    | _, _ => none
  | c :: cs =>
    if high.isSome then none
    else if c = '"' then (if cs.isEmpty then some [] else none)
    else if c = '\\' || c.toNat < 0x20 then none
    else (readJsonChars? none cs).map (c :: ·)
  | [] => none

/-- The text that a JSON string literal denotes. -/
def readJson? (literal : String) : Option String :=
  match literal.toList with
  | '"' :: cs => (readJsonChars? none cs).map String.ofList
  | _ => none

/-- A character inside a quoted text of which every part can be shown. -/
def shownChar (c : Char) : List Char :=
  if c = '"' then ['\\', '"']
  else if c = '\\' then ['\\', '\\']
  else if c = '\x07' then ['\\', 'a']
  else if c = '\x08' then ['\\', 'b']
  else if c = '\x0c' then ['\\', 'f']
  else if c = '\n' then ['\\', 'n']
  else if c = '\r' then ['\\', 'r']
  else if c = '\t' then ['\\', 't']
  else if c = '\x0b' then ['\\', 'v']
  else if isShown c then [c]
  else if c.toNat < 0x80 then '\\' :: 'x' :: hexDigits 2 c.toNat
  else if c.toNat < 0x10000 then '\\' :: 'u' :: hexDigits 4 c.toNat
  else '\\' :: 'U' :: hexDigits 8 c.toNat

/-- A text between quotes with everything that cannot be shown escaped. -/
def quoteShown (s : String) : String :=
  String.ofList ('"' :: (s.toList.flatMap shownChar ++ ['"']))

end Primer.Text
