import Primer.Source.Token
import Primer.Number.Reading
import Primer.Text.Quoted

/-!
# Values of literals

The value of a number and of a text as they are written in a source. An escape that cannot be decoded is
described by the digits that stand where hexadecimal ones were expected.
-/

set_option autoImplicit false

namespace Primer.Source

/-- The value of an octal digit. -/
def octalValue (c : Char) : Nat := c.toNat - 48

/-- Reads an integer as written: hexadecimal after `0x`, octal after another zero, else decimal. -/
def readInteger (cs : List Char) : Option Nat :=
  match cs with
  | '0' :: x :: ds =>
    if x = 'x' || x = 'X' then Number.readDigits Number.hexValue? 16 ds
    else Number.readDigits (fun c => if isOctalDigit c then some (octalValue c) else none) 8 (x :: ds)
  | _ => Number.readDigits (fun c => if c.isDigit then some (c.toNat - 48) else none) 10 cs

/-- The digits behind `0x`, gathered in doubles. -/
def gatherHex (cs : List Char) : Float :=
  cs.foldl (fun x c => x * 16.0 + Float.ofNat ((Number.hexValue? c).getD 0)) 0.0

/-- The value of a number as written. An integer that fits into sixty-three bits is read exactly. Beyond
that, hexadecimal digits are gathered in doubles and anything else is read as a decimal. -/
def numberValue (text : String) : Float :=
  let cs := text.toList
  let decimal := match Number.readDecimal text with
    | .value x | .tooLarge x => x
    | .malformed => gatherHex (cs.drop 2)
  match readInteger cs with
  | some n => if n < Nat.pow 2 63 then Number.nearest false n 1 else decimal
  | none => decimal

/-- Takes whole characters that fit into a number of bytes, and the bytes of the next character that
still fit. -/
def cutBytes (n : Nat) : List Char → List Char × List UInt8
  | [] => ([], [])
  | c :: cs =>
    if c.utf8Size ≤ n then
      let (whole, part) := cutBytes (n - c.utf8Size) cs
      (c :: whole, part)
    else ([], (String.utf8EncodeChar c).take n)

/-- A text between quotes, followed by single bytes. -/
def quoteCut (cut : List Char × List UInt8) : String :=
  String.ofList ('"' :: (cut.1.flatMap Text.shownChar ++
    cut.2.flatMap (fun b => '\\' :: 'x' :: Text.hexDigits 2 b.toNat) ++ ['"']))

/-- The message for an escape of `size` hexadecimal digits that cannot be decoded. -/
def escapeMistake (letter : Char) (size : Nat) (rest : List Char) : String :=
  let head := "invalid escape: \\" ++ String.singleton letter ++ ": "
  if byteLength rest < size then
    head ++ "len(" ++ Text.quoteShown (String.ofList rest) ++ ") != " ++ toString size
  else head ++ quoteCut (cutBytes size rest)

/-- The character of an escape by a single letter, if the letter has a meaning. -/
def letterEscape? : Char → Option Char
  | 'b' => some '\x08'
  | 'f' => some '\x0c'
  | 'n' => some '\n'
  | 'r' => some '\r'
  | 't' => some '\t'
  | 'v' => some '\x0b'
  | _ => none

/-- Up to `count` octal digits: their value, starting from `value`, and what follows. -/
def octalRun : Nat → Nat → List Char → Nat × List Char
  | 0, value, cs => (value, cs)
  | count + 1, value, c :: cs =>
    if isOctalDigit c then octalRun count (8 * value + octalValue c) cs else (value, c :: cs)
  | _ + 1, value, [] => (value, [])

/-- One step of decoding a text: what is decoded from its start, and what follows. -/
def decodeStep : List Char → Except String (List Char × List Char)
  | '\\' :: 'x' :: a :: b :: cs =>
    match hexChar? '0' '0' a b with
    | some c => .ok ([c], cs)
    | none => .error (escapeMistake 'x' 2 (a :: b :: cs))
  | '\\' :: 'x' :: cs => .error (escapeMistake 'x' 2 cs)
  | '\\' :: 'u' :: a :: b :: c :: d :: cs =>
    match hexChar? a b c d with
    | some x => .ok ([x], cs)
    | none => .error (escapeMistake 'u' 4 (a :: b :: c :: d :: cs))
  | '\\' :: 'u' :: cs => .error (escapeMistake 'u' 4 cs)
  | '\\' :: '\r' :: '\n' :: cs => .ok ([], cs)
  | '\\' :: c :: cs =>
    if c = '\n' || c = '\r' then .ok ([], cs)
    else match letterEscape? c with
      | some x => .ok ([x], cs)
      | none =>
        if isOctalDigit c then
          let (n, rest) := octalRun 2 (octalValue c) cs
          .ok ([Char.ofNat n], rest)
        else .ok ([c], cs)
  | c :: cs => .ok ([c], cs)
  | [] => .ok ([], [])

/-- Decodes the text between two quotes, in at most `steps` steps. -/
def decodeText : Nat → List Char → Except String (List Char)
  | 0, _ => .ok []
  | _ + 1, [] => .ok []
  | steps + 1, c :: cs => do
    let (head, rest) ← decodeStep (c :: cs)
    let tail ← decodeText steps rest
    .ok (head ++ tail)

/-- The value of a text as written, with its quotes. -/
def stringValue (text : String) : Except String String := do
  let inner := (text.toList.drop 1).dropLast
  let cs ← decodeText inner.length inner
  .ok (String.ofList cs)

end Primer.Source
