import Primer.Document.Basic
import Primer.Text.Blank

/-!
# Settings in YAML

The part of YAML that settings are written in: tables and lists in indented blocks, lists in brackets,
scalars with and without quotes, texts in blocks, and comments. Everything else is refused.
-/

set_option autoImplicit false

namespace Primer.Yaml

/-- The number of spaces that a line starts with. -/
def indent (line : List Char) : Nat := (line.takeWhile (· = ' ')).length

/-- A line behind its spaces. -/
def content (line : List Char) : List Char := line.dropWhile (· = ' ')

/-- Whether a line holds nothing but blanks and a comment. -/
def isEmptyLine (line : List Char) : Bool :=
  match line.dropWhile Text.isBlank with
  | [] => true
  | c :: _ => c = '#'

/-- Drops lines that hold nothing. -/
def skip (lines : List (List Char)) : List (List Char) := lines.dropWhile isEmptyLine

/-- Whether a line is an item of a list. -/
def isItem : List Char → Bool
  | ['-'] => true
  | '-' :: c :: _ => c = ' '
  | _ => false

/-- A text in double quotes from behind the first of them, with what follows. -/
def readQuoted : List Char → List Char → Option (String × List Char)
  | _, [] => none
  | done, '"' :: rest => some (String.ofList done.reverse, rest)
  | done, '\\' :: c :: rest =>
    match ([('n', '\n'), ('t', '\t'), ('r', '\r'), ('"', '"'), ('\\', '\\'), ('/', '/'), (' ', ' '),
        ('0', '\x00'), ('a', '\x07'), ('b', '\x08'), ('f', '\x0c'), ('v', '\x0b'), ('e', '\x1b')] :
        List (Char × Char)).lookup c with
    | some d => readQuoted (d :: done) rest
    | none => none
  | done, c :: rest => readQuoted (c :: done) rest

/-- The single quote. -/
def tick : Char := Char.ofNat 39

/-- A text in single quotes from behind the first of them, with what follows. A doubled quote stands for
one. -/
def readTicked : List Char → List Char → Option (String × List Char)
  | _, [] => none
  | done, c :: d :: rest =>
    if c = tick then
      if d = tick then readTicked (tick :: done) rest else some (String.ofList done.reverse, d :: rest)
    else readTicked (c :: done) (d :: rest)
  | done, [c] => if c = tick then some (String.ofList done.reverse, []) else none

/-- The characters that a scalar without quotes cannot start with. -/
def reserved : List Char := [',', '[', ']', '\x7b', '\x7d', '#', '&', '*', '!', '|', '>', '%', '@', Char.ofNat 96]

/-- The end of a scalar without quotes: a comment, or the colon of a key. -/
inductive Stop where
  | comment
  | key
  deriving DecidableEq

/-- A scalar without quotes up to a comment or the colon of a key, with what stops it. -/
def readPlain : List Char → List Char → List Char × Option Stop × List Char
  | done, [] => (done.reverse, none, [])
  | done, [':'] => (done.reverse, some .key, [])
  | done, ':' :: ' ' :: rest => (done.reverse, some .key, rest)
  | done, ' ' :: '#' :: rest => (done.reverse, some .comment, rest)
  | done, c :: rest => readPlain (c :: done) rest

/-- A scalar without quotes that fills the rest of a line. -/
def plainScalar (cs : List Char) : Option Document :=
  match cs with
  | [] => some .missing
  | c :: rest =>
    if reserved.contains c || c = '\t' then none
    else if (c = '?' || c = ':' || c = '-') && (rest.head?.getD ' ') = ' ' then none
    else
      match readPlain [] cs with
      | (_, some .key, _) => none
      | (text, _, _) => some (.plain (String.ofList (Text.trimEnd text)))

/-- The items of a list in brackets, from behind the opening one, at most `fuel` characters, with what
follows the closing one. -/
def readFlow : Nat → List Document → List Char → Option (Document × List Char)
  | 0, _, _ => none
  | fuel + 1, done, cs =>
    match cs.dropWhile Text.isBlank with
    | [] => none
    | ']' :: rest => some (.list done.reverse, rest)
    | '"' :: rest =>
      match readQuoted [] rest with
      | some (text, rest) => next fuel (.quoted text :: done) rest
      | none => none
    | '[' :: rest =>
      match readFlow fuel [] rest with
      | some (item, rest) => next fuel (item :: done) rest
      | none => none
    | c :: rest =>
      if c = tick then
        match readTicked [] rest with
        | some (text, rest) => next fuel (.quoted text :: done) rest
        | none => none
      else
        let isPart (c : Char) : Bool := !([',', '[', ']', '\x7b', '\x7d'] : List Char).contains c
        match plainScalar ((c :: rest).takeWhile isPart) with
        | some item => next fuel (item :: done) ((c :: rest).dropWhile isPart)
        | none => none
termination_by fuel => (fuel, 0)
where
  /-- Goes on behind an item: with another one, or with the closing bracket. -/
  next (fuel : Nat) (done : List Document) (cs : List Char) : Option (Document × List Char) :=
    match cs.dropWhile Text.isBlank with
    | ',' :: rest => readFlow fuel done rest
    | ']' :: rest => some (.list done.reverse, rest)
    | _ => none
  termination_by (fuel, 1)

/-- Accepts something that is followed by nothing but a comment. -/
def ended (item : Option (Document × List Char)) : Option Document :=
  match item with
  | some (d, rest) =>
    if rest.all Text.isBlank || (rest.head? = some ' ' && isEmptyLine rest) then some d else none
  | none => none

/-- A value that stands on one line. -/
def lineValue (cs : List Char) : Option Document :=
  match cs with
  | '"' :: rest => ended ((readQuoted [] rest).map fun (t, r) => (.quoted t, r))
  | '[' :: rest => ended (readFlow (cs.length + 1) [] rest)
  | c :: rest =>
    if c = tick then ended ((readTicked [] rest).map fun (t, r) => (.quoted t, r)) else plainScalar cs
  | [] => some .missing

/-- Splits the key off an entry of a table. -/
def splitKey (cs : List Char) : Option (String × List Char) :=
  match cs with
  | [] => none
  | '"' :: rest =>
    match readQuoted [] rest with
    | some (key, ':' :: rest) => if (rest.head?.getD ' ') = ' ' then some (key, rest) else none
    | _ => none
  | c :: _ =>
    if reserved.contains c || c = tick || c = '\t' then none
    else
      match readPlain [] cs with
      | (key, some .key, rest) => some (String.ofList (Text.trimEnd key), rest)
      | _ => none

/-- Whether a line belongs to a text in a block: it is blank or stands further right. -/
def inBlock (least : Nat) (line : List Char) : Bool := line.all (· = ' ') || least ≤ indent line

/-- How a text in a block ends: with one line end, with none, or with all that stand there. -/
inductive Chomping where
  | clip
  | strip
  | keep

/-- The head of a text in a block. -/
def blockHead? (value : List Char) : Option Chomping :=
  match value with
  | ['|'] => some .clip
  | ['|', '-'] => some .strip
  | ['|', '+'] => some .keep
  | _ => none

/-- The text of a block. -/
def blockText (chomping : Chomping) (lines : List (List Char)) : String :=
  let margin := ((lines.find? fun l => !l.all (· = ' ')).map indent).getD 0
  let rows := lines.map fun l => l.drop margin
  let kept := (rows.reverse.dropWhile List.isEmpty).reverse
  let joined (rows : List (List Char)) : String := String.join (rows.map fun r => String.ofList r ++ "\n")
  match chomping with
  | .clip => joined kept
  | .strip => String.intercalate "\n" (kept.map String.ofList)
  | .keep => joined rows

mutual

/-- The value that starts at the next line, if that line stands at or right of `least`; with the lines
behind it. -/
def readBlock (fuel least : Nat) (lines : List (List Char)) : Option (Document × List (List Char)) :=
  match fuel with
  | 0 => none
  | fuel + 1 =>
    match skip lines with
    | [] => some (.missing, [])
    | line :: rest =>
      if indent line < least then some (.missing, line :: rest)
      else if isItem (content line) then readItems fuel (indent line) [] (line :: rest)
      else if (splitKey (content line)).isSome then readEntries fuel (indent line) [] (line :: rest)
      else (lineValue (content line)).map fun d => (d, rest)

/-- The items of a list whose dashes stand at a column. -/
def readItems (fuel column : Nat) (done : List Document) (lines : List (List Char)) :
    Option (Document × List (List Char)) :=
  match fuel with
  | 0 => none
  | fuel + 1 =>
    match skip lines with
    | [] => some (.list done.reverse, [])
    | line :: rest =>
      if column < indent line then none
      else if indent line = column && isItem (content line) then
        let opened := List.replicate (column + 1) ' ' ++ (content line).drop 1
        match readBlock fuel (column + 1) (opened :: rest) with
        | some (item, rest) => readItems fuel column (item :: done) rest
        | none => none
      else some (.list done.reverse, line :: rest)

/-- The entries of a table whose keys stand at a column. -/
def readEntries (fuel column : Nat) (done : List (String × Document)) (lines : List (List Char)) :
    Option (Document × List (List Char)) :=
  match fuel with
  | 0 => none
  | fuel + 1 =>
    match skip lines with
    | [] => some (.table done.reverse, [])
    | line :: rest =>
      if column < indent line then none
      else if indent line < column then some (.table done.reverse, line :: rest)
      else
        match splitKey (content line) with
        | none => none
        | some (key, value) =>
          if done.any (·.1 = key) then none
          else
            match readValue fuel column value rest with
            | some (d, rest) => readEntries fuel column ((key, d) :: done) rest
            | none => none

/-- The value behind a key that stands at a column. -/
def readValue (fuel column : Nat) (value : List Char) (rest : List (List Char)) :
    Option (Document × List (List Char)) :=
  match fuel with
  | 0 => none
  | fuel + 1 =>
    if isEmptyLine value then
      match skip rest with
      | [] => some (.missing, [])
      | line :: _ =>
        if indent line = column && isItem (content line) then readItems fuel column [] rest
        else readBlock fuel (column + 1) rest
    else
      let value := Text.trimChars value
      match blockHead? value with
      | some chomping =>
        some (.quoted (blockText chomping (rest.takeWhile (inBlock (column + 1)))),
          rest.dropWhile (inBlock (column + 1)))
      | none => (lineValue value).map fun d => (d, rest)

end

/-- The lines of a text. -/
def lines (text : String) : List (List Char) :=
  (text.splitOn "\n").map fun l => (l.toList.reverse.dropWhile (· = '\r')).reverse

/-- Reads a document. -/
def parse (text : String) : Option Document :=
  let all := lines text
  match readBlock (4 * all.length + 4) 0 all with
  | some (d, rest) => if (skip rest).isEmpty then some d else none
  | none => none

end Primer.Yaml
