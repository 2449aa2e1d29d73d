import Primer.Document.Basic
import Primer.Text.Blank

/-!
# Settings in TOML

The part of TOML that settings are written in: keys with texts, integers and lists as values, tables with
a header, and comments. Other scalars are read too, but no setting has one.
-/

set_option autoImplicit false

namespace Primer.Toml

/-- Drops spaces and tabs. -/
def skipBlanks (cs : List Char) : List Char := cs.dropWhile fun c => c = ' ' || c = '\t'

/-- Drops blanks, line ends and comments, at most `fuel` of them. -/
def skipLines : Nat → List Char → List Char
  | 0, cs => cs
  | fuel + 1, cs =>
    match cs.dropWhile fun c => c = ' ' || c = '\t' || c = '\n' || c = '\r' with
    | '#' :: rest => skipLines fuel (rest.dropWhile (· ≠ '\n'))
    | rest => rest

/-- The value of hexadecimal digits. -/
def hexChar? (digits : List Char) : Option Char :=
  match digits.mapM Number.hexValue? with
  | none => none
  | some values =>
    let n := values.foldl (fun n d => 16 * n + d) 0
    if n.isValidChar then some (Char.ofNat n) else none

/-- A text in double quotes from behind the first of them, with what follows. -/
def readQuoted : Nat → List Char → List Char → Option (String × List Char)
  | 0, _, _ => none
  | _, _, [] => none
  | fuel + 1, done, c :: rest =>
    if c = '"' then some (String.ofList done.reverse, rest)
    else if c = '\n' then none
    else if c = '\\' then
      match rest with
      | 'u' :: rest => do
        let d ← hexChar? (rest.take 4)
        if rest.length < 4 then none else readQuoted fuel (d :: done) (rest.drop 4)
      | 'U' :: rest => do
        let d ← hexChar? (rest.take 8)
        if rest.length < 8 then none else readQuoted fuel (d :: done) (rest.drop 8)
      | e :: rest => do
        let d ← ([('n', '\n'), ('t', '\t'), ('r', '\r'), ('"', '"'), ('\\', '\\'), ('b', '\x08'),
          ('f', '\x0c'), ('e', '\x1b')] : List (Char × Char)).lookup e
        readQuoted fuel (d :: done) rest
      | [] => none
    else readQuoted fuel (c :: done) rest

/-- The single quote. -/
def tick : Char := Char.ofNat 39

/-- A text in single quotes from behind the first of them, with what follows. -/
def readLiteral (cs : List Char) : Option (String × List Char) :=
  let text := cs.takeWhile fun c => c ≠ tick && c ≠ '\n'
  match cs.drop text.length with
  | c :: rest => if c = tick then some (String.ofList text, rest) else none
  | [] => none

/-- Whether a character belongs to a key or scalar without quotes. -/
def isBare (c : Char) : Bool := c.isAlphanum || c = '_' || c = '-'

/-- An integer: in decimal digits without leading zeros, or behind the letter of a base. Underscores may
group the digits. -/
def integer? (cs : List Char) : Option Int :=
  let (negative, digits) := Number.splitSign cs
  let plain := digits.filter (· ≠ '_')
  if digits.head? = some '_' || digits.getLast? = some '_' then none
  else
    let value? := match plain with
      | '0' :: letter :: rest =>
        if ['x', 'o', 'b'].contains letter && cs.head? = some '0' then Number.readBased ('0' :: letter :: rest)
        else none
      | plain => if plain.all Char.isDigit then Number.readBased plain else none
    (value?.map (Number.signed negative)).filter Number.fitsWord

/-- A scalar without quotes. -/
def scalar? (cs : List Char) : Option Document :=
  match integer? cs with
  | some n => some (.integer n)
  | none =>
    let text := String.ofList cs
    if ["true", "false", "inf", "+inf", "-inf", "nan", "+nan", "-nan"].contains text then some .other
    else
      match cs with
      | c :: _ =>
        if (c.isDigit || c = '+' || c = '-') && (cs.any fun c => ['.', ':', 'e', 'E', '-', 'x', 'o', 'b'].contains c)
        then some .other
        else none
      | [] => none

/-- A value, with what follows; lists are nested at most `fuel` deep. -/
def readValue : Nat → List Char → Option (Document × List Char)
  | 0, _ => none
  | fuel + 1, cs =>
    match cs with
    | '"' :: rest => (readQuoted (rest.length + 1) [] rest).map fun (t, r) => (.quoted t, r)
    | '[' :: rest => items fuel (rest.length + 1) [] rest
    | c :: rest =>
      if c = tick then (readLiteral rest).map fun (t, r) => (.quoted t, r)
      else
        let isPart (c : Char) : Bool := isBare c || c = '+' || c = '.' || c = ':'
        (scalar? (cs.takeWhile isPart)).map fun d => (d, cs.dropWhile isPart)
    | [] => none
termination_by fuel => (fuel, 0)
where
  /-- The items of a list from behind the opening bracket, at most `count` of them. -/
  items (fuel : Nat) : Nat → List Document → List Char → Option (Document × List Char)
    | 0, _, _ => none
    | count + 1, done, cs =>
      match skipLines (cs.length + 1) cs with
      | ']' :: rest => some (.list done.reverse, rest)
      | cs =>
        match readValue fuel cs with
        | none => none
        | some (item, rest) =>
          match skipLines (rest.length + 1) rest with
          | ',' :: rest => items fuel count (item :: done) rest
          | ']' :: rest => some (.list (item :: done).reverse, rest)
          | _ => none
  termination_by count => (fuel, count + 1)

/-- A key, whose parts are divided by points, with what follows; at most `fuel` parts. -/
def readKey : Nat → List Char → Option (List String × List Char)
  | 0, _ => none
  | fuel + 1, cs => do
    let cs := skipBlanks cs
    let (part, rest) ← match cs with
      | '"' :: rest => readQuoted (rest.length + 1) [] rest
      | c :: rest =>
        if c = tick then readLiteral rest
        else
          let name := cs.takeWhile isBare
          if name.isEmpty then none else some (String.ofList name, cs.dropWhile isBare)
      | [] => none
    match skipBlanks rest with
    | '.' :: rest =>
      let (parts, rest) ← readKey fuel rest
      some (part :: parts, rest)
    | rest => some ([part], rest)

/-- Puts a value at a path of a table where nothing stands yet; a table may join one that is there. -/
def insert (entries : List (String × Document)) (path : List String) (value : Document) :
    Option (List (String × Document)) :=
  match path with
  | [] => none
  | [key] => if (entries.lookup key).isSome then none else some (entries ++ [(key, value)])
  | key :: path =>
    match entries.lookup key with
    | none => (insert [] path value).map fun inner => entries ++ [(key, .table inner)]
    | some (.table inner) =>
      (insert inner path value).map fun inner =>
        entries.map fun e => if e.1 = key then (key, .table inner) else e
    | some _ => none

/-- Whether a line ends here, perhaps behind a comment. -/
def lineEnds (cs : List Char) : Bool :=
  match skipBlanks cs with
  | [] => true
  | c :: _ => c = '\n' || c = '\r' || c = '#'

/-- Reads entries and headers, at most `fuel` of them, into the table that the last header named. -/
def readTables : Nat → List String → List (String × Document) → List Char → Option (List (String × Document))
  | 0, _, _, _ => none
  | fuel + 1, current, entries, cs =>
    match skipLines (cs.length + 1) cs with
    | [] => some entries
    | '[' :: rest => do
      let (path, rest) ← readKey rest.length rest
      match rest with
      | ']' :: rest =>
        if !lineEnds rest then none
        else
          let entries ← insert entries path (.table [])
          readTables fuel path entries rest
      | _ => none
    | cs => do
      let (path, rest) ← readKey cs.length cs
      match rest with
      | '=' :: rest =>
        let (value, rest) ← readValue (cs.length + 1) (skipBlanks rest)
        if !lineEnds rest then none
        else
          let entries ← insert entries (current ++ path) value
          readTables fuel current entries rest
      | _ => none

/-- Reads a document. -/
def parse (text : String) : Option Document :=
  (readTables (text.length + 1) [] [] text.toList).map .table

end Primer.Toml
