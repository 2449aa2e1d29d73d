import Primer.Tree.Basic

/-!
# Places in a source text

Places are byte offsets into the source. Two rules turn an offset into a line and a column. The place of
a node counts line feeds only. The place of a reading mistake counts every line terminator of the
language, with a carriage return and a line feed together as one.
-/

set_option autoImplicit false

namespace Primer.Source

/-- Whether a character ends a line. -/
def isLineEnd (c : Char) : Bool :=
  c == '\n' || c == '\r' || c.toNat == 0x2028 || c.toNat == 0x2029

/-- A line and a column, both counted from one. -/
structure Place where
  line : Nat
  column : Nat
  deriving Repr, DecidableEq, Inhabited

/-- The offsets just behind each line feed, in order. -/
def lineStarts (off : Nat) : List Char → List Nat
  | [] => []
  | c :: cs =>
    let next := off + c.utf8Size
    if c = '\n' then next :: lineStarts next cs else lineStarts next cs

/-- The place of an offset, given the offsets at which lines after the first one start. -/
def placeFrom (starts : List Nat) (off : Nat) : Place :=
  let before := starts.takeWhile (· ≤ off)
  ⟨before.length + 1, off - before.getLast?.getD 0 + 1⟩

/-- Counts lines up to an offset: the current line, the offset at which it starts, and whether the last
character was a carriage return. -/
def mistakePlaceFrom (stop : Nat) (off line start : Nat) (afterReturn : Bool) : List Char → Place
  | [] => ⟨line, stop - start + 1⟩
  | c :: cs =>
    if stop ≤ off then ⟨line, stop - start + 1⟩
    else
      let next := off + c.utf8Size
      if c = '\n' && afterReturn then mistakePlaceFrom stop next line next false cs
      else if isLineEnd c then mistakePlaceFrom stop next (line + 1) next (c = '\r') cs
      else mistakePlaceFrom stop next line start false cs

/-- The place of a reading mistake at an offset. -/
def mistakePlace (source : List Char) (off : Nat) : Place := mistakePlaceFrom off 0 1 0 false source

end Primer.Source
