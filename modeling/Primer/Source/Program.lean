import Primer.Source.Subset
import Primer.Text.Blank

/-!
# From text to program

`parse` reads the text of a program: it gives the program's tree, or the first problem of the text. A text that was
made from another one may carry a map to the places there. Maps are decoded elsewhere, so `parseWith` is given a
decoder; `parse` has none.
-/

set_option autoImplicit false

namespace Primer.Source

/-- Whether a character belongs to the alphabet of base-64 text. -/
def isBase64Char (c : Char) : Bool := c.isAlphanum || c == '+' || c == '/'

/-- Whether a text is base-64 data: whole groups of four characters, padded at the end. -/
def isBase64 (cs : List Char) : Bool :=
  let cs := cs.filter fun c => c != '\r' && c != '\n'
  let padding := cs.dropWhile isBase64Char
  cs.length % 4 == 0 && padding.all (· == '=') && padding.length ≤ 2

/-- The characters behind the last line feed. -/
def lastLine (cs : List Char) : List Char := (cs.reverse.takeWhile (· != '\n')).reverse

/-- How a last line starts that carries a map of the source. -/
def mapMark : List Char := "//# sourceMappingURL=data:application/json".toList

/-- Whether the last line of a source carries a map that can be decoded. -/
def carriesMap (source : List Char) : Bool :=
  let line := lastLine source
  mapMark.isPrefixOf line &&
    (match line.dropWhile (· != ',') with
      | [] => false
      | _ :: data => isBase64 data)

/-- The data of the map on the last line of a source, in base-64 text. -/
def mapData (source : List Char) : List Char := ((lastLine source).dropWhile (· != ',')).drop 1

/-- Decodes the map of a source from base-64 text: it gives where places come from, or why the map is refused. -/
abbrev MapDecoder := List Char → Except String (Place → Place)

/-- Refuses every map, as one that gives no version. -/
def MapDecoder.unversioned : MapDecoder :=
  fun _ => .error "sourcemap: got version=0, but only 3rd version is supported"

/-- Where the places of a source come from: from where its map says, if it carries one. -/
def relocation (maps : MapDecoder) (source : List Char) : Except String (Place → Place) :=
  if carriesMap source then maps (mapData source) else .ok id

/-- Reads the clauses of a source and builds a program of them. A place where the reading fails is one of the text
itself. -/
def readProgram (o : Origin) : Except Diagnostic Program :=
  match readSource o.source with
  | .error m =>
    let place := mistakePlace o.source m.offset
    .error ⟨"P001", ⟨"", place.line, place.column⟩, o.file, m.message⟩
  | .ok clauses => buildProgram o clauses

end Primer.Source

namespace Primer

/-- Reads a program, with a decoder for the map that its text may carry. A blank text is an empty program without
numbered nodes. -/
def parseWith (maps : Source.MapDecoder) (file source : String) : Except Diagnostic Program :=
  if Text.trim source = "" then .ok ⟨⟨0, ⟨"", 0, 0⟩⟩, file, [], 0⟩
  else
    let origin := Source.Origin.of file source
    match Source.relocation maps origin.source with
    | .error text => .error ⟨"P001", ⟨"", 0, 0⟩, file, text⟩
    | .ok relocate => Source.readProgram { origin with relocate := relocate }

/-- Reads a program. A map that its text carries is refused. -/
def parse (file source : String) : Except Diagnostic Program := parseWith .unversioned file source

/-- A source is read as a program that passes a check, if what was read passes it. -/
theorem exists_parse_of_any {file source : String} {check : Program → Bool}
    (h : (parse file source).toOption.any check = true) :
    ∃ program, parse file source = .ok program ∧ check program = true := by
  cases hparse : parse file source with
  | error d =>
    rw [hparse] at h
    cases h
  | ok program =>
    rw [hparse] at h
    exact ⟨program, rfl, h⟩

end Primer
