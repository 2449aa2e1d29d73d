import Primer.Number.Exact
import Primer.Number.Reading
import Primer.Text.Blank
import Primer.Text.Lower
import Primer.Text.Quoted

/-!
# Colors

A color of the console is written as in style sheets: by name, as `#rgb` or `#rrggbb`, or with the
functions `rgb`, `rgba`, `hsl` and `hsla`. `parseColor` gives the form `#rrggbb`; transparency is ignored.
-/

set_option autoImplicit false

namespace Primer.Color

/-- The colors that have a name. -/
def named : List (String × String) :=
  [("black", "#000000"), ("white", "#ffffff"), ("gray", "#808080"), ("grey", "#808080"),
   ("red", "#ff0000"), ("green", "#008000"), ("lime", "#00ff00"), ("blue", "#0000ff"),
   ("yellow", "#ffff00"), ("orange", "#ffa500"), ("purple", "#800080"), ("pink", "#ffc0cb"),
   ("cyan", "#00ffff"), ("magenta", "#ff00ff"), ("brown", "#a52a2a")]

/-- A color of three parts, each from zero to one. -/
structure Parts where
  red : Float
  green : Float
  blue : Float

/-- A part forced into the range from zero to one. What is no number stays so. -/
def clamp (x : Float) : Float :=
  if Number.isNaN x then x else Number.greatest 0.0 (Number.least x 1.0)

/-- Two hexadecimal digits for a number below 256. -/
def hexPair (n : Nat) : String := String.ofList (Text.hexDigits 2 n)

/-- Two hexadecimal digits for a part; those of what is no number are zero. -/
def partHex (x : Float) : String :=
  let scaled := clamp x * 255.0 + 0.5
  hexPair (if Number.isNaN scaled then 0 else Number.wholePart scaled % 256)

/-- The written form of a color. -/
def Parts.hex (c : Parts) : String := "#" ++ partHex c.red ++ partHex c.green ++ partHex c.blue

/-- Reads one or two hexadecimal digits behind optional blanks: their value and what follows. -/
def hexComponent (cs : List Char) : Option (Nat × List Char) :=
  match cs.dropWhile (fun c => Text.isBlank c && c != '\n') with
  | a :: rest =>
    match Number.hexValue? a with
    | none => none
    | some x =>
      match rest with
      | b :: rest' =>
        match Number.hexValue? b with
        | some y => some (16 * x + y, rest')
        | none => some (x, rest)
      | [] => some (x, [])
  | [] => none

/-- Reads three components behind `#`; what is left over is ignored. -/
def ofHexDigits (cs : List Char) : Option String := do
  let (r, cs) ← hexComponent cs
  let (g, cs) ← hexComponent cs
  let (b, _) ← hexComponent cs
  some ("#" ++ hexPair r ++ hexPair g ++ hexPair b)

/-- Reads a color behind `#`; of three digits each counts twice. -/
def ofHex (cs : List Char) : Option String :=
  match cs with
  | [a, b, c] => ofHexDigits (if [a, b, c].all (·.toNat < 0x80) then [a, a, b, b, c, c] else cs)
  | _ => ofHexDigits cs

/-- Reads a number that is not too large for a double. -/
def number? (cs : List Char) : Option Float :=
  match Number.readFloat cs with
  | .value x => some x
  | _ => none

/-- Reads a number, or a percentage of `full`. -/
def component? (full : Float) (cs : List Char) : Option Float :=
  let cs := Text.trimChars cs
  if cs.getLast? = some '%' then (number? cs.dropLast).map fun x => x / 100.0 * full
  else number? cs

/-- One part of a color given by hue: `t` is the part's distance on the color circle. -/
def huePart (t1 t2 t : Float) : Float :=
  let t := if t < 0.0 then t + 1.0 else t
  let t := if 1.0 < t then t - 1.0 else t
  if 6.0 * t < 1.0 then t2 + (t1 - t2) * 6.0 * t
  else if 2.0 * t < 1.0 then t1
  else if 3.0 * t < 2.0 then t2 + (t1 - t2) * (2.0 / 3.0 - t) * 6.0
  else t2

/-- The color of a hue in degrees, a saturation and a lightness. -/
def ofHsl (h s l : Float) : Parts :=
  if s == 0.0 then ⟨l, l, l⟩
  else
    let t1 := if l < 0.5 then l * (1.0 + s) else l + s - l * s
    let t2 := 2.0 * l - t1
    let h := h / 360.0
    ⟨huePart t1 t2 (h + 1.0 / 3.0), huePart t1 t2 h, huePart t1 t2 (h - 1.0 / 3.0)⟩

/-- The pieces of a text between separators. -/
def splitOn (separator : Char) : List Char → List (List Char)
  | [] => [[]]
  | c :: cs =>
    if c = separator then [] :: splitOn separator cs
    else
      match splitOn separator cs with
      | [] => [[c]]
      | piece :: rest => (c :: piece) :: rest

/-- Reads a color given by a function and its components. -/
def ofFunction (name : List Char) (parts : List (List Char)) : Option String :=
  let wanted := if name.getLast? = some 'a' then 4 else 3
  if parts.length != wanted then none
  else
    match String.ofList name, parts with
    | "rgb", r :: g :: b :: _ | "rgba", r :: g :: b :: _ => do
      let r ← component? 255.0 r
      let g ← component? 255.0 g
      let b ← component? 255.0 b
      some (Parts.hex ⟨r / 255.0, g / 255.0, b / 255.0⟩)
    | "hsl", h :: s :: l :: _ | "hsla", h :: s :: l :: _ => do
      let h ← number? (Text.trimChars h)
      let s ← component? 100.0 s
      let l ← component? 100.0 l
      let h := Number.remainder h 360.0
      let h := if h < 0.0 then h + 360.0 else h
      some (ofHsl h (s / 100.0) (l / 100.0)).hex
    | _, _ => none

end Primer.Color

namespace Primer

/-- Reads a color in any of its forms as `#rrggbb`. -/
def parseColor (s : String) : Option String :=
  let s := Text.lowerName (Text.trim s)
  match Color.named.lookup s with
  | some hex => some hex
  | none =>
    match s.toList with
    | '#' :: cs => Color.ofHex cs
    | cs =>
      let name := cs.takeWhile (· != '(')
      match cs.dropWhile (· != '(') with
      | [] => none
      | _ :: rest =>
        if rest.getLast? = some ')' then Color.ofFunction name (Color.splitOn ',' rest.dropLast)
        else none

end Primer
