/-!
# Message markup

Messages are plain text in which code fragments and values stand between `<var>` and `</var>`.
`segments` splits a message into runs of either kind; the renderings are maps over the segments. A tag
without its partner is text.
-/

set_option autoImplicit false

namespace Primer.Markup

/-- A run of message text; `isVar` marks a code fragment or value. -/
structure Segment where
  text : String
  isVar : Bool
  deriving Repr, DecidableEq, Inhabited

/-- The tag before a fragment. -/
def openTag : List Char := ['<', 'v', 'a', 'r', '>']

/-- The tag after a fragment. -/
def closeTag : List Char := ['<', '/', 'v', 'a', 'r', '>']

/-- Wraps a text as a fragment. -/
def var (s : String) : String := "<var>" ++ s ++ "</var>"

/-- Splits at the first occurrence of a pattern: the characters before it and those after it. -/
def splitAt (pattern : List Char) : List Char → Option (List Char × List Char)
  | [] => if pattern.isEmpty then some ([], []) else none
  | c :: cs =>
    if pattern.isPrefixOf (c :: cs) then some ([], (c :: cs).drop pattern.length)
    else (splitAt pattern cs).map fun (before, after) => (c :: before, after)

/-- The part after the first occurrence of a non-empty pattern is shorter than the whole. -/
theorem length_lt_of_splitAt {pattern : List Char} (hp : pattern ≠ []) :
    ∀ {cs before after : List Char}, splitAt pattern cs = some (before, after) →
      after.length < cs.length
  | [], before, after, h => by simp [splitAt, hp] at h
  | c :: cs, before, after, h => by
    rw [splitAt] at h
    split at h
    · rename_i hpre
      have hlen : 0 < pattern.length := List.length_pos_iff.2 hp
      simp only [Option.some.injEq, Prod.mk.injEq] at h
      rw [← h.2, List.length_drop]
      have : 0 < (c :: cs).length := by simp
      omega
    · obtain ⟨⟨b, a⟩, hs, he⟩ := Option.map_eq_some_iff.1 h
      simp only [Prod.mk.injEq] at he
      have := length_lt_of_splitAt hp hs
      rw [← he.2, List.length_cons]
      omega

/-- A run of text, left out when it is empty. -/
def textSegment (cs : List Char) : List Segment :=
  if cs.isEmpty then [] else [⟨String.ofList cs, false⟩]

/-- The segments of a message given as characters. -/
def segmentsOf (cs : List Char) : List Segment :=
  match cs with
  | [] => []
  | c :: rest =>
    match _hopen : splitAt openTag (c :: rest) with
    | none => textSegment (c :: rest)
    | some (before, afterOpen) =>
      match _hclose : splitAt closeTag afterOpen with
      | none => textSegment (c :: rest)
      | some (inner, after) =>
        textSegment before ++ ⟨String.ofList inner, true⟩ :: segmentsOf after
termination_by cs.length
decreasing_by
  have h1 := length_lt_of_splitAt (by decide) _hopen
  have h2 := length_lt_of_splitAt (by decide) _hclose
  omega

/-- Splits a message into text and fragments. -/
def segments (message : String) : List Segment := segmentsOf message.toList

/-- Rebuilds a message, with a style applied to each fragment. -/
def render (style : String → String) (message : String) : String :=
  String.join ((segments message).map fun s => if s.isVar then style s.text else s.text)

/-- The message without its markup. -/
def plain (message : String) : String := render id message

/-- A character as it is written in a web page. -/
def escapeChar (c : Char) : String :=
  if c = '&' then "&amp;"
  else if c = '<' then "&lt;"
  else if c = '>' then "&gt;"
  else if c = '"' then "&#34;"
  else if c.toNat = 39 then "&#39;"
  else String.singleton c

/-- A text as it is written in a web page. -/
def escape (s : String) : String := String.join (s.toList.map escapeChar)

/-- The message for a web page: escaped text, with the fragments as `var` elements. -/
def html (message : String) : String :=
  String.join ((segments message).map fun s =>
    if s.isVar then "<var>" ++ escape s.text ++ "</var>" else escape s.text)

end Primer.Markup
