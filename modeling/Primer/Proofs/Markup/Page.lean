import Mathlib.Data.List.Infix
import Primer.Markup

/-!
# Messages in a web page

A message is put into a web page as escaped text with its fragments as elements. Whatever the message is, with tags that
are left open, closed twice or cut anywhere, what is put there is a page in the following sense (`Markup.IsPage`): escaped
text and elements of escaped text, each closed before the next one opens. No other character of the page can start a tag,
end one or leave a quoted attribute.

Nothing is lost on the way. The segments of a message with the tags put back around its fragments are the message
(`flatMap_source_segmentsOf`), and the page without its tags is the plain message with its characters escaped.
-/

set_option autoImplicit false

namespace Primer.Markup

/-! ## Pages -/

/-- The ways in which a character is escaped. -/
def escapes : List (List Char) :=
  [['&', 'a', 'm', 'p', ';'], ['&', 'l', 't', ';'], ['&', 'g', 't', ';'], ['&', '#', '3', '4', ';'],
    ['&', '#', '3', '9', ';']]

/-- Text that cannot be taken for a part of a tag: no angle bracket and no quote stands in it, and every ampersand starts
one of the escapes. -/
structure IsEscaped (cs : List Char) : Prop where
  harmless : ∀ c ∈ cs, c ≠ '<' ∧ c ≠ '>' ∧ c ≠ '"' ∧ c ≠ '\x27'
  ampersand : ∀ rest, '&' :: rest <:+ cs → ∃ e ∈ escapes, e <+: '&' :: rest

/-- Escaped text and elements that hold escaped text, one behind the other. -/
inductive IsPage : List Char → Prop where
  | empty : IsPage []
  | text {t rest : List Char} (ht : IsEscaped t) (h : IsPage rest) : IsPage (t ++ rest)
  | element {t rest : List Char} (ht : IsEscaped t) (h : IsPage rest) : IsPage (openTag ++ t ++ closeTag ++ rest)

/-- A page without its tags. -/
def withoutTags : List Char → List Char
  | '<' :: 'v' :: 'a' :: 'r' :: '>' :: cs => withoutTags cs
  | '<' :: '/' :: 'v' :: 'a' :: 'r' :: '>' :: cs => withoutTags cs
  | c :: cs => c :: withoutTags cs
  | [] => []

/-- A text in which each escape is replaced by the character that it stands for. -/
def unescape : List Char → List Char
  | '&' :: 'a' :: 'm' :: 'p' :: ';' :: cs => '&' :: unescape cs
  | '&' :: 'l' :: 't' :: ';' :: cs => '<' :: unescape cs
  | '&' :: 'g' :: 't' :: ';' :: cs => '>' :: unescape cs
  | '&' :: '#' :: '3' :: '4' :: ';' :: cs => '"' :: unescape cs
  | '&' :: '#' :: '3' :: '9' :: ';' :: cs => '\x27' :: unescape cs
  | c :: cs => c :: unescape cs
  | [] => []

/-- A character that opens no tag is left. -/
theorem withoutTags_cons {c : Char} (h : c ≠ '<') (cs : List Char) : withoutTags (c :: cs) = c :: withoutTags cs := by
  conv_lhs => unfold withoutTags
  split <;> simp_all

/-- A character that begins no escape is left. -/
theorem unescape_cons {c : Char} (h : c ≠ '&') (cs : List Char) : unescape (c :: cs) = c :: unescape cs := by
  conv_lhs => unfold unescape
  split <;> simp_all

/-- Escaped text holds no tag. -/
theorem IsEscaped.withoutTags_append {t : List Char} (h : IsEscaped t) (rest : List Char) :
    withoutTags (t ++ rest) = t ++ withoutTags rest := by
  have hopen : ∀ c ∈ t, c ≠ '<' := fun c hc => (h.harmless c hc).1
  clear h
  induction t with
  | nil => rfl
  | cons c t ih =>
    rw [List.cons_append, withoutTags_cons (hopen c List.mem_cons_self),
      ih fun d hd => hopen d (List.mem_cons_of_mem c hd), List.cons_append]

/-- Between its tags an escaped text is left. -/
theorem withoutTags_element {t : List Char} (h : IsEscaped t) (rest : List Char) :
    withoutTags (openTag ++ t ++ closeTag ++ rest) = t ++ withoutTags rest := by
  have hopened : withoutTags (openTag ++ (t ++ (closeTag ++ rest))) = withoutTags (t ++ (closeTag ++ rest)) := rfl
  rw [List.append_assoc, List.append_assoc, hopened, h.withoutTags_append]
  rfl

/-! ## Escaped characters -/

/-- Escaped texts stay escaped side by side, since no escape is cut. -/
theorem IsEscaped.append {s t : List Char} (hs : IsEscaped s) (ht : IsEscaped t) : IsEscaped (s ++ t) where
  harmless := by
    intro c hc
    rcases List.mem_append.mp hc with hc | hc
    · exact hs.harmless c hc
    · exact ht.harmless c hc
  ampersand := by
    rintro rest ⟨before, hbefore⟩
    rcases List.append_eq_append_iff.mp hbefore with ⟨middle, hs', hrest⟩ | ⟨middle, -, ht'⟩
    · cases middle with
      | nil => exact ht.ampersand rest ⟨[], hrest⟩
      | cons c inner =>
        obtain ⟨rfl, hrest⟩ := List.cons.inj hrest
        obtain ⟨e, he, hprefix⟩ := hs.ampersand inner ⟨before, hs'.symm⟩
        refine ⟨e, he, hprefix.trans ⟨t, ?_⟩⟩
        rw [hrest, List.cons_append]
    · exact ht.ampersand rest ⟨middle, ht'.symm⟩

/-- No text is escaped. -/
theorem isEscaped_nil : IsEscaped [] where
  harmless := nofun
  ampersand := by
    intro rest h
    exact absurd (List.suffix_nil.mp h) (List.cons_ne_nil _ _)

/-- Every escape is escaped. -/
theorem isEscaped_escape {e : List Char} (he : e ∈ escapes) : IsEscaped e where
  harmless := by
    have hchars : e.all (fun c => c != '<' && c != '>' && c != '"' && c != '\x27') = true := by
      simp only [escapes, List.mem_cons, List.not_mem_nil, or_false] at he
      rcases he with rfl | rfl | rfl | rfl | rfl <;> rfl
    simpa [and_assoc] using hchars
  ampersand := by
    intro rest h
    refine ⟨e, he, ?_⟩
    simp only [escapes, List.mem_cons, List.not_mem_nil, or_false] at he
    -- the ampersand of an escape is its first character
    rcases he with rfl | rfl | rfl | rfl | rfl <;>
      simp_all [List.suffix_cons_iff]

/-- A character is written as an escape that stands for it, or as it is if it is harmless. -/
theorem escapeChar_cases (c : Char) :
    (escapeChar c).toList ∈ escapes ∧ (∀ cs, unescape ((escapeChar c).toList ++ cs) = c :: unescape cs) ∨
      (escapeChar c).toList = [c] ∧ c ≠ '&' ∧ c ≠ '<' ∧ c ≠ '>' ∧ c ≠ '"' ∧ c ≠ '\x27' := by
  unfold escapeChar
  by_cases hamp : c = '&'
  · subst hamp
    exact .inl ⟨by decide, fun _ => rfl⟩
  by_cases hlt : c = '<'
  · subst hlt
    exact .inl ⟨by decide, fun _ => rfl⟩
  by_cases hgt : c = '>'
  · subst hgt
    exact .inl ⟨by decide, fun _ => rfl⟩
  by_cases hquote : c = '"'
  · subst hquote
    exact .inl ⟨by decide, fun _ => rfl⟩
  by_cases hsingle : c.toNat = 39
  · obtain rfl : c = '\x27' := Char.toNat_inj.mp hsingle
    exact .inl ⟨by decide, fun _ => rfl⟩
  · rw [if_neg hamp, if_neg hlt, if_neg hgt, if_neg hquote, if_neg hsingle]
    refine .inr ⟨by simp, hamp, hlt, hgt, hquote, ?_⟩
    rintro rfl
    exact hsingle rfl

/-- An escaped character is escaped. -/
theorem isEscaped_escapeChar (c : Char) : IsEscaped (escapeChar c).toList := by
  rcases escapeChar_cases c with ⟨he, -⟩ | ⟨he, hamp, hharmless⟩
  · exact isEscaped_escape he
  · rw [he]
    constructor
    · intro d hd
      obtain rfl := List.mem_singleton.mp hd
      exact hharmless
    · intro rest h
      simp only [List.suffix_cons_iff, List.suffix_nil, List.cons_ne_nil, or_false] at h
      exact absurd (List.cons.inj h).1.symm hamp

/-- An escaped character is read as itself. -/
theorem unescape_escapeChar (c : Char) (cs : List Char) :
    unescape ((escapeChar c).toList ++ cs) = c :: unescape cs := by
  rcases escapeChar_cases c with ⟨-, hback⟩ | ⟨he, hamp, -⟩
  · exact hback cs
  · rw [he, List.singleton_append, unescape_cons hamp]

/-- A text is escaped character by character. -/
theorem toList_escape (s : String) : (escape s).toList = s.toList.flatMap fun c => (escapeChar c).toList := by
  unfold escape
  rw [String.toList_join, List.flatMap_map]

/-- A text is escaped character by character. -/
theorem isEscaped_toList_escape (s : String) : IsEscaped (escape s).toList := by
  rw [toList_escape]
  induction s.toList with
  | nil => exact isEscaped_nil
  | cons c cs ih =>
    rw [List.flatMap_cons]
    exact (isEscaped_escapeChar c).append ih

/-- What was escaped is read again, whatever follows it. -/
theorem unescape_escape_append (s : String) (rest : List Char) :
    unescape ((escape s).toList ++ rest) = s.toList ++ unescape rest := by
  rw [toList_escape]
  induction s.toList with
  | nil => rfl
  | cons c cs ih => rw [List.flatMap_cons, List.append_assoc, unescape_escapeChar, ih, List.cons_append]

/-! ## Segments -/

/-- A segment as it stands in a message, a fragment between its tags. -/
def Segment.source (s : Segment) : String := if s.isVar then var s.text else s.text

/-- A segment as it stands in a page. -/
def Segment.shown (s : Segment) : List Char :=
  if s.isVar then openTag ++ (escape s.text).toList ++ closeTag else (escape s.text).toList

/-- A split text is what was in front, the pattern and what was behind. -/
theorem splitAt_eq_append {pattern : List Char} : ∀ {cs before after : List Char},
    splitAt pattern cs = some (before, after) → cs = before ++ (pattern ++ after)
  | [], before, after, h => by
    rw [splitAt] at h
    split at h
    · cases h
      simpa using ‹pattern.isEmpty = true›
    · cases h
  | c :: cs, before, after, h => by
    rw [splitAt] at h
    split at h
    · rename_i hprefix
      cases h
      exact (List.prefix_iff_eq_append.mp (List.isPrefixOf_iff_prefix.mp hprefix)).symm
    · obtain ⟨⟨b, a⟩, hsplit, hpair⟩ := Option.map_eq_some_iff.mp h
      cases hpair
      rw [splitAt_eq_append hsplit, List.cons_append]

/-- A segment of plain text has that text as its source. -/
theorem flatMap_source_textSegment (cs : List Char) : (textSegment cs).flatMap (fun s => s.source.toList) = cs := by
  unfold textSegment
  split
  · simpa using ‹cs.isEmpty = true›
  · simp [Segment.source]

/-- The segments of a message make up the message. -/
theorem flatMap_source_segmentsOf (cs : List Char) : (segmentsOf cs).flatMap (fun s => s.source.toList) = cs := by
  fun_induction segmentsOf cs with
  | case1 => rfl
  | case2 c rest hopen => exact flatMap_source_textSegment (c :: rest)
  | case3 c rest before afterOpen hopen hclose => exact flatMap_source_textSegment (c :: rest)
  | case4 c rest before afterOpen hopen inner after hclose ih =>
    rw [List.flatMap_append, List.flatMap_cons, flatMap_source_textSegment, ih, splitAt_eq_append hopen,
      splitAt_eq_append hclose]
    simp [Segment.source, var, openTag, closeTag]

/-- A page shows the segments of its message. -/
theorem toList_html (m : String) : (html m).toList = (segments m).flatMap Segment.shown := by
  unfold html
  rw [String.toList_join, List.flatMap_map]
  congr 1
  funext s
  cases hvar : s.isVar
  · simp [Segment.shown, hvar]
  · simp [Segment.shown, hvar, openTag, closeTag]

/-- The plain text of a message is the text of its segments. -/
theorem toList_plain (m : String) : (plain m).toList = (segments m).flatMap fun s => s.text.toList := by
  unfold plain render
  rw [String.toList_join, List.flatMap_map]
  simp

/-- Segments of any kind, one behind the other, are a page. -/
theorem isPage_flatMap_shown (segments : List Segment) : IsPage (segments.flatMap Segment.shown) := by
  induction segments with
  | nil => exact .empty
  | cons s segments ih =>
    rw [List.flatMap_cons, Segment.shown]
    split
    · exact .element (isEscaped_toList_escape s.text) ih
    · exact .text (isEscaped_toList_escape s.text) ih

/-- The page of several segments without its tags, read again, is their text. -/
theorem unescape_withoutTags_flatMap_shown (segments : List Segment) :
    unescape (withoutTags (segments.flatMap Segment.shown)) = segments.flatMap fun s => s.text.toList := by
  induction segments with
  | nil => rfl
  | cons s segments ih =>
    have hescaped := isEscaped_toList_escape s.text
    rw [List.flatMap_cons, List.flatMap_cons, Segment.shown]
    split
    · rw [withoutTags_element hescaped, unescape_escape_append, ih]
    · rw [hescaped.withoutTags_append, unescape_escape_append, ih]

/-- A message for a web page is escaped text with elements that hold escaped text. Without its tags and with its escapes
read it is the plain message. The segments of the message with the tags put back around its fragments are the message. -/
theorem html_safe_and_faithful (m : String) :
    IsPage (html m).toList ∧ unescape (withoutTags (html m).toList) = (plain m).toList ∧
      String.join ((segments m).map Segment.source) = m := by
  refine ⟨?_, ?_, ?_⟩
  · rw [toList_html]
    exact isPage_flatMap_shown (segments m)
  · rw [toList_html, toList_plain]
    exact unescape_withoutTags_flatMap_shown (segments m)
  · apply String.toList_inj.mp
    rw [String.toList_join, List.flatMap_map]
    exact flatMap_source_segmentsOf m.toList

/-- A tag that is never closed is text, and so is one inside a fragment. -/
example : html "<var>a<var>b</var> < <var>" = "<var>a&lt;var&gt;b</var> &lt; &lt;var&gt;" := by cbv

end Primer.Markup
