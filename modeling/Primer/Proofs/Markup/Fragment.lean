import Primer.Proofs.Markup.Page

/-!
# Fragments of messages

A message is built by putting texts between tags as they are. When it is split again, the first tag of each kind counts:
a fragment begins behind the first opening tag (`segmentsOf_of_splitAt`) and ends before the first closing tag behind it
(`segments_append_var`). So a text without closing tags is a fragment of its own, shown as it is
(`plain_append_var`) and escaped inside one element (`html_append_var`), whatever else it holds; and one with a closing
tag is not (`html_append_var_ne`).

Both tags begin with an angle bracket that does not come again in them. A tag can therefore not begin in the text in
front of it, which is why that text matters only for the tags that it holds itself.
-/

set_option autoImplicit false

namespace Primer.Markup

/-! ## Where a tag stands first -/

variable {c : Char} {t before after cs : List Char}

/-- A pattern that begins in a text without it does not end in the same pattern behind the text, unless its first
character comes again in it. -/
theorem not_prefix_append (hc : c ∉ t) (hne : before ≠ []) (h : ¬c :: t <:+: before) (after : List Char) :
    ¬c :: t <+: before ++ (c :: t ++ after) := by
  intro hprefix
  rcases List.prefix_or_prefix_of_prefix hprefix (List.prefix_append before _) with hinside | ⟨tail, htail⟩
  · exact h hinside.isInfix
  · obtain ⟨d, before', rfl⟩ := List.exists_cons_of_ne_nil hne
    obtain ⟨rfl, ht⟩ := List.cons.inj htail
    rw [← htail, List.prefix_append_right_inj] at hprefix
    cases tail with
    | nil => exact h ⟨[], [], by rw [← htail]; simp⟩
    | cons e tail =>
      obtain ⟨rfl, -⟩ := List.cons_prefix_cons.mp hprefix
      apply hc
      rw [← ht]
      simp

/-- A pattern is found behind a text that does not hold it. -/
theorem splitAt_append_pattern (hc : c ∉ t) (h : ¬c :: t <:+: before) (after : List Char) :
    splitAt (c :: t) (before ++ (c :: t ++ after)) = some (before, after) := by
  induction before with
  | nil => simp [splitAt]
  | cons d before ih =>
    have hhere := not_prefix_append hc (List.cons_ne_nil d before) h after
    have hrest : ¬c :: t <:+: before := fun hinside => h (hinside.trans (List.suffix_cons d before).isInfix)
    rw [List.cons_append] at hhere ⊢
    rw [splitAt, if_neg (mt List.isPrefixOf_iff_prefix.mp hhere), ih hrest]
    rfl

/-- A pattern is not found in a text that does not hold it. -/
theorem splitAt_eq_none_iff : splitAt (c :: t) cs = none ↔ ¬c :: t <:+: cs := by
  induction cs with
  | nil => simp [splitAt]
  | cons d cs ih =>
    rw [splitAt, List.infix_cons_iff, ← List.isPrefixOf_iff_prefix]
    split
    · simp [*]
    · simp [*]

/-- A pattern that is found in a text is found there whatever follows the text. -/
theorem splitAt_append (h : splitAt (c :: t) cs = some (before, after)) (rest : List Char) :
    splitAt (c :: t) (cs ++ rest) = some (before, after ++ rest) := by
  induction cs generalizing before with
  | nil => simp [splitAt] at h
  | cons d cs ih =>
    rw [splitAt] at h
    split at h
    · rename_i hprefix
      cases h
      have hwhole := List.isPrefixOf_iff_prefix.mp hprefix
      rw [List.cons_append, splitAt, if_pos]
      · rw [← List.cons_append, List.drop_append_of_le_length hwhole.length_le]
      · exact List.isPrefixOf_iff_prefix.mpr (hwhole.trans (List.prefix_append _ _))
    · rename_i hprefix
      obtain ⟨⟨b, a⟩, hsplit, hpair⟩ := Option.map_eq_some_iff.mp h
      cases hpair
      have hlength := congrArg List.length (splitAt_eq_append hsplit)
      -- The pattern was found further on, so it cannot begin here and reach into what follows.
      have hnot : ¬c :: t <+: d :: cs ++ rest := by
        intro hlong
        rcases List.prefix_or_prefix_of_prefix hlong (List.prefix_append _ _) with hshort | hshort
        · exact hprefix (List.isPrefixOf_iff_prefix.mpr hshort)
        · have := hshort.length_le
          simp only [List.length_append, List.length_cons] at hlength this
          omega
      rw [List.cons_append] at hnot ⊢
      rw [splitAt, if_neg (mt List.isPrefixOf_iff_prefix.mp hnot), ih hsplit]
      rfl

/-! ## The segments around a fragment -/

variable {inner : List Char}

/-- Without an opening tag a message is text. -/
theorem segmentsOf_of_not_infix (h : ¬openTag <:+: cs) : segmentsOf cs = textSegment cs := by
  have hopen : splitAt openTag cs = none := splitAt_eq_none_iff.mpr h
  cases cs with
  | nil => simp [segmentsOf, textSegment]
  | cons d cs =>
    rw [segmentsOf]
    split
    · rfl
    · simp_all

/-- A message with a fragment is text, the fragment, and the segments of what is left. -/
theorem segmentsOf_of_splitAt (hbefore : ¬openTag <:+: before) (h : splitAt closeTag cs = some (inner, after)) :
    segmentsOf (before ++ (openTag ++ cs)) = textSegment before ++ ⟨String.ofList inner, true⟩ :: segmentsOf after := by
  have hopen : splitAt openTag (before ++ (openTag ++ cs)) = some (before, cs) :=
    splitAt_append_pattern (by decide) hbefore cs
  cases hmessage : before ++ (openTag ++ cs) with
  | nil => simp [openTag] at hmessage
  | cons d rest =>
    rw [hmessage] at hopen
    rw [segmentsOf]
    split
    · simp_all
    · rename_i hsplit
      rw [hopen] at hsplit
      cases hsplit
      split
      · simp_all
      · rename_i hsplit
        rw [h] at hsplit
        cases hsplit
        rfl

/-- A segment of plain text has that text. -/
theorem flatMap_text_textSegment (cs : List Char) : (textSegment cs).flatMap (fun s => s.text.toList) = cs := by
  unfold textSegment
  split
  · simpa using ‹cs.isEmpty = true›
  · simp

/-- A segment of plain text is shown escaped. -/
theorem flatMap_shown_textSegment (cs : List Char) :
    (textSegment cs).flatMap Segment.shown = (escape (String.ofList cs)).toList := by
  unfold textSegment
  split
  · obtain rfl : cs = [] := by simpa using ‹cs.isEmpty = true›
    rfl
  · simp [Segment.shown]

/-! ## A text between tags -/

variable {a s : String}

/-- A message with a span is its parts with the tags between them. -/
theorem toList_append_var (a s b : String) :
    (a ++ var s ++ b).toList = a.toList ++ (openTag ++ (s.toList ++ (closeTag ++ b.toList))) := by
  simp [var, openTag, closeTag]

/-- A text that is put between tags is the fragment up to its first closing tag; what is behind that is read as if the
fragment had ended there. -/
theorem segments_append_var {inner rest : List Char} (ha : ¬openTag <:+: a.toList) (b : String)
    (hs : splitAt closeTag (s.toList ++ (closeTag ++ b.toList)) = some (inner, rest)) :
    segments (a ++ var s ++ b) = textSegment a.toList ++ ⟨String.ofList inner, true⟩ :: segmentsOf rest := by
  rw [segments, toList_append_var]
  exact segmentsOf_of_splitAt ha hs

/-- A text without closing tags is shown as it is. -/
theorem plain_append_var (ha : ¬openTag <:+: a.toList) (hs : ¬closeTag <:+: s.toList) (b : String) :
    plain (a ++ var s ++ b) = a ++ s ++ plain b := by
  have hsplit := splitAt_append_pattern (by decide) hs b.toList
  apply String.toList_inj.mp
  rw [toList_plain, segments_append_var ha b hsplit, List.flatMap_append, flatMap_text_textSegment, List.flatMap_cons,
    String.toList_append, String.toList_append, toList_plain]
  simp [segments]

/-- A text without closing tags is escaped inside one element. -/
theorem html_append_var (ha : ¬openTag <:+: a.toList) (hs : ¬closeTag <:+: s.toList) (b : String) :
    html (a ++ var s ++ b) = escape a ++ var (escape s) ++ html b := by
  have hsplit := splitAt_append_pattern (by decide) hs b.toList
  apply String.toList_inj.mp
  rw [toList_append_var, toList_html, segments_append_var ha b hsplit, List.flatMap_append, flatMap_shown_textSegment,
    List.flatMap_cons, toList_html]
  simp [segments, Segment.shown]

/-- A text without an opening tag is its own plain text. -/
theorem plain_of_not_infix {b : String} (hb : ¬openTag <:+: b.toList) : plain b = b := by
  apply String.toList_inj.mp
  rw [toList_plain, segments, segmentsOf_of_not_infix hb, flatMap_text_textSegment]

/-- A text without an opening tag is shown escaped. -/
theorem html_of_not_infix {b : String} (hb : ¬openTag <:+: b.toList) : html b = escape b := by
  apply String.toList_inj.mp
  rw [toList_html, segments, segmentsOf_of_not_infix hb, flatMap_shown_textSegment, String.ofList_toList]

/-- A text with a closing tag is not escaped inside one element: the element ends at that tag. -/
theorem html_append_var_ne (ha : ¬openTag <:+: a.toList) (hs : closeTag <:+: s.toList) (b c : String) :
    html (a ++ var s ++ b) ≠ escape a ++ var (escape s) ++ c := by
  obtain ⟨⟨inner, rest⟩, hsplit⟩ := Option.ne_none_iff_exists'.mp (mt splitAt_eq_none_iff.mp (not_not.mpr hs))
  have hescaped : (escape s).toList = (escape (String.ofList inner)).toList ++
      (['&', 'l', 't', ';'] ++ closeTag.tail.flatMap (fun c => (escapeChar c).toList) ++
        rest.flatMap fun c => (escapeChar c).toList) := by
    rw [toList_escape, toList_escape, splitAt_eq_append hsplit, List.flatMap_append, List.flatMap_append,
      String.toList_ofList]
    rfl
  intro h
  have hlists := congrArg String.toList h
  rw [toList_append_var, toList_html, segments_append_var ha b (splitAt_append hsplit _), List.flatMap_append,
    flatMap_shown_textSegment, List.flatMap_cons, String.ofList_toList, List.append_cancel_left_eq] at hlists
  simp only [Segment.shown, if_true, List.append_assoc, hescaped, List.append_cancel_left_eq] at hlists
  cases hlists

end Primer.Markup
