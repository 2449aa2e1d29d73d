import Primer.Proofs.Number.Conversion
import Primer.Proofs.Number.Written

/-!
# JSON strings

The string literals of JSON with the texts that they denote (`IsJson`), by the grammar alone: a literal is a sequence of
parts between quotes, and each part is how one character is written (`IsJsonPart`).

* The reader `readJson?` is exact for the grammar (`readJson?_iff`), so a literal denotes at most one text.
* `quoteJson` writes each character as one part (`isJsonPart_jsonChar`), so what it writes denotes the text that it was
  given, and nothing else (`isJson_quoteJson_iff`).
* No other value has a short form that begins with a quote, so the short form of a text tells that text from every
  other value (`describe_eq_quoteJson_iff`).
-/

set_option autoImplicit false

namespace Primer.Text

/-! ## The grammar -/

/-- The letters that stand behind a backslash, each with the character that it names. -/
def jsonLetters : List (Char × Char) :=
  [('"', '"'), ('\\', '\\'), ('/', '/'), ('b', '\x08'), ('f', '\x0c'), ('n', '\n'), ('r', '\r'), ('t', '\t')]

/-- Four hexadecimal digits and the unit that they name. -/
def IsUnit (ds : List Char) (n : Nat) : Prop := ds.length = 4 ∧ IsHexadecimal ds n

/-- A character that stands for itself in a JSON string. -/
structure IsBare (c : Char) : Prop where
  visible : 0x20 ≤ c.toNat
  ne_quote : c ≠ '"'
  ne_slash : c ≠ '\\'

/-- One character as it is written inside a JSON string. -/
inductive IsJsonPart : List Char → Char → Prop where
  | bare {c : Char} (h : IsBare c) : IsJsonPart [c] c
  | letter {l c : Char} (h : (l, c) ∈ jsonLetters) : IsJsonPart ['\\', l] c
  | unit {ds : List Char} {n : Nat} (hds : IsUnit ds n) (hn : n < 0xd800 ∨ 0xe000 ≤ n) :
    IsJsonPart ('\\' :: 'u' :: ds) (Char.ofNat n)
  | pair {ds es : List Char} {high low : Nat} (hds : IsUnit ds high) (hhigh : 0xd800 ≤ high ∧ high < 0xdc00)
    (hes : IsUnit es low) (hlow : 0xdc00 ≤ low ∧ low < 0xe000) :
    IsJsonPart ('\\' :: 'u' :: (ds ++ '\\' :: 'u' :: es))
      (Char.ofNat (0x10000 + (high - 0xd800) * 0x400 + (low - 0xdc00)))

/-- The inside of a JSON string and the characters that it denotes. -/
inductive IsJsonInside : List Char → List Char → Prop where
  | nil : IsJsonInside [] []
  | cons {part rest cs : List Char} {c : Char} (hpart : IsJsonPart part c) (hrest : IsJsonInside rest cs) :
    IsJsonInside (part ++ rest) (c :: cs)

/-- A JSON string literal and the text that it denotes. -/
def IsJson (literal text : String) : Prop :=
  ∃ inside, literal.toList = '"' :: (inside ++ ['"']) ∧ IsJsonInside inside text.toList

/-- What is left of the inside of a literal when each backslash is taken out with the character behind it. -/
def unescaped : List Char → List Char
  | '\\' :: _ :: cs => unescaped cs
  | c :: cs => c :: unescaped cs
  | [] => []

/-! ## Reading -/

variable {a b c d l : Char} {cs ds es part rest t : List Char} {n high low : Nat}

/-- Four digits are read as the unit they are. -/
theorem unit?_iff : unit? a b c d = some n ↔ IsUnit [a, b, c, d] n :=
  readDigits_iff.trans (and_iff_right rfl).symm

/-- A unit is read from its four digits. -/
theorem IsUnit.exists_unit? (h : IsUnit ds n) : ∃ a b c d, ds = [a, b, c, d] ∧ unit? a b c d = some n := by
  obtain ⟨a, b, c, d, rfl⟩ := List.length_eq_four.mp h.1
  exact ⟨a, b, c, d, rfl, unit?_iff.mpr h⟩

/-- A letter behind a backslash is read as the table says. -/
theorem jsonEscape?_iff : jsonEscape? l = some c ↔ (l, c) ∈ jsonLetters := by
  constructor
  · intro h
    unfold jsonEscape? at h
    split at h
    iterate 8
      cases h
      decide
    cases h
  · intro h
    simp only [jsonLetters, List.mem_cons, Prod.mk.injEq, List.not_mem_nil, or_false] at h
    rcases h with ⟨rfl, rfl⟩ | ⟨rfl, rfl⟩ | ⟨rfl, rfl⟩ | ⟨rfl, rfl⟩ | ⟨rfl, rfl⟩ | ⟨rfl, rfl⟩ | ⟨rfl, rfl⟩ |
      ⟨rfl, rfl⟩ <;> rfl

/-- The high halves are the units from 0xd800 to 0xdbff. -/
theorem isHighHalf_iff : isHighHalf n = true ↔ 0xd800 ≤ n ∧ n < 0xdc00 := by
  simp [isHighHalf]

/-- The low halves are the units from 0xdc00 to 0xdfff. -/
theorem isLowHalf_iff : isLowHalf n = true ↔ 0xdc00 ≤ n ∧ n < 0xe000 := by
  simp [isLowHalf]

/-- A part is read as its character, whatever stands behind it. -/
theorem IsJsonPart.read (h : IsJsonPart part c) (rest : List Char) :
    readJsonChars? none (part ++ rest) = (readJsonChars? none rest).map (c :: ·) := by
  cases h with
  | bare h =>
    have hraw : ¬(decide (c = '\\') || decide (c.toNat < 0x20)) = true := by simpa using ⟨h.ne_slash, h.visible⟩
    rw [List.singleton_append, readJsonChars?, if_neg (by decide), if_neg h.ne_quote, if_neg hraw]
    · intro _ _ _ _ _ hslash
      exact absurd hslash h.ne_slash
    · intro _ _ hslash
      exact absurd hslash h.ne_slash
  | letter h =>
    have hescape := jsonEscape?_iff.mpr h
    refine readJsonChars?.eq_4 _ _ _ ?_ hescape
    rintro a b c d cs rfl
    cases hescape
  | @unit _ n hds hn =>
    obtain ⟨a, b, c, d, rfl, hunit⟩ := hds.exists_unit?
    have hhigh : ¬isHighHalf n = true := mt isHighHalf_iff.mp (by omega)
    have hlow : ¬isLowHalf n = true := mt isLowHalf_iff.mp (by omega)
    refine (readJsonChars?.eq_3 _ _ _ _ _ _ hunit).trans ?_
    rw [if_neg hhigh, if_neg hlow]
    rfl
  | pair hds hhigh hes hlow =>
    obtain ⟨a, b, c, d, rfl, hfirst⟩ := hds.exists_unit?
    obtain ⟨a', b', c', d', rfl, hsecond⟩ := hes.exists_unit?
    refine (readJsonChars?.eq_3 _ _ _ _ _ _ hfirst).trans ?_
    rw [if_pos (isHighHalf_iff.mpr hhigh)]
    refine (readJsonChars?.eq_2 _ _ _ _ _ _ _ hsecond).trans ?_
    rw [if_pos (isLowHalf_iff.mpr hlow)]
    rfl

/-- The inside of a literal is read up to the closing mark. -/
theorem IsJsonInside.read (h : IsJsonInside part cs) : readJsonChars? none (part ++ ['"']) = some cs := by
  induction h with
  | nil => rfl
  | cons hpart hrest ih => rw [List.append_assoc, hpart.read, ih, Option.map_some]

/-- What lies in front of the reader when it ends with `t`: parts and the closing quote, behind the first half of a
pair the other half before them. -/
def IsJsonRest (cs t : List Char) : Option Nat → Prop
  | none => ∃ inside, cs = inside ++ ['"'] ∧ IsJsonInside inside t
  | some high => ∃ es low inside t', cs = '\\' :: 'u' :: (es ++ (inside ++ ['"'])) ∧ IsUnit es low ∧
      isLowHalf low = true ∧ IsJsonInside inside t' ∧ pairChar high low :: t' = t

/-- A written character in front of a rest is a rest with that character in front. -/
theorem IsJsonRest.behind (hpart : IsJsonPart part c) (h : IsJsonRest cs t none) :
    IsJsonRest (part ++ cs) (c :: t) none := by
  obtain ⟨inside, rfl, hinside⟩ := h
  exact ⟨part ++ inside, (List.append_assoc _ _ _).symm, .cons hpart hinside⟩

/-- What is read is written as the grammar says. -/
theorem isJsonRest_of_read {high : Option Nat} (h : readJsonChars? high cs = some t) : IsJsonRest cs t high := by
  -- The first half of a pair is held back until the second is read.
  fun_induction readJsonChars? high cs generalizing t with
  | case2 a b c d cs low high hunit hlow ih =>
    obtain ⟨t', hread, rfl⟩ := Option.map_eq_some_iff.mp h
    obtain ⟨inside, rfl, hinside⟩ := ih hread
    exact ⟨[a, b, c, d], low, inside, t', rfl, unit?_iff.mp hunit, hlow, hinside, rfl⟩
  | case4 a b c d cs high hunit hhigh ih =>
    obtain ⟨es, low, inside, t', rfl, hes, hlow, hinside, rfl⟩ := ih h
    have hpair := IsJsonPart.pair (unit?_iff.mp hunit) (isHighHalf_iff.mp hhigh) hes (isLowHalf_iff.mp hlow)
    have hrest := IsJsonRest.behind hpair ⟨inside, rfl, hinside⟩
    simpa [pairChar] using hrest
  | case6 a b c d cs n hunit hhigh hlow ih =>
    obtain ⟨t', hread, rfl⟩ := Option.map_eq_some_iff.mp h
    rw [isHighHalf_iff] at hhigh
    rw [isLowHalf_iff] at hlow
    exact IsJsonRest.behind (.unit (unit?_iff.mp hunit) (by omega)) (ih hread)
  | case7 l cs _ x hescape ih =>
    obtain ⟨t', hread, rfl⟩ := Option.map_eq_some_iff.mp h
    exact IsJsonRest.behind (.letter (jsonEscape?_iff.mp hescape)) (ih hread)
  | case10 high cs hhigh hempty =>
    cases h
    obtain rfl := Option.not_isSome_iff_eq_none.mp hhigh
    obtain rfl := List.isEmpty_iff.mp hempty
    exact ⟨[], rfl, .nil⟩
  | case13 high c cs _ _ hhigh hquote hraw ih =>
    obtain ⟨t', hread, rfl⟩ := Option.map_eq_some_iff.mp h
    obtain rfl := Option.not_isSome_iff_eq_none.mp hhigh
    have hraw : c ≠ '\\' ∧ 0x20 ≤ c.toNat := by simpa using hraw
    exact IsJsonRest.behind (.bare ⟨hraw.2, hquote, hraw.1⟩) (ih hread)
  | _ => cases h

/-- The reader is exact for the grammar. -/
theorem readJson?_iff {literal text : String} : readJson? literal = some text ↔ IsJson literal text := by
  unfold readJson? IsJson
  constructor
  · intro h
    split at h
    · next cs hliteral =>
      obtain ⟨t, hread, rfl⟩ := Option.map_eq_some_iff.mp h
      obtain ⟨inside, rfl, hinside⟩ := isJsonRest_of_read hread
      exact ⟨inside, hliteral, by rwa [String.toList_ofList]⟩
    · cases h
  · rintro ⟨inside, hliteral, hinside⟩
    rw [hliteral]
    change (readJsonChars? none (inside ++ ['"'])).map String.ofList = some text
    rw [hinside.read, Option.map_some, String.ofList_toList]

/-- A literal stands for one text. -/
theorem IsJson.unique {literal text text' : String} (h : IsJson literal text) (h' : IsJson literal text') :
    text = text' :=
  Option.some.inj ((readJson?_iff.mpr h).symm.trans (readJson?_iff.mpr h'))

/-! ## What a literal is made of -/

/-- A hexadecimal digit stands for itself. -/
theorem isBare_of_isHexDigit (h : IsHexDigit c n) : IsBare c := by
  have hquote : c.toNat ≠ 0x22 → c ≠ '"' := mt (congrArg Char.toNat)
  have hslash : c.toNat ≠ 0x5c → c ≠ '\\' := mt (congrArg Char.toNat)
  have hcode : 0x30 ≤ c.toNat ∧ c.toNat ≤ 0x39 ∨ 0x61 ≤ c.toNat ∧ c.toNat ≤ 0x66 ∨ 0x41 ≤ c.toNat ∧ c.toNat ≤ 0x46 := by
    cases h with
    | decimal hlow hhigh => exact .inl ⟨hlow, hhigh⟩
    | small hlow hhigh => exact .inr (.inl ⟨hlow, hhigh⟩)
    | capital hlow hhigh => exact .inr (.inr ⟨hlow, hhigh⟩)
  exact ⟨by omega, hquote (by omega), hslash (by omega)⟩

/-- Hexadecimal digits stand for themselves. -/
theorem isBare_of_isHexadecimal (h : IsHexadecimal ds n) : ∀ x ∈ ds, IsBare x := by
  induction h with
  | digit hc =>
    intro x hx
    rw [List.mem_singleton.mp hx]
    exact isBare_of_isHexDigit hc
  | more hcs hc ih =>
    intro x hx
    rcases List.mem_append.mp hx with hx | hx
    · exact ih x hx
    · rw [List.mem_singleton.mp hx]
      exact isBare_of_isHexDigit hc

/-- Characters that stand for themselves are left as they are. -/
theorem unescaped_bare (h : ∀ x ∈ ds, IsBare x) (rest : List Char) : unescaped (ds ++ rest) = ds ++ unescaped rest := by
  induction ds with
  | nil => rfl
  | cons d ds ih =>
    obtain ⟨hd, hds⟩ := List.forall_mem_cons.mp h
    rw [List.cons_append, unescaped, ih hds, List.cons_append]
    intro _ _ hslash
    exact absurd hslash hd.ne_slash

/-- A part has no character below the space, and outside its escapes only characters that stand for themselves. -/
theorem IsJsonPart.written (h : IsJsonPart part c) :
    (∀ x ∈ part, 0x20 ≤ x.toNat) ∧
      ∃ bare, (∀ x ∈ bare, IsBare x) ∧ ∀ rest, unescaped (part ++ rest) = bare ++ unescaped rest := by
  cases h with
  | bare h =>
    have hbare : ∀ x ∈ [c], IsBare x := by simpa using h
    exact ⟨fun x hx => (hbare x hx).visible, [c], hbare, unescaped_bare hbare⟩
  | letter h =>
    have hletters : ∀ p ∈ jsonLetters, 0x20 ≤ p.1.toNat := by decide
    refine ⟨?_, [], nofun, fun rest => rfl⟩
    simpa using hletters _ h
  | unit hds hn =>
    have hbare := isBare_of_isHexadecimal hds.2
    refine ⟨?_, _, hbare, fun rest => unescaped_bare hbare rest⟩
    simpa using fun x hx => (hbare x hx).visible
  | @pair ds es high low hds hhigh hes hlow =>
    have hfirst := isBare_of_isHexadecimal hds.2
    have hsecond := isBare_of_isHexadecimal hes.2
    refine ⟨?_, ds ++ es, List.forall_mem_append.mpr ⟨hfirst, hsecond⟩, ?_⟩
    · intro x hx
      simp only [List.mem_cons, List.mem_append] at hx
      rcases hx with rfl | rfl | hx | rfl | rfl | hx
      iterate 2 decide
      · exact (hfirst x hx).visible
      iterate 2 decide
      · exact (hsecond x hx).visible
    · intro rest
      rw [List.append_assoc]
      change unescaped ((ds ++ '\\' :: 'u' :: es) ++ rest) = _
      rw [List.append_assoc, unescaped_bare hfirst]
      exact congrArg _ (unescaped_bare hsecond rest)

/-- So it is with the whole inside of a literal: every quote and every backslash in it is part of an escape. -/
theorem IsJsonInside.written (h : IsJsonInside part cs) :
    (∀ x ∈ part, 0x20 ≤ x.toNat) ∧ ∀ x ∈ unescaped part, IsBare x := by
  induction h with
  | nil => exact ⟨nofun, nofun⟩
  | cons hpart hrest ih =>
    obtain ⟨hvisible, bare, hbare, happend⟩ := hpart.written
    rw [happend]
    exact ⟨List.forall_mem_append.mpr ⟨hvisible, ih.1⟩, List.forall_mem_append.mpr ⟨hbare, ih.2⟩⟩

/-! ## Writing -/

/-- Digits from the other end. -/
theorem hexDigits_succ (width n : Nat) : hexDigits (width + 1) n = hexDigits width (n / 16) ++ [hexDigit (n % 16)] := by
  induction width with
  | zero =>
    change [hexDigit (n / 1 % 16)] = [hexDigit (n % 16)]
    rw [Nat.div_one]
  | succ width ih =>
    have hdigit : n / Nat.pow 16 (width + 1) = n / 16 / Nat.pow 16 width := by
      rw [Nat.div_div_eq_div_mul, Nat.mul_comm]
      rfl
    rw [hexDigits, ih, hdigit]
    rfl

/-- The digit of a number below 16 has its value. -/
theorem isHexDigit_hexDigit : ∀ n < 16, IsHexDigit (hexDigit n) n := by
  have h : ∀ n < 16, Number.hexValue? (hexDigit n) = some n := by decide
  intro n hn
  exact hexValue_iff.mp (h n hn)

/-- The digits of a number have its value. -/
theorem isHexadecimal_hexDigits (width : Nat) (hn : n < 16 ^ (width + 1)) :
    IsHexadecimal (hexDigits (width + 1) n) n := by
  induction width generalizing n with
  | zero =>
    change n < 16 at hn
    have hdigit := isHexDigit_hexDigit n hn
    rw [hexDigits_succ, Nat.mod_eq_of_lt hn]
    exact .digit hdigit
  | succ width ih =>
    have hhigh : n / 16 < 16 ^ (width + 1) := Nat.div_lt_of_lt_mul (by rwa [Nat.pow_succ, Nat.mul_comm] at hn)
    have hmore := IsHexadecimal.more (ih hhigh) (isHexDigit_hexDigit (n % 16) (Nat.mod_lt n (by decide)))
    rwa [← hexDigits_succ, Nat.div_add_mod] at hmore

/-- The four digits of a unit are the unit. -/
theorem isUnit_hexDigits (hn : n < 0x10000) : IsUnit (hexDigits 4 n) n :=
  ⟨rfl, isHexadecimal_hexDigits 3 hn⟩

/-- A character is written as the grammar allows. -/
theorem isJsonPart_jsonChar (c : Char) : IsJsonPart (jsonChar c) c := by
  unfold jsonChar
  iterate 7
    refine iteInduction (motive := (IsJsonPart · c)) (fun hc => ?_) fun _ => ?_
    · subst hc
      exact .letter (by decide)
  split
  · have hpart := IsJsonPart.unit (isUnit_hexDigits (n := c.toNat) (by omega)) (by omega)
    rwa [Char.ofNat_toNat] at hpart
  · exact .bare ⟨by omega, ‹_›, ‹_›⟩

/-- The characters of a text are written as the inside of a literal. -/
theorem isJsonInside_flatMap (cs : List Char) : IsJsonInside (cs.flatMap jsonChar) cs := by
  induction cs with
  | nil => exact .nil
  | cons c cs ih => exact .cons (isJsonPart_jsonChar c) ih

/-- A quoted text is its characters between quotation marks. -/
theorem toList_quoteJson (s : String) : (quoteJson s).toList = '"' :: (s.toList.flatMap jsonChar ++ ['"']) :=
  String.toList_ofList

/-- A quoted text is a literal of the text and of no other. -/
theorem isJson_quoteJson_iff {s t : String} : IsJson (quoteJson s) t ↔ t = s := by
  have hself : IsJson (quoteJson s) s := ⟨_, toList_quoteJson s, isJsonInside_flatMap s.toList⟩
  constructor
  · intro h
    exact h.unique hself
  · rintro rfl
    exact hself

/-- Different texts are quoted differently. -/
theorem quoteJson_inj {s t : String} : quoteJson s = quoteJson t ↔ s = t := by
  constructor
  · intro h
    exact isJson_quoteJson_iff.mp (h ▸ isJson_quoteJson_iff.mpr rfl)
  · exact congrArg quoteJson

end Primer.Text

namespace Primer.Memory

variable {m : Memory} {v : Value} {s : String}

/-- Only a text has the short form of a text, and only that of its own. -/
theorem describe_eq_quoteJson_iff : m.describe v = Text.quoteJson s ↔ m.settle v = .string s := by
  have hquoted : '"' ∈ (Text.quoteJson s).toList := by simp [Text.toList_quoteJson]
  have hnone {t : String} (h : '"' ∉ t.toList) : ¬t = Text.quoteJson s := by
    rintro rfl
    exact h hquoted
  unfold describe
  cases m.settle v
  case string t =>
    rw [Value.string.injEq]
    exact Text.quoteJson_inj
  case number x =>
    change (if Number.isFinite x then Number.render x else "null") = Text.quoteJson s ↔ _
    split
    · exact iff_of_false (hnone (Number.not_mem_render ‹_› (by decide))) nofun
    · exact iff_of_false (hnone (by decide)) nofun
  case boolean b => cases b <;> exact iff_of_false (hnone (by decide)) nofun
  case absent | undefined | pending => exact iff_of_false (hnone (t := "undefined") (by decide)) nofun
  case null => exact iff_of_false (hnone (t := "null") (by decide)) nofun
  case array => exact iff_of_false (hnone (t := "[array]") (by decide)) nofun
  case object => exact iff_of_false (hnone (t := "[object]") (by decide)) nofun
  case function | hostFunction => exact iff_of_false (hnone (t := "[function]") (by decide)) nofun
  case hostVariable | arrayLength | textLength => exact iff_of_false (hnone (t := "[variable]") (by decide)) nofun
  case cell => exact iff_of_false (hnone (t := "") (by decide)) nofun

end Primer.Memory

namespace Primer.Text

/-- What `quoteJson` writes is a JSON string literal that denotes the text it was given, and no other. Its characters
are all visible, and outside its escapes no quote and no backslash is left inside it. So no two texts are written alike,
and the short form of a text is that of no other value. -/
theorem quoteJson_lossless (s : String) :
    (∀ t, IsJson (quoteJson s) t ↔ t = s) ∧ readJson? (quoteJson s) = some s ∧
      (∃ inside, (quoteJson s).toList = '"' :: (inside ++ ['"']) ∧ (∀ x ∈ inside, 0x20 ≤ x.toNat) ∧
        ∀ x ∈ unescaped inside, IsBare x) ∧
      (∀ t, quoteJson s = quoteJson t ↔ s = t) ∧
      ∀ (m : Memory) (v : Value), m.describe v = quoteJson s ↔ m.settle v = .string s := by
  refine ⟨fun t => isJson_quoteJson_iff, readJson?_iff.mpr (isJson_quoteJson_iff.mpr rfl), ?_, fun t => quoteJson_inj,
    fun m v => Memory.describe_eq_quoteJson_iff⟩
  exact ⟨_, toList_quoteJson s, (isJsonInside_flatMap s.toList).written⟩

end Primer.Text
