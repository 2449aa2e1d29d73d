import Primer.Number.Reading
import Primer.Proofs.Number.Nearest

/-!
# Decimal literals

The grammar of decimal literals with the rational that each of them denotes (`Number.IsDecimal`). A literal has an
optional sign, digits with an optional point before, between or behind them, and an optional exponent. The sign stands
apart from the size, because zero has one too.

`readNumeral` accepts the literals and nothing else, and what it reads has the size that the literal denotes
(`isDecimal_iff`). The pattern that is computed for such a size is the nearest one (`nearestDecimalBits_isNearest`), also
where the computation is cut short for sizes far beyond the largest or below the smallest number.
-/

set_option autoImplicit false

namespace Primer.Number

/-! ## The grammar -/

/-- The natural that decimal digits denote. -/
def natural (ds : List Char) : Nat := Nat.ofDigitChars 10 ds 0

/-- Each character is a decimal digit. -/
def AreDigits (ds : List Char) : Prop := ∀ c ∈ ds, c.isDigit = true

instance (ds : List Char) : Decidable (AreDigits ds) := decidable_of_iff (ds.all Char.isDigit = true) List.all_eq_true

/-- An exponent part: nothing, or a letter and at least one digit with an optional sign between them. -/
inductive IsExponent : List Char → Int → Prop where
  | absent : IsExponent [] 0
  | unsigned {mark : Char} {ds : List Char} (hmark : mark = 'e' ∨ mark = 'E') (hne : ds ≠ []) (hds : AreDigits ds) :
    IsExponent (mark :: ds) (natural ds)
  | plus {mark : Char} {ds : List Char} (hmark : mark = 'e' ∨ mark = 'E') (hne : ds ≠ []) (hds : AreDigits ds) :
    IsExponent (mark :: '+' :: ds) (natural ds)
  | minus {mark : Char} {ds : List Char} (hmark : mark = 'e' ∨ mark = 'E') (hne : ds ≠ []) (hds : AreDigits ds) :
    IsExponent (mark :: '-' :: ds) (-(natural ds : Int))

/-- A decimal literal without a sign, and the rational that it denotes. -/
inductive IsUnsigned : List Char → ℚ → Prop where
  | whole {ds es : List Char} {e : Int} (hne : ds ≠ []) (hds : AreDigits ds) (hes : IsExponent es e) :
    IsUnsigned (ds ++ es) (natural ds * 10 ^ e)
  | mixed {ds fs es : List Char} {e : Int} (hne : ds ≠ []) (hds : AreDigits ds) (hfs : AreDigits fs)
    (hes : IsExponent es e) :
    IsUnsigned (ds ++ '.' :: (fs ++ es)) ((natural ds + natural fs / 10 ^ fs.length) * 10 ^ e)
  | fraction {fs es : List Char} {e : Int} (hne : fs ≠ []) (hfs : AreDigits fs) (hes : IsExponent es e) :
    IsUnsigned ('.' :: (fs ++ es)) (natural fs / 10 ^ fs.length * 10 ^ e)

/-- A decimal literal, whether it has the sign of a negative number, and the size that it denotes. -/
inductive IsDecimal : List Char → Bool → ℚ → Prop where
  | unsigned {cs : List Char} {v : ℚ} (h : IsUnsigned cs v) : IsDecimal cs false v
  | plus {cs : List Char} {v : ℚ} (h : IsUnsigned cs v) : IsDecimal ('+' :: cs) false v
  | minus {cs : List Char} {v : ℚ} (h : IsUnsigned cs v) : IsDecimal ('-' :: cs) true v

/-! ## Digits -/

variable {cs ds es fs rest : List Char} {e : Int} {v : ℚ} {negative : Bool}

/-- Digits in front count for a power of ten each. -/
theorem natural_append (ds fs : List Char) : natural (ds ++ fs) = natural ds * 10 ^ fs.length + natural fs := by
  unfold natural
  rw [Nat.ofDigitChars_append, Nat.ofDigitChars_eq_ofDigitChars_zero, Nat.mul_comm]

/-- Digits behind a point count as digits of a natural at a lower exponent. -/
theorem mixed_value (ds fs : List Char) (e : Int) :
    ((natural ds + natural fs / 10 ^ fs.length : ℚ)) * 10 ^ e = natural (ds ++ fs) * 10 ^ (e - fs.length) := by
  rw [natural_append, zpow_sub₀ (by norm_num), zpow_natCast]
  push_cast
  field_simp

/-- Digits in a row are digits. -/
theorem AreDigits.append (hds : AreDigits ds) (hfs : AreDigits fs) : AreDigits (ds ++ fs) := by
  intro c hc
  rcases List.mem_append.mp hc with hc | hc
  · exact hds c hc
  · exact hfs c hc

/-- The text does not begin with a digit, so digits before it end there. -/
def StopsDigits (rest : List Char) : Prop := ∀ c ∈ rest.head?, c.isDigit = false

/-- Digits are read up to the first character that is none. -/
theorem span_digits (hds : AreDigits ds) (hrest : StopsDigits rest) :
    (ds ++ rest).takeWhile Char.isDigit = ds ∧ (ds ++ rest).dropWhile Char.isDigit = rest := by
  rw [List.takeWhile_append_of_pos hds, List.dropWhile_append_of_pos hds]
  cases rest with
  | nil => exact ⟨List.append_nil ds, rfl⟩
  | cons c rest =>
    have hc : c.isDigit = false := hrest c rfl
    rw [List.takeWhile_cons_of_neg (by simp [hc]), List.dropWhile_cons_of_neg (by simp [hc])]
    exact ⟨List.append_nil ds, rfl⟩

/-- The digits that are taken are digits. -/
theorem areDigits_takeWhile (cs : List Char) : AreDigits (cs.takeWhile Char.isDigit) :=
  List.all_eq_true.mp List.all_takeWhile

/-- An exponent part that is there begins with its mark. -/
theorem IsExponent.eq_nil_or_mark (h : IsExponent es e) :
    es = [] ∨ ∃ mark rest, (mark = 'e' ∨ mark = 'E') ∧ es = mark :: rest := by
  cases h with
  | absent => exact .inl rfl
  | unsigned hmark => exact .inr ⟨_, _, hmark, rfl⟩
  | plus hmark => exact .inr ⟨_, _, hmark, rfl⟩
  | minus hmark => exact .inr ⟨_, _, hmark, rfl⟩

/-- An exponent stops digits. -/
theorem IsExponent.stopsDigits (h : IsExponent es e) : StopsDigits es := by
  rcases h.eq_nil_or_mark with rfl | ⟨mark, rest, hmark, rfl⟩
  · exact fun _ h => by cases h
  · rintro c hc
    cases hc
    rcases hmark with rfl | rfl <;> rfl

/-! ## Reading -/

/-- A text has a minus, a plus or no sign in front. -/
theorem splitSign_cases (cs : List Char) :
    (∃ ds, cs = '-' :: ds ∧ splitSign cs = (true, ds)) ∨ (∃ ds, cs = '+' :: ds ∧ splitSign cs = (false, ds)) ∨
      splitSign cs = (false, cs) := by
  unfold splitSign
  split
  · exact .inl ⟨_, rfl, rfl⟩
  · exact .inr (.inl ⟨_, rfl, rfl⟩)
  · exact .inr (.inr rfl)

/-- A digit or a point is no sign. -/
theorem splitSign_of_digit {c : Char} (hc : c.isDigit = true ∨ c = '.') : splitSign (c :: cs) = (false, c :: cs) := by
  rcases splitSign_cases (c :: cs) with ⟨ds, h, -⟩ | ⟨ds, h, -⟩ | h
  · cases h
    exact absurd hc (by decide)
  · cases h
    exact absurd hc (by decide)
  · exact h

/-- Digits have no sign in front. -/
theorem splitSign_of_digits (hne : ds ≠ []) (hds : AreDigits ds) : splitSign (ds ++ rest) = (false, ds ++ rest) := by
  cases ds with
  | nil => exact absurd rfl hne
  | cons c ds => exact splitSign_of_digit (.inl (hds c List.mem_cons_self))

/-- A numeral without a sign has none in front. -/
theorem IsUnsigned.splitSign (h : IsUnsigned cs v) : splitSign cs = (false, cs) := by
  cases h with
  | whole hne hds hes => exact splitSign_of_digits hne hds
  | mixed hne hds hfs hes => exact splitSign_of_digits hne hds
  | fraction hne hfs hes => exact splitSign_of_digit (.inr rfl)

/-- A literal is a sign, if any, before a literal without one. -/
theorem isDecimal_iff_splitSign :
    IsDecimal cs negative v ↔ (splitSign cs).1 = negative ∧ IsUnsigned (splitSign cs).2 v := by
  constructor
  · intro h
    cases h with
    | unsigned h => rw [h.splitSign]; exact ⟨rfl, h⟩
    | plus h => exact ⟨rfl, h⟩
    | minus h => exact ⟨rfl, h⟩
  · rintro ⟨rfl, h⟩
    rcases splitSign_cases cs with ⟨ds, rfl, hsign⟩ | ⟨ds, rfl, hsign⟩ | hsign
    · exact .minus h
    · exact .plus h
    · rw [hsign] at h ⊢
      exact .unsigned h

/-- What stands behind the mark of an exponent is read as a sign and digits. -/
theorem readExponent_mark {mark : Char} (hmark : mark = 'e' ∨ mark = 'E') (hsign : splitSign cs = (negative, ds))
    (hne : ds ≠ []) (hds : AreDigits ds) :
    readExponent (mark :: cs) = some (if negative then -(natural ds : Int) else natural ds) := by
  have hmark' : (decide (mark = 'e') || decide (mark = 'E')) = true := by simpa using hmark
  have hds' : (ds.isEmpty || !ds.all Char.isDigit) = false := by
    rw [Bool.or_eq_false_iff, Bool.not_eq_false', List.all_eq_true]
    exact ⟨by simpa using hne, hds⟩
  simp only [readExponent, hmark', hsign, hds', if_true]
  rfl

/-- The exponents are read as they are defined. -/
theorem readExponent_iff : readExponent es = some e ↔ IsExponent es e := by
  constructor
  · intro h
    match es with
    | [] =>
      cases h
      exact .absent
    | mark :: cs =>
      simp only [readExponent] at h
      split at h
      · rename_i hmark
        rw [Bool.or_eq_true, decide_eq_true_eq, decide_eq_true_eq] at hmark
        split at h
        · cases h
        · rename_i hds
          rw [Bool.or_eq_true, not_or, List.isEmpty_iff, Bool.not_eq_true', Bool.not_eq_false, List.all_eq_true] at hds
          obtain ⟨hne, hds⟩ := hds
          rcases splitSign_cases cs with ⟨ds, rfl, hsign⟩ | ⟨ds, rfl, hsign⟩ | hsign
          · rw [hsign] at h hne hds
            cases h
            exact .minus hmark hne hds
          · rw [hsign] at h hne hds
            cases h
            exact .plus hmark hne hds
          · rw [hsign] at h hne hds
            cases h
            exact .unsigned hmark hne hds
      · cases h
  · intro h
    cases h with
    | absent => rfl
    | unsigned hmark hne hds =>
      have hsign : splitSign (_ ++ []) = _ := splitSign_of_digits hne hds
      rw [List.append_nil] at hsign
      exact readExponent_mark hmark hsign hne hds
    | plus hmark hne hds => exact readExponent_mark hmark (rfl : splitSign ('+' :: _) = (false, _)) hne hds
    | minus hmark hne hds => exact readExponent_mark hmark (rfl : splitSign ('-' :: _) = (true, _)) hne hds

/-- The size that a numeral denotes. -/
def Numeral.value (n : Numeral) : ℚ := natural (n.whole ++ n.fraction) * 10 ^ (n.exponent - n.fraction.length)

/-- Reading the parts of a literal behind its sign. -/
theorem readNumeral_of_whole (hsign : splitSign cs = (negative, ds ++ es)) (hne : ds ≠ []) (hds : AreDigits ds)
    (hes : IsExponent es e) : readNumeral cs = some ⟨negative, ds, [], e⟩ := by
  obtain ⟨htake, hdrop⟩ := span_digits hds hes.stopsDigits
  unfold readNumeral
  rw [hsign]
  dsimp only
  rw [htake, hdrop]
  split
  · rcases hes.eq_nil_or_mark with h | ⟨mark, cs, hmark, h⟩
    · cases h
    · cases h
      exact absurd hmark (by decide)
  · dsimp only
    rw [readExponent_iff.mpr hes, if_neg (by simpa using hne)]
    rfl

/-- A numeral with a point is read. -/
theorem readNumeral_of_point (hsign : splitSign cs = (negative, ds ++ '.' :: (fs ++ es))) (hne : ds ≠ [] ∨ fs ≠ [])
    (hds : AreDigits ds) (hfs : AreDigits fs) (hes : IsExponent es e) :
    readNumeral cs = some ⟨negative, ds, fs, e⟩ := by
  have hstop : StopsDigits ('.' :: (fs ++ es)) := by
    rintro c hc
    cases hc
    rfl
  obtain ⟨htake, hdrop⟩ := span_digits hds hstop
  obtain ⟨htake', hdrop'⟩ := span_digits hfs hes.stopsDigits
  unfold readNumeral
  rw [hsign]
  dsimp only
  rw [htake, hdrop]
  simp only [htake', hdrop', readExponent_iff.mpr hes]
  rw [if_neg (by simpa [imp_iff_not_or] using hne)]
  rfl

/-- A numeral that was read was written as a literal of its size. -/
theorem isUnsigned_of_readNumeral {n : Numeral} (h : readNumeral cs = some n) :
    (splitSign cs).1 = n.negative ∧ IsUnsigned (splitSign cs).2 n.value := by
  unfold readNumeral at h
  generalize splitSign cs = split at h ⊢
  obtain ⟨negative, body⟩ := split
  dsimp only at h ⊢
  have hbody := List.takeWhile_append_dropWhile (p := Char.isDigit) (l := body)
  have hds := areDigits_takeWhile body
  generalize body.takeWhile Char.isDigit = ds at h hbody hds
  generalize body.dropWhile Char.isDigit = rest at h hbody
  subst hbody
  split at h
  · rename_i tail
    have htail := List.takeWhile_append_dropWhile (p := Char.isDigit) (l := tail)
    have hfs := areDigits_takeWhile tail
    dsimp only at h
    generalize tail.takeWhile Char.isDigit = fs at h htail hfs
    generalize tail.dropWhile Char.isDigit = es at h htail
    subst htail
    split at h
    · cases h
    · rename_i hne
      rw [Bool.and_eq_true, not_and_or, List.isEmpty_iff, List.isEmpty_iff] at hne
      rw [Option.map_eq_some_iff] at h
      obtain ⟨e, hes, rfl⟩ := h
      rw [readExponent_iff] at hes
      refine ⟨rfl, ?_⟩
      show IsUnsigned _ (natural (ds ++ fs) * 10 ^ (e - fs.length))
      rw [← mixed_value]
      by_cases hwhole : ds = []
      · subst hwhole
        have hvalue := IsUnsigned.fraction (hne.resolve_left fun h => h rfl) hfs hes
        simpa [natural] using hvalue
      · exact .mixed hwhole hds hfs hes
  · dsimp only at h
    split at h
    · cases h
    · rename_i hne
      rw [Bool.and_eq_true, not_and_or, List.isEmpty_iff, List.isEmpty_iff] at hne
      rw [Option.map_eq_some_iff] at h
      obtain ⟨e, hes, rfl⟩ := h
      rw [readExponent_iff] at hes
      have hvalue := IsUnsigned.whole (hne.resolve_right fun h => h rfl) hds hes
      refine ⟨rfl, ?_⟩
      simpa [Numeral.value] using hvalue

/-- A literal without a sign is read as a numeral of its size. -/
theorem readNumeral_of_isUnsigned {body : List Char} (hsign : splitSign cs = (negative, body)) (h : IsUnsigned body v) :
    ∃ n, readNumeral cs = some n ∧ n.negative = negative ∧ n.value = v := by
  cases h with
  | @whole ds es e hne hds hes =>
    refine ⟨⟨negative, ds, [], e⟩, readNumeral_of_whole hsign hne hds hes, rfl, ?_⟩
    simp [Numeral.value]
  | @mixed ds fs es e hne hds hfs hes =>
    refine ⟨⟨negative, ds, fs, e⟩, readNumeral_of_point hsign (.inl hne) hds hfs hes, rfl, ?_⟩
    exact (mixed_value ds fs e).symm
  | @fraction fs es e hne hfs hes =>
    refine ⟨⟨negative, [], fs, e⟩, ?_, rfl, ?_⟩
    · exact readNumeral_of_point hsign (.inr hne) (by simp [AreDigits]) hfs hes
    · have hvalue := mixed_value [] fs e
      simpa [Numeral.value, natural] using hvalue.symm

/-- The literals are what is read as a numeral, and their sizes are those of the numerals. -/
theorem isDecimal_iff :
    IsDecimal cs negative v ↔ ∃ n, readNumeral cs = some n ∧ n.negative = negative ∧ n.value = v := by
  rw [isDecimal_iff_splitSign]
  constructor
  · rintro ⟨rfl, h⟩
    exact readNumeral_of_isUnsigned rfl h
  · rintro ⟨n, hread, rfl, rfl⟩
    exact isUnsigned_of_readNumeral hread

/-! ## Rounding -/

/-- The number of digits bounds a natural on both sides. -/
theorem digits_bounds {n : Nat} (hn : n ≠ 0) :
    10 ^ ((Nat.toDigits 10 n).length - 1) ≤ n ∧ n < 10 ^ (Nat.toDigits 10 n).length := by
  have hpos : 0 < (Nat.toDigits 10 n).length := Nat.length_toDigits_pos
  refine ⟨?_, (Nat.length_toDigits_le_iff (by norm_num) hpos).mp le_rfl⟩
  rcases Nat.eq_zero_or_pos ((Nat.toDigits 10 n).length - 1) with hone | hmore
  · rw [hone, pow_zero]
    omega
  · have h := mt (Nat.length_toDigits_le_iff (b := 10) (n := n) (by norm_num) hmore).mpr (by omega)
    omega

/-- Far beyond the largest number everything becomes infinite. -/
theorem isNearest_of_large (h : 10 ^ (310 : Int) ≤ v) : IsNearest v infinityBits := by
  have hpower : 2 ^ 1024 ≤ 10 ^ 310 := by decide +kernel
  have hpower' : (2 : ℚ) ^ (1024 : Int) ≤ 10 ^ (310 : Int) := by exact_mod_cast hpower
  apply isNearest_infinity
  rw [size_infinity]
  exact hpower'.trans h

/-- Far below the smallest number everything becomes zero. -/
theorem isNearest_of_small (h : v < 10 ^ (-330 : Int)) : IsNearest v 0 := by
  have hpower : 2 * 2 ^ 1074 < 10 ^ 330 := by decide +kernel
  have hpower' : (2 : ℚ) * 2 ^ 1074 < 10 ^ 330 := by exact_mod_cast hpower
  have hhalf : (2 : ℚ) * 10 ^ (-330 : Int) < 2 ^ (-1074 : Int) := by
    rw [zpow_neg, zpow_neg, zpow_ofNat, zpow_ofNat, ← div_eq_mul_inv, div_lt_iff₀ (by positivity), inv_mul_eq_div,
      lt_div_iff₀ (by positivity)]
    exact hpower'
  apply isNearest_zero
  rw [size_one]
  linarith

/-- The pattern that is computed for a decimal is the one that it is rounded to. -/
theorem nearestDecimalBits_isNearest (n : Nat) (e : Int) : IsNearest (n * 10 ^ e) (nearestDecimalBits n e) := by
  unfold nearestDecimalBits
  dsimp only
  by_cases hn : n = 0
  · subst hn
    rw [if_pos rfl, Nat.cast_zero, zero_mul, ← size_zero]
    exact isNearest_size (Nat.zero_le _)
  · obtain ⟨hlow, hhigh⟩ := digits_bounds hn
    have hpos : 0 < (Nat.toDigits 10 n).length := Nat.length_toDigits_pos
    rw [if_neg hn]
    generalize (Nat.toDigits 10 n).length = count at hlow hhigh hpos ⊢
    have hlow' : (10 : ℚ) ^ (count - 1) ≤ n := by exact_mod_cast hlow
    have hhigh' : (n : ℚ) < 10 ^ count := by exact_mod_cast hhigh
    by_cases hlarge : 310 < (count : Int) + e
    · rw [if_pos hlarge]
      apply isNearest_of_large
      calc (10 : ℚ) ^ (310 : Int) ≤ 10 ^ (((count - 1 : Nat) : Int) + e) :=
            zpow_le_zpow_right₀ (by norm_num) (by omega)
        _ = 10 ^ (count - 1) * 10 ^ e := by rw [zpow_add₀ (by norm_num), zpow_natCast]
        _ ≤ n * 10 ^ e := by gcongr
    · rw [if_neg hlarge]
      by_cases hsmall : (count : Int) + e < -330
      · rw [if_pos hsmall]
        apply isNearest_of_small
        calc (n : ℚ) * 10 ^ e < 10 ^ count * 10 ^ e := by gcongr
          _ = 10 ^ ((count : Int) + e) := by rw [zpow_add₀ (by norm_num), zpow_natCast]
          _ ≤ 10 ^ (-330 : Int) := zpow_le_zpow_right₀ (by norm_num) hsmall.le
      · rw [if_neg hsmall]
        by_cases he : 0 ≤ e
        · obtain ⟨k, rfl⟩ := Int.eq_ofNat_of_zero_le he
          rw [if_pos he]
          have h := nearestBits_isNearest (n * 10 ^ k) Nat.one_pos
          simpa using h
        · obtain ⟨k, hk⟩ := Int.eq_ofNat_of_zero_le (show 0 ≤ -e by omega)
          obtain rfl : e = -(k : Int) := by omega
          rw [if_neg he, Int.neg_neg, Int.toNat_natCast]
          have h : IsNearest (n / (10 ^ k : Nat)) _ := nearestBits_isNearest n (by positivity)
          simpa [div_eq_mul_inv] using h

/-- The pattern that is read is the one that the numeral's size is rounded to. -/
theorem Numeral.bits_isNearest (n : Numeral) : IsNearest n.value n.bits :=
  nearestDecimalBits_isNearest _ _

end Primer.Number
