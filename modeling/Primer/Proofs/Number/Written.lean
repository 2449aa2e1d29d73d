import Primer.Proofs.Number.Conversion
import Primer.Proofs.Number.Shortest

/-!
# Written numbers

A finite number is written as a decimal literal of its sign and of exactly the shortest decimal that reads back, and the
reader gives the number again (`render_exact_and_read_back`).

That the text denotes the decimal holds for every layout (`Layout.write_isUnsigned`): wherever the point stands, before,
among or behind the digits, what stands before and behind it together are the digits of the decimal, with zeros that do
not count. Which layout is taken depends on the position of the point alone, and that is the decade of the size
(`lt_point_iff`).
-/

set_option autoImplicit false

namespace Primer.Number

variable {x y : Float} {d : Decimal} {v : ℚ} {b : Nat} {negative : Bool} {ds cs : List Char} {e point : Int}

/-! ## Digits and exponents -/

/-- The digits of a number are digits. -/
theorem areDigits_digitChars (n : Nat) : AreDigits (digitChars n) :=
  fun _ => Nat.isDigit_of_mem_toDigits (by norm_num) (by norm_num)

/-- A number has digits. -/
theorem digitChars_ne_nil (n : Nat) : digitChars n ≠ [] := Nat.toDigits_ne_nil

/-- The digits of a number are read as it. -/
theorem natural_digitChars (n : Nat) : natural (digitChars n) = n := Nat.ofDigitChars_ten_toDigits

/-- Zeros are digits. -/
theorem areDigits_zeros (n : Nat) : AreDigits (zeros n) := by
  intro c hc
  rw [List.eq_of_mem_replicate hc]
  rfl

/-- Zeros in front do not change a number. -/
theorem natural_zeros_append (n : Nat) (ds : List Char) : natural (zeros n ++ ds) = natural ds := by
  rw [natural_append, natural, zeros, Nat.ofDigitChars_replicate_zero, Nat.mul_zero, Nat.zero_mul, Nat.zero_add]

/-- Each zero at the end makes a number ten times as large. -/
theorem natural_append_zeros (ds : List Char) (n : Nat) : natural (ds ++ zeros n) = natural ds * 10 ^ n := by
  have hzeros := natural_zeros_append n []
  rw [List.append_nil] at hzeros
  rw [natural_append, hzeros, zeros, List.length_replicate]
  rfl

/-- An exponent that is written denotes itself, with any padding. -/
theorem isExponent_exponentChars (width : Nat) (e : Int) : IsExponent ('e' :: exponentChars width e) e := by
  have hdigits := (areDigits_zeros (width - (digitChars e.natAbs).length)).append (areDigits_digitChars e.natAbs)
  have hne := List.append_ne_nil_of_right_ne_nil (zeros (width - (digitChars e.natAbs).length))
    (digitChars_ne_nil e.natAbs)
  have hvalue : natural (zeros (width - (digitChars e.natAbs).length) ++ digitChars e.natAbs) = e.natAbs := by
    rw [natural_zeros_append, natural_digitChars]
  unfold exponentChars
  by_cases he : e < 0
  · have h := IsExponent.minus (.inl rfl) hne hdigits
    rw [hvalue] at h
    rw [if_pos he]
    convert h using 1
    omega
  · have h := IsExponent.plus (.inl rfl) hne hdigits
    rw [hvalue] at h
    rw [if_neg he]
    convert h using 1
    omega

/-! ## Layouts -/

/-- Digits with a point among them or around them denote what they denote at an exponent. -/
theorem isUnsigned_positional (hne : ds ≠ []) (hds : AreDigits ds) (point : Int) :
    IsUnsigned (positional ds point) (natural ds * 10 ^ (point - ds.length)) := by
  unfold positional
  by_cases hbehind : (ds.length : Int) ≤ point
  · have h := IsUnsigned.whole (List.append_ne_nil_of_left_ne_nil hne _)
      (hds.append (areDigits_zeros (point.toNat - ds.length))) .absent
    have hexponent : point - ds.length = (point.toNat - ds.length : Nat) := by omega
    rw [if_pos hbehind, hexponent, zpow_natCast]
    rw [List.append_nil, natural_append_zeros, zpow_zero, mul_one] at h
    exact_mod_cast h
  · by_cases hamong : 0 < point
    · have hbefore : ds.take point.toNat ≠ [] := by
        rw [Ne, List.take_eq_nil_iff]
        exact fun h => h.elim (by omega) hne
      have h := IsUnsigned.mixed hbefore (fun c hc => hds c (List.mem_of_mem_take hc))
        (fun c (hc : c ∈ ds.drop point.toNat) => hds c (List.mem_of_mem_drop hc)) .absent
      have hexponent : point - ds.length = 0 - ((ds.drop point.toNat).length : Int) := by
        rw [List.length_drop]
        omega
      rw [if_neg hbehind, if_pos hamong, hexponent]
      rwa [List.append_nil, mixed_value, List.take_append_drop] at h
    · have h : IsUnsigned (['0'] ++ '.' :: ((zeros (-point).toNat ++ ds) ++ [])) _ :=
        .mixed (List.cons_ne_nil _ _) (by decide) ((areDigits_zeros _).append hds) .absent
      have hexponent : point - ds.length = 0 - ((zeros (-point).toNat ++ ds).length : Int) := by
        rw [List.length_append, zeros, List.length_replicate]
        omega
      have hvalue : natural (['0'] ++ (zeros (-point).toNat ++ ds)) = natural ds :=
        natural_zeros_append ((-point).toNat + 1) ds
      rw [if_neg hbehind, if_neg hamong, hexponent]
      rwa [List.append_nil, mixed_value, hvalue] at h

/-- The form with an exponent is a numeral of its digits and its point. -/
theorem isUnsigned_scientific (width : Nat) (hne : ds ≠ []) (hds : AreDigits ds) (point : Int) :
    IsUnsigned (scientific width ds point) (natural ds * 10 ^ (point - ds.length)) := by
  have hexponent := isExponent_exponentChars width (point - 1)
  match ds with
  | [c] => exact .whole (List.cons_ne_nil _ _) hds hexponent
  | c :: c' :: rest =>
    obtain ⟨hc, hrest⟩ := List.forall_mem_cons.mp hds
    have h : IsUnsigned ([c] ++ _) _ :=
      .mixed (List.cons_ne_nil _ _) (List.forall_mem_singleton.mpr hc) hrest hexponent
    have hposition : point - (c :: c' :: rest).length = point - 1 - (c' :: rest).length := by
      simp only [List.length_cons]
      omega
    rw [mixed_value] at h
    rw [hposition]
    exact h

/-- Every layout writes a literal that denotes the decimal. -/
theorem Layout.write_isUnsigned (l : Layout) (d : Decimal) : IsUnsigned (l.write d) d.rational := by
  have hvalue : d.rational = natural (digitChars d.digits) *
      10 ^ ((digitChars d.digits).length + d.exponent - (digitChars d.digits).length) := by
    rw [natural_digitChars, add_sub_cancel_left]
    rfl
  rw [hvalue]
  unfold Layout.write
  dsimp only
  split
  · exact isUnsigned_positional (digitChars_ne_nil _) (areDigits_digitChars _) _
  · exact isUnsigned_scientific _ (digitChars_ne_nil _) (areDigits_digitChars _) _

/-- A text without the letter of an exponent. -/
def HasNoExponent (cs : List Char) : Prop := ∀ c ∈ cs, c ≠ 'e' ∧ c ≠ 'E'

/-- Digits have no exponent. -/
theorem hasNoExponent_of_digits (hds : AreDigits ds) : HasNoExponent ds := by
  intro c hc
  have hdigit := hds c hc
  constructor
  · rintro rfl
    cases hdigit
  · rintro rfl
    cases hdigit

/-- Two texts in a row have no exponent if neither has. -/
theorem hasNoExponent_append_iff : HasNoExponent (ds ++ cs) ↔ HasNoExponent ds ∧ HasNoExponent cs :=
  List.forall_mem_append

/-- The form without an exponent has none. -/
theorem hasNoExponent_positional (hds : AreDigits ds) (point : Int) : HasNoExponent (positional ds point) := by
  have hpoint : HasNoExponent ['.'] := by simp [HasNoExponent]
  unfold positional
  split
  · exact hasNoExponent_of_digits (hds.append (areDigits_zeros _))
  · split
    · have hbefore := hasNoExponent_of_digits fun c (hc : c ∈ ds.take point.toNat) => hds c (List.mem_of_mem_take hc)
      have hbehind := hasNoExponent_of_digits fun c (hc : c ∈ ds.drop point.toNat) => hds c (List.mem_of_mem_drop hc)
      exact hasNoExponent_append_iff.mpr ⟨hbefore, hasNoExponent_append_iff.mpr ⟨hpoint, hbehind⟩⟩
    · have hbefore : HasNoExponent ['0'] := hasNoExponent_of_digits (by decide)
      have hbehind := hasNoExponent_of_digits ((areDigits_zeros (-point).toNat).append hds)
      exact hasNoExponent_append_iff.mpr ⟨hbefore, hasNoExponent_append_iff.mpr ⟨hpoint, hbehind⟩⟩

/-- The text has no exponent if the position of the point is among those of the layout. -/
theorem Layout.hasNoExponent_write_iff (l : Layout) (d : Decimal) :
    HasNoExponent (l.write d) ↔ l.lowestPoint ≤ (digitChars d.digits).length + d.exponent ∧
      (digitChars d.digits).length + d.exponent ≤ l.highestPoint := by
  unfold Layout.write
  simp only [Bool.and_eq_true, decide_eq_true_eq]
  split
  · rename_i hpoint
    exact iff_of_true (hasNoExponent_positional (areDigits_digitChars _) _) hpoint
  · rename_i hpoint
    refine iff_of_false ?_ hpoint
    intro h
    exact (h 'e' (List.mem_append_right _ List.mem_cons_self)).1 rfl

/-- The point stands behind the decades that are not above the decimal. -/
theorem lt_point_iff (hd : d.digits ≠ 0) (k : Int) :
    k < (digitChars d.digits).length + d.exponent ↔ (10 : ℚ) ^ k ≤ d.rational := by
  obtain ⟨hlow, hhigh⟩ := digits_bounds hd
  have hpos : 0 < (digitChars d.digits).length := Nat.length_toDigits_pos
  change 10 ^ ((digitChars d.digits).length - 1) ≤ d.digits at hlow
  change d.digits < 10 ^ (digitChars d.digits).length at hhigh
  unfold Decimal.rational
  generalize (digitChars d.digits).length = count at hlow hhigh hpos ⊢
  have hlow' : (10 : ℚ) ^ (count - 1) ≤ d.digits := by exact_mod_cast hlow
  have hhigh' : (d.digits : ℚ) < 10 ^ count := by exact_mod_cast hhigh
  constructor
  · intro hk
    calc (10 : ℚ) ^ k ≤ 10 ^ (((count - 1 : Nat) : Int) + d.exponent) :=
          zpow_le_zpow_right₀ (by norm_num) (by omega)
      _ = 10 ^ (count - 1) * 10 ^ d.exponent := by rw [zpow_add₀ (by norm_num), zpow_natCast]
      _ ≤ d.digits * 10 ^ d.exponent := by gcongr
  · intro hle
    have hlt : (10 : ℚ) ^ k < 10 ^ ((count : Int) + d.exponent) := by
      rw [zpow_add₀ (by norm_num), zpow_natCast]
      refine hle.trans_lt ?_
      gcongr
    exact (zpow_lt_zpow_iff_right₀ (by norm_num)).mp hlt

/-! ## The text of a number -/

/-- A finite number is neither NaN nor infinite. -/
theorem not_special_of_isFinite (hx : isFinite x = true) : isNaN x = false ∧ isInfinite x = false := by
  have hlt := (isFinite_iff_pattern x).mp hx
  refine ⟨isNaN_of_pattern_lt hlt, ?_⟩
  rw [← Bool.not_eq_true, isInfinite_iff_pattern]
  exact hlt.ne

/-- Zero is written as a single digit. -/
theorem render_of_zero (hx : isFinite x = true) (hzero : pattern x = 0) : render x = "0" := by
  obtain ⟨hnan, hinfinite⟩ := not_special_of_isFinite hx
  unfold render
  rw [hnan, hinfinite, if_neg Bool.false_ne_true, if_neg Bool.false_ne_true,
    if_pos ((mantissa_eq_zero_iff x).mpr hzero)]

/-- A finite number is written as its sign and its shortest digits. -/
theorem render_of_ne_zero (hx : isFinite x = true) (hne : pattern x ≠ 0) :
    (render x).toList = (if isNegative x then ['-'] else []) ++ Layout.value.write (shortestDecimal (magnitude x)) := by
  obtain ⟨hnan, hinfinite⟩ := not_special_of_isFinite hx
  unfold render Layout.writeFinite
  rw [hnan, hinfinite, if_neg Bool.false_ne_true, if_neg Bool.false_ne_true,
    if_neg (mt (mantissa_eq_zero_iff x).mp hne), String.toList_ofList]
  split <;> rfl

/-- A number that is not zero is written as the shortest decimal, with its sign. -/
theorem isDecimal_render (hx : isFinite x = true) (hne : pattern x ≠ 0) :
    IsDecimal (render x).toList (isNegative x) (shortestDecimal (magnitude x)).rational := by
  have hbody := Layout.value.write_isUnsigned (shortestDecimal (magnitude x))
  rw [render_of_ne_zero hx hne]
  cases isNegative x
  · exact .unsigned hbody
  · exact .minus hbody

/-- The digits of a finite number are the shortest that are read back as it. -/
theorem isShortest_shortestDecimal (hx : isFinite x = true) (hne : pattern x ≠ 0) :
    IsShortest (shortestDecimal (magnitude x)) (pattern x) := by
  rw [magnitude_eq]
  exact shortestDecimal_isShortest (Nat.pos_of_ne_zero hne) ((isFinite_iff_pattern x).mp hx)

/-- Sizes from one millionth up to below `10 ^ 21` are written without an exponent. -/
theorem hasNoExponent_render_iff (hx : isFinite x = true) (hne : pattern x ≠ 0) :
    HasNoExponent (render x).toList ↔ (10 : ℚ) ^ (-6 : Int) ≤ (shortestDecimal (magnitude x)).rational ∧
      (shortestDecimal (magnitude x)).rational < 10 ^ 21 := by
  have hlast := (isShortest_shortestDecimal hx hne).last
  have hdigits : (shortestDecimal (magnitude x)).digits ≠ 0 := by omega
  have hlow := lt_point_iff hdigits (-6)
  have hhigh : _ ↔ (10 : ℚ) ^ 21 ≤ _ := lt_point_iff hdigits 21
  have hlowest : Layout.value.lowestPoint = -5 := rfl
  have hhighest : Layout.value.highestPoint = 21 := rfl
  have hsign : HasNoExponent (if isNegative x then ['-'] else []) := by
    split <;> simp [HasNoExponent]
  rw [render_of_ne_zero hx hne, hasNoExponent_append_iff, and_iff_right hsign]
  refine (Layout.hasNoExponent_write_iff _ _).trans (and_congr ?_ ?_)
  · rw [← hlow]
    omega
  · rw [← not_le, ← hhigh]
    omega

/-! ## Reading back -/

/-- A decimal literal in the range of the numbers is read as the nearest one. -/
theorem textToNumber_of_decimal {s : String} (h : IsDecimal s.toList negative v) (hb : IsNearest v b)
    (hfinite : b < infinityBits) : textToNumber s = withSign negative b := by
  obtain ⟨hne, hchars⟩ := (IsLiteral.decimal h hb).notBlank
  have hplain : IsPlain s.toList := by
    constructor
    · intro mark ds hmark htext
      rw [htext] at h
      exact not_isDecimal_of_mark hmark h
    · exact fun _ hinfinity => not_isDecimal_of_isInfinity hinfinity h
  have htrim : Text.trimChars ([] ++ s.toList ++ []) = s.toList := trimChars_surrounded (by simp) hchars (by simp)
  rw [List.nil_append, List.append_nil] at htrim
  obtain ⟨n, hread, rfl, rfl⟩ := isDecimal_iff.mp h
  have hbits : n.bits = b := n.bits_isNearest.unique hb
  unfold textToNumber Text.trim
  rw [htrim, trimmedToNumber_plain hne hplain, decimal_eq, String.toList_ofList, hread]
  dsimp only [Option.elim]
  rw [if_neg (hbits ▸ hfinite.ne), Numeral.toFloat, hbits]

/-- A finite number other than zero is read back from its text. -/
theorem textToNumber_render_of_ne_zero (hx : isFinite x = true) (hne : pattern x ≠ 0) :
    textToNumber (render x) = x := by
  have hnearest := (isShortest_shortestDecimal hx hne).nearest
  rw [textToNumber_of_decimal (isDecimal_render hx hne) hnearest ((isFinite_iff_pattern x).mp hx)]
  exact withSign_pattern (not_special_of_isFinite hx).1

/-- Both zeros are read back as zero. -/
theorem textToNumber_render_of_zero (hx : isFinite x = true) (hzero : pattern x = 0) :
    textToNumber (render x) = 0.0 := by
  rw [render_of_zero hx hzero]
  rfl

open Float.Model in
/-- A number with the pattern 0 is a zero. -/
theorem unpack_of_zero (hx : isFinite x = true) (hzero : pattern x = 0) : x.toModel.unpack = .zero (sign x) := by
  rw [unpack_eq, if_neg ((isFinite_iff x).mp hx), dif_pos ((mantissa_eq_zero_iff x).mpr hzero)]

/-- The numbers that are equal to zero are those with the pattern of zero. -/
theorem beq_zero_iff (hx : isFinite x = true) : (x == 0.0) = true ↔ pattern x = 0 := by
  rw [beq_iff_compare, unpack_zero]
  by_cases hzero : pattern x = 0
  · rw [unpack_of_zero hx hzero]
    exact iff_of_true rfl hzero
  · rw [unpack_eq, if_neg ((isFinite_iff x).mp hx), dif_neg (mt (mantissa_eq_zero_iff x).mp hzero)]
    refine iff_of_false ?_ hzero
    cases sign x <;> nofun

/-- Numbers with the same text are equal. -/
theorem beq_of_render_eq (hx : isFinite x = true) (hy : isFinite y = true) (h : render x = render y) :
    (x == y) = true := by
  have hpattern : pattern 0.0 = 0 := by decide
  by_cases hx' : pattern x = 0
  · by_cases hy' : pattern y = 0
    · rw [beq_iff_compare, unpack_of_zero hx hx', unpack_of_zero hy hy']
      rfl
    · have hread := textToNumber_render_of_zero hx hx'
      rw [h, textToNumber_render_of_ne_zero hy hy'] at hread
      exact absurd (hread ▸ hpattern) hy'
  · have hread := textToNumber_render_of_ne_zero hx hx'
    by_cases hy' : pattern y = 0
    · rw [h, textToNumber_render_of_zero hy hy'] at hread
      exact absurd (hread ▸ hpattern) hx'
    · rw [h, textToNumber_render_of_ne_zero hy hy'] at hread
      rw [hread]
      exact (beq_self_iff x).mpr (not_special_of_isFinite hx).1

/-- A number is written with the characters of numbers. -/
theorem not_mem_render {x : Float} {c : Char} (hx : isFinite x = true) (hc : isNumeralChar c = false) :
    c ∉ (render x).toList := by
  intro hmem
  by_cases hzero : pattern x = 0
  · rw [render_of_zero hx hzero] at hmem
    have hdigit : c = '0' := List.mem_singleton.mp hmem
    rw [hdigit] at hc
    exact absurd hc (by decide)
  · exact absurd (areNumeralChars_of_decimal (isDecimal_render hx hzero) c hmem) (ne_true_of_eq_false hc)

/-- A finite number is written exactly, and what is written is read back as the number. -/
theorem render_exact_and_read_back (x : Float) (hx : isFinite x = true) :
    ((x == 0.0) = false →
      IsShortest (shortestDecimal (magnitude x)) (pattern x) ∧
        IsDecimal (render x).toList (isNegative x) (shortestDecimal (magnitude x)).rational ∧
        (HasNoExponent (render x).toList ↔ (10 : ℚ) ^ (-6 : Int) ≤ (shortestDecimal (magnitude x)).rational ∧
          (shortestDecimal (magnitude x)).rational < 10 ^ 21)) ∧
      textToNumber (render x) = (if x == 0.0 then 0.0 else x) ∧
      ∀ y, isFinite y = true → render x = render y → (x == y) = true := by
  refine ⟨?_, ?_, fun y hy => beq_of_render_eq hx hy⟩
  · intro hne
    rw [← Bool.not_eq_true, beq_zero_iff hx] at hne
    exact ⟨isShortest_shortestDecimal hx hne, isDecimal_render hx hne, hasNoExponent_render_iff hx hne⟩
  · by_cases hzero : pattern x = 0
    · rw [if_pos ((beq_zero_iff hx).mpr hzero)]
      exact textToNumber_render_of_zero hx hzero
    · rw [if_neg (mt (beq_zero_iff hx).mp hzero)]
      exact textToNumber_render_of_ne_zero hx hzero

/-- The number that is nearest to one tenth, which it is not equal to, is written and read back. -/
theorem render_tenth : isFinite 0.1 = true ∧ ((0.1 : Float) == 0.0) = false ∧
    IsDecimal (render 0.1).toList (isNegative 0.1) (shortestDecimal (magnitude 0.1)).rational ∧
      textToNumber (render 0.1) = if (0.1 : Float) == 0.0 then 0.0 else 0.1 := by
  have hfinite : isFinite 0.1 = true := by decide
  have hne : ((0.1 : Float) == 0.0) = false := by decide
  have h := render_exact_and_read_back 0.1 hfinite
  exact ⟨hfinite, hne, (h.1 hne).2.1, h.2.1⟩

end Primer.Number
