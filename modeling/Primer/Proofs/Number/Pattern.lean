import Primer.Proofs.Array.Length

/-!
# Numbers as patterns of bits

A number that is not NaN is its sign and the pattern of its other bits (`withSign_pattern`), and each pattern up to the
one of infinity is the pattern of a number (`pattern_withSign`).

The comparison of two numbers does not depend on which of them stands first (`beq_comm`), and a number is equal to itself
unless it is NaN (`beq_self_iff`).
-/

set_option autoImplicit false

namespace Primer.Number

open Float.Model Float.Model.UnpackedFloat

/-! ## Comparisons -/

/-- Two numbers are equal if comparing them says so. -/
theorem beq_iff_compare (x y : Float) :
    (x == y) = true ↔ x.toModel.unpack.compare y.toModel.unpack = some .eq := by
  have hbeq : (x == y) = x.toModel.unpack.beq y.toModel.unpack := rfl
  rw [hbeq]
  unfold UnpackedFloat.beq
  exact beq_iff_eq

/-- Equality in a comparison does not depend on the order. -/
theorem compare_eq_comm (a b : UnpackedFloat) : a.compare b = some .eq ↔ b.compare a = some .eq := by
  have hsizes (e e' : Int) (m m' : Nat) :
      (compare e e').then (compare m m') = .eq ↔ (compare e' e).then (compare m' m) = .eq := by
    simp only [Ordering.then_eq_eq, Int.compare_eq_eq, Nat.compare_eq_eq]
    exact and_congr eq_comm eq_comm
  cases a with
  | notANumber => cases b <;> exact Iff.rfl
  | infinity s =>
    cases b with
    | infinity s' => cases s <;> cases s' <;> decide
    | _ => cases s <;> exact iff_of_false (by rintro ⟨⟩) (by rintro ⟨⟩)
  | zero s =>
    cases b with
    | infinity s' => cases s' <;> exact iff_of_false (by rintro ⟨⟩) (by rintro ⟨⟩)
    | finite s' => cases s' <;> exact iff_of_false (by rintro ⟨⟩) (by rintro ⟨⟩)
    | _ => exact Iff.rfl
  | finite s m e hm =>
    cases b with
    | infinity s' => cases s' <;> exact iff_of_false (by rintro ⟨⟩) (by rintro ⟨⟩)
    | finite s' m' e' hm' =>
      have hsame : some ((compare e e').then (compare m m')) = some .eq ↔
          some ((compare e' e).then (compare m' m)) = some .eq := by
        rw [Option.some_inj, Option.some_inj, hsizes]
      have hswapped : some ((compare e e').then (compare m m')).swap = some .eq ↔
          some ((compare e' e).then (compare m' m)).swap = some .eq := by
        rw [Option.some_inj, Option.some_inj, Ordering.swap_eq_eq, Ordering.swap_eq_eq, hsizes]
      cases s with
      | positive =>
        cases s' with
        | positive => exact hsame
        | negative => exact iff_of_false (by rintro ⟨⟩) (by rintro ⟨⟩)
      | negative =>
        cases s' with
        | positive => exact iff_of_false (by rintro ⟨⟩) (by rintro ⟨⟩)
        | negative => exact hswapped
    | _ => cases s <;> exact iff_of_false (by rintro ⟨⟩) (by rintro ⟨⟩)

/-- Equality of numbers does not depend on the order. -/
theorem beq_comm (x y : Float) : (x == y) = (y == x) := by
  rw [Bool.eq_iff_iff, beq_iff_compare, beq_iff_compare]
  exact compare_eq_comm _ _

/-- A number compares as equal to itself unless it is NaN. -/
theorem compare_self_iff (a : UnpackedFloat) : a.compare a = some .eq ↔ a ≠ .notANumber := by
  cases a with
  | notANumber => exact iff_of_false (by rintro ⟨⟩) (fun h => h rfl)
  | infinity s => cases s <;> exact iff_of_true rfl (by rintro ⟨⟩)
  | zero s => exact iff_of_true rfl (by rintro ⟨⟩)
  | finite s m e hm =>
    have hsizes : (compare e e).then (compare m m) = .eq := by
      rw [Ordering.then_eq_eq, Int.compare_eq_eq, Nat.compare_eq_eq]
      exact ⟨rfl, rfl⟩
    refine iff_of_true ?_ (by rintro ⟨⟩)
    cases s with
    | positive => exact congrArg some hsizes
    | negative => exact congrArg some (Ordering.swap_eq_eq.mpr hsizes)

/-- A number is NaN if it unpacks as one. -/
theorem unpack_eq_notANumber_iff (x : Float) : x.toModel.unpack = .notANumber ↔ isNaN x = true := by
  unfold isNaN
  rw [unpack_eq]
  by_cases hspecial : exponentField x = 0x7ff
  · rw [if_pos hspecial]
    by_cases hempty : fractionField x = 0
    · rw [if_pos hempty]
      exact iff_of_false (by rintro ⟨⟩) (by simp [hempty])
    · rw [if_neg hempty]
      exact iff_of_true rfl (by simp [hspecial, hempty])
  · rw [if_neg hspecial]
    by_cases hzero : (magnitude x).mantissa = 0
    · rw [dif_pos hzero]
      exact iff_of_false (by rintro ⟨⟩) (by simp [hspecial])
    · rw [dif_neg hzero]
      exact iff_of_false (by rintro ⟨⟩) (by simp [hspecial])

/-- A number is equal to itself unless it is NaN. -/
theorem beq_self_iff (x : Float) : (x == x) = true ↔ isNaN x = false := by
  rw [beq_iff_compare, compare_self_iff, Ne, unpack_eq_notANumber_iff, Bool.not_eq_true]

/-! ## Patterns -/

/-- The pattern of the bits of a number without the sign. -/
def pattern (x : Float) : Nat := x.toBits.toNat % 2 ^ 63

/-- Packed fields stand in a row. -/
theorem toNat_packComponents (s : Sign) (e : BitVec 11) (m : BitVec 52) :
    (packComponents .binary64 s e m).toNat = s.toBitVec.toNat * 2 ^ 63 + e.toNat * 2 ^ 52 + m.toNat := by
  unfold packComponents
  rw [BitVec.toNat_append, BitVec.toNat_append, ← Nat.shiftLeft_add_eq_or_of_lt m.isLt,
    ← Nat.shiftLeft_add_eq_or_of_lt e.isLt, Nat.shiftLeft_eq, Nat.shiftLeft_eq]
  omega

/-- The three fields of a pattern make up the pattern. -/
theorem packComponents_fields (b : BitVec 64) :
    packComponents .binary64 (Sign.ofBitVec (@unpackSign .binary64 b)) (@unpackExponent .binary64 b)
      (@unpackMantissa .binary64 b) = b := by
  have hsign : (Sign.ofBitVec (@unpackSign .binary64 b)).toBitVec = @unpackSign .binary64 b := by
    generalize @unpackSign .binary64 b = s
    revert s
    decide
  apply BitVec.eq_of_toNat_eq
  rw [toNat_packComponents, hsign]
  unfold unpackSign unpackExponent unpackMantissa
  simp only [BitVec.toNat_cast, BitVec.extractLsb_toNat, Nat.shiftRight_eq_div_pow]
  have hlt := b.isLt
  omega

/-- A pattern that is not one of NaN is packed as it was. -/
theorem pack_unpack {b : BitVec 64} (h : @unpackExponent .binary64 b = -1#11 → @unpackMantissa .binary64 b = 0#52) :
    UnpackedFloat.pack .binary64 (UnpackedFloat.unpack .binary64 b) = b := by
  refine Eq.trans ?_ (packComponents_fields b)
  have hmantissa := (@unpackMantissa .binary64 b).isLt
  have hexponent := (@unpackExponent .binary64 b).isLt
  change _ < 2 ^ 52 at hmantissa
  change _ < 2 ^ 11 at hexponent
  unfold UnpackedFloat.unpack
  dsimp only
  by_cases hspecial : @unpackExponent .binary64 b = -1#11
  · rw [if_pos hspecial, if_pos (h hspecial), hspecial, h hspecial]
    rfl
  rw [if_neg hspecial]
  by_cases hleast : @unpackExponent .binary64 b = 0#11
  · rw [if_pos hleast]
    by_cases hempty : @unpackMantissa .binary64 b = 0#52
    · rw [dif_pos hempty, hleast, hempty]
      rfl
    · rw [dif_neg hempty, hleast]
      have hlog : (@unpackMantissa .binary64 b).toNat.log2 < 52 := by
        apply (Nat.log2_lt ?_).mpr hmantissa
        exact fun hzero => hempty (BitVec.eq_of_toNat_eq hzero)
      unfold UnpackedFloat.pack
      dsimp only
      rw [if_neg (by decide), if_neg (by show ¬_ + 1 = 53; omega)]
      congr 1
      exact BitVec.ofNat_toNat _ _
  · rw [if_neg hleast]
    have hhidden : (1#1 ++ @unpackMantissa .binary64 b).toNat = 2 ^ 52 + (@unpackMantissa .binary64 b).toNat := by
      rw [BitVec.toNat_append, ← Nat.shiftLeft_add_eq_or_of_lt hmantissa]
      rfl
    have hlog : (1#1 ++ @unpackMantissa .binary64 b).toNat.log2 = 52 := by
      rw [hhidden]
      apply (Nat.log2_eq_iff (by omega)).mpr
      omega
    have hbias : ((@unpackExponent .binary64 b).toNat - (((Format.binary64.exponentBias : Nat) : Int) + (52 : Nat)) +
        ((Format.binary64.exponentBias : Nat) : Int) + (52 : Nat)).toNat = (@unpackExponent .binary64 b).toNat := by
      omega
    have hbelow : ¬2 ^ 11 ≤ (@unpackExponent .binary64 b).toNat + 1 := by
      intro hle
      apply hspecial
      apply BitVec.eq_of_toNat_eq
      show _ = 2047
      omega
    unfold UnpackedFloat.pack
    dsimp only
    rw [hbias, if_neg hbelow, if_pos (by rw [hlog]; rfl)]
    congr 1
    · exact BitVec.ofNat_toNat _ _
    · apply BitVec.eq_of_toNat_eq
      rw [hhidden, BitVec.toNat_ofNat]
      omega

/-- The bits determine a number. -/
theorem eq_of_toBits {x y : Float} (h : x.toBits = y.toBits) : x = y := by
  obtain ⟨⟨b, hb⟩⟩ := x
  obtain ⟨⟨c, hc⟩⟩ := y
  obtain rfl : b = c := h
  rfl

/-- A word that is not one of NaN is the word of its number. -/
theorem toBits_ofBits {w : UInt64} (h : w.toNat % 2 ^ 63 ≤ infinityBits) : (Float.ofBits w).toBits = w := by
  have hinfinity : infinityBits = 0x7ff * 2 ^ 52 := rfl
  have hpacked : UnpackedFloat.pack .binary64 (UnpackedFloat.unpack .binary64 w.toBitVec) = w.toBitVec := by
    apply pack_unpack
    intro hspecial
    have hexponent := congrArg BitVec.toNat hspecial
    unfold unpackExponent at hexponent
    simp only [BitVec.toNat_cast, BitVec.extractLsb_toNat, Nat.shiftRight_eq_div_pow, UInt64.toNat_toBitVec]
      at hexponent
    change w.toNat / 2 ^ 52 % 2 ^ 11 = 2047 at hexponent
    apply BitVec.eq_of_toNat_eq
    unfold unpackMantissa
    simp only [BitVec.toNat_cast, BitVec.extractLsb_toNat, Nat.shiftRight_zero, UInt64.toNat_toBitVec]
    change w.toNat % 2 ^ 52 = 0
    omega
  change UInt64.ofBitVec (UnpackedFloat.pack .binary64 (UnpackedFloat.unpack .binary64 w.toBitVec)) = w
  rw [hpacked]

/-! ## The kind of a number by its pattern -/

variable {x : Float} {b : Nat} {negative : Bool}

/-- A number has 64 bits. -/
theorem toNat_toBits_lt (x : Float) : x.toBits.toNat < 2 ^ 64 := x.toBits.toNat_lt

/-- The exponent is the upper part of the pattern. -/
theorem exponentField_eq_pattern (x : Float) : exponentField x = pattern x / 2 ^ 52 := by
  have hlt := toNat_toBits_lt x
  show x.toBits.toNat / 2 ^ 52 % 2 ^ 11 = x.toBits.toNat % 2 ^ 63 / 2 ^ 52
  omega

/-- The fraction is the lower part of the pattern. -/
theorem fractionField_eq_pattern (x : Float) : fractionField x = pattern x % 2 ^ 52 := by
  show x.toBits.toNat % 2 ^ 52 = x.toBits.toNat % 2 ^ 63 % 2 ^ 52
  omega

/-- The pattern has 63 bits. -/
theorem pattern_lt (x : Float) : pattern x < 2 ^ 63 := Nat.mod_lt _ (by decide)

/-- Finite numbers have the patterns below the one of infinity. -/
theorem isFinite_iff_pattern (x : Float) : isFinite x = true ↔ pattern x < infinityBits := by
  have hinfinity : infinityBits = 0x7ff * 2 ^ 52 := rfl
  have hlt := pattern_lt x
  rw [isFinite_iff, exponentField_eq_pattern]
  omega

/-- The infinite numbers have the pattern of infinity. -/
theorem isInfinite_iff_pattern (x : Float) : isInfinite x = true ↔ pattern x = infinityBits := by
  have hinfinity : infinityBits = 0x7ff * 2 ^ 52 := rfl
  unfold isInfinite
  rw [Bool.and_eq_true, beq_iff_eq, beq_iff_eq, exponentField_eq_pattern, fractionField_eq_pattern]
  omega

/-- NaN has a pattern above the one of infinity. -/
theorem isNaN_iff_pattern (x : Float) : isNaN x = true ↔ infinityBits < pattern x := by
  have hinfinity : infinityBits = 0x7ff * 2 ^ 52 := rfl
  have hlt := pattern_lt x
  unfold isNaN
  rw [Bool.and_eq_true, beq_iff_eq, bne_iff_ne, exponentField_eq_pattern, fractionField_eq_pattern]
  omega

/-- A pattern below the one of infinity is a number. -/
theorem isNaN_of_pattern_lt (h : pattern x < infinityBits) : isNaN x = false := by
  rw [← Bool.not_eq_true, isNaN_iff_pattern]
  exact Nat.not_lt.mpr (Nat.le_of_lt h)

/-- A finite number is zero if its pattern is. -/
theorem mantissa_eq_zero_iff (x : Float) : (magnitude x).mantissa = 0 ↔ pattern x = 0 := by
  have hhidden : Nat.pow 2 52 = 2 ^ 52 := rfl
  unfold magnitude
  rw [exponentField_eq_pattern, fractionField_eq_pattern]
  split <;> dsimp only <;> omega

/-! ## Numbers by sign and pattern -/

/-- A negative number has its highest bit set. -/
theorem isNegative_iff (x : Float) : isNegative x = true ↔ 2 ^ 63 ≤ x.toBits.toNat := by
  have hlt := toNat_toBits_lt x
  show (x.toBits.toNat / 2 ^ 63 == 1) = true ↔ _
  rw [beq_iff_eq]
  omega

/-- The bits of a number are its sign and its pattern. -/
theorem toNat_toBits (x : Float) : x.toBits.toNat = if isNegative x then pattern x + 2 ^ 63 else pattern x := by
  have hlt := toNat_toBits_lt x
  unfold pattern
  split
  · have := (isNegative_iff x).mp ‹_›
    omega
  · have := mt (isNegative_iff x).mpr ‹_›
    omega

/-- The bits of a signed pattern are the sign and the pattern. -/
theorem toNat_toBits_withSign (h : b ≤ infinityBits) :
    (withSign negative b).toBits.toNat = if negative then b + 2 ^ 63 else b := by
  have hinfinity : infinityBits = 0x7ff * 2 ^ 52 := rfl
  have hword : (if negative then b + Nat.pow 2 63 else b).toUInt64.toNat = if negative then b + 2 ^ 63 else b := by
    rw [Nat.toUInt64_eq, UInt64.toNat_ofNat']
    apply Nat.mod_eq_of_lt
    show (if negative then b + 2 ^ 63 else b) < _
    split <;> omega
  unfold withSign ofBitPattern
  rw [toBits_ofBits, hword]
  rw [hword]
  split <;> omega

/-- A signed pattern has that pattern. -/
theorem pattern_withSign (h : b ≤ infinityBits) : pattern (withSign negative b) = b := by
  have hinfinity : infinityBits = 0x7ff * 2 ^ 52 := rfl
  unfold pattern
  rw [toNat_toBits_withSign h]
  split <;> omega

/-- A signed pattern has that sign. -/
theorem isNegative_withSign (h : b ≤ infinityBits) : isNegative (withSign negative b) = negative := by
  have hinfinity : infinityBits = 0x7ff * 2 ^ 52 := rfl
  rw [Bool.eq_iff_iff, isNegative_iff, toNat_toBits_withSign h]
  cases negative
  · simp only [Bool.false_eq_true, if_false, iff_false]
    omega
  · simp

/-- A number that is not NaN is determined by its sign and its pattern. -/
theorem eq_of_pattern {y : Float} (hsign : isNegative x = isNegative y) (hpattern : pattern x = pattern y) : x = y := by
  apply eq_of_toBits
  apply UInt64.toNat_inj.mp
  rw [toNat_toBits, toNat_toBits, hsign, hpattern]

/-- A number is its sign and its pattern. -/
theorem withSign_pattern (h : isNaN x = false) : withSign (isNegative x) (pattern x) = x := by
  have hle : pattern x ≤ infinityBits := by
    apply Nat.le_of_not_lt
    rw [← isNaN_iff_pattern, h]
    exact Bool.false_ne_true
  exact eq_of_pattern (isNegative_withSign hle) (pattern_withSign hle)

end Primer.Number
