import Primer.Proofs.Locals.Length
import Primer.Value.Memory

/-!
# Which numbers are lengths

A length that is written is compared with doubles: it must not be below zero, it must be whole, and it must not be
beyond the largest length. What these comparisons decide is a matter of the integer that the number is. A number is
taken apart into its sign and its exact size (`Number.unpack_eq`), the order of doubles is that of exponent and
mantissa, and a whole number whose exponent is above that of the largest length is beyond it because its mantissa has
all its bits.
-/

set_option autoImplicit false

namespace Primer

open Float.Model Float.Model.UnpackedFloat

namespace Number

/-! ## Numbers taken apart -/

/-- The sign of a number. -/
def sign (x : Float) : Sign := if isNegative x then .negative else .positive

variable {x : Float}

/-- The fraction field is the mantissa of the packed bits. -/
theorem fractionField_eq (x : Float) :
    fractionField x = (@unpackMantissa .binary64 x.toBits.toBitVec).toNat := by
  show x.toBits.toBitVec.toNat % 2 ^ 52 = _
  simp only [unpackMantissa, BitVec.toNat_cast, BitVec.extractLsb_toNat, Nat.shiftRight_zero]

/-- The sign bit is the sign of the packed bits. -/
theorem sign_eq (x : Float) : Sign.ofBitVec (@unpackSign .binary64 x.toBits.toBitVec) = sign x := by
  have hlt : x.toBits.toBitVec.toNat < 2 ^ 64 := x.toBits.toBitVec.isLt
  have hbit : (@unpackSign .binary64 x.toBits.toBitVec).toNat = x.toBits.toBitVec.toNat / 2 ^ 63 := by
    unfold unpackSign
    simp only [BitVec.toNat_cast, BitVec.extractLsb_toNat, Nat.shiftRight_eq_div_pow]
    omega
  have hnegative : isNegative x = (x.toBits.toBitVec.toNat / 2 ^ 63 == 1) := rfl
  unfold sign Sign.ofBitVec
  simp only [hnegative, ← BitVec.toNat_inj, hbit]
  have hbinary : x.toBits.toBitVec.toNat / 2 ^ 63 = 0 ∨ x.toBits.toBitVec.toNat / 2 ^ 63 = 1 := by omega
  rcases hbinary with hbit | hbit
  · simp only [hbit]
    rfl
  · simp only [hbit]
    rfl

/-- Finite numbers are equal if their parts are. -/
theorem finite_eq_finite {s s' : Sign} {m m' : Nat} {e e' : Int} {h : 0 < m} {h' : 0 < m'} (hs : s = s') (hm : m = m')
    (he : e = e') : UnpackedFloat.finite s m e h = .finite s' m' e' h' := by
  subst hs hm he
  rfl

/-- What a number is when it is taken apart: its kind, its sign and its exact size. -/
theorem unpack_eq (x : Float) :
    x.toModel.unpack =
      if exponentField x = 0x7ff then
        if fractionField x = 0 then .infinity (sign x) else .notANumber
      else if h : (magnitude x).mantissa = 0 then .zero (sign x)
      else .finite (sign x) (magnitude x).mantissa (magnitude x).exponent (Nat.pos_of_ne_zero h) := by
  have hsign := sign_eq x
  have hfraction := fractionField_eq x
  have hspecial_iff : @unpackExponent .binary64 x.toBits.toBitVec = -1#11 ↔ exponentField x = 0x7ff := by
    rw [← BitVec.toNat_inj, exponentField_eq]
    rfl
  have hleast_iff : @unpackExponent .binary64 x.toBits.toBitVec = 0#11 ↔ exponentField x = 0 := by
    rw [← BitVec.toNat_inj, exponentField_eq]
    rfl
  have hempty_iff : @unpackMantissa .binary64 x.toBits.toBitVec = 0#52 ↔ fractionField x = 0 := by
    rw [← BitVec.toNat_inj, hfraction]
    rfl
  have hhidden : (1#1 ++ @unpackMantissa .binary64 x.toBits.toBitVec).toNat = fractionField x + Nat.pow 2 52 := by
    rw [BitVec.toNat_append, ← Nat.shiftLeft_add_eq_or_of_lt (BitVec.isLt _), hfraction]
    exact Nat.add_comm _ _
  change UnpackedFloat.unpack .binary64 x.toBits.toBitVec = _
  unfold UnpackedFloat.unpack
  dsimp only
  by_cases hspecial : exponentField x = 0x7ff
  · rw [if_pos hspecial, if_pos (hspecial_iff.mpr hspecial), hsign]
    by_cases hempty : fractionField x = 0
    · rw [if_pos hempty, if_pos (hempty_iff.mpr hempty)]
    · rw [if_neg hempty, if_neg (mt hempty_iff.mp hempty)]
  · rw [if_neg hspecial, if_neg (mt hspecial_iff.mp hspecial)]
    by_cases hleast : exponentField x = 0
    · have hmantissa : (magnitude x).mantissa = fractionField x := by
        rw [magnitude, if_pos hleast]
      have hexponent : (magnitude x).exponent = leastExponent := by
        rw [magnitude, if_pos hleast]
      rw [if_pos (hleast_iff.mpr hleast)]
      by_cases hempty : fractionField x = 0
      · rw [dif_pos (hempty_iff.mpr hempty), dif_pos (hmantissa.trans hempty), hsign]
      · rw [dif_neg (mt hempty_iff.mp hempty), dif_neg (hmantissa ▸ hempty)]
        refine finite_eq_finite hsign (hfraction.symm.trans hmantissa.symm) ?_
        rw [hexponent, ← exponentField_eq, hleast]
        rfl
    · have hmantissa : (magnitude x).mantissa = fractionField x + Nat.pow 2 52 := by
        rw [magnitude, if_neg hleast]
      have hexponent : (magnitude x).exponent = (exponentField x : Int) - 1075 := by
        rw [magnitude, if_neg hleast]
      have hnonzero : (magnitude x).mantissa ≠ 0 := by
        rw [hmantissa]
        exact Nat.ne_of_gt (Nat.add_pos_right _ (Nat.two_pow_pos 52))
      rw [if_neg (mt hleast_iff.mp hleast), dif_neg hnonzero]
      refine finite_eq_finite hsign (hhidden.trans hmantissa.symm) ?_
      rw [hexponent, ← exponentField_eq]
      rfl

/-- A mantissa has 53 bits. -/
theorem mantissa_lt (x : Float) : (magnitude x).mantissa < 2 ^ 53 := by
  have hfraction : fractionField x < 2 ^ 52 := Nat.mod_lt _ (by decide)
  have hhidden : Nat.pow 2 52 = 2 ^ 52 := rfl
  unfold magnitude
  split <;> dsimp only <;> omega

/-- A number that is larger than the least ones has all bits of its mantissa. -/
theorem mantissa_ge (h : leastExponent < (magnitude x).exponent) : 2 ^ 52 ≤ (magnitude x).mantissa := by
  have hhidden : Nat.pow 2 52 = 2 ^ 52 := rfl
  unfold magnitude at h ⊢
  split at h
  · simp at h
  · rw [if_neg ‹_›]
    dsimp only
    omega

/-! ## The order of numbers -/

/-- The order of two numbers is that of what they are when taken apart. -/
theorem lt_iff_compare (x y : Float) : x < y ↔ x.toModel.unpack.compare y.toModel.unpack = some .lt := by
  have hlt : x < y ↔ (decide (x.toModel.lt y.toModel = true)) = true := Iff.rfl
  rw [hlt, decide_eq_true_iff]
  unfold Float.Model.lt UnpackedFloat.lt
  exact beq_iff_eq

/-- Zero unpacks as zero. -/
theorem unpack_zero : (0.0 : Float).toModel.unpack = .zero .positive := by rfl

/-- The largest length as a double has all fifty-three bits of its mantissa. -/
theorem unpack_maxArrayLength :
    (Float.ofNat maxArrayLength).toModel.unpack = .finite .positive (maxArrayLength * 2 ^ 36) (-36) (by decide) := by rfl

/-- A number is finite unless its exponent field is full. -/
theorem isFinite_iff (x : Float) : isFinite x = true ↔ exponentField x ≠ 0x7ff := bne_iff_ne

/-- A size is beyond the largest length if its exponent is, or its mantissa is at the same exponent. -/
theorem maxArrayLength_lt_scale {m : Nat} {e : Int} (hsmall : m < 2 ^ 53) (hlarge : leastExponent < e → 2 ^ 52 ≤ m)
    (hwhole : e < 0 → m % Nat.pow 2 (-e).toNat = 0) :
    maxArrayLength < scale m e ↔ -36 < e ∨ e = -36 ∧ maxArrayLength * 2 ^ 36 < m := by
  have hleast : leastExponent = -1074 := rfl
  have hmax : maxArrayLength = 100000 := rfl
  unfold scale
  by_cases hbig : -36 < e
  · -- the mantissa is so large that thirty-five bits less leave too much
    have hmantissa := hlarge (by omega)
    simp only [hbig, true_or, iff_true]
    by_cases hzero : 0 ≤ e
    · rw [if_pos hzero]
      calc maxArrayLength < m * 1 := by omega
        _ ≤ m * Nat.pow 2 e.toNat := Nat.mul_le_mul_left m (Nat.two_pow_pos _)
    · rw [if_neg hzero]
      calc maxArrayLength < m / 2 ^ 35 := by omega
        _ ≤ m / Nat.pow 2 (-e).toNat :=
          Nat.div_le_div_left (Nat.pow_le_pow_right (by decide) (by omega)) (Nat.two_pow_pos _)
  · rw [if_neg (by omega)]
    by_cases hsame : e = -36
    · have hmod := hwhole (by omega)
      subst hsame
      change m % 2 ^ 36 = 0 at hmod
      change maxArrayLength < m / 2 ^ 36 ↔ _
      omega
    · have hle : m / Nat.pow 2 (-e).toNat ≤ m / 2 ^ 37 :=
        Nat.div_le_div_left (Nat.pow_le_pow_right (by decide) (by omega)) (Nat.two_pow_pos _)
      omega

/-- A number is whole if nothing is left of its mantissa behind the point. -/
theorem hasFraction_eq_false_iff (x : Float) : hasFraction x = false ↔
    ((magnitude x).exponent < 0 → (magnitude x).mantissa % Nat.pow 2 (-(magnitude x).exponent).toNat = 0) := by
  unfold hasFraction
  dsimp only
  by_cases hexponent : 0 ≤ (magnitude x).exponent
  · rw [if_pos hexponent]
    simp [Int.not_lt.mpr hexponent]
  · rw [if_neg hexponent]
    simp [Int.not_le.mp hexponent]

/-- The size of a whole number is zero only for a zero. -/
theorem wholePart_eq_zero_iff (hwhole : hasFraction x = false) : wholePart x = 0 ↔ (magnitude x).mantissa = 0 := by
  have hexact := (hasFraction_eq_false_iff x).mp hwhole
  unfold wholePart scale
  dsimp only
  by_cases hexponent : 0 ≤ (magnitude x).exponent
  · rw [if_pos hexponent, Nat.mul_eq_zero]
    simp
  · rw [if_neg hexponent]
    have hself := Nat.div_add_mod (magnitude x).mantissa (Nat.pow 2 (-(magnitude x).exponent).toNat)
    rw [hexact (Int.not_le.mp hexponent)] at hself
    constructor
    · intro hdiv
      rw [hdiv] at hself
      omega
    · intro hzero
      rw [hzero, Nat.zero_div]

/-- A number is an integer if it is finite and has no fraction. -/
theorem toInt?_eq_some_iff {n : Int} : toInt? x = some n ↔
    isFinite x = true ∧ hasFraction x = false ∧ n = if isNegative x then -(wholePart x : Int) else wholePart x := by
  unfold toInt?
  cases isFinite x
  · simp
  · cases hasFraction x
    · simp only [Bool.not_false, Bool.and_self, if_true, Option.some.injEq, true_and]
      exact eq_comm
    · simp

/-- A whole number is below zero if the integer that it is is. -/
theorem lt_zero_iff {n : Int} (h : toInt? x = some n) : x < 0.0 ↔ n < 0 := by
  obtain ⟨hfinite, hwhole, rfl⟩ := toInt?_eq_some_iff.mp h
  have hsize := wholePart_eq_zero_iff hwhole
  rw [lt_iff_compare, unpack_zero, unpack_eq, if_neg ((isFinite_iff x).mp hfinite)]
  unfold sign
  by_cases hzero : (magnitude x).mantissa = 0
  · rw [dif_pos hzero]
    rw [hsize.mpr hzero]
    refine iff_of_false (by rintro ⟨⟩) ?_
    split <;> omega
  · rw [dif_neg hzero]
    have hpos : 0 < wholePart x := Nat.pos_of_ne_zero (mt hsize.mp hzero)
    by_cases hnegative : isNegative x = true
    · rw [if_pos hnegative, if_pos hnegative]
      exact iff_of_true rfl (by omega)
    · rw [if_neg hnegative, if_neg hnegative]
      exact iff_of_false (by rintro ⟨⟩) (by omega)

/-- A whole number is beyond the largest length if the integer that it is is. -/
theorem maxArrayLength_lt_iff {n : Int} (h : toInt? x = some n) :
    Float.ofNat maxArrayLength < x ↔ (maxArrayLength : Int) < n := by
  obtain ⟨hfinite, hwhole, rfl⟩ := toInt?_eq_some_iff.mp h
  have hsize := wholePart_eq_zero_iff hwhole
  have hscale := maxArrayLength_lt_scale (mantissa_lt x) mantissa_ge ((hasFraction_eq_false_iff x).mp hwhole)
  rw [lt_iff_compare, unpack_maxArrayLength, unpack_eq, if_neg ((isFinite_iff x).mp hfinite)]
  unfold sign
  by_cases hzero : (magnitude x).mantissa = 0
  · rw [dif_pos hzero]
    rw [hsize.mpr hzero]
    refine iff_of_false (by rintro ⟨⟩) ?_
    split <;> omega
  · rw [dif_neg hzero]
    by_cases hnegative : isNegative x = true
    · rw [if_pos hnegative, if_pos hnegative]
      exact iff_of_false (by rintro ⟨⟩) (by omega)
    · rw [if_neg hnegative, if_neg hnegative]
      change maxArrayLength < wholePart x ↔ _ at hscale
      have hcompare : (compare (-36) (magnitude x).exponent).then
          (compare (maxArrayLength * 2 ^ 36) (magnitude x).mantissa) = .lt ↔ maxArrayLength < wholePart x := by
        rw [hscale, Ordering.then_eq_lt, Int.compare_eq_lt, Int.compare_eq_eq, Nat.compare_eq_lt, eq_comm]
      rw [Int.ofNat_lt, ← hcompare]
      exact Option.some_inj

/-- An infinite number lies outside the lengths. -/
theorem outside_of_isInfinite (hinfinite : isInfinite x = true) : x < 0.0 ∨ Float.ofNat maxArrayLength < x := by
  have hfields : exponentField x = 0x7ff ∧ fractionField x = 0 := by
    simpa [isInfinite] using hinfinite
  rw [lt_iff_compare, lt_iff_compare, unpack_zero, unpack_maxArrayLength, unpack_eq, if_pos hfields.1, if_pos hfields.2]
  unfold sign
  by_cases hnegative : isNegative x = true
  · left
    rw [if_pos hnegative]
    rfl
  · right
    rw [if_neg hnegative]
    rfl

end Number

/-! ## Lengths -/

/-- The length that a value stands for: a whole number from zero to the largest length. -/
def Value.length? : Value → Option Nat
  | .number x => (Number.toInt? x).bind fun n => if 0 ≤ n ∧ n ≤ maxArrayLength then some n.toNat else none
  | _ => none

/-- A length is within the bound. -/
theorem Value.length?_le {v : Value} {n : Nat} (h : v.length? = some n) : n ≤ maxArrayLength := by
  cases v
  case number x =>
    obtain ⟨k, -, hk⟩ := Option.bind_eq_some_iff.mp h
    split at hk
    · cases hk
      omega
    · cases hk
  all_goals cases h

/-- What is written to the length of an array resizes it if it stands for a length, and is refused otherwise. -/
theorem Memory.setLength_eq (m : Memory) (a : ArrayRef) (v : Value) :
    (m.setLength a v).toOption = v.length?.map (m.resize a) := by
  cases v
  case number x =>
    unfold setLength Value.length?
    dsimp only
    cases hint : Number.toInt? x with
    | none =>
      by_cases hinfinite : Number.isInfinite x = true
      · rcases Number.outside_of_isInfinite hinfinite with hbelow | hbeyond
        · simp [hbelow, Except.toOption]
        · by_cases hinvalid : (x < 0.0 || !Number.isWhole x) = true
          · rw [if_pos hinvalid]
            rfl
          · rw [if_neg hinvalid, if_pos hbeyond]
            rfl
      · have hwhole : Number.isWhole x = false := by
          unfold Number.toInt? at hint
          unfold Number.isWhole
          by_cases hfinite : Number.isFinite x = true
          · simpa [hfinite] using hint
          · simp [hfinite, hinfinite]
        simp [hwhole, Except.toOption]
    | some n =>
      obtain ⟨hfinite, hfraction, hn⟩ := Number.toInt?_eq_some_iff.mp hint
      have hwhole : Number.isWhole x = true := by simp [Number.isWhole, hfinite, hfraction]
      rw [Option.bind_some]
      by_cases hbelow : n < 0
      · simp [(Number.lt_zero_iff hint).mpr hbelow, Except.toOption, Int.not_le.mpr hbelow]
      · have hnonneg : ¬x < 0.0 := mt (Number.lt_zero_iff hint).mp hbelow
        by_cases hbeyond : (maxArrayLength : Int) < n
        · simp [hnonneg, hwhole, (Number.maxArrayLength_lt_iff hint).mpr hbeyond, Except.toOption,
            Int.not_le.mpr hbeyond]
        · have hwithin := mt (Number.maxArrayLength_lt_iff hint).mp hbeyond
          have hsize : n.toNat = Number.wholePart x := by
            split at hn <;> omega
          simp [hnonneg, hwhole, hwithin, Except.toOption, Int.not_lt.mp hbelow, Int.not_lt.mp hbeyond, hsize]
  all_goals rfl

end Primer
