import Mathlib.Algebra.Group.Nat.Defs
import Primer.Number.Binary

/-!
# Lengths are finite numbers

The length of an array or a text is a machine integer, and the double nearest to one is far below the largest
double. The argument follows the rounding in the model of doubles: each of its steps changes the exponent by a
known amount, and the exponent that comes out at the end is not the one of the infinities.
-/

set_option autoImplicit false

namespace Primer

open Float.Model Float.Model.UnpackedFloat

/-- A number that is not infinite, and whose exponent is at most `bound` if it has one. -/
def UnpackedBelow (bound : Int) : UnpackedFloat → Prop
  | .finite _ _ e _ => e ≤ bound
  | .zero _ => True
  | .infinity _ | .notANumber => False

/-- What is below a bound is below each larger one. -/
theorem UnpackedBelow.mono {bound bound' : Int} (h : bound ≤ bound') {x : UnpackedFloat}
    (hx : UnpackedBelow bound x) : UnpackedBelow bound' x := by
  cases x with
  | finite s m e hm => exact Int.le_trans hx h
  | zero s => exact trivial
  | infinity s => exact hx.elim
  | notANumber => exact hx.elim

/-! ## Rounding -/

/-- Shifting right makes no mantissa larger. -/
theorem mantissa_shiftRight_le (em : ExtendedMantissa) (n : Nat) : (em >>> n).mantissa ≤ em.mantissa := by
  show (n.repeat ExtendedMantissa.shiftRightOne em).mantissa ≤ em.mantissa
  induction n with
  | zero => exact Nat.le_refl _
  | succ n ih =>
    have hhalf : (ExtendedMantissa.shiftRightOne (n.repeat ExtendedMantissa.shiftRightOne em)).mantissa ≤
        (n.repeat ExtendedMantissa.shiftRightOne em).mantissa := Nat.div_le_self _ 2
    exact Nat.le_trans hhalf ih

/-- Rounding adds at most one. -/
theorem roundedMantissa_le (em : ExtendedMantissa) : em.roundedMantissa ≤ em.mantissa + 1 := by
  unfold ExtendedMantissa.roundedMantissa Accuracy.roundToNearestEven
  split <;> omega

/-- The exponent of a number whose mantissa is below a power of two, once it is shifted. -/
theorem shiftToTargetExponent_le {m : Nat} {e : Int} (accuracy : Accuracy) {k : Nat} (hm : m < 2 ^ k)
    (hk : 0 < k) : (shiftToTargetExponent .binary64 m e accuracy).2 ≤ max e (max (k + e - 53) (-1074)) := by
  have hlog : m.log2 < k := by
    by_cases hzero : m = 0
    · subst hzero
      exact hk
    · exact (Nat.log2_lt hzero).mpr hm
  have htarget : Format.binary64.targetExponent (totalExponent m e) ≤ max (k + e - 53) (-1074) := by
    show max ((m.log2 : Int) + 1 + e - 53) (-1074) ≤ _
    omega
  show e + ((Format.binary64.targetExponent (totalExponent m e) - e).toNat : Int) ≤ _
  omega

/-- Shifting to an exponent makes no mantissa larger. -/
theorem mantissa_shiftToTargetExponent_le (m : Nat) (e : Int) :
    (shiftToTargetExponent .binary64 m e .exact).1.mantissa ≤ m :=
  mantissa_shiftRight_le ⟨m, false, false⟩ _

/-- Rounding makes the exponent larger by one at most, besides what the mantissa needs. -/
theorem roundWithAccuracy_below {m : Nat} {e : Int} (s : Sign) {k : Nat} (hm : m < 2 ^ k) (hk : 0 < k) (he : e ≤ 0)
    (hsize : k + e ≤ 64) : UnpackedBelow (k + 12) (roundWithAccuracy .binary64 s m e .exact) := by
  have hfirst := shiftToTargetExponent_le (e := e) .exact hm hk
  have hmantissa := mantissa_shiftToTargetExponent_le m e
  have hrounded := roundedMantissa_le (shiftToTargetExponent .binary64 m e .exact).1
  have hsecond : (shiftToTargetExponent .binary64 (shiftToTargetExponent .binary64 m e .exact).1.roundedMantissa
      (shiftToTargetExponent .binary64 m e .exact).2 .exact).2 ≤ k + 12 := by
    have hm' : (shiftToTargetExponent .binary64 m e .exact).1.roundedMantissa < 2 ^ (k + 1) := by
      rw [Nat.pow_succ]
      omega
    have hnext := shiftToTargetExponent_le (e := (shiftToTargetExponent .binary64 m e .exact).2) .exact hm'
      (Nat.succ_pos k)
    omega
  unfold roundWithAccuracy
  dsimp only
  generalize shiftToTargetExponent .binary64 (shiftToTargetExponent .binary64 m e .exact).1.roundedMantissa
    (shiftToTargetExponent .binary64 m e .exact).2 .exact = second at hsecond ⊢
  by_cases hzero : second.1.mantissa = 0
  · rw [dif_pos hzero]
    exact trivial
  · rw [dif_neg hzero]
    exact hsecond

/-- A natural below `2 ^ 64` becomes a number with a small exponent. -/
theorem ofNat_below {n : Nat} (hn : n < 2 ^ 64) : UnpackedBelow 130 (UnpackedFloat.ofNat .binary64 n) := by
  unfold UnpackedFloat.ofNat UnpackedFloat.ofInt UnpackedFloat.normalize
  split
  case h_1 h =>
    have hneg : (n : Int) < 0 := Int.compare_eq_lt.mp h
    omega
  case h_2 => exact trivial
  case h_3 h =>
    have hpos : 0 < n := by
      have hpos : (0 : Int) < n := Int.compare_eq_gt.mp h
      omega
    have hlog : n.log2 < 64 := (Nat.log2_lt (Nat.ne_of_gt hpos)).mpr hn
    have hself : n < 2 ^ (n.log2 + 1) := Nat.lt_log2_self
    -- The mantissa first gets all the bits that a double has.
    have hshift : ∃ shift : Nat, shift ≤ 52 ∧
        decreaseExponent n 0 (Format.binary64.targetExponent (totalExponent n 0)) = (n <<< shift, -(shift : Int)) := by
      refine ⟨(0 - Format.binary64.targetExponent (totalExponent n 0)).toNat, ?_, ?_⟩
      · show (0 - max ((n.log2 : Int) + 1 + 0 - 53) (-1074)).toNat ≤ 52
        omega
      · simp only [decreaseExponent, Int.zero_sub]
    obtain ⟨shift, hle, hdecreased⟩ := hshift
    have hshifted : n <<< shift < 2 ^ (n.log2 + 1 + shift) := by
      rw [Nat.shiftLeft_eq, Nat.pow_add]
      exact Nat.mul_lt_mul_of_pos_right hself (Nat.two_pow_pos shift)
    unfold UnpackedFloat.round
    rw [Int.toNat_natCast]
    dsimp only
    rw [hdecreased]
    refine (roundWithAccuracy_below .positive hshifted (by omega) (by omega) ?_).mono ?_
    · omega
    · omega

/-! ## Packing -/

/-- The exponent that is packed is not the one of the infinities. -/
theorem exponent_pack {x : UnpackedFloat} (hx : UnpackedBelow 900 x) :
    (unpackExponent (UnpackedFloat.pack .binary64 x)).toNat ≠ 0x7ff := by
  cases x with
  | notANumber => exact hx.elim
  | infinity s => exact hx.elim
  | zero s =>
    unfold UnpackedFloat.pack packedZero
    rw [unpackExponent_packComponents]
    decide
  | finite s m e hm =>
    have he : e ≤ 900 := hx
    have hbias : (e + (Format.exponentBias .binary64 : Int) + (52 : Nat)).toNat + 1 < 2 ^ 11 := by
      show (e + ((1023 : Nat) : Int) + (52 : Nat)).toNat + 1 < 2 ^ 11
      omega
    unfold UnpackedFloat.pack
    dsimp only
    rw [if_neg (Nat.not_le_of_lt hbias)]
    split
    · rw [unpackExponent_packComponents, BitVec.toNat_ofNat, Nat.mod_eq_of_lt (Nat.lt_of_succ_lt hbias)]
      omega
    · rw [unpackExponent_packComponents]
      decide

/-- The exponent field is the exponent of the packed bits. -/
theorem Number.exponentField_eq (x : Float) :
    exponentField x = (@unpackExponent .binary64 x.toBits.toBitVec).toNat := by
  show x.toBits.toBitVec.toNat / 2 ^ 52 % 2 ^ 11 = _
  simp only [unpackExponent, BitVec.toNat_cast, BitVec.extractLsb_toNat, Nat.shiftRight_eq_div_pow]

/-- A length is a finite number. -/
theorem Number.isFinite_ofLength (n : Nat) : isFinite (ofLength n) = true := by
  have hn : n.toUInt64.toNat < 2 ^ 64 := n.toUInt64.toNat_lt
  have hexponent := exponent_pack ((ofNat_below hn).mono (by decide : (130 : Int) ≤ 900))
  unfold isFinite
  rw [exponentField_eq]
  exact bne_iff_ne.mpr hexponent

end Primer
