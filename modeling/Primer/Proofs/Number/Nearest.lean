import Mathlib.Algebra.Order.Field.Power
import Mathlib.Data.Rat.Cast.Order
import Mathlib.Tactic.FieldSimp
import Mathlib.Tactic.Linarith
import Mathlib.Tactic.Positivity
import Mathlib.Tactic.Ring
import Primer.Proofs.Number.Pattern

/-!
# The nearest number

The sizes of the numbers are counted by their patterns: a larger pattern stands for a larger size, and the pattern of
infinity for the power of two behind the largest finite size. A rational is rounded to the size that is nearest to it,
and of two sizes that are equally near to the one with the even pattern (`Number.IsNearest`). There is one such size
(`IsNearest.unique`), and `nearestBits` finds it (`nearestBits_isNearest`).

The proof follows the computation. The ratio is brought to a mantissa of fifty-three bits, or fewer at the least
exponent (`mantissaExponent_spec`); the mantissa is rounded (`roundHalfEven_spec`); and the pattern that comes out lies
on the right side of the points halfway to its neighbours, also where the mantissa overflows into the next exponent.
-/

set_option autoImplicit false

namespace Primer.Number

/-! ## Sizes -/

/-- The rational that a magnitude is. -/
def Magnitude.value (m : Magnitude) : ℚ := m.mantissa * 2 ^ m.exponent

/-- The magnitude of the numbers with a pattern. -/
def magnitudeOf (b : Nat) : Magnitude :=
  if b / 2 ^ 52 = 0 then ⟨b % 2 ^ 52, leastExponent⟩ else ⟨b % 2 ^ 52 + 2 ^ 52, (b / 2 ^ 52 : Nat) - 1075⟩

/-- The exact size of the numbers with a pattern. -/
def size (b : Nat) : ℚ := (magnitudeOf b).value

/-- The magnitude of a number depends on its pattern only. -/
theorem magnitude_eq (x : Float) : magnitude x = magnitudeOf (pattern x) := by
  unfold magnitude magnitudeOf
  rw [exponentField_eq_pattern, fractionField_eq_pattern]
  rfl

/-- A mantissa at the `i`-th exponent above the least one: it has fifty-three bits, or fewer at the least exponent. -/
structure IsMantissa (i k : Nat) : Prop where
  lt : k < 2 ^ 53
  full : i = 0 ∨ 2 ^ 52 ≤ k

/-- A pattern on the grid has its mantissa and exponent as magnitude. -/
theorem magnitudeOf_grid {i k : Nat} (h : IsMantissa i k) : magnitudeOf (i * 2 ^ 52 + k) = ⟨k, (i : Int) - 1074⟩ := by
  have hleast : leastExponent = -1074 := rfl
  have hlt := h.lt
  have hfull := h.full
  unfold magnitudeOf
  by_cases hsmall : (i * 2 ^ 52 + k) / 2 ^ 52 = 0
  · rw [if_pos hsmall]
    congr 1 <;> omega
  · rw [if_neg hsmall]
    congr 1 <;> omega

/-- Each pattern is a mantissa at some exponent. -/
theorem exists_grid (b : Nat) : ∃ i k, b = i * 2 ^ 52 + k ∧ IsMantissa i k := by
  by_cases hsmall : b / 2 ^ 52 = 0
  · exact ⟨0, b, by omega, by omega, .inl rfl⟩
  · exact ⟨b / 2 ^ 52 - 1, b % 2 ^ 52 + 2 ^ 52, by omega, by omega, .inr (by omega)⟩

/-- The unit of the `i`-th exponent above the least one. -/
def unit (i : Nat) : ℚ := 2 ^ ((i : Int) - 1074)

/-- The distance of the grid is positive. -/
theorem unit_pos (i : Nat) : 0 < unit i := by
  unfold unit
  positivity

/-- The distance of the grid doubles with each exponent. -/
theorem unit_succ (i : Nat) : unit (i + 1) = 2 * unit i := by
  unfold unit
  rw [← zpow_one_add₀ (by norm_num)]
  congr 1
  push_cast
  ring

/-- A pattern on the grid is its mantissa times the distance. -/
theorem size_grid {i k : Nat} (h : IsMantissa i k) : size (i * 2 ^ 52 + k) = k * unit i := by
  unfold size Magnitude.value
  rw [magnitudeOf_grid h]
  rfl

/-- A mantissa that overflows has the size of its pattern too. -/
theorem size_overflow (i : Nat) : size (i * 2 ^ 52 + 2 ^ 53) = 2 ^ 53 * unit i := by
  have hcarried : i * 2 ^ 52 + 2 ^ 53 = (i + 1) * 2 ^ 52 + 2 ^ 52 := by ring
  rw [hcarried, size_grid ⟨by norm_num, .inr le_rfl⟩, unit_succ]
  push_cast
  ring

/-- The pattern 0 is the number 0. -/
theorem size_zero : size 0 = 0 := by
  have h := size_grid (i := 0) (k := 0) ⟨by norm_num, .inl rfl⟩
  simpa using h

/-- The next pattern stands for one unit more. -/
theorem size_succ {i k : Nat} (h : IsMantissa i k) : size (i * 2 ^ 52 + k + 1) = (k + 1) * unit i := by
  by_cases hlast : k + 1 = 2 ^ 53
  · have hk : (k : ℚ) + 1 = 2 ^ 53 := by exact_mod_cast hlast
    rw [Nat.add_assoc, hlast, size_overflow, hk]
  · have hlt := h.lt
    rw [Nat.add_assoc, size_grid ⟨by omega, h.full.imp_right fun hfull => by omega⟩]
    push_cast
    rfl

/-- Larger patterns are larger numbers. -/
theorem size_strictMono : StrictMono size := by
  apply strictMono_nat_of_lt_succ
  intro b
  obtain ⟨i, k, rfl, h⟩ := exists_grid b
  rw [size_grid h, size_succ h]
  have hunit := unit_pos i
  linarith

/-- The least size above zero. -/
theorem size_one : size 1 = 2 ^ (-1074 : Int) := by
  have h := size_grid (i := 0) (k := 1) ⟨by norm_num, .inl rfl⟩
  simpa [unit] using h

/-- The size behind the largest finite one. -/
theorem size_infinity : size infinityBits = 2 ^ (1024 : Int) := by
  have hpattern : infinityBits = 2046 * 2 ^ 52 + 2 ^ 52 := rfl
  rw [hpattern, size_grid ⟨by norm_num, .inr le_rfl⟩, unit, Nat.cast_pow, ← zpow_natCast, Nat.cast_ofNat,
    ← zpow_add₀ (by norm_num)]
  rfl

/-! ## Rounding -/

/-- The rational is rounded to the size of the pattern: no size is nearer, and another one is equally near only if the
pattern is even. -/
def IsNearest (v : ℚ) (b : Nat) : Prop :=
  b ≤ infinityBits ∧ ∀ c ≤ infinityBits, c ≠ b →
    |v - size b| < |v - size c| ∨ |v - size b| = |v - size c| ∧ b % 2 = 0

/-- The rational does not lie above the point halfway to the next size, nor on it if the pattern is odd. -/
def FitsAbove (v : ℚ) (b : Nat) : Prop :=
  2 * v < size b + size (b + 1) ∨ 2 * v = size b + size (b + 1) ∧ b % 2 = 0

/-- The rational does not lie below the point halfway from the size before, nor on it if the pattern is odd. -/
def FitsBelow (v : ℚ) (b : Nat) : Prop :=
  ∀ c, c + 1 = b → size c + size b < 2 * v ∨ size c + size b = 2 * v ∧ b % 2 = 0

variable {v : ℚ} {b c : Nat}

/-- A pattern that fits from above is nearer than all above it. -/
theorem FitsAbove.nearer (h : FitsAbove v b) (hc : b < c) :
    |v - size b| < |v - size c| ∨ |v - size b| = |v - size c| ∧ b % 2 = 0 := by
  have hnext : size (b + 1) ≤ size c := size_strictMono.monotone hc
  have hlt : size b < size (b + 1) := size_strictMono (Nat.lt_succ_self b)
  have habove : v ≤ size c := by
    rcases h with h | ⟨h, -⟩ <;> linarith
  rw [abs_of_nonpos (sub_nonpos.mpr habove)]
  rcases le_total v (size b) with hle | hle
  · left
    rw [abs_of_nonpos (sub_nonpos.mpr hle)]
    linarith
  · rw [abs_of_nonneg (sub_nonneg.mpr hle)]
    rcases h with h | ⟨h, heven⟩
    · left
      linarith
    · rcases hnext.lt_or_eq with hlt' | heq
      · left
        linarith
      · right
        exact ⟨by linarith, heven⟩

/-- A pattern that fits from below is nearer than all below it. -/
theorem FitsBelow.nearer (h : FitsBelow v b) (hc : c < b) :
    |v - size b| < |v - size c| ∨ |v - size b| = |v - size c| ∧ b % 2 = 0 := by
  obtain ⟨d, rfl⟩ : ∃ d, b = d + 1 := ⟨b - 1, by omega⟩
  have hprevious : size c ≤ size d := size_strictMono.monotone (Nat.lt_succ_iff.mp hc)
  have hlt : size d < size (d + 1) := size_strictMono (Nat.lt_succ_self d)
  have hfits := h d rfl
  have hbelow : size c ≤ v := by
    rcases hfits with h | ⟨h, -⟩ <;> linarith
  rw [abs_of_nonneg (sub_nonneg.mpr hbelow)]
  rcases le_total (size (d + 1)) v with hle | hle
  · left
    rw [abs_of_nonneg (sub_nonneg.mpr hle)]
    linarith
  · rw [abs_of_nonpos (sub_nonpos.mpr hle)]
    rcases hfits with h | ⟨h, heven⟩
    · left
      linarith
    · rcases hprevious.lt_or_eq with hlt' | heq
      · left
        linarith
      · right
        exact ⟨by linarith, heven⟩

/-- A rational between the points halfway to the neighbours of a size is rounded to it. Nothing lies behind infinity. -/
theorem isNearest_iff (hb : b ≤ infinityBits) :
    IsNearest v b ↔ (b < infinityBits → FitsAbove v b) ∧ FitsBelow v b := by
  constructor
  · rintro ⟨-, hnearest⟩
    constructor
    · intro hlt
      have hgap : size b < size (b + 1) := size_strictMono (Nat.lt_succ_self b)
      have hnear := hnearest (b + 1) hlt (Nat.succ_ne_self b)
      by_contra hnot
      have hbeyond : size b + size (b + 1) ≤ 2 * v := by
        unfold FitsAbove at hnot
        push Not at hnot
        exact hnot.1
      rw [abs_of_nonneg (by linarith)] at hnear
      rcases le_total v (size (b + 1)) with hle | hle
      · rw [abs_of_nonpos (sub_nonpos.mpr hle)] at hnear
        apply hnot
        rcases hnear with hnear | ⟨hnear, heven⟩
        · left
          linarith
        · right
          exact ⟨by linarith, heven⟩
      · rw [abs_of_nonneg (sub_nonneg.mpr hle)] at hnear
        rcases hnear with hnear | ⟨hnear, -⟩ <;> linarith
    · rintro c rfl
      have hgap : size c < size (c + 1) := size_strictMono (Nat.lt_succ_self c)
      have hnear := hnearest c (by omega) (Nat.succ_ne_self c).symm
      by_contra hnot
      push Not at hnot
      obtain ⟨hbelow, htie⟩ := hnot
      rw [abs_of_nonpos (by linarith)] at hnear
      rcases le_total (size c) v with hle | hle
      · rw [abs_of_nonneg (sub_nonneg.mpr hle)] at hnear
        rcases hnear with hnear | ⟨hnear, heven⟩
        · linarith
        · exact htie (by linarith) heven
      · rw [abs_of_nonpos (sub_nonpos.mpr hle)] at hnear
        rcases hnear with hnear | ⟨hnear, -⟩ <;> linarith
  · rintro ⟨habove, hbelow⟩
    refine ⟨hb, ?_⟩
    intro c hc hne
    rcases Nat.lt_or_gt_of_ne hne with hlt | hgt
    · exact hbelow.nearer hlt
    · exact (habove (Nat.lt_of_lt_of_le hgt hc)).nearer hgt

/-- A rational is rounded to one size. -/
theorem IsNearest.unique (hb : IsNearest v b) (hc : IsNearest v c) : b = c := by
  -- of two patterns that are equally near and both even, one between them is nearer
  have hapart : ∀ {b c : Nat}, IsNearest v b → IsNearest v c → ¬b < c := by
    intro b c hb hc hlt
    have hgap : size b < size c := size_strictMono hlt
    have heven : |v - size b| = |v - size c| ∧ b % 2 = 0 ∧ c % 2 = 0 := by
      rcases hb.2 c hc.1 (Nat.ne_of_gt hlt) with h | ⟨h, hbeven⟩
      · rcases hc.2 b hb.1 (Nat.ne_of_lt hlt) with h' | ⟨h', -⟩ <;> linarith
      · rcases hc.2 b hb.1 (Nat.ne_of_lt hlt) with h' | ⟨h', hceven⟩
        · linarith
        · exact ⟨h, hbeven, hceven⟩
    obtain ⟨heq, hbeven, hceven⟩ := heven
    have hbetween : size b < size (b + 1) ∧ size (b + 1) < size c := by
      exact ⟨size_strictMono (by omega), size_strictMono (by omega)⟩
    have hmiddle : v - size b = -(v - size c) := by
      rcases abs_eq_abs.mp heq with h | h
      · linarith
      · exact h
    have hnear := hb.2 (b + 1) (by have := hc.1; omega) (Nat.succ_ne_self b)
    rw [abs_of_nonneg (by linarith)] at hnear
    rcases abs_cases (v - size (b + 1)) with ⟨habs, -⟩ | ⟨habs, -⟩ <;> rw [habs] at hnear <;>
      rcases hnear with hnear | ⟨hnear, -⟩ <;> linarith
  rcases Nat.lt_trichotomy b c with hlt | heq | hgt
  · exact absurd hlt (hapart hb hc)
  · exact heq
  · exact absurd hgt (hapart hc hb)

/-- What lies between two rationals that are rounded to a size is rounded to it too. -/
theorem IsNearest.convex {u w : ℚ} (hu : IsNearest u b) (hw : IsNearest w b) (huv : u ≤ v) (hvw : v ≤ w) :
    IsNearest v b := by
  have hbelow := ((isNearest_iff hu.1).mp hu).2
  have habove := ((isNearest_iff hw.1).mp hw).1
  rw [isNearest_iff hu.1]
  constructor
  · intro hlt
    rcases habove hlt with h | ⟨h, heven⟩
    · left
      linarith
    · rcases hvw.lt_or_eq with hlt' | rfl
      · left
        linarith
      · right
        exact ⟨h, heven⟩
  · intro c hc
    rcases hbelow c hc with h | ⟨h, heven⟩
    · left
      linarith
    · rcases huv.lt_or_eq with hlt' | rfl
      · left
        linarith
      · right
        exact ⟨h, heven⟩

/-- A size is rounded to itself. -/
theorem isNearest_size (hb : b ≤ infinityBits) : IsNearest (size b) b := by
  rw [isNearest_iff hb]
  have habove : size b < size (b + 1) := size_strictMono (Nat.lt_succ_self b)
  refine ⟨fun _ => .inl (by linarith), ?_⟩
  rintro c rfl
  have hbelow : size c < size (c + 1) := size_strictMono (Nat.lt_succ_self c)
  left
  linarith

/-- What lies between the points halfway to the neighbours of a size is rounded to it. -/
theorem isNearest_of_between (hb : c + 1 ≤ infinityBits) (hlow : size c + size (c + 1) < 2 * v)
    (hhigh : 2 * v < size (c + 1) + size (c + 1 + 1)) : IsNearest v (c + 1) := by
  rw [isNearest_iff hb]
  refine ⟨fun _ => .inl hhigh, ?_⟩
  rintro d hd
  obtain rfl : d = c := by omega
  exact .inl hlow

/-- What is not below the power of two behind the largest size becomes infinite. -/
theorem isNearest_infinity (h : size infinityBits ≤ v) : IsNearest v infinityBits := by
  rw [isNearest_iff le_rfl]
  refine ⟨fun hlt => absurd hlt (lt_irrefl _), ?_⟩
  intro c hc
  refine .inl ?_
  have hgap : size c < size infinityBits := size_strictMono (by omega)
  linarith

/-- What is below half the least size becomes zero. -/
theorem isNearest_zero (h : 2 * v < size 1) : IsNearest v 0 := by
  rw [isNearest_iff (Nat.zero_le _)]
  refine ⟨fun _ => .inl ?_, fun c hc => by omega⟩
  rw [size_zero, zero_add]
  exact h

/-! ## The computation -/

variable {num den : Nat}

/-- A quotient is rounded to a natural that is at most one half away from it, and to an even one if it is just that. -/
theorem roundHalfEven_spec (num : Nat) (hden : 0 < den) :
    (2 * num < 2 * (roundHalfEven num den * den) + den ∨
        2 * num = 2 * (roundHalfEven num den * den) + den ∧ roundHalfEven num den % 2 = 0) ∧
      (2 * (roundHalfEven num den * den) < 2 * num + den ∨
        2 * (roundHalfEven num den * den) = 2 * num + den ∧ roundHalfEven num den % 2 = 0) := by
  have hparts : num / den * den + num % den = num := Nat.div_add_mod' num den
  have hrest : num % den < den := Nat.mod_lt num hden
  unfold roundHalfEven
  dsimp only
  generalize num / den = q at hparts ⊢
  generalize num % den = r at hparts hrest ⊢
  have hup : (q + 1) * den = q * den + den := Nat.succ_mul q den
  split
  · omega
  · split
    · rw [hup]
      omega
    · split
      · omega
      · rw [hup]
        omega

/-- Scaling a ratio divides it by the power. -/
theorem ratioAt_spec (num : Nat) (hden : 0 < den) (e : Int) :
    0 < (ratioAt num den e).2 ∧ ((ratioAt num den e).1 : ℚ) / (ratioAt num den e).2 = num / den / 2 ^ e := by
  unfold ratioAt
  by_cases he : 0 ≤ e
  · obtain ⟨n, rfl⟩ := Int.eq_ofNat_of_zero_le he
    rw [if_pos he]
    refine ⟨Nat.mul_pos hden (Nat.two_pow_pos n), ?_⟩
    show (num : ℚ) / ((den * 2 ^ n : Nat) : ℚ) = num / den / 2 ^ (n : Int)
    rw [zpow_natCast]
    push_cast
    rw [div_div]
  · obtain ⟨n, hn⟩ := Int.eq_ofNat_of_zero_le (show 0 ≤ -e by omega)
    obtain rfl : e = -(n : Int) := by omega
    rw [if_neg he]
    refine ⟨hden, ?_⟩
    show ((num * 2 ^ (-(-(n : Int))).toNat : Nat) : ℚ) / den = num / den / 2 ^ (-(n : Int))
    rw [zpow_neg, zpow_natCast, div_inv_eq_mul, Int.neg_neg, Int.toNat_natCast]
    push_cast
    ring

/-- The binary exponents of a ratio's parts leave its mantissa between two powers of two. -/
theorem ratio_bounds (hnum : 0 < num) (hden : 0 < den) :
    2 ^ 51 * 2 ^ ((num.log2 : Int) - den.log2 - 52) < (num / den : ℚ) ∧
      (num / den : ℚ) < 2 ^ 53 * 2 ^ ((num.log2 : Int) - den.log2 - 52) := by
  have hposden : (0 : ℚ) < den := by exact_mod_cast hden
  have hnumlow : (2 : ℚ) ^ num.log2 ≤ num := by exact_mod_cast Nat.log2_self_le (Nat.ne_of_gt hnum)
  have hnumhigh : (num : ℚ) < 2 ^ (num.log2 + 1) := by exact_mod_cast Nat.lt_log2_self
  have hdenlow : (2 : ℚ) ^ den.log2 ≤ den := by exact_mod_cast Nat.log2_self_le (Nat.ne_of_gt hden)
  have hdenhigh : (den : ℚ) < 2 ^ (den.log2 + 1) := by exact_mod_cast Nat.lt_log2_self
  have hguess : (2 : ℚ) ^ ((num.log2 : Int) - den.log2 - 52) = 2 ^ num.log2 / 2 ^ den.log2 / 2 ^ 52 := by
    rw [zpow_sub₀ (by norm_num), zpow_sub₀ (by norm_num), zpow_natCast, zpow_natCast]
    norm_num
  have hpow : (0 : ℚ) < 2 ^ den.log2 := by positivity
  rw [hguess, lt_div_iff₀ hposden, div_lt_iff₀ hposden]
  constructor
  · calc 2 ^ 51 * (2 ^ num.log2 / 2 ^ den.log2 / 2 ^ 52) * (den : ℚ)
        < 2 ^ 51 * (2 ^ num.log2 / 2 ^ den.log2 / 2 ^ 52) * 2 ^ (den.log2 + 1) := by gcongr
      _ = 2 ^ num.log2 := by
        rw [pow_succ (2 : ℚ) den.log2]
        field_simp
      _ ≤ num := hnumlow
  · calc (num : ℚ) < 2 ^ (num.log2 + 1) := hnumhigh
      _ = 2 ^ 53 * (2 ^ num.log2 / 2 ^ den.log2 / 2 ^ 52) * 2 ^ den.log2 := by
        rw [pow_succ (2 : ℚ) num.log2]
        field_simp
      _ ≤ 2 ^ 53 * (2 ^ num.log2 / 2 ^ den.log2 / 2 ^ 52) * (den : ℚ) := by gcongr

/-- At its exponent a ratio has a mantissa of fifty-three bits, or fewer at the least exponent. -/
theorem mantissaExponent_spec (hnum : 0 < num) (hden : 0 < den) :
    leastExponent ≤ mantissaExponent num den ∧ (num / den : ℚ) < 2 ^ 53 * 2 ^ mantissaExponent num den ∧
      (mantissaExponent num den = leastExponent ∨ 2 ^ 52 * 2 ^ mantissaExponent num den ≤ (num / den : ℚ)) := by
  obtain ⟨hlow, hhigh⟩ := ratio_bounds hnum hden
  unfold mantissaExponent
  dsimp only
  generalize (num.log2 : Int) - den.log2 - 52 = guess at hlow hhigh ⊢
  obtain ⟨hpos, hvalue⟩ := ratioAt_spec num hden guess
  have hguess : (0 : ℚ) < 2 ^ guess := by positivity
  -- the guess is at most one too large
  obtain ⟨tight, htight, htightlow, htighthigh⟩ : ∃ tight, tight =
      (if (ratioAt num den guess).1 / (ratioAt num den guess).2 < Nat.pow 2 52 then guess - 1 else guess) ∧
      2 ^ 52 * 2 ^ tight ≤ (num / den : ℚ) ∧ (num / den : ℚ) < 2 ^ 53 * 2 ^ tight := by
    refine ⟨_, rfl, ?_⟩
    have hposq : (0 : ℚ) < (ratioAt num den guess).2 := by exact_mod_cast hpos
    have hiff : (ratioAt num den guess).1 / (ratioAt num den guess).2 < Nat.pow 2 52 ↔
        (num / den : ℚ) < 2 ^ 52 * 2 ^ guess := by
      show _ < 2 ^ 52 ↔ _
      rw [Nat.div_lt_iff_lt_mul hpos, ← div_lt_iff₀ hguess, ← hvalue, div_lt_iff₀ hposq]
      exact_mod_cast Iff.rfl
    split
    · have hbelow := hiff.mp ‹_›
      have hhalf : (2 : ℚ) ^ guess = 2 * 2 ^ (guess - 1) := by
        rw [← zpow_one_add₀ (by norm_num)]
        congr 1
        ring
      rw [hhalf] at hlow hbelow
      exact ⟨by linarith, by linarith⟩
    · have habove := not_lt.mp (mt hiff.mpr ‹_›)
      exact ⟨habove, hhigh⟩
  rw [← htight]
  split
  · have hraise : (2 : ℚ) ^ tight ≤ 2 ^ leastExponent := by
      apply zpow_le_zpow_right₀ (by norm_num)
      omega
    exact ⟨le_rfl, by linarith, .inl rfl⟩
  · exact ⟨by omega, htighthigh, .inr htightlow⟩

/-- The rounded mantissa of a ratio, with fifty-three bits unless it overflows. -/
theorem isMantissa_roundHalfEven {i n d : Nat} (hd : 0 < d) (hsmall : n < 2 ^ 53 * d)
    (hfull : i = 0 ∨ 2 ^ 52 * d ≤ n) :
    IsMantissa i (roundHalfEven n d) ∨ roundHalfEven n d = 2 ^ 53 := by
  obtain ⟨hup, hdown⟩ := roundHalfEven_spec n hd
  generalize roundHalfEven n d = k at hup hdown ⊢
  have hle : k ≤ 2 ^ 53 := by
    by_contra hlarge
    have hmul : (2 ^ 53 + 1) * d ≤ k * d := Nat.mul_le_mul_right d (by omega)
    omega
  have hge : i = 0 ∨ 2 ^ 52 ≤ k := by
    apply hfull.imp_right
    intro hn
    by_contra hsmall
    have hmul : (k + 1) * d ≤ 2 ^ 52 * d := Nat.mul_le_mul_right d (by omega)
    rw [Nat.succ_mul] at hmul
    omega
  rcases hle.lt_or_eq with hlt | heq
  · exact .inl ⟨hlt, hge⟩
  · exact .inr heq

/-- A ratio lies at most one half above and below its rounded mantissa, and just that only if the mantissa is even. -/
theorem roundHalfEven_near (n : Nat) {d : Nat} (hd : 0 < d) :
    (2 * (n / d : ℚ) < 2 * roundHalfEven n d + 1 ∨
        2 * (n / d : ℚ) = 2 * roundHalfEven n d + 1 ∧ roundHalfEven n d % 2 = 0) ∧
      (2 * (roundHalfEven n d : ℚ) < 2 * (n / d) + 1 ∨
        2 * (roundHalfEven n d : ℚ) = 2 * (n / d) + 1 ∧ roundHalfEven n d % 2 = 0) := by
  have hdq : (0 : ℚ) < d := by exact_mod_cast hd
  have hn : (n : ℚ) / d * d = n := div_mul_cancel₀ _ hdq.ne'
  obtain ⟨hup, hdown⟩ := roundHalfEven_spec n hd
  generalize roundHalfEven n d = k at hup hdown ⊢
  generalize (n : ℚ) / d = t at hn ⊢
  constructor
  · refine hup.imp ?_ ?_
    · intro h
      have hlt : (2 * n : ℚ) < 2 * (k * d) + d := by exact_mod_cast h
      apply lt_of_mul_lt_mul_right _ hdq.le
      linarith
    · rintro ⟨h, heven⟩
      refine ⟨?_, heven⟩
      have heq : (2 * n : ℚ) = 2 * (k * d) + d := by exact_mod_cast h
      apply mul_right_cancel₀ hdq.ne'
      linarith
  · refine hdown.imp ?_ ?_
    · intro h
      have hlt : (2 * (k * d) : ℚ) < 2 * n + d := by exact_mod_cast h
      apply lt_of_mul_lt_mul_right _ hdq.le
      linarith
    · rintro ⟨h, heven⟩
      refine ⟨?_, heven⟩
      have heq : (2 * (k * d) : ℚ) = 2 * n + d := by exact_mod_cast h
      apply mul_right_cancel₀ hdq.ne'
      linarith

/-- A rational whose mantissa is rounded at its exponent does not lie above the point halfway to the next size. An overflow
comes from below. -/
theorem fitsAbove_of_rounded {i n d : Nat} (hd : 0 < d) (hsmall : n < 2 ^ 53 * d) (hfull : i = 0 ∨ 2 ^ 52 * d ≤ n) :
    FitsAbove (n / d * unit i) (i * 2 ^ 52 + roundHalfEven n d) := by
  have hunit := unit_pos i
  have hparity (k : Nat) : (i * 2 ^ 52 + k) % 2 = k % 2 := by omega
  unfold FitsAbove
  rw [hparity]
  rcases isMantissa_roundHalfEven hd hsmall hfull with hmantissa | hoverflow
  · rw [size_grid hmantissa, size_succ hmantissa]
    refine (roundHalfEven_near n hd).1.imp ?_ ?_
    · intro h
      have hscaled := mul_lt_mul_of_pos_right h hunit
      linarith
    · rintro ⟨h, heven⟩
      refine ⟨?_, heven⟩
      have hscaled := congrArg (· * unit i) h
      linarith
  · left
    rw [hoverflow]
    have hdq : (0 : ℚ) < d := by exact_mod_cast hd
    have hgap : size (i * 2 ^ 52 + 2 ^ 53) < size (i * 2 ^ 52 + 2 ^ 53 + 1) := size_strictMono (Nat.lt_succ_self _)
    have hratio : (n / d : ℚ) < 2 ^ 53 := by
      rw [div_lt_iff₀ hdq]
      exact_mod_cast hsmall
    generalize (n : ℚ) / d = t at hratio ⊢
    have hbelow : t * unit i ≤ size (i * 2 ^ 52 + 2 ^ 53) := by
      rw [size_overflow]
      gcongr
    linarith

/-- A rational whose mantissa is rounded at its exponent does not lie below the point halfway from the size before. The
least mantissa of an exponent is not above the ratio. -/
theorem fitsBelow_of_rounded {i n d : Nat} (hd : 0 < d) (hsmall : n < 2 ^ 53 * d) (hfull : i = 0 ∨ 2 ^ 52 * d ≤ n) :
    FitsBelow (n / d * unit i) (i * 2 ^ 52 + roundHalfEven n d) := by
  have hunit := unit_pos i
  have hmantissa := isMantissa_roundHalfEven hd hsmall hfull
  have hnear := (roundHalfEven_near n hd).2
  generalize roundHalfEven n d = k at hmantissa hnear ⊢
  have hparity : (i * 2 ^ 52 + k) % 2 = k % 2 := by omega
  intro c hc
  rw [hparity]
  by_cases hinner : ∃ j, k = j + 1 ∧ IsMantissa i j
  · obtain ⟨j, rfl, hj⟩ := hinner
    obtain rfl : c = i * 2 ^ 52 + j := by omega
    rw [← Nat.add_assoc, size_grid hj, size_succ hj]
    push_cast at hnear
    refine hnear.imp ?_ ?_
    · intro h
      have hscaled := mul_lt_mul_of_pos_right h hunit
      linarith
    · rintro ⟨h, heven⟩
      refine ⟨?_, heven⟩
      have hscaled := congrArg (· * unit i) h
      linarith
  · left
    have hleast : i ≠ 0 ∧ k = 2 ^ 52 := by
      have hnone (j : Nat) (hj : k = j + 1) : ¬IsMantissa i j := fun h => hinner ⟨j, hj, h⟩
      rcases hmantissa with hmantissa | rfl
      · have hlt := hmantissa.lt
        have hk : k ≠ 0 := by
          rintro rfl
          rcases hmantissa.full with rfl | hlarge <;> omega
        have hprevious := hnone (k - 1) (by omega)
        rcases hmantissa.full with rfl | hlarge
        · exact absurd ⟨by omega, .inl rfl⟩ hprevious
        · refine ⟨fun hi => hprevious ⟨by omega, .inl hi⟩, ?_⟩
          by_contra hne
          exact hprevious ⟨by omega, .inr (by omega)⟩
      · exact absurd ⟨by norm_num, .inr (by norm_num)⟩ (hnone (2 ^ 53 - 1) (by norm_num))
    obtain ⟨hi, rfl⟩ := hleast
    have hdq : (0 : ℚ) < d := by exact_mod_cast hd
    have hgap : size c < size (c + 1) := size_strictMono (Nat.lt_succ_self c)
    have hratio : ((2 ^ 52 : Nat) : ℚ) ≤ n / d := by
      rw [le_div_iff₀ hdq]
      exact_mod_cast hfull.resolve_left hi
    generalize (n : ℚ) / d = t at hratio ⊢
    have habove : size (c + 1) ≤ t * unit i := by
      rw [hc, size_grid ⟨by norm_num, .inr le_rfl⟩]
      gcongr
    rw [hc] at hgap habove
    linarith

/-- The computed pattern is the nearest one. -/
theorem nearestBits_isNearest (num : Nat) {den : Nat} (hden : 0 < den) :
    IsNearest (num / den) (nearestBits num den) := by
  unfold nearestBits
  by_cases hzero : num = 0
  · rw [if_pos hzero, hzero, isNearest_iff (Nat.zero_le _)]
    refine ⟨?_, nofun⟩
    intro _
    refine .inl ?_
    have hgap : size 0 < size (0 + 1) := size_strictMono (Nat.lt_succ_self 0)
    rw [size_zero] at hgap ⊢
    simpa using hgap
  rw [if_neg hzero]
  dsimp only
  obtain ⟨hleast, hhigh, hlow⟩ := mantissaExponent_spec (Nat.pos_of_ne_zero hzero) hden
  generalize mantissaExponent num den = e at hleast hhigh hlow ⊢
  obtain ⟨hpos, hvalue⟩ := ratioAt_spec num hden e
  generalize (ratioAt num den e).1 = n at hvalue ⊢
  generalize (ratioAt num den e).2 = d at hpos hvalue ⊢
  have hleastExponent : leastExponent = -1074 := rfl
  obtain ⟨i, hi⟩ := Int.eq_ofNat_of_zero_le (show 0 ≤ e - leastExponent by omega)
  rw [hi, Int.toNat_natCast]
  have hunit : (2 : ℚ) ^ e = unit i := by
    unfold unit
    congr 1
    omega
  rw [hunit] at hvalue hhigh hlow
  have hratio : (num / den : ℚ) = n / d * unit i := by
    rw [hvalue, div_mul_cancel₀ _ (unit_pos i).ne']
  have hdq : (0 : ℚ) < d := by exact_mod_cast hpos
  rw [hratio] at hhigh hlow ⊢
  have hsmall : n < 2 ^ 53 * d := by
    have h : (n : ℚ) / d < 2 ^ 53 := lt_of_mul_lt_mul_right hhigh (unit_pos i).le
    rw [div_lt_iff₀ hdq] at h
    exact_mod_cast h
  have hfull : i = 0 ∨ 2 ^ 52 * d ≤ n := by
    refine hlow.imp (fun h => by omega) fun h => ?_
    have h : (2 : ℚ) ^ 52 ≤ n / d := le_of_mul_le_mul_right h (unit_pos i)
    rw [le_div_iff₀ hdq] at h
    exact_mod_cast h
  have habove := fitsAbove_of_rounded hpos hsmall hfull
  have hbelow := fitsBelow_of_rounded hpos hsmall hfull
  change IsNearest _ (if infinityBits ≤ i * 2 ^ 52 + roundHalfEven n d then infinityBits
    else i * 2 ^ 52 + roundHalfEven n d)
  generalize i * 2 ^ 52 + roundHalfEven n d = b at habove hbelow ⊢
  split
  · -- a ratio that is rounded to infinity or beyond is nearest to infinity
    rename_i hle
    rw [isNearest_iff le_rfl]
    refine ⟨fun hlt => absurd hlt (Nat.lt_irrefl _), ?_⟩
    rcases hle.lt_or_eq with hlt | rfl
    · intro c hc
      left
      obtain ⟨a, rfl⟩ : ∃ a, b = a + 1 := ⟨b - 1, by omega⟩
      have hprevious : size infinityBits ≤ size a := size_strictMono.monotone (Nat.lt_succ_iff.mp hlt)
      have hgap : size a < size (a + 1) := size_strictMono (Nat.lt_succ_self a)
      have hgap' : size c < size infinityBits := size_strictMono (by omega)
      rcases hbelow a rfl with h | ⟨h, -⟩ <;> linarith
    · exact hbelow
  · rename_i hnot
    exact (isNearest_iff (Nat.le_of_not_le hnot)).mpr ⟨fun _ => habove, hbelow⟩

end Primer.Number
