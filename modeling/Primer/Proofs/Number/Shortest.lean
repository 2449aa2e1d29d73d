import Primer.Number.Shortest
import Primer.Proofs.Number.Nearest

/-!
# The fewest digits

The decimal that is written for a number reads back as the number, ends in no zero, and has the fewest digits of all
decimals that read back (`shortestDecimal_isShortest`). A decimal reads back if the number is the nearest one to it, and
such rationals form an interval, the one that the search tests (`contains_iff`).

On each grid the two neighbours of the number are tried. They are enough: if any point of the grid lies in the
interval, one of them does (`hitOnGrid_isSome`). With seventeen digits one of them always does
(`exists_seventeen_digits`), because the distance of two points of that grid is below that of two sizes. A decimal of
fewer digits lies on a grid that was tried before, or one end of a decade lies between it and the number.
-/

set_option autoImplicit false

namespace Primer.Number

/-! ## Rationals as pairs -/

/-- The rational that a pair denotes. -/
def Ratio.value (r : Ratio) : ℚ := r.num / r.den

/-- The rational that a decimal denotes. -/
def Decimal.rational (d : Decimal) : ℚ := d.digits * 10 ^ d.exponent

namespace Ratio

variable {r s : Ratio}

/-- Ratios are compared as the fractions they are. -/
theorem le_iff (hr : 0 < r.den) (hs : 0 < s.den) : r.le s = true ↔ r.value ≤ s.value := by
  have hrq : (0 : ℚ) < r.den := by exact_mod_cast hr
  have hsq : (0 : ℚ) < s.den := by exact_mod_cast hs
  unfold le value
  rw [decide_eq_true_iff, div_le_div_iff₀ hrq hsq]
  exact_mod_cast Iff.rfl

/-- Ratios are compared as the fractions they are. -/
theorem lt_iff (hr : 0 < r.den) (hs : 0 < s.den) : r.lt s = true ↔ r.value < s.value := by
  have hrq : (0 : ℚ) < r.den := by exact_mod_cast hr
  have hsq : (0 : ℚ) < s.den := by exact_mod_cast hs
  unfold lt value
  rw [decide_eq_true_iff, div_lt_div_iff₀ hrq hsq]
  exact_mod_cast Iff.rfl

/-- A number times a power is the ratio it should be. -/
theorem ofPower_spec (n : Nat) {b : Nat} (hb : 0 < b) (e : Int) :
    0 < (ofPower n b e).den ∧ (ofPower n b e).value = n * (b : ℚ) ^ e := by
  unfold ofPower value
  by_cases he : 0 ≤ e
  · obtain ⟨k, rfl⟩ := Int.eq_ofNat_of_zero_le he
    rw [if_pos he]
    refine ⟨Nat.one_pos, ?_⟩
    show ((n * b ^ k : Nat) : ℚ) / ((1 : Nat) : ℚ) = n * (b : ℚ) ^ (k : Int)
    rw [zpow_natCast, Nat.cast_one, div_one]
    push_cast
    rfl
  · obtain ⟨k, hk⟩ := Int.eq_ofNat_of_zero_le (show 0 ≤ -e by omega)
    obtain rfl : e = -(k : Int) := by omega
    rw [if_neg he, Int.neg_neg, Int.toNat_natCast]
    refine ⟨Nat.pow_pos hb, ?_⟩
    show (n : ℚ) / ((b ^ k : Nat) : ℚ) = n * (b : ℚ) ^ (-(k : Int))
    rw [zpow_neg, zpow_natCast, div_eq_mul_inv]
    push_cast
    rfl

end Ratio

/-- A decimal is the ratio it should be. -/
theorem Decimal.value_spec (d : Decimal) : 0 < d.value.den ∧ d.value.value = d.rational :=
  Ratio.ofPower_spec d.digits (by norm_num) d.exponent

/-! ## The interval of a number -/

variable {b : Nat}

/-- The size before is one unit less, or half a unit below the least mantissa of an exponent. -/
theorem size_before {i k c : Nat} (h : IsMantissa i k) (hc : c + 1 = i * 2 ^ 52 + k) :
    size c = (k - (if k = 2 ^ 52 ∧ 0 < i then 1 / 2 else 1)) * unit i := by
  by_cases hnarrow : k = 2 ^ 52 ∧ 0 < i
  · obtain ⟨rfl, hi⟩ := hnarrow
    obtain ⟨j, rfl⟩ : ∃ j, i = j + 1 := ⟨i - 1, by omega⟩
    obtain rfl : c = j * 2 ^ 52 + (2 ^ 53 - 1) := by omega
    rw [if_pos ⟨rfl, hi⟩, size_grid ⟨by norm_num, .inr (by norm_num)⟩, unit_succ]
    push_cast
    ring
  · have hlt := h.lt
    have hfull := h.full
    obtain ⟨j, rfl⟩ : ∃ j, k = j + 1 := ⟨k - 1, by omega⟩
    obtain rfl : c = i * 2 ^ 52 + j := by omega
    rw [if_neg hnarrow, size_grid ⟨by omega, by omega⟩]
    push_cast
    ring

/-- The ends of the interval that is searched lie halfway to the sizes before and behind. -/
theorem roundingInterval_spec {i k c : Nat} (h : IsMantissa i k) (hc : c + 1 = i * 2 ^ 52 + k) :
    0 < (roundingInterval (magnitudeOf (c + 1))).low.den ∧ 0 < (roundingInterval (magnitudeOf (c + 1))).high.den ∧
      2 * (roundingInterval (magnitudeOf (c + 1))).low.value = size c + size (c + 1) ∧
      2 * (roundingInterval (magnitudeOf (c + 1))).high.value = size (c + 1) + size (c + 1 + 1) ∧
      (roundingInterval (magnitudeOf (c + 1))).closed = decide ((c + 1) % 2 = 0) := by
  have hleast : leastExponent = -1074 := rfl
  have hfull := h.full
  have hquarter : (2 : ℚ) ^ ((i : Int) - 1074 - 2) = unit i / 4 := by
    unfold unit
    rw [zpow_sub₀ (by norm_num) _ 2]
    norm_num
  have hnarrow : (decide (k = Nat.pow 2 52) && decide (leastExponent < (i : Int) - 1074)) =
      decide (k = 2 ^ 52 ∧ 0 < i) := by
    rw [Bool.decide_and]
    congr 1
    exact decide_eq_decide.mpr (by omega)
  rw [size_before h hc, hc, size_grid h, size_succ h, magnitudeOf_grid h]
  unfold roundingInterval
  simp only [hnarrow, decide_eq_true_eq]
  refine ⟨?_, ?_, ?_, ?_, ?_⟩
  · exact (Ratio.ofPower_spec _ (by norm_num) _).1
  · exact (Ratio.ofPower_spec _ (by norm_num) _).1
  · rw [(Ratio.ofPower_spec _ (by norm_num) _).2]
    by_cases hshort : k = 2 ^ 52 ∧ 0 < i
    · rw [if_pos hshort, if_pos hshort, Nat.cast_sub (by omega)]
      push_cast
      rw [hquarter]
      ring
    · rw [if_neg hshort, if_neg hshort, Nat.cast_sub (by omega)]
      push_cast
      rw [hquarter]
      ring
  · rw [(Ratio.ofPower_spec _ (by norm_num) _).2]
    push_cast
    rw [hquarter]
    ring
  · exact decide_eq_decide.mpr (by omega)

/-- The interval that is searched holds what is rounded to the number. -/
theorem contains_iff (hb : 0 < b) (hb' : b < infinityBits) {r : Ratio} (hr : 0 < r.den) :
    (roundingInterval (magnitudeOf b)).contains r = true ↔ IsNearest r.value b := by
  obtain ⟨i, k, hgrid, h⟩ := exists_grid b
  obtain ⟨c, rfl⟩ : ∃ c, b = c + 1 := ⟨b - 1, by omega⟩
  obtain ⟨hlowden, hhighden, hlow, hhigh, hclosed⟩ := roundingInterval_spec h hgrid
  rw [isNearest_iff hb'.le]
  unfold Interval.contains
  rw [hclosed]
  by_cases heven : (c + 1) % 2 = 0
  · rw [if_pos (decide_eq_true heven), Bool.and_eq_true, Ratio.le_iff hlowden hr, Ratio.le_iff hr hhighden]
    constructor
    · rintro ⟨hle, hge⟩
      constructor
      · intro _
        unfold FitsAbove
        rw [← hhigh]
        exact (hge.lt_or_eq).imp (fun h => by linarith) fun h => ⟨by linarith, heven⟩
      · intro d hd
        obtain rfl : d = c := by omega
        rw [← hlow]
        exact (hle.lt_or_eq).imp (fun h => by linarith) fun h => ⟨by linarith, heven⟩
    · rintro ⟨habove, hbelow⟩
      have habove := habove hb'
      have hbelow := hbelow c rfl
      unfold FitsAbove at habove
      rw [← hhigh] at habove
      rw [← hlow] at hbelow
      constructor
      · rcases hbelow with h | ⟨h, -⟩ <;> linarith
      · rcases habove with h | ⟨h, -⟩ <;> linarith
  · rw [if_neg (by simpa using heven), Bool.and_eq_true, Ratio.lt_iff hlowden hr, Ratio.lt_iff hr hhighden]
    constructor
    · rintro ⟨hlt, hgt⟩
      refine ⟨fun _ => .inl (by linarith), ?_⟩
      intro d hd
      obtain rfl : d = c := by omega
      exact .inl (by linarith)
    · rintro ⟨habove, hbelow⟩
      have habove := (habove hb').resolve_right fun h => heven h.2
      have hbelow := (hbelow c rfl).resolve_right fun h => heven h.2
      exact ⟨by linarith, by linarith⟩

/-! ## The decade of a number -/

/-- The guess of a decimal exponent from a binary one, both counted from a point that is below all of them. -/
def guessedDecade (n : Nat) : Nat := (n * 30103 + 7409172) / 100000

/-- For all binary exponents of numbers the guess is not too large, and at most six too small. -/
theorem guessedDecade_table : (List.range 2101).all (fun n =>
    Nat.ble (10 ^ guessedDecade n * 2 ^ 1100) (2 ^ (n + 24) * 10 ^ 400) &&
      Nat.ble (2 ^ (n + 26) * 10 ^ 400) (10 ^ (guessedDecade n + 7) * 2 ^ 1100)) = true := by
  decide +kernel

/-- The guess as powers of two and ten. -/
theorem guess_spec {e : Int} (hlow : -1076 ≤ e) (hhigh : e < 1025) :
    (10 : ℚ) ^ (e * 30103 / 100000 - 2) ≤ 2 ^ e ∧ (2 : ℚ) ^ (e + 2) ≤ 10 ^ (e * 30103 / 100000 - 2 + 7) := by
  obtain ⟨n, hn⟩ := Int.eq_ofNat_of_zero_le (show 0 ≤ e + 1076 by omega)
  have hrange : n ∈ List.range 2101 := List.mem_range.mpr (by omega)
  have htable := List.all_eq_true.mp guessedDecade_table n hrange
  rw [Bool.and_eq_true, Nat.ble_eq, Nat.ble_eq] at htable
  have hguess : (guessedDecade n : Int) = e * 30103 / 100000 - 2 + 400 := by
    unfold guessedDecade
    omega
  have hten (k : Int) (j : Nat) (h : (j : Int) = k + 400) : (10 : ℚ) ^ j = 10 ^ k * 10 ^ 400 := by
    rw [← zpow_natCast, h, zpow_add₀ (by norm_num)]
    rfl
  have htwo (k : Int) (j : Nat) (h : (j : Int) = k + 1100) : (2 : ℚ) ^ j = 2 ^ k * 2 ^ 1100 := by
    rw [← zpow_natCast, h, zpow_add₀ (by norm_num)]
    rfl
  have hbelow : (10 : ℚ) ^ guessedDecade n * 2 ^ 1100 ≤ 2 ^ (n + 24) * 10 ^ 400 := by exact_mod_cast htable.1
  have habove : (2 : ℚ) ^ (n + 26) * 10 ^ 400 ≤ 10 ^ (guessedDecade n + 7) * 2 ^ 1100 := by exact_mod_cast htable.2
  rw [hten _ _ hguess, htwo e (n + 24) (by omega)] at hbelow
  rw [hten (e * 30103 / 100000 - 2 + 7) (guessedDecade n + 7) (by omega), htwo (e + 2) (n + 26) (by omega)] at habove
  have hpos : (0 : ℚ) < 10 ^ 400 * 2 ^ 1100 := by positivity
  generalize (10 : ℚ) ^ 400 = ten at hbelow habove hpos
  generalize (2 : ℚ) ^ 1100 = two at hbelow habove hpos
  constructor
  · apply le_of_mul_le_mul_right _ hpos
    linarith
  · apply le_of_mul_le_mul_right _ hpos
    linarith

/-- Raising keeps the exponent at or below the ratio, and comes to the decade if it is close enough. -/
theorem raiseExponent_spec {r : Ratio} (hr : 0 < r.den) (steps : Nat) {g : Int} (hlow : (10 : ℚ) ^ g ≤ r.value)
    (hhigh : r.value < 10 ^ (g + steps + 1)) :
    (10 : ℚ) ^ raiseExponent r steps g ≤ r.value ∧ r.value < 10 ^ (raiseExponent r steps g + 1) := by
  induction steps generalizing g with
  | zero =>
    rw [Int.natCast_zero, add_zero] at hhigh
    exact ⟨hlow, hhigh⟩
  | succ steps ih =>
    obtain ⟨hden, hvalue⟩ := Ratio.ofPower_spec 1 (b := 10) (by norm_num) (g + 1)
    have hle := Ratio.le_iff hden hr
    rw [hvalue, Nat.cast_one, one_mul] at hle
    push_cast at hle
    unfold raiseExponent
    split
    · apply ih
      · exact hle.mp ‹_›
      · convert hhigh using 2
        push_cast
        ring
    · exact ⟨hlow, not_le.mp (mt hle.mpr ‹_›)⟩

/-- The size of a number as a pair. -/
def sizeRatio (b : Nat) : Ratio := Ratio.ofPower (magnitudeOf b).mantissa 2 (magnitudeOf b).exponent

/-- The size of a pattern is the ratio it should be. -/
theorem sizeRatio_spec (b : Nat) : 0 < (sizeRatio b).den ∧ (sizeRatio b).value = size b :=
  Ratio.ofPower_spec _ (by norm_num) _

/-- A pattern other than 0 is a positive number. -/
theorem size_pos (hb : 0 < b) : 0 < size b := by
  rw [← size_zero]
  exact size_strictMono hb

/-- The size of a number lies in the decade that is computed for it. -/
theorem decimalExponent_spec (hb : 0 < b) (hb' : b < infinityBits) :
    (10 : ℚ) ^ decimalExponent (sizeRatio b) ≤ size b ∧ size b < 10 ^ (decimalExponent (sizeRatio b) + 1) := by
  obtain ⟨hden, hvalue⟩ := sizeRatio_spec b
  have hsize := size_pos hb
  have hnum : 0 < (sizeRatio b).num := by
    apply Nat.pos_of_ne_zero
    intro hzero
    rw [← hvalue, Ratio.value, hzero] at hsize
    simp at hsize
  obtain ⟨hlow, hhigh⟩ := ratio_bounds hnum hden
  change _ < (sizeRatio b).value at hlow
  change (sizeRatio b).value < _ at hhigh
  rw [hvalue] at hlow hhigh
  unfold decimalExponent
  dsimp only
  generalize ((sizeRatio b).num.log2 : Int) - (sizeRatio b).den.log2 = e at hlow hhigh ⊢
  have hlow' : (2 : ℚ) ^ (e - 1) < size b := by
    convert hlow using 1
    rw [← zpow_natCast, ← zpow_add₀ (by norm_num)]
    congr 1
    push_cast
    ring
  have hhigh' : size b < 2 ^ (e - 1 + 2) := by
    convert hhigh using 1
    rw [← zpow_natCast, ← zpow_add₀ (by norm_num)]
    congr 1
    push_cast
    ring
  have hleast : size 1 ≤ size b := size_strictMono.monotone hb
  have hmost : size b < size infinityBits := size_strictMono hb'
  rw [size_one] at hleast
  rw [size_infinity] at hmost
  have hbelow : e - 1 < 1024 := (zpow_lt_zpow_iff_right₀ (by norm_num : (1 : ℚ) < 2)).mp (hlow'.trans hmost)
  have habove : -1074 < e - 1 + 2 := (zpow_lt_zpow_iff_right₀ (by norm_num : (1 : ℚ) < 2)).mp (hleast.trans_lt hhigh')
  obtain ⟨hguesslow, hguesshigh⟩ := guess_spec (e := e - 1) (by omega) (by omega)
  have hraised := raiseExponent_spec hden 6 (g := (e - 1) * 30103 / 100000 - 2)
  rw [hvalue] at hraised
  apply hraised (hguesslow.trans hlow'.le)
  rw [add_assoc]
  exact hhigh'.trans_le hguesshigh

/-! ## Neighbours on a grid -/

variable {g : Int} {d : Decimal}

/-- The two neighbours of a ratio on a grid. -/
theorem gridNeighbour_spec {r : Ratio} (hr : 0 < r.den) (g : Int) :
    (gridNeighbour r g).1 * (10 : ℚ) ^ g ≤ r.value ∧ r.value < ((gridNeighbour r g).1 + 1) * (10 : ℚ) ^ g := by
  have hunit : (0 : ℚ) < 10 ^ g := by positivity
  obtain ⟨n, d, hd, hquotient, hvalue⟩ :
      ∃ n d, 0 < d ∧ (gridNeighbour r g).1 = n / d ∧ (n / d : ℚ) = r.value / 10 ^ g := by
    unfold gridNeighbour Ratio.value
    by_cases hg : 0 ≤ g
    · obtain ⟨k, rfl⟩ := Int.eq_ofNat_of_zero_le hg
      rw [if_pos hg]
      refine ⟨r.num, r.den * 10 ^ k, Nat.mul_pos hr (by positivity), rfl, ?_⟩
      rw [zpow_natCast, div_div]
      push_cast
      rfl
    · obtain ⟨k, hk⟩ := Int.eq_ofNat_of_zero_le (show 0 ≤ -g by omega)
      obtain rfl : g = -(k : Int) := by omega
      rw [if_neg hg, Int.neg_neg, Int.toNat_natCast]
      refine ⟨r.num * 10 ^ k, r.den, hr, rfl, ?_⟩
      rw [zpow_neg, zpow_natCast, div_inv_eq_mul]
      push_cast
      ring
  have hdq : (0 : ℚ) < d := by exact_mod_cast hd
  rw [hquotient, ← le_div_iff₀ hunit, ← div_lt_iff₀ hunit, ← hvalue, le_div_iff₀ hdq, div_lt_iff₀ hdq]
  exact ⟨by exact_mod_cast Nat.div_mul_le_self n d,
    by exact_mod_cast (Nat.div_lt_iff_lt_mul hd).mp (Nat.lt_succ_self (n / d))⟩

/-- A hit is one of the two neighbours, and it is rounded to the number. -/
theorem hitOnGrid_eq_some (hb : 0 < b) (hb' : b < infinityBits)
    (h : hitOnGrid (roundingInterval (magnitudeOf b)) (sizeRatio b) g = some d) :
    d.exponent = g ∧ 0 < d.digits ∧ d.digits ≤ (gridNeighbour (sizeRatio b) g).1 + 1 ∧ IsNearest d.rational b := by
  have hcontains (d : Decimal) := contains_iff hb hb' d.value_spec.1
  simp only [Decimal.value_spec] at hcontains
  unfold hitOnGrid at h
  generalize gridNeighbour (sizeRatio b) g = neighbour at h ⊢
  obtain ⟨q, rest, scale⟩ := neighbour
  dsimp only at h ⊢
  split at h
  · rename_i hboth
    simp only [Bool.and_eq_true, decide_eq_true_eq, hcontains] at hboth
    split at h
    · cases h
      exact ⟨rfl, hboth.1.1, Nat.le_succ q, hboth.1.2⟩
    · cases h
      exact ⟨rfl, Nat.succ_pos q, le_rfl, hboth.2⟩
  · split at h
    · rename_i hbelow
      simp only [Bool.and_eq_true, decide_eq_true_eq, hcontains] at hbelow
      cases h
      exact ⟨rfl, hbelow.1, Nat.le_succ q, hbelow.2⟩
    · split at h
      · rename_i habove
        rw [hcontains] at habove
        cases h
        exact ⟨rfl, Nat.succ_pos q, le_rfl, habove⟩
      · cases h

/-- If any point of the grid is rounded to the number, one of its two neighbours is. -/
theorem hitOnGrid_isSome (hb : 0 < b) (hb' : b < infinityBits) {j : Nat} (hj : 0 < j)
    (h : IsNearest (j * 10 ^ g) b) :
    (hitOnGrid (roundingInterval (magnitudeOf b)) (sizeRatio b) g).isSome = true := by
  have hcontains (d : Decimal) := contains_iff hb hb' d.value_spec.1
  simp only [Decimal.value_spec, Decimal.rational] at hcontains
  obtain ⟨hden, hvalue⟩ := sizeRatio_spec b
  obtain ⟨hbelow, habove⟩ := gridNeighbour_spec hden g
  rw [hvalue] at hbelow habove
  have hself := isNearest_size hb'.le
  have hunit : (0 : ℚ) < 10 ^ g := by positivity
  unfold hitOnGrid
  generalize gridNeighbour (sizeRatio b) g = neighbour at hbelow habove ⊢
  obtain ⟨q, rest, scale⟩ := neighbour
  dsimp only at hbelow habove ⊢
  have hhit : 0 < q ∧ IsNearest (q * 10 ^ g) b ∨ IsNearest (((q + 1 : Nat) : ℚ) * 10 ^ g) b := by
    by_cases hle : (j : ℚ) * 10 ^ g ≤ size b
    · left
      have hjq : j ≤ q := by
        have hlt : (j : ℚ) < q + 1 := lt_of_mul_lt_mul_right (hle.trans_lt habove) hunit.le
        have hlt' : j < q + 1 := by exact_mod_cast hlt
        omega
      refine ⟨by omega, h.convex hself ?_ hbelow⟩
      gcongr
    · right
      have hqj : q + 1 ≤ j := by
        have hlt : (q : ℚ) < j := lt_of_mul_lt_mul_right (hbelow.trans_lt (not_le.mp hle)) hunit.le
        exact_mod_cast hlt
      refine hself.convex h ?_ ?_
      · push_cast
        exact habove.le
      · gcongr
  rw [← hcontains ⟨q, g⟩, ← hcontains ⟨q + 1, g⟩] at hhit
  by_cases hin : (decide (0 < q) && (roundingInterval (magnitudeOf b)).contains (Decimal.value ⟨q, g⟩)) = true
  · rw [hin]
    split
    · rfl
    · rfl
  · rw [Bool.not_eq_true] at hin
    have hright := hhit.resolve_left fun h => by simp [h] at hin
    rw [hin, hright]
    rfl

/-- On the grid of seventeen digits a neighbour is rounded to the number. -/
theorem exists_seventeen_digits (hb : 0 < b) (hb' : b < infinityBits) (hg : (10 : ℚ) ^ (g + 16) ≤ size b) :
    ∃ j : Nat, 0 < j ∧ IsNearest (j * 10 ^ g) b := by
  obtain ⟨hden, hvalue⟩ := sizeRatio_spec b
  obtain ⟨hbelow, habove⟩ := gridNeighbour_spec hden g
  rw [hvalue] at hbelow habove
  generalize (gridNeighbour (sizeRatio b) g).1 = q at hbelow habove
  obtain ⟨i, k, hgrid, hmantissa⟩ := exists_grid b
  obtain ⟨c, rfl⟩ : ∃ c, b = c + 1 := ⟨b - 1, by omega⟩
  have hunit := unit_pos i
  have hbefore := size_before hmantissa hgrid
  have hbehind := size_succ hmantissa
  have hsize := size_grid hmantissa
  rw [← hgrid] at hbehind hsize
  rw [zpow_add₀ (by norm_num)] at hg
  have hstep : (0 : ℚ) < 10 ^ g := by positivity
  generalize (10 : ℚ) ^ g = step at hg hbelow habove hstep ⊢
  have hcover : step * 10 ^ (16 : Int) = step * 10 ^ 16 := rfl
  rw [hcover] at hg
  have hk : (k : ℚ) + 1 ≤ 2 ^ 53 := by exact_mod_cast hmantissa.lt
  have hnarrower : step < unit i := by
    have hmost : (k : ℚ) * unit i ≤ (2 ^ 53 - 1) * unit i := by
      gcongr
      linarith
    linarith
  by_cases hhalf : (q : ℚ) * step * 2 ≤ size c + size (c + 1)
  · refine ⟨q + 1, Nat.succ_pos q, isNearest_of_between hb'.le ?_ ?_⟩
    · have hgap : size c < size (c + 1) := size_strictMono (Nat.lt_succ_self c)
      push_cast
      linarith
    · push_cast
      rw [hbehind]
      rw [hbefore] at hhalf
      split at hhalf
      · -- below a power of two the numbers lie twice as close, but there the grid does too
        rename_i hnarrow
        have hleast : (k : ℚ) = 2 ^ 52 := by exact_mod_cast hnarrow.1
        have hcloser : step * 2 < unit i := by
          rw [hsize, hleast] at hg
          linarith
        linarith
      · linarith
  · have hpos : 0 < q := by
      rcases Nat.eq_zero_or_pos q with rfl | hpos
      · push_cast at habove
        linarith
      · exact hpos
    have hgap : size (c + 1) < size (c + 1 + 1) := size_strictMono (Nat.lt_succ_self (c + 1))
    exact ⟨q, hpos, isNearest_of_between hb'.le (by linarith) (by linarith)⟩

/-! ## The search -/

/-- The search stops at the first number of digits whose grid has a hit. -/
theorem searchDigits_spec {i : Interval} {r : Ratio} {e : Int} {steps count last : Nat} (hlow : count ≤ last)
    (hhigh : last < count + steps) (hhit : (hitOnGrid i r (e + 1 - last)).isSome = true) :
    ∃ n : Nat, count ≤ n ∧ n ≤ last ∧ hitOnGrid i r (e + 1 - n) = some (searchDigits i r e steps count) ∧
      ∀ k : Nat, count ≤ k → k < n → hitOnGrid i r (e + 1 - k) = none := by
  induction steps generalizing count with
  | zero => omega
  | succ steps ih =>
    unfold searchDigits
    split
    · rename_i d hd
      exact ⟨count, le_rfl, hlow, hd, fun k hle hlt => by omega⟩
    · rename_i hnone
      have hne : count ≠ last := by
        rintro rfl
        rw [hnone] at hhit
        cases hhit
      obtain ⟨n, hle, hn, hsome, hbefore⟩ := ih (show count + 1 ≤ last by omega) (by omega)
      refine ⟨n, by omega, hn, hsome, fun k hk hlt => ?_⟩
      rcases hk.lt_or_eq with hmore | rfl
      · exact hbefore k hmore hlt
      · exact hnone

/-- The zeros at the end go into the exponent. -/
theorem dropZeros_spec (steps : Nat) {d : Decimal} (hpos : 0 < d.digits) (hlt : d.digits < 10 ^ steps) :
    (dropZeros steps d).digits % 10 ≠ 0 ∧ (dropZeros steps d).rational = d.rational ∧
      ∃ t, d.digits = (dropZeros steps d).digits * 10 ^ t := by
  -- Each step takes a digit away, and there are at most as many digits as steps.
  induction steps generalizing d with
  | zero => omega
  | succ steps ih =>
    unfold dropZeros
    split
    · rename_i hzero
      simp only [Bool.and_eq_true, decide_eq_true_eq] at hzero
      obtain ⟨hmore, hsame, t, ht⟩ := ih (d := ⟨d.digits / 10, d.exponent + 1⟩) (by dsimp only; omega)
        (by dsimp only; omega)
      have htenth : d.digits = d.digits / 10 * 10 := by omega
      refine ⟨hmore, hsame.trans ?_, t + 1, ?_⟩
      · have htenth' : (d.digits : ℚ) = (d.digits / 10 : Nat) * 10 := by exact_mod_cast htenth
        unfold Decimal.rational
        rw [htenth', zpow_add_one₀ (by norm_num)]
        ring
      · rw [pow_succ, ← Nat.mul_assoc, ← ht]
        exact htenth
    · rename_i hmore
      rw [Bool.and_eq_true, decide_eq_true_eq, decide_eq_true_eq] at hmore
      exact ⟨fun hzero => hmore ⟨hzero, hpos⟩, rfl, 0, by simp⟩

/-- The decimal is the shortest one that reads back as the number: it ends in no zero, the number is the nearest one to
it, and no decimal of fewer digits does. -/
structure IsShortest (d : Decimal) (b : Nat) : Prop where
  last : d.digits % 10 ≠ 0
  nearest : IsNearest d.rational b
  fewest : ∀ (n : Nat) (g : Int) (count : Nat), 0 < n → n < 10 ^ count → IsNearest (n * 10 ^ g) b →
    d.digits < 10 ^ count

/-- A decimal with a given number of digits lies on a grid that has a hit, or below the decade of the number. -/
theorem hitOnGrid_isSome_of_digits (hb : 0 < b) (hb' : b < infinityBits) {n count : Nat} (hn : 0 < n)
    (hlt : n < 10 ^ count) (h : IsNearest (n * 10 ^ g) b) :
    (hitOnGrid (roundingInterval (magnitudeOf b)) (sizeRatio b)
      (decimalExponent (sizeRatio b) + 1 - count)).isSome = true := by
  have hdecade := (decimalExponent_spec hb hb').1
  generalize decimalExponent (sizeRatio b) = e at hdecade ⊢
  have hten : (10 : ℚ) ≠ 0 := by norm_num
  by_cases hgrid : e + 1 - count ≤ g
  · -- the decimal is a point of the grid
    obtain ⟨t, ht⟩ := Int.eq_ofNat_of_zero_le (show 0 ≤ g - (e + 1 - count) by omega)
    apply hitOnGrid_isSome hb hb' (j := n * 10 ^ t) (by positivity)
    convert h using 1
    obtain rfl : g = t + (e + 1 - count) := by omega
    rw [zpow_add₀ hten t, zpow_natCast]
    push_cast
    ring
  · -- the power of ten that begins the decade lies between the two
    obtain ⟨t, rfl⟩ : ∃ t, count = t + 1 := by
      refine ⟨count - 1, ?_⟩
      rcases Nat.eq_zero_or_pos count with rfl | hpos <;> omega
    have hbegin : ((10 ^ t : Nat) : ℚ) * 10 ^ (e + 1 - (t + 1 : Nat)) = 10 ^ e := by
      push_cast
      rw [← zpow_natCast, ← zpow_add₀ hten]
      congr 1
      omega
    apply hitOnGrid_isSome hb hb' (j := 10 ^ t) (by positivity)
    rw [hbegin]
    refine h.convex (isNearest_size hb'.le) ?_ hdecade
    calc (n : ℚ) * 10 ^ g
        ≤ 10 ^ (t + 1) * 10 ^ g := by
          gcongr
          exact_mod_cast hlt.le
      _ = 10 ^ ((t + 1 : Nat) + g) := by rw [← zpow_natCast, ← zpow_add₀ hten]
      _ ≤ 10 ^ e := by
          apply zpow_le_zpow_right₀ (by norm_num)
          omega

/-- A hit has as many digits as were tried, or it is the power of ten behind the decade. -/
theorem digits_le_of_hit (hb : 0 < b) (hb' : b < infinityBits) {n : Nat}
    (h : hitOnGrid (roundingInterval (magnitudeOf b)) (sizeRatio b) (decimalExponent (sizeRatio b) + 1 - n) = some d) :
    d.digits ≤ 10 ^ n := by
  obtain ⟨hden, hvalue⟩ := sizeRatio_spec b
  have hdecade := (decimalExponent_spec hb hb').2
  have hneighbour := (hitOnGrid_eq_some hb hb' h).2.2.1
  have hbelow := (gridNeighbour_spec hden (decimalExponent (sizeRatio b) + 1 - n)).1
  rw [hvalue] at hbelow
  generalize (gridNeighbour (sizeRatio b) (decimalExponent (sizeRatio b) + 1 - n)).1 = q at hbelow hneighbour
  have hlt := hbelow.trans_lt hdecade
  rw [zpow_sub₀ (by norm_num), mul_div_assoc', div_lt_iff₀ (by positivity), mul_comm, zpow_natCast] at hlt
  have hq : (q : ℚ) < 10 ^ n := lt_of_mul_lt_mul_left hlt (by positivity)
  have hq' : q < 10 ^ n := by exact_mod_cast hq
  omega

/-- A power of ten without its zeros is one. -/
theorem eq_one_of_mul_power {k n t : Nat} (h : k * 10 ^ t = 10 ^ n) (hlast : k % 10 ≠ 0) : k = 1 := by
  rcases Nat.lt_or_ge t n with hlt | hle
  · obtain ⟨j, rfl⟩ : ∃ j, n = j + 1 + t := ⟨n - t - 1, by omega⟩
    rw [pow_add] at h
    have hk : k = 10 ^ (j + 1) := Nat.eq_of_mul_eq_mul_right (by positivity) h
    rw [pow_succ] at hk
    omega
  · have hpower : (10 : Nat) ^ n ≤ 1 * 10 ^ t := by
      rw [Nat.one_mul]
      exact Nat.pow_le_pow_right (by norm_num) hle
    have hk : k ≤ 1 := Nat.le_of_mul_le_mul_right (h.trans_le hpower) (by positivity)
    omega

/-- What is found is the shortest decimal of the number. -/
theorem shortestDecimal_isShortest (hb : 0 < b) (hb' : b < infinityBits) :
    IsShortest (shortestDecimal (magnitudeOf b)) b := by
  obtain ⟨hdecade, hdecade'⟩ := decimalExponent_spec hb hb'
  have hseventeen : (hitOnGrid (roundingInterval (magnitudeOf b)) (sizeRatio b)
      (decimalExponent (sizeRatio b) + 1 - (17 : Nat))).isSome = true := by
    obtain ⟨j, hj, hnear⟩ := exists_seventeen_digits (g := decimalExponent (sizeRatio b) + 1 - (17 : Nat)) hb hb' (by
      convert hdecade using 2
      push_cast
      ring)
    exact hitOnGrid_isSome hb hb' hj hnear
  obtain ⟨n, hone, hmost, hhit, hbefore⟩ := searchDigits_spec (show 1 ≤ 17 by norm_num) (show 17 < 1 + 17 by norm_num)
    hseventeen
  obtain ⟨-, hpos, hneighbour, hnearest⟩ := hitOnGrid_eq_some hb hb' hhit
  have hshort : shortestDecimal (magnitudeOf b) = dropZeros 20 (searchDigits (roundingInterval (magnitudeOf b))
      (sizeRatio b) (decimalExponent (sizeRatio b)) 17 1) := rfl
  rw [hshort]
  generalize searchDigits _ _ _ 17 1 = found at hhit hpos hneighbour hnearest ⊢
  have hdigits := digits_le_of_hit hb hb' hhit
  have hfits : found.digits < 10 ^ 20 := by
    have hle : (10 : Nat) ^ n ≤ 10 ^ 17 := Nat.pow_le_pow_right (by norm_num) hmost
    omega
  obtain ⟨hlast, hrational, t, ht⟩ := dropZeros_spec 20 hpos hfits
  generalize dropZeros 20 found = d at hlast hrational ht ⊢
  refine ⟨hlast, hrational ▸ hnearest, ?_⟩
  intro m g count hm hlt hnear
  have hsome := hitOnGrid_isSome_of_digits hb hb' hm hlt hnear
  have hcount : 1 ≤ count := by
    rcases Nat.eq_zero_or_pos count with rfl | hpos <;> omega
  have hn : n ≤ count := by
    by_contra hnot
    rw [hbefore count hcount (by omega)] at hsome
    cases hsome
  rcases hdigits.lt_or_eq with hless | hpower
  · calc d.digits ≤ d.digits * 10 ^ t := Nat.le_mul_of_pos_right _ (by positivity)
      _ = found.digits := ht.symm
      _ < 10 ^ n := hless
      _ ≤ 10 ^ count := Nat.pow_le_pow_right (by norm_num) hn
  · rw [eq_one_of_mul_power (ht.symm.trans hpower) hlast]
    exact Nat.one_lt_pow (by omega) (by norm_num)

end Primer.Number
