import AudioMarkup.Binary64.Text
import Mathlib.Algebra.Order.Field.Power
import Mathlib.Data.Int.Log
import Mathlib.Data.Rat.Floor
import Mathlib.Tactic.NormNum
import Mathlib.Tactic.Positivity
import Mathlib.Tactic.Ring

/-!
Rounding. The nearest number depends on the value of a ratio only, not on how the ratio is written,
and a ratio that is a number already is rounded to that number. The shortcuts for decimals far out
of range give the same as rounding would.
-/

namespace AudioMarkup

namespace Binary64

/-! ### Powers of two below a ratio -/

private theorem reaches_iff {numerator denominator : Nat} (positive : 0 < denominator)
    (exponent : Int) :
    denominator * 2 ^ exponent.toNat ≤ numerator * 2 ^ (-exponent).toNat ↔
      (2 : ℚ) ^ exponent ≤ numerator / denominator := by
  have positiveRat : (0 : ℚ) < denominator := by exact_mod_cast positive
  rw [le_div_iff₀ positiveRat]
  rcases Int.eq_nat_or_neg exponent with ⟨size, rfl | rfl⟩
  · rw [Int.toNat_natCast, Int.toNat_of_nonpos (by omega), zpow_natCast, pow_zero, Nat.mul_one,
      Nat.mul_comm]
    exact_mod_cast Iff.rfl
  · have powerPositive : (0 : ℚ) < 2 ^ size := by positivity
    rw [Int.toNat_of_nonpos (by omega), Int.neg_neg, Int.toNat_natCast, zpow_neg, zpow_natCast,
      pow_zero, Nat.mul_one, inv_mul_le_iff₀ powerPositive, mul_comm]
    exact_mod_cast Iff.rfl

private theorem ratio_lt_of_log2 (numerator : Nat) {denominator : Nat}
    (denominatorPositive : 0 < denominator) :
    (numerator : ℚ) / denominator < (2 : ℚ) ^ ((numerator.log2 : Int) - denominator.log2 + 1) := by
  have numeratorHigh : (numerator : ℚ) < 2 ^ (numerator.log2 + 1) := by
    exact_mod_cast Nat.lt_log2_self
  have denominatorLow : (2 : ℚ) ^ denominator.log2 ≤ denominator := by
    exact_mod_cast Nat.log2_self_le (Nat.ne_of_gt denominatorPositive)
  have power : (2 : ℚ) ^ ((numerator.log2 : Int) - denominator.log2 + 1) =
      2 ^ (numerator.log2 + 1) / 2 ^ denominator.log2 := by
    rw [← zpow_natCast, ← zpow_natCast, ← zpow_sub₀ (by norm_num)]
    congr 1
    push_cast
    ring
  rw [power]
  exact div_lt_div₀ numeratorHigh denominatorLow (by positivity) (by positivity)

private theorem le_ratio_of_log2 {numerator denominator : Nat} (numeratorPositive : 0 < numerator)
    (denominatorPositive : 0 < denominator) :
    (2 : ℚ) ^ ((numerator.log2 : Int) - denominator.log2 - 1) ≤ numerator / denominator := by
  have numeratorLow : (2 : ℚ) ^ numerator.log2 ≤ numerator := by
    exact_mod_cast Nat.log2_self_le (Nat.ne_of_gt numeratorPositive)
  have denominatorHigh : (denominator : ℚ) < 2 ^ (denominator.log2 + 1) := by
    exact_mod_cast Nat.lt_log2_self
  have power : (2 : ℚ) ^ ((numerator.log2 : Int) - denominator.log2 - 1) =
      2 ^ numerator.log2 / 2 ^ (denominator.log2 + 1) := by
    rw [← zpow_natCast, ← zpow_natCast, ← zpow_sub₀ (by norm_num)]
    congr 1
    push_cast
    ring
  have denominatorPositiveRat : (0 : ℚ) < denominator := by exact_mod_cast denominatorPositive
  rw [power]
  exact div_le_div₀ (by positivity) numeratorLow denominatorPositiveRat denominatorHigh.le

private theorem eq_log_of_bounds {value : ℚ} (positive : 0 < value) {exponent : Int}
    (low : (2 : ℚ) ^ exponent ≤ value) (high : value < 2 ^ (exponent + 1)) :
    exponent = Int.log 2 value := by
  have atLeast : exponent ≤ Int.log 2 value :=
    (Int.zpow_le_iff_le_log (by norm_num) positive).mp (by exact_mod_cast low)
  have lessThan : Int.log 2 value < exponent + 1 :=
    (Int.lt_zpow_iff_log_lt (by norm_num) positive).mp (by exact_mod_cast high)
  omega

theorem floorLog2_eq_log {numerator denominator : Nat} (numeratorPositive : 0 < numerator)
    (denominatorPositive : 0 < denominator) :
    floorLog2 numerator denominator = Int.log 2 ((numerator : ℚ) / denominator) := by
  have positive : (0 : ℚ) < numerator / denominator := by positivity
  -- The difference of the two logarithms is the answer or one too much.
  simp only [floorLog2]
  split
  · rename_i reached
    apply eq_log_of_bounds positive
    · exact (reaches_iff denominatorPositive _).mp reached
    · exact ratio_lt_of_log2 numerator denominatorPositive
  · rename_i missed
    rw [reaches_iff denominatorPositive, not_le] at missed
    apply eq_log_of_bounds positive
    · exact le_ratio_of_log2 numeratorPositive denominatorPositive
    · rw [Int.sub_add_cancel]
      exact missed

/-! ### Rounding depends on the value only -/

theorem divideToEven_mul_right (numerator denominator : Nat) {factor : Nat}
    (positive : 0 < factor) :
    divideToEven (numerator * factor) (denominator * factor) =
      divideToEven numerator denominator := by
  have less (a b : Nat) : a * factor < b * factor ↔ a < b := Nat.mul_lt_mul_right positive
  simp only [divideToEven, Nat.mul_div_mul_right _ _ positive, Nat.mul_mod_mul_right,
    ← Nat.mul_assoc, less]

theorem divideToEven_one (value : Nat) : divideToEven value 1 = value := by
  simp [divideToEven, Nat.mod_one]

private theorem nearestBits_mul_right {numerator denominator factor : Nat}
    (numeratorPositive : 0 < numerator) (denominatorPositive : 0 < denominator)
    (factorPositive : 0 < factor) :
    nearestBits (numerator * factor) (denominator * factor) =
      nearestBits numerator denominator := by
  have sameLog : floorLog2 (numerator * factor) (denominator * factor) =
      floorLog2 numerator denominator := by
    rw [floorLog2_eq_log (by positivity) (by positivity),
      floorLog2_eq_log numeratorPositive denominatorPositive]
    congr 1
    have nonzero : (factor : ℚ) ≠ 0 := by positivity
    push_cast
    exact mul_div_mul_right _ _ nonzero
  simp only [nearestBits, sameLog, Nat.mul_right_comm _ factor,
    divideToEven_mul_right _ _ factorPositive]

theorem ofRatio_congr (negative : Bool)
    {numerator denominator otherNumerator otherDenominator : Nat}
    (positive : 0 < denominator) (otherPositive : 0 < otherDenominator)
    (same : (numerator : ℚ) / denominator = otherNumerator / otherDenominator) :
    ofRatio negative numerator denominator = ofRatio negative otherNumerator otherDenominator := by
  have crossed : numerator * otherDenominator = otherNumerator * denominator := by
    rw [div_eq_div_iff (by positivity) (by positivity)] at same
    exact_mod_cast same
  unfold ofRatio
  rcases Nat.eq_zero_or_pos numerator with zero | numeratorPositive
  · rw [zero, Nat.zero_mul, eq_comm, Nat.mul_eq_zero] at crossed
    rw [if_pos zero, if_pos (crossed.resolve_right positive.ne')]
  · have otherNumeratorPositive : 0 < otherNumerator := by
      have product : 0 < otherNumerator * denominator :=
        crossed ▸ Nat.mul_pos numeratorPositive otherPositive
      exact Nat.pos_of_mul_pos_right product
    rw [if_neg numeratorPositive.ne', if_neg otherNumeratorPositive.ne',
      ← nearestBits_mul_right numeratorPositive positive otherPositive, crossed,
      Nat.mul_comm denominator,
      nearestBits_mul_right otherNumeratorPositive otherPositive positive]

theorem nearestBits_le (numerator denominator : Nat) :
    nearestBits numerator denominator ≤ infinityBits :=
  Nat.min_le_right _ _

/-! ### Values that need no rounding -/

private theorem nearestBits_of_units {count : Nat} {unit : Int} (positive : 0 < count)
    (narrow : count < 2 ^ 53) (least : -1074 ≤ unit) (full : 2 ^ 52 ≤ count ∨ unit = -1074) :
    nearestBits (count * 2 ^ unit.toNat) (2 ^ (-unit).toNat) =
      min ((unit + 1074).toNat * 2 ^ 52 + count) infinityBits := by
  have value : ((count * 2 ^ unit.toNat : Nat) : ℚ) / ((2 ^ (-unit).toNat : Nat) : ℚ) =
      count * (2 : ℚ) ^ unit := by
    push_cast
    rw [mul_div_assoc, ← zpow_natCast, ← zpow_natCast, ← zpow_sub₀ (by norm_num)]
    congr 2
    omega
  have valuePositive : (0 : ℚ) < count * (2 : ℚ) ^ unit := by positivity
  have below : Int.log 2 (count * (2 : ℚ) ^ unit) < 53 + unit := by
    refine (Int.lt_zpow_iff_log_lt (by norm_num) valuePositive).mp ?_
    have narrowRat : (count : ℚ) < 2 ^ 53 := by exact_mod_cast narrow
    push_cast
    rw [zpow_add₀ (by norm_num)]
    exact mul_lt_mul_of_pos_right narrowRat (by positivity)
  have unitOf : max (floorLog2 (count * 2 ^ unit.toNat) (2 ^ (-unit).toNat) - 52) (-1074) =
      unit := by
    rw [floorLog2_eq_log (by positivity) (by positivity), value]
    rcases full with full | subnormal
    · have above : 52 + unit ≤ Int.log 2 (count * (2 : ℚ) ^ unit) := by
        refine (Int.zpow_le_iff_le_log (by norm_num) valuePositive).mp ?_
        have fullRat : (2 : ℚ) ^ 52 ≤ count := by exact_mod_cast full
        push_cast
        rw [zpow_add₀ (by norm_num)]
        exact mul_le_mul_of_nonneg_right fullRat (by positivity)
      omega
    · omega
  have counted : divideToEven (count * 2 ^ unit.toNat * 2 ^ (-unit).toNat)
      (2 ^ (-unit).toNat * 2 ^ unit.toNat) = count := by
    have split := divideToEven_mul_right count 1
      (Nat.mul_pos (Nat.two_pow_pos unit.toNat) (Nat.two_pow_pos (-unit).toNat))
    rwa [divideToEven_one, Nat.one_mul, ← Nat.mul_assoc,
      Nat.mul_comm (2 ^ unit.toNat) (2 ^ (-unit).toNat)] at split
  simp only [nearestBits, unitOf, counted]

theorem ratio_eq (x : Binary64) :
    x.ratio = (x.significand * 2 ^ ((x.biasedExponent : Int) - 1075).toNat,
      2 ^ (-((x.biasedExponent : Int) - 1075)).toNat) := by
  unfold ratio
  split
  · have rising : ((x.biasedExponent : Int) - 1075).toNat = x.biasedExponent - 1075 := by omega
    have falling : (-((x.biasedExponent : Int) - 1075)).toNat = 0 := by omega
    rw [rising, falling, Nat.pow_zero]
  · have rising : ((x.biasedExponent : Int) - 1075).toNat = 0 := by omega
    have falling : (-((x.biasedExponent : Int) - 1075)).toNat = 1075 - x.biasedExponent := by omega
    rw [rising, falling, Nat.pow_zero, Nat.mul_one]

theorem significand_lt (x : Binary64) : x.significand < 2 ^ 53 := by
  unfold significand
  split
  · omega
  · omega

/-- A finite number is nearest to its own magnitude. -/
theorem ofRatio_ratio {x : Binary64} (finite : x.isFinite = true) (negative : Bool) :
    ofRatio negative x.ratio.1 x.ratio.2 = ofMagnitudeBits negative x.magnitudeBits := by
  have bounded : x.magnitudeBits < infinityBits := by simpa [isFinite] using finite
  have exponentLeast : 1 ≤ x.biasedExponent := Nat.le_max_left _ _
  rw [ratio_eq, ofRatio]
  dsimp only
  congr 1
  rcases Nat.eq_zero_or_pos x.significand with zero | positive
  · rw [zero, Nat.zero_mul, if_pos rfl]
    unfold significand at zero
    split at zero
    · exact zero.symm
    · omega
  · have numerator : x.significand * 2 ^ ((x.biasedExponent : Int) - 1075).toNat ≠ 0 :=
      Nat.mul_ne_zero positive.ne' (Nat.two_pow_pos _).ne'
    have full : 2 ^ 52 ≤ x.significand ∨ (x.biasedExponent : Int) - 1075 = -1074 := by
      unfold significand biasedExponent
      split
      · right
        omega
      · left
        omega
    rw [if_neg numerator, nearestBits_of_units positive (significand_lt x) (by omega) full]
    unfold significand biasedExponent infinityBits at *
    split
    · omega
    · omega

theorem magnitudeBits_ofMagnitudeBits (negative : Bool) {magnitude : Nat}
    (bounded : magnitude < 2 ^ 63) :
    (ofMagnitudeBits negative magnitude).magnitudeBits = magnitude := by
  unfold magnitudeBits ofMagnitudeBits
  cases negative with
  | false =>
      rw [if_neg Bool.false_ne_true, UInt64.toNat_ofNat']
      omega
  | true =>
      rw [if_pos rfl, UInt64.toNat_ofNat']
      omega

theorem isNegative_ofMagnitudeBits (negative : Bool) {magnitude : Nat}
    (bounded : magnitude < 2 ^ 63) :
    (ofMagnitudeBits negative magnitude).isNegative = negative := by
  unfold isNegative ofMagnitudeBits
  cases negative with
  | false =>
      rw [if_neg Bool.false_ne_true, UInt64.toNat_ofNat', decide_eq_false_iff_not]
      omega
  | true =>
      rw [if_pos rfl, UInt64.toNat_ofNat', decide_eq_true_eq]
      omega

theorem ofMagnitudeBits_magnitudeBits {x : Binary64} (positive : x.isNegative = false) :
    ofMagnitudeBits false x.magnitudeBits = x := by
  have bounded : x.bits.toNat < 2 ^ 63 := by simpa [isNegative] using positive
  unfold ofMagnitudeBits magnitudeBits
  rw [if_neg Bool.false_ne_true, Nat.mod_eq_of_lt bounded, UInt64.ofNat_toNat]

end Binary64

/-! ### Decimals -/

namespace Decimal

def value (decimal : Decimal) : ℚ := decimal.digits * (10 : ℚ) ^ decimal.exponent

open Binary64 in
private theorem nearestBits_of_small {numerator denominator : Nat} (positive : 0 < numerator)
    (small : 2 * (numerator * 2 ^ 1074) < denominator) : nearestBits numerator denominator = 0 := by
  have denominatorPositive : 0 < denominator := by omega
  have below : Int.log 2 ((numerator : ℚ) / denominator) < -1075 := by
    have smallRat : 2 * ((numerator : ℚ) * 2 ^ 1074) < denominator := by exact_mod_cast small
    have denominatorRat : (0 : ℚ) < denominator := by exact_mod_cast denominatorPositive
    refine (Int.lt_zpow_iff_log_lt (by norm_num) (by positivity)).mp ?_
    rw [div_lt_iff₀ denominatorRat, Nat.cast_ofNat,
      show (-1075 : Int) = -((1074 + 1 : Nat) : Int) from rfl, zpow_neg, zpow_natCast,
      lt_inv_mul_iff₀ (by positivity), pow_succ', mul_assoc, mul_comm _ (numerator : ℚ)]
    exact smallRat
  have unit : max (floorLog2 numerator denominator - 52) (-1074) = -1074 := by
    rw [floorLog2_eq_log positive denominatorPositive]
    omega
  have shifted : (-(-1074 : Int)).toNat = 1074 := rfl
  have unshifted : (-1074 : Int).toNat = 0 := rfl
  have count : divideToEven (numerator * 2 ^ 1074) denominator = 0 := by
    have less : numerator * 2 ^ 1074 < denominator := by omega
    simp only [divideToEven, Nat.div_eq_of_lt less, Nat.mod_eq_of_lt less, if_pos small]
  simp only [nearestBits, unit, shifted, unshifted, Nat.pow_zero, Nat.mul_one, count]
  rfl

open Binary64 in
private theorem nearestBits_of_large {numerator denominator : Nat} (positive : 0 < denominator)
    (large : denominator * 2 ^ 1100 ≤ numerator) :
    nearestBits numerator denominator = infinityBits := by
  have numeratorPositive : 0 < numerator :=
    Nat.lt_of_lt_of_le (Nat.mul_pos positive (Nat.two_pow_pos _)) large
  have above : 1100 ≤ Int.log 2 ((numerator : ℚ) / denominator) := by
    have largeRat : (denominator : ℚ) * 2 ^ 1100 ≤ numerator := by exact_mod_cast large
    have denominatorRat : (0 : ℚ) < denominator := by exact_mod_cast positive
    refine (Int.zpow_le_iff_le_log (by norm_num) (by positivity)).mp ?_
    rw [le_div_iff₀ denominatorRat, Nat.cast_ofNat,
      show (1100 : Int) = ((1100 : Nat) : Int) from rfl, zpow_natCast, mul_comm]
    exact largeRat
  have unit : 1048 ≤ max (floorLog2 numerator denominator - 52) (-1074) := by
    rw [floorLog2_eq_log numeratorPositive positive]
    omega
  have enough : infinityBits ≤
      (max (floorLog2 numerator denominator - 52) (-1074) + 1074).toNat * 2 ^ 52 := by
    unfold infinityBits
    omega
  simp only [nearestBits]
  exact Nat.min_eq_right (Nat.le_trans enough (Nat.le_add_right _ _))

def ratio (decimal : Decimal) : Nat × Nat :=
  (decimal.digits * 10 ^ decimal.exponent.toNat, 10 ^ (-decimal.exponent).toNat)

theorem ratio_snd_pos (decimal : Decimal) : 0 < decimal.ratio.2 := Nat.pow_pos (by norm_num)

theorem ratio_value (decimal : Decimal) :
    (decimal.ratio.1 : ℚ) / (decimal.ratio.2 : ℚ) = decimal.value := by
  unfold ratio value
  push_cast
  rw [mul_div_assoc, ← zpow_natCast, ← zpow_natCast, ← zpow_sub₀ (by norm_num)]
  congr 2
  omega

private theorem eight_pow_le (exponent : Nat) : 2 ^ (3 * exponent) ≤ 10 ^ exponent := by
  rw [Nat.pow_mul]
  exact Nat.pow_le_pow_left (by norm_num) exponent

private theorem double_shift_lt (digits shift : Nat) :
    2 * (digits * 2 ^ shift) < 2 ^ (digits.log2 + shift + 2) := by
  have below : digits < 2 ^ (digits.log2 + 1) := Nat.lt_log2_self
  have shifted := Nat.mul_lt_mul_of_pos_right below (Nat.two_pow_pos shift)
  have powers : 2 ^ (digits.log2 + shift + 2) = 2 * (2 ^ (digits.log2 + 1) * 2 ^ shift) := by
    rw [← Nat.pow_add, ← Nat.pow_succ']
    congr 1
    omega
  omega

private theorem two_pow_le_mul_ten_pow {digits exponent bits : Nat} (nonzero : digits ≠ 0)
    (enough : bits ≤ digits.log2 + 3 * exponent) : 2 ^ bits ≤ digits * 10 ^ exponent := by
  calc 2 ^ bits
      ≤ 2 ^ (digits.log2 + 3 * exponent) := Nat.pow_le_pow_right (by norm_num) enough
    _ = 2 ^ digits.log2 * 2 ^ (3 * exponent) := Nat.pow_add ..
    _ ≤ digits * 10 ^ exponent := Nat.mul_le_mul (Nat.log2_self_le nonzero) (eight_pow_le _)

/-- The shortcuts agree with rounding the ratio. -/
theorem toBinary64_eq_ofRatio (negative : Bool) (decimal : Decimal) :
    decimal.toBinary64 negative = .ofRatio negative decimal.ratio.1 decimal.ratio.2 := by
  by_cases zero : decimal.digits = 0
  · simp [toBinary64, ratio, zero, Binary64.ofRatio]
  have positive : 0 < decimal.ratio.1 :=
    Nat.mul_pos (Nat.pos_of_ne_zero zero) (Nat.pow_pos (by norm_num))
  simp only [toBinary64, zero, decide_false, Bool.false_or, Bool.and_eq_true, decide_eq_true_eq]
  split
  · rename_i tiny
    have small : 2 * (decimal.ratio.1 * 2 ^ 1074) < decimal.ratio.2 := by
      have rising : decimal.exponent.toNat = 0 := by omega
      rw [ratio, rising, Nat.pow_zero, Nat.mul_one]
      calc 2 * (decimal.digits * 2 ^ 1074)
          < 2 ^ (decimal.digits.log2 + 1074 + 2) := double_shift_lt _ _
        _ ≤ 2 ^ (3 * (-decimal.exponent).toNat) :=
            Nat.pow_le_pow_right (by norm_num) (by omega)
        _ ≤ 10 ^ (-decimal.exponent).toNat := eight_pow_le _
    rw [Binary64.ofRatio, if_neg (Nat.ne_of_gt positive), nearestBits_of_small positive small]
  · split
    · rename_i huge
      have large : decimal.ratio.2 * 2 ^ 1100 ≤ decimal.ratio.1 := by
        have falling : (-decimal.exponent).toNat = 0 := by omega
        rw [ratio, falling, Nat.pow_zero, Nat.one_mul]
        exact two_pow_le_mul_ten_pow zero (by omega)
      rw [Binary64.ofRatio, if_neg (Nat.ne_of_gt positive),
        nearestBits_of_large decimal.ratio_snd_pos large]
      rfl
    · rfl

theorem toBinary64_congr {decimal other : Decimal} (same : decimal.value = other.value)
    (negative : Bool) : decimal.toBinary64 negative = other.toBinary64 negative := by
  rw [← ratio_value, ← ratio_value] at same
  rw [toBinary64_eq_ofRatio, toBinary64_eq_ofRatio,
    Binary64.ofRatio_congr negative decimal.ratio_snd_pos other.ratio_snd_pos same]

end Decimal
end AudioMarkup
