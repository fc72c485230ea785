import Mathlib.Algebra.Order.Field.Power
import Mathlib.Algebra.Order.Field.Rat
import Mathlib.Algebra.Order.Floor.Ring
import Mathlib.Tactic.FieldSimp
import Mathlib.Tactic.Linarith
import Mathlib.Tactic.Positivity
import Mathlib.Tactic.Ring
import Stepwise.Binary64.Basic

/-! The exact value of a binary number, and which number an integer is rounded to. A quotient is rounded to an
integer at most a half away; with a mantissa of 53 bits that integer is the mantissa of the nearest number, since
every number below the first of those with the same exponent is farther away than this one. -/
namespace Stepwise.Binary64

/-! ### Values -/

def sign (negative : Bool) : ℚ := if negative then -1 else 1

theorem abs_sign (negative : Bool) : |sign negative| = 1 := by
  cases negative <;> norm_num [sign]

/-- The exact value, a dyadic rational. -/
def value (x : Binary64) : ℚ := sign x.negative * (x.mantissa * 2 ^ x.exponent)

theorem value_eq_units (x : Binary64) : x.value = x.units / 2 ^ 1074 := by
  have hLeast : 0 ≤ x.exponent + 1074 := by linarith [x.canonical.2.1]
  have hPower : (2 : ℚ) ^ x.exponent = 2 ^ (x.exponent + 1074).toNat / 2 ^ 1074 := by
    rw [eq_div_iff (by positivity), ← zpow_natCast, ← zpow_natCast, Int.toNat_of_nonneg hLeast,
      ← zpow_add₀ two_ne_zero]
    rfl
  have hUnits : (x.units : ℚ) = sign x.negative * (x.mantissa * 2 ^ (x.exponent + 1074).toNat) := by
    unfold units sign
    cases x.negative <;> simp
  rw [value, hUnits, hPower, mul_div_assoc, mul_div_assoc]

/-- Numbers are ordered by their values. -/
theorem order_eq_compare (x y : Binary64) : x.order y = compare x.value y.value := by
  have hPos : (0 : ℚ) < 2 ^ 1074 := by positivity
  rw [order, value_eq_units, value_eq_units]
  rcases lt_trichotomy x.units y.units with hLt | hEq | hGt
  · rw [compare_lt_iff_lt.mpr hLt, compare_lt_iff_lt.mpr (div_lt_div_of_pos_right (by exact_mod_cast hLt) hPos)]
  · rw [compare_eq_iff_eq.mpr hEq, compare_eq_iff_eq.mpr (by rw [hEq])]
  · rw [compare_gt_iff_gt.mpr hGt, compare_gt_iff_gt.mpr (div_lt_div_of_pos_right (by exact_mod_cast hGt) hPos)]

/-- Every number is a multiple of a power of two, or below the least multiple with a mantissa of 53 bits. -/
theorem exists_multiple_or_lt (x : Binary64) (exponent : Int) :
    (∃ k : Int, x.value = k * 2 ^ exponent) ∨ |x.value| < 2 ^ 52 * 2 ^ exponent := by
  rcases le_or_gt exponent x.exponent with hAbove | hBelow
  · left
    obtain ⟨shift, hShift⟩ := Int.le.dest hAbove
    refine ⟨(if x.negative then -1 else 1) * (x.mantissa * 2 ^ shift), ?_⟩
    rw [value, ← hShift, zpow_add₀ two_ne_zero, zpow_natCast]
    cases x.negative <;> simp [sign] <;> ring
  · right
    have hMantissa : (x.mantissa : ℚ) < 2 ^ 53 := by exact_mod_cast x.canonical.1
    have hPower : (2 : ℚ) ^ x.exponent ≤ 2 ^ (exponent - 1) :=
      zpow_le_zpow_right₀ one_le_two (by omega)
    have hValue : |x.value| = x.mantissa * 2 ^ x.exponent := by
      rw [value, abs_mul, abs_sign, one_mul, abs_of_nonneg (by positivity)]
    calc |x.value| = x.mantissa * 2 ^ x.exponent := hValue
      _ ≤ x.mantissa * 2 ^ (exponent - 1) := by gcongr
      _ < 2 ^ 53 * 2 ^ (exponent - 1) := by gcongr
      _ = 2 ^ 52 * 2 ^ exponent := by
        rw [zpow_sub_one₀ two_ne_zero]
        ring

/-! ### Quotients -/

/-- A quotient is rounded to an integer less than a half away, or to an even one a half away. -/
theorem abs_roundDiv_sub (num : Nat) {den : Nat} (hDen : 0 < den) :
    |(roundDiv num den : ℚ) - num / den| < 1 / 2 ∨
      (|(roundDiv num den : ℚ) - num / den| = 1 / 2 ∧ roundDiv num den % 2 = 0) := by
  have hPos : (0 : ℚ) < den := by exact_mod_cast hDen
  have hSplit : (num : ℚ) / den = (num / den : Nat) + (num % den : Nat) / den := by
    have hDivMod : ((den * (num / den) + num % den : Nat) : ℚ) = num := by rw [Nat.div_add_mod]
    rw [← hDivMod]
    push_cast
    field_simp
  have hNonneg : (0 : ℚ) ≤ (num % den : Nat) / den := by positivity
  have hBelow : ((num % den : Nat) : ℚ) / den < 1 := by
    rw [div_lt_one hPos]
    exact_mod_cast Nat.mod_lt num hDen
  rw [hSplit]
  unfold roundDiv
  dsimp only
  split_ifs with hLess hMore
  · have hPart : ((num % den : Nat) : ℚ) / den < 1 / 2 := by
      rw [div_lt_div_iff₀ hPos two_pos, one_mul, mul_comm]
      exact_mod_cast hLess
    refine .inl ?_
    rw [abs_lt]
    constructor <;> linarith
  · have hPart : (1 : ℚ) / 2 < (num % den : Nat) / den := by
      rw [div_lt_div_iff₀ two_pos hPos, one_mul, mul_comm]
      exact_mod_cast hMore
    refine .inl ?_
    rw [abs_lt]
    push_cast
    constructor <;> linarith
  · have hPart : ((num % den : Nat) : ℚ) / den = 1 / 2 := by
      have hTie : num % den * 2 = 1 * den := by omega
      rw [div_eq_div_iff hPos.ne' two_ne_zero]
      exact_mod_cast hTie
    refine .inr ⟨?_, by omega⟩
    rw [hPart]
    rcases Nat.mod_two_eq_zero_or_one (num / den) with hEven | hOdd
    · rw [hEven, Nat.add_zero, sub_add_cancel_left, abs_neg, abs_of_pos one_half_pos]
    · rw [hOdd, Nat.cast_add, Nat.cast_one, add_sub_add_left_eq_sub, sub_half, abs_of_pos one_half_pos]

/-- Every other integer is farther from a quotient than the one to which it is rounded, or as far and then that
one is even. -/
theorem abs_roundDiv_sub_lt (num : Nat) {den : Nat} (hDen : 0 < den) {k : Int} (hOther : k ≠ roundDiv num den) :
    |(roundDiv num den : ℚ) - num / den| < |(k : ℚ) - num / den| ∨
      (|(roundDiv num den : ℚ) - num / den| = |(k : ℚ) - num / den| ∧ roundDiv num den % 2 = 0) := by
  have hApart : (1 : ℚ) ≤ |(k : ℚ) - roundDiv num den| := by
    have hInt : 1 ≤ |k - roundDiv num den| := Int.one_le_abs (sub_ne_zero.mpr hOther)
    exact_mod_cast hInt
  have hTriangle : |(k : ℚ) - roundDiv num den| ≤
      |(k : ℚ) - num / den| + |(roundDiv num den : ℚ) - num / den| := by
    rw [abs_sub_comm (roundDiv num den : ℚ)]
    exact abs_sub_le _ _ _
  rcases abs_roundDiv_sub num hDen with hNear | ⟨hTie, hEven⟩
  · exact .inl (by linarith)
  · rcases lt_or_eq_of_le (by linarith : (1 : ℚ) / 2 ≤ |(k : ℚ) - num / den|) with hFar | hSame
    · exact .inl (by linarith)
    · exact .inr ⟨by linarith, hEven⟩

/-! ### Integers -/

/-- A number nearest to a rational: every other value is farther away, or as far and then the mantissa of this
one is even. -/
def Nearest (q : ℚ) (x : Binary64) : Prop :=
  ∀ y : Binary64, y.value = x.value ∨ |x.value - q| < |y.value - q| ∨
    (|x.value - q| = |y.value - q| ∧ x.mantissa % 2 = 0)

theorem scaleDown_spec (num : Nat) {den : Nat} (hDen : 0 < den) (exponent : Int) :
    0 < (scaleDown num den exponent).2 ∧
      ((scaleDown num den exponent).1 : ℚ) / (scaleDown num den exponent).2 = num / (den * 2 ^ exponent) := by
  cases exponent with
  | ofNat e =>
      refine ⟨Nat.mul_pos hDen (Nat.pow_pos two_pos), ?_⟩
      simp [scaleDown]
  | negSucc e =>
      refine ⟨hDen, ?_⟩
      rw [scaleDown, zpow_negSucc, ← div_eq_mul_inv, div_div_eq_mul_div]
      simp

/-- An integer divided by the power of two that leaves 53 bits before the point. -/
theorem scaled_integer_bounds {num : Nat} (hNum : num ≠ 0) :
    (2 : ℚ) ^ 52 ≤ num / 2 ^ ((num.log2 : Int) - 52) ∧ (num : ℚ) / 2 ^ ((num.log2 : Int) - 52) < 2 ^ 53 := by
  have hPos : (0 : ℚ) < 2 ^ ((num.log2 : Int) - 52) := by positivity
  have hPower (k : Nat) : (2 : ℚ) ^ k * 2 ^ ((num.log2 : Int) - 52) = 2 ^ ((k : Int) + (num.log2 - 52)) := by
    rw [← zpow_natCast, ← zpow_add₀ two_ne_zero]
  rw [le_div_iff₀ hPos, div_lt_iff₀ hPos, hPower, hPower]
  constructor
  · have hLow : ((2 ^ num.log2 : Nat) : ℚ) ≤ num := by exact_mod_cast Nat.log2_self_le hNum
    simpa using hLow
  · have hHigh : (num : ℚ) < ((2 ^ (num.log2 + 1) : Nat) : ℚ) := by exact_mod_cast Nat.lt_log2_self
    have hExponent : ((53 : Nat) : Int) + (num.log2 - 52) = ((num.log2 + 1 : Nat) : Int) := by omega
    rw [hExponent, zpow_natCast]
    exact_mod_cast hHigh

theorem exponentFor_one {num : Nat} (hNum : num ≠ 0) : exponentFor num 1 = (num.log2 : Int) - 52 := by
  have hEstimate : Int.ofNat num.log2 - Int.ofNat (Nat.log2 1) - 52 = (num.log2 : Int) - 52 := by
    have hLog : Nat.log2 1 = 0 := by decide
    rw [hLog]
    simp
  obtain ⟨hPos, hScaled⟩ := scaleDown_spec num Nat.one_pos ((num.log2 : Int) - 52)
  have hLarge := (scaled_integer_bounds hNum).1
  unfold exponentFor
  dsimp only
  rw [hEstimate]
  generalize scaleDown num 1 ((num.log2 : Int) - 52) = pair at hPos hScaled ⊢
  have hEnough : ¬ pair.1 < pair.2 * Nat.pow 2 52 := by
    rw [Nat.cast_one, one_mul] at hScaled
    rw [← hScaled, le_div_iff₀ (by exact_mod_cast hPos), mul_comm] at hLarge
    exact Nat.not_lt.mpr (by exact_mod_cast hLarge)
  rw [if_neg hEnough]
  omega

/-- Rounding does not leave the range of 53 bits, but for its upper end. -/
theorem roundDiv_bounds {n d : Nat} (hDen : 0 < d) (hLow : (2 : ℚ) ^ 52 ≤ n / d)
    (hHigh : (n : ℚ) / d < 2 ^ 53) : 2 ^ 52 ≤ roundDiv n d ∧ roundDiv n d ≤ 2 ^ 53 := by
  have hNear : |(roundDiv n d : ℚ) - n / d| ≤ 1 / 2 := by
    rcases abs_roundDiv_sub n hDen with hLt | ⟨hEq, -⟩
    · exact hLt.le
    · exact hEq.le
  obtain ⟨hBelow, hAbove⟩ := abs_le.mp hNear
  constructor
  · have hLt : ((2 ^ 52 : Nat) : ℚ) < ((roundDiv n d + 1 : Nat) : ℚ) := by
      push_cast
      linarith
    exact Nat.lt_succ_iff.mp (by exact_mod_cast hLt)
  · have hLt : (roundDiv n d : ℚ) < ((2 ^ 53 + 1 : Nat) : ℚ) := by
      push_cast
      linarith
    exact Nat.lt_succ_iff.mp (by exact_mod_cast hLt)

/-- An integer is rounded to a multiple of the power of two that leaves it 53 bits. -/
theorem ofRatio?_one (negative : Bool) {num : Nat} (hNum : num ≠ 0) (hLog : num.log2 ≤ 1022) :
    ∃ (x : Binary64) (n d : Nat), ofRatio? negative num 1 = some x ∧ 0 < d ∧
      (n : ℚ) / d = num / 2 ^ ((num.log2 : Int) - 52) ∧
      x.value = sign negative * (roundDiv n d * 2 ^ ((num.log2 : Int) - 52)) ∧
      (roundDiv n d % 2 = 0 → x.mantissa % 2 = 0) := by
  obtain ⟨hPos, hScaled⟩ := scaleDown_spec num Nat.one_pos ((num.log2 : Int) - 52)
  rw [Nat.cast_one, one_mul] at hScaled
  obtain ⟨hLow, hHigh⟩ := scaled_integer_bounds hNum
  rw [← hScaled] at hLow hHigh
  obtain ⟨hLeast, hMost⟩ := roundDiv_bounds hPos hLow hHigh
  unfold ofRatio?
  rw [if_neg hNum, exponentFor_one hNum]
  dsimp only
  generalize scaleDown num 1 ((num.log2 : Int) - 52) = pair at *
  have hExponent : -52 ≤ (num.log2 : Int) - 52 ∧ (num.log2 : Int) - 52 ≤ 970 := by omega
  generalize (num.log2 : Int) - 52 = exponent at *
  split_ifs with hCarry
  · -- the mantissa would have a bit too many, so it is halved
    refine ⟨⟨negative, Nat.pow 2 52, exponent + 1, ?_⟩, pair.1, pair.2, ?_, hPos, hScaled, ?_,
      fun _ => (by decide : Nat.pow 2 52 % 2 = 0)⟩
    · exact ⟨by decide, by omega, by omega, .inl (Nat.le_refl _)⟩
    · exact dif_pos _
    · rw [value, hCarry, zpow_add_one₀ two_ne_zero]
      simp only [Nat.pow_eq, Nat.cast_pow, Nat.cast_ofNat]
      ring
  · have hLess : roundDiv pair.1 pair.2 < Nat.pow 2 53 := lt_of_le_of_ne hMost hCarry
    refine ⟨⟨negative, roundDiv pair.1 pair.2, exponent, ?_⟩, pair.1, pair.2, ?_, hPos, hScaled, rfl, id⟩
    · exact ⟨hLess, by omega, by omega, .inl hLeast⟩
    · exact dif_pos _

/-- A rounded multiple is the nearest number. A number that is no multiple of the same power of two is smaller
than all those with a mantissa of 53 bits at that power, and so farther away than the least of them. -/
theorem nearest_of_roundDiv {x : Binary64} {negative : Bool} {num den : Nat} {exponent : Int} (hDen : 0 < den)
    (hLarge : (2 : ℚ) ^ 52 ≤ num / den)
    (hValue : x.value = sign negative * (roundDiv num den * 2 ^ exponent))
    (hEven : roundDiv num den % 2 = 0 → x.mantissa % 2 = 0) :
    Nearest (sign negative * (num / den * 2 ^ exponent)) x := by
  intro y
  have hMultiple := y.exists_multiple_or_lt exponent
  have hPower : (0 : ℚ) < 2 ^ exponent := by positivity
  generalize (2 : ℚ) ^ exponent = power at *
  have hDistance (a b : ℚ) :
      |sign negative * (a * power) - sign negative * (b * power)| = |a - b| * power := by
    rw [← mul_sub, ← sub_mul, abs_mul, abs_sign, one_mul, abs_mul, abs_of_pos hPower]
  rcases hMultiple with ⟨k, hk⟩ | hSmall
  · obtain ⟨k, hk⟩ : ∃ k : Int, y.value = sign negative * (k * power) := by
      cases negative with
      | false => exact ⟨k, by rw [hk, sign, if_neg Bool.false_ne_true, one_mul]⟩
      | true => exact ⟨-k, by rw [hk, sign, if_pos rfl, Int.cast_neg, neg_one_mul, neg_mul, neg_neg]⟩
    by_cases hSame : k = roundDiv num den
    · left
      rw [hk, hValue, hSame, Int.cast_natCast]
    · right
      rw [hk, hValue, hDistance, hDistance]
      rcases abs_roundDiv_sub_lt num hDen hSame with hFar | ⟨hTie, hRoundEven⟩
      · exact .inl (mul_lt_mul_of_pos_right hFar hPower)
      · exact .inr ⟨by rw [hTie], hEven hRoundEven⟩
  · right
    left
    have hLeast : |(roundDiv num den : ℚ) - num / den| ≤ num / den - 2 ^ 52 := by
      have hAbs : |((2 ^ 52 : Int) : ℚ) - num / den| = num / den - 2 ^ 52 := by
        rw [Int.cast_pow, Int.cast_ofNat, abs_sub_comm, abs_of_nonneg (by linarith)]
      rw [← hAbs]
      by_cases hSame : 2 ^ 52 = (roundDiv num den : Int)
      · rw [hSame, Int.cast_natCast]
      · rcases abs_roundDiv_sub_lt num hDen hSame with hFar | ⟨hTie, -⟩
        · exact hFar.le
        · exact hTie.le
    calc |x.value - sign negative * (num / den * power)|
        = |(roundDiv num den : ℚ) - num / den| * power := by rw [hValue, hDistance]
      _ ≤ (num / den - 2 ^ 52) * power := mul_le_mul_of_nonneg_right hLeast hPower.le
      _ < num / den * power - |y.value| := by linarith
      _ = |sign negative * (num / den * power)| - |y.value| := by
        rw [abs_mul, abs_sign, one_mul, abs_of_nonneg (mul_nonneg (by linarith) hPower.le)]
      _ ≤ |y.value - sign negative * (num / den * power)| := by
        rw [abs_sub_comm]
        exact abs_sub_abs_le_abs_sub _ _

theorem eq_sign_mul_natAbs (n : Int) : (n : ℚ) = sign (decide (n < 0)) * n.natAbs := by
  rcases lt_or_ge n 0 with hNegative | hPositive
  · rw [decide_eq_true hNegative, sign, if_pos rfl, Nat.cast_natAbs, abs_of_neg hNegative, Int.cast_neg,
      neg_one_mul, neg_neg]
  · rw [decide_eq_false (not_lt.mpr hPositive), sign, if_neg Bool.false_ne_true, one_mul, Nat.cast_natAbs,
      abs_of_nonneg hPositive]

theorem value_ofInt_zero : (ofInt 0).value = 0 := by
  have hZero : ofInt 0 = zero false := rfl
  rw [hZero, value, zero, Nat.cast_zero, zero_mul, mul_zero]

/-- An integer is rounded to the nearest number. -/
theorem nearest_ofInt {n : Int} (hLog : n.natAbs.log2 ≤ 1022) : Nearest n (ofInt n) := by
  rcases eq_or_ne n 0 with rfl | hn
  · intro y
    rw [value_ofInt_zero, Int.cast_zero, sub_self, sub_zero, abs_zero]
    rcases eq_or_ne y.value 0 with hZero | hOther
    · exact .inl hZero
    · exact .inr (.inl (abs_pos.mpr hOther))
  · have hNum : n.natAbs ≠ 0 := Int.natAbs_ne_zero.mpr hn
    obtain ⟨x, num, den, hRatio, hDen, hScaled, hValue, hEven⟩ := ofRatio?_one (decide (n < 0)) hNum hLog
    have hRounded : ofInt n = x := by
      unfold ofInt
      dsimp only
      rw [hRatio, Option.getD_some]
    have hPower : (2 : ℚ) ^ ((n.natAbs.log2 : Int) - 52) ≠ 0 := by positivity
    have hInteger : (n : ℚ) =
        sign (decide (n < 0)) * (num / den * 2 ^ ((n.natAbs.log2 : Int) - 52)) := by
      rw [hScaled, div_mul_cancel₀ _ hPower]
      exact eq_sign_mul_natAbs n
    rw [hRounded, hInteger]
    exact nearest_of_roundDiv hDen (hScaled ▸ (scaled_integer_bounds hNum).1) hValue hEven

/-! ### Nearest numbers -/

namespace Nearest

variable {q : ℚ} {x y : Binary64}

theorem value_le (h : Nearest q x) (hy : q ≤ y.value) : x.value ≤ y.value := by
  by_contra hAbove
  rw [not_le] at hAbove
  have hx : |x.value - q| = x.value - q := abs_of_nonneg (by linarith)
  have hy : |y.value - q| = y.value - q := abs_of_nonneg (by linarith)
  rcases h y with hSame | hFar | ⟨hTie, -⟩
  · exact hAbove.ne hSame
  · linarith
  · linarith

theorem le_value (h : Nearest q x) (hy : y.value ≤ q) : y.value ≤ x.value := by
  by_contra hBelow
  rw [not_le] at hBelow
  have hx : |x.value - q| = q - x.value := by rw [abs_sub_comm, abs_of_nonneg (by linarith)]
  have hy : |y.value - q| = q - y.value := by rw [abs_sub_comm, abs_of_nonneg (by linarith)]
  rcases h y with hSame | hFar | ⟨hTie, -⟩
  · exact hBelow.ne hSame.symm
  · linarith
  · linarith

/-- What is the value of some number is rounded to itself. -/
theorem value_eq (h : Nearest q x) (hy : y.value = q) : x.value = q :=
  hy ▸ le_antisymm (h.value_le hy.ge) (h.le_value hy.le)

/-- Rounding changes no comparison, but with the number to which is rounded. -/
theorem compare_eq (h : Nearest q x) (hy : y.value ≠ x.value) : compare x.value y.value = compare q y.value := by
  rcases lt_trichotomy q y.value with hLess | hSame | hGreater
  · rw [compare_lt_iff_lt.mpr hLess, compare_lt_iff_lt]
    exact lt_of_le_of_ne (h.value_le hLess.le) hy.symm
  · exact absurd ((h.value_eq hSame.symm).trans hSame).symm hy
  · rw [compare_gt_iff_gt.mpr hGreater, compare_gt_iff_gt]
    exact lt_of_le_of_ne (h.le_value hGreater.le) hy

end Nearest

/-- An integer is the value of a number if no more than 53 bits stand before its last zeros. -/
theorem exists_value_iff {n : Int} (hLog : n.natAbs.log2 ≤ 1022) :
    (∃ x : Binary64, x.value = n) ↔ ∃ (k : Int) (j : Nat), |k| < 2 ^ 53 ∧ n = k * 2 ^ j := by
  constructor
  · rintro ⟨x, hx⟩
    have hMantissa : (x.mantissa : ℚ) < 2 ^ 53 := by exact_mod_cast x.canonical.1
    rcases le_or_gt 0 x.exponent with hPositive | hNegative
    · obtain ⟨j, hj⟩ := Int.eq_ofNat_of_zero_le hPositive
      refine ⟨(if x.negative then -1 else 1) * x.mantissa, j, ?_, ?_⟩
      · have hAbs : |(if x.negative then -1 else 1 : Int)| = 1 := by cases x.negative <;> rfl
        rw [abs_mul, hAbs, one_mul, Nat.abs_cast]
        exact_mod_cast x.canonical.1
      · have hCast : (n : ℚ) = ((if x.negative then -1 else 1) * x.mantissa * 2 ^ j : Int) := by
          rw [← hx, value, hj, zpow_natCast, sign, ← mul_assoc]
          push_cast
          rfl
        exact_mod_cast hCast
    · refine ⟨n, 0, ?_, by rw [pow_zero, mul_one]⟩
      have hPower : (2 : ℚ) ^ x.exponent ≤ 1 := zpow_le_one_of_nonpos₀ one_le_two hNegative.le
      have hSmall : |(n : ℚ)| < 2 ^ 53 := by
        calc |(n : ℚ)| = x.mantissa * 2 ^ x.exponent := by
              rw [← hx, value, abs_mul, abs_sign, one_mul, abs_of_nonneg (by positivity)]
          _ ≤ x.mantissa * 1 := by gcongr
          _ < 2 ^ 53 := by rwa [mul_one]
      exact_mod_cast hSmall
  · rintro ⟨k, j, hk, rfl⟩
    rcases eq_or_ne k 0 with rfl | hNonzero
    · exact ⟨ofInt 0, by rw [value_ofInt_zero, zero_mul, Int.cast_zero]⟩
    have hAbs : k.natAbs ≠ 0 := Int.natAbs_ne_zero.mpr hNonzero
    -- the mantissa is shifted until it has 53 bits
    have hBits : k.natAbs.log2 ≤ 52 := by
      have hBelow : k.natAbs < 2 ^ 53 := by zify; exact hk
      exact Nat.lt_succ_iff.mp ((Nat.log2_lt hAbs).mpr hBelow)
    have hExponent : k.natAbs.log2 + j ≤ 1022 := by
      have hLow : 2 ^ (k.natAbs.log2 + j) ≤ k.natAbs * 2 ^ j := by
        rw [pow_add]
        exact Nat.mul_le_mul_right _ (Nat.log2_self_le hAbs)
      rw [Int.natAbs_mul, Int.natAbs_pow] at hLog
      exact ((Nat.le_log2 (Nat.mul_ne_zero hAbs (by positivity))).mpr hLow).trans hLog
    refine ⟨⟨decide (k < 0), k.natAbs * 2 ^ (52 - k.natAbs.log2), (k.natAbs.log2 + j : Nat) - 52, ?_⟩, ?_⟩
    · refine ⟨?_, by omega, by omega, .inl ?_⟩
      · calc k.natAbs * 2 ^ (52 - k.natAbs.log2)
            < 2 ^ (k.natAbs.log2 + 1) * 2 ^ (52 - k.natAbs.log2) :=
              Nat.mul_lt_mul_of_pos_right Nat.lt_log2_self (by positivity)
          _ = 2 ^ 53 := by rw [← pow_add, Nat.add_right_comm, Nat.add_sub_cancel' hBits]
      · calc 2 ^ 52
            = 2 ^ k.natAbs.log2 * 2 ^ (52 - k.natAbs.log2) := by
              rw [← pow_add, Nat.add_sub_cancel' hBits]
          _ ≤ k.natAbs * 2 ^ (52 - k.natAbs.log2) := Nat.mul_le_mul_right _ (Nat.log2_self_le hAbs)
    · have hPower : (2 : ℚ) ^ (52 - k.natAbs.log2) * 2 ^ (((k.natAbs.log2 + j : Nat) : Int) - 52) = 2 ^ j := by
        rw [← zpow_natCast, ← zpow_natCast, ← zpow_add₀ two_ne_zero]
        congr 1
        omega
      rw [value]
      dsimp only
      rw [Nat.cast_mul, Nat.cast_pow, Nat.cast_ofNat, mul_assoc, hPower, ← mul_assoc, ← eq_sign_mul_natAbs]
      push_cast
      rfl

/-- Rounding keeps the sign of an integer, so integers of different signs keep their order. -/
theorem order_ofInt_of_signs {m n : Int} (hm : m < 0) (hn : 0 < n) (hLogM : m.natAbs.log2 ≤ 1022)
    (hLogN : n.natAbs.log2 ≤ 1022) : (ofInt m).order (ofInt n) = .lt := by
  obtain ⟨x, hx⟩ := (exists_value_iff (n := -1) (by decide)).mpr ⟨-1, 0, by decide, rfl⟩
  obtain ⟨y, hy⟩ := (exists_value_iff (n := 1) (by decide)).mpr ⟨1, 0, by decide, rfl⟩
  have hLower : (ofInt m).value ≤ x.value := by
    refine (nearest_ofInt hLogM).value_le ?_
    rw [hx]
    exact_mod_cast Int.le_sub_one_of_lt hm
  have hUpper : y.value ≤ (ofInt n).value := by
    refine (nearest_ofInt hLogN).le_value ?_
    rw [hy]
    exact_mod_cast hn
  have hBetween : x.value < y.value := by
    rw [hx, hy]
    norm_num
  rw [order_eq_compare]
  exact compare_lt_iff_lt.mpr (hLower.trans_lt (hBetween.trans_le hUpper))

end Stepwise.Binary64
