import Mathlib.Algebra.Order.Field.Basic
import Mathlib.Algebra.Order.Field.Rat
import Mathlib.Algebra.Order.Ring.Abs
import Mathlib.Tactic.Ring
import ProtoLisp.Decimal.Quotient
import ProtoLisp.Proofs.DecimalText

/-!
# The numbers that decimals stand for

A decimal stands for a rational number.  With the exponent given, that number determines the decimal;
at a smaller exponent the decimal is another one that stands for the same number.  Sums, differences and
products are exact, comparisons compare the numbers, and a decimal without fraction digits is written
as its number is, whatever the exponent.
-/

namespace ProtoLisp.Decimal

/-- The number that the decimal stands for. -/
def toRat (d : Decimal) : ℚ := d.coefficient * 10 ^ d.exponent.toInt

variable {a b d : Decimal}

theorem tenPow_cast (n : Nat) : (tenPow n : ℚ) = 10 ^ n := by
  simp [tenPow]

theorem ten_zpow_pos (e : ℤ) : (0 : ℚ) < 10 ^ e := zpow_pos (by norm_num) e

theorem ten_zpow_ne_zero (e : ℤ) : (10 : ℚ) ^ e ≠ 0 := (ten_zpow_pos e).ne'

theorem toRat_eq_zero_iff : d.toRat = 0 ↔ d.coefficient = 0 := by
  simp [toRat, ten_zpow_ne_zero]

theorem toRat_eq_iff (hexponent : a.exponent = b.exponent) :
    a.toRat = b.toRat ↔ a.coefficient = b.coefficient := by
  rw [toRat, toRat, hexponent, mul_left_inj' (ten_zpow_ne_zero _), Int.cast_inj]

/-- A decimal is determined by its number and its exponent. -/
theorem eq_of_toRat (hvalue : a.toRat = b.toRat)
    (hexponent : a.exponent.toInt = b.exponent.toInt) : a = b := by
  have hexponent' : a.exponent = b.exponent := Int32.toInt_inj.mp hexponent
  have hcoefficient := (toRat_eq_iff hexponent').mp hvalue
  cases a
  cases b
  simp_all

/-! ### Other exponents -/

@[simp]
theorem exponent_rescale (d : Decimal) (e : Int32) : (d.rescale e).exponent = e := by
  unfold rescale
  split
  · rfl
  · split <;> rfl

/-- At a smaller exponent nothing is lost. -/
theorem toRat_rescale {e : Int32} (he : e.toInt ≤ d.exponent.toInt) :
    (d.rescale e).toRat = d.toRat := by
  unfold rescale
  by_cases hzero : d.coefficient = 0
  · simp [toRat, hzero]
  · rw [if_neg hzero]
    by_cases hle : d.exponent ≤ e
    · have heq : e.toInt = d.exponent.toInt := le_antisymm he (Int32.le_iff_toInt_le.mp hle)
      simp [hle, toRat, heq, tenPow]
    · rw [if_neg hle]
      have hsplit : d.exponent.toInt =
          ((d.exponent.toInt - e.toInt).toNat : ℤ) + e.toInt := by omega
      simp only [toRat, Int.cast_mul, tenPow_cast]
      conv_rhs => rw [hsplit, zpow_add₀ (by norm_num), zpow_natCast, ← mul_assoc]

theorem toInt_commonExponent (a b : Decimal) :
    (commonExponent a b).toInt = min a.exponent.toInt b.exponent.toInt := by
  unfold commonExponent
  split
  next hle => exact (min_eq_left (Int32.le_iff_toInt_le.mp hle)).symm
  next hgt =>
    rw [Int32.le_iff_toInt_le] at hgt
    exact (min_eq_right (Int.le_of_not_le hgt)).symm

theorem toRat_rescale_left (a b : Decimal) :
    (a.rescale (commonExponent a b)).toRat = a.toRat := by
  apply toRat_rescale
  rw [toInt_commonExponent]
  exact min_le_left _ _

theorem toRat_rescale_right (a b : Decimal) :
    (b.rescale (commonExponent a b)).toRat = b.toRat := by
  apply toRat_rescale
  rw [toInt_commonExponent]
  exact min_le_right _ _

/-! ### Sums, differences and products -/

theorem toInt_exponent_add (a b : Decimal) :
    (a.add b).exponent.toInt = min a.exponent.toInt b.exponent.toInt :=
  toInt_commonExponent a b

theorem toInt_exponent_sub (a b : Decimal) :
    (a.sub b).exponent.toInt = min a.exponent.toInt b.exponent.toInt :=
  toInt_commonExponent a b

theorem toRat_add (a b : Decimal) : (a.add b).toRat = a.toRat + b.toRat := by
  rw [← toRat_rescale_left a b, ← toRat_rescale_right a b]
  simp only [toRat, add, exponent_rescale]
  push_cast
  ring

theorem toRat_sub (a b : Decimal) : (a.sub b).toRat = a.toRat - b.toRat := by
  rw [← toRat_rescale_left a b, ← toRat_rescale_right a b]
  simp only [toRat, sub, exponent_rescale]
  push_cast
  ring

theorem toRat_neg (d : Decimal) : d.neg.toRat = -d.toRat := by
  simp [toRat, neg]

theorem fits_iff {e : ℤ} : fits e = true ↔ -2 ^ 31 ≤ e ∧ e < 2 ^ 31 := by
  simp only [fits, Bool.and_eq_true, decide_eq_true_eq]
  omega

/-- Exponents that fit are kept as they are. -/
theorem toInt_ofInt_of_fits {e : ℤ} (hfits : fits e = true) : (Int32.ofInt e).toInt = e := by
  rw [fits_iff] at hfits
  exact Int32.toInt_ofInt_of_le hfits.1 hfits.2

theorem mul?_eq_none_iff :
    a.mul? b = none ↔ fits (a.exponent.toInt + b.exponent.toInt) = false := by
  simp [mul?, productExponent]

theorem of_mul? {product : Decimal} (hmul : a.mul? b = some product) :
    product.toRat = a.toRat * b.toRat ∧
      product.exponent.toInt = a.exponent.toInt + b.exponent.toInt := by
  have hfits : fits (a.exponent.toInt + b.exponent.toInt) = true := by
    rw [← Bool.not_eq_false, ← mul?_eq_none_iff, hmul]
    simp
  have hexponent := toInt_ofInt_of_fits hfits
  obtain rfl : ⟨a.coefficient * b.coefficient,
      Int32.ofInt (a.exponent.toInt + b.exponent.toInt)⟩ = product := by
    simpa [mul?, productExponent, hfits] using hmul
  refine ⟨?_, hexponent⟩
  simp only [toRat, hexponent]
  rw [zpow_add₀ (by norm_num)]
  push_cast
  ring

/-! ### Comparisons -/

theorem lt_iff (a b : Decimal) : lt a b = true ↔ a.toRat < b.toRat := by
  rw [← toRat_rescale_left a b, ← toRat_rescale_right a b]
  simp only [lt, decide_eq_true_eq, toRat, exponent_rescale]
  rw [mul_lt_mul_iff_left₀ (ten_zpow_pos _), Int.cast_lt]

theorem sameValue_iff (a b : Decimal) : sameValue a b = true ↔ a.toRat = b.toRat := by
  rw [← toRat_rescale_left a b, ← toRat_rescale_right a b, toRat_eq_iff (by simp)]
  simp only [sameValue, beq_iff_eq]

theorem toRat_abs (d : Decimal) : d.abs.toRat = |d.toRat| := by
  rw [toRat, toRat, abs_mul, abs_of_pos (ten_zpow_pos _)]
  simp [abs]

/-! ### Writing -/

theorem toRat_plain (d : Decimal) : d.plain.toRat = d.toRat := by
  unfold plain
  split
  next hpos =>
    rw [exponent_pos_iff] at hpos
    have hsplit : d.exponent.toInt = (d.exponent.toInt.toNat : ℤ) := by omega
    conv_rhs => rw [toRat, hsplit, zpow_natCast]
    simp [toRat, tenPow]
  · rfl

/-- Without fraction digits, a decimal is written as its number is. -/
theorem text_eq_of_toRat (ha : 0 ≤ a.exponent.toInt) (hb : 0 ≤ b.exponent.toInt)
    (hvalue : a.toRat = b.toRat) : a.text = b.text := by
  have hplain : ∀ {d : Decimal}, 0 ≤ d.exponent.toInt → d.plain.exponent = 0 := by
    intro d hd
    apply exponent_plain
    rw [exponent_neg_iff]
    omega
  have hsame : a.plain = b.plain := by
    apply eq_of_toRat
    · rw [toRat_plain, toRat_plain, hvalue]
    · rw [hplain ha, hplain hb]
  rw [← text_plain a, ← text_plain b, hsame]

end ProtoLisp.Decimal
