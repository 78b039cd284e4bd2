/- GID: Grotto/Base/Binary64
   digest: Rounding to 53 binary digits, the nearest and of two the even one, with unbounded exponents. -/

import Mathlib.Data.Int.Log
import Mathlib.Data.Rat.Floor
import Mathlib.Tactic.Linarith
import Mathlib.Tactic.Positivity

set_option autoImplicit false

namespace Grotto.Base.Binary64

/-- The nearest whole number, and of two the even one. -/
def roundEven (x : ℚ) : ℤ :=
  if x - ⌊x⌋ < 1 / 2 then ⌊x⌋
  else if 1 / 2 < x - ⌊x⌋ then ⌊x⌋ + 1
  else if ⌊x⌋ % 2 = 0 then ⌊x⌋ else ⌊x⌋ + 1

/-- The distance of the numbers of 53 digits around `x`. -/
def spacing (x : ℚ) : ℚ := 2 ^ (Int.log 2 x - 52)

def nearest (x : ℚ) : ℚ := roundEven (x / spacing x) * spacing x

/-- The largest error of a rounded number, in parts of the number. -/
def unit : ℚ := 1 / 2 ^ 53

variable {x : ℚ}

theorem roundEven_le (x : ℚ) : (roundEven x : ℚ) ≤ x + 1 / 2 := by
  have low := Int.floor_le x
  unfold roundEven
  split_ifs <;> push_cast <;> linarith

theorem roundEven_nonneg (positive : 0 ≤ x) : 0 ≤ roundEven x := by
  have low : 0 ≤ ⌊x⌋ := Int.floor_nonneg.mpr positive
  unfold roundEven
  split_ifs <;> omega

theorem roundEven_natCast (n : ℕ) : roundEven n = n := by
  unfold roundEven
  rw [Int.floor_natCast, if_pos (by norm_num)]

theorem spacing_pos (x : ℚ) : 0 < spacing x := zpow_pos two_pos _

theorem nearest_nonneg (positive : 0 ≤ x) : 0 ≤ nearest x :=
  mul_nonneg (Int.cast_nonneg (roundEven_nonneg (div_nonneg positive (spacing_pos x).le)))
    (spacing_pos x).le

theorem half_spacing_le (positive : 0 < x) : spacing x / 2 ≤ x * unit := by
  have least : (2 : ℚ) ^ Int.log 2 x ≤ x := Int.zpow_log_le_self (by decide) positive
  have scaled : spacing x / 2 = 2 ^ Int.log 2 x * unit := by
    unfold spacing unit
    rw [zpow_sub₀ two_ne_zero]
    norm_num
    ring
  rw [scaled]
  exact mul_le_mul_of_nonneg_right least (by unfold unit; positivity)

theorem nearest_le (positive : 0 ≤ x) : nearest x ≤ x * (1 + unit) := by
  rcases positive.eq_or_lt with rfl | positive
  · norm_num [nearest, roundEven]
  calc nearest x ≤ (x / spacing x + 1 / 2) * spacing x :=
        mul_le_mul_of_nonneg_right (roundEven_le _) (spacing_pos x).le
    _ = x + spacing x / 2 := by
        rw [add_mul, div_mul_cancel₀ x (spacing_pos x).ne']
        ring
    _ ≤ x * (1 + unit) := by linarith [half_spacing_le positive]

theorem nearest_natCast {n : ℕ} (small : n < 2 ^ 53) : nearest n = n := by
  rcases Nat.eq_zero_or_pos n with rfl | positive
  · norm_num [nearest, roundEven]
  have digits : Nat.log 2 n ≤ 52 := Nat.lt_succ_iff.mp (Nat.log_lt_of_lt_pow positive.ne' small)
  have whole : (n : ℚ) / spacing n = (n * 2 ^ (52 - Nat.log 2 n) : ℕ) := by
    rw [div_eq_iff (spacing_pos _).ne', spacing, Int.log_natCast]
    push_cast
    rw [mul_assoc, ← zpow_natCast, ← zpow_add₀ two_ne_zero, Nat.cast_sub digits]
    norm_num
  unfold nearest
  rw [whole, roundEven_natCast, Int.cast_natCast, ← whole, div_mul_cancel₀ _ (spacing_pos _).ne']

end Grotto.Base.Binary64
