import Mathlib.Algebra.Order.Floor.Ring
import Mathlib.Algebra.Ring.Int.Parity
import Mathlib.Data.Int.Log
import Mathlib.Data.Rat.Floor
import Mathlib.Tactic.Linarith
import Mathlib.Tactic.Ring

/-!
# Rounding to a binary floating-point format

A finite binary number of a format is an integer multiple of the unit in the last place, which
follows the magnitude down to the smallest exponent. Values too large for the format do not
occur here, so the largest exponent is left out.
-/

namespace LeadPipe.Framework

/-- The nearest integer, the even one of two. -/
def nearestEven (x : ℚ) : ℤ :=
  if 2 * Int.fract x < 1 then ⌊x⌋
  else if 1 < 2 * Int.fract x then ⌊x⌋ + 1
  else if Even ⌊x⌋ then ⌊x⌋
  else ⌊x⌋ + 1

theorem abs_nearestEven_sub_le (x : ℚ) : |(nearestEven x : ℚ) - x| ≤ 1 / 2 := by
  have hsplit : (⌊x⌋ : ℚ) + Int.fract x = x := Int.floor_add_fract x
  have hnonneg : 0 ≤ Int.fract x := Int.fract_nonneg x
  have hlt : Int.fract x < 1 := Int.fract_lt_one x
  unfold nearestEven
  split_ifs with hlow hhigh
  · rw [abs_le]
    constructor <;> linarith
  · rw [abs_le, Int.cast_add, Int.cast_one]
    constructor <;> linarith
  · rw [abs_le]
    constructor <;> linarith
  · rw [abs_le, Int.cast_add, Int.cast_one]
    constructor <;> linarith

/-- The bits of the significand, and the exponent of the smallest positive number. -/
structure BinaryFormat where
  precision : ℕ
  minExponent : ℤ

namespace BinaryFormat

variable (f : BinaryFormat)

def single : BinaryFormat := ⟨24, -149⟩

def double : BinaryFormat := ⟨53, -1074⟩

/-- The exponent of the last bit of a number of this magnitude. -/
def lastExponent (x : ℚ) : ℤ := max (Int.log 2 |x| + 1 - f.precision) f.minExponent

def ulp (x : ℚ) : ℚ := 2 ^ f.lastExponent x

/-- To nearest, ties to even. -/
def round (x : ℚ) : ℚ := nearestEven (x / f.ulp x) * f.ulp x

theorem ulp_pos (x : ℚ) : 0 < f.ulp x := zpow_pos two_pos _

theorem abs_round_sub_le (x : ℚ) : |f.round x - x| ≤ f.ulp x / 2 := by
  have hulp := f.ulp_pos x
  have hscaled : f.round x - x = ((nearestEven (x / f.ulp x) : ℚ) - x / f.ulp x) * f.ulp x := by
    rw [sub_mul, div_mul_cancel₀ x hulp.ne', round]
  calc |f.round x - x| = |(nearestEven (x / f.ulp x) : ℚ) - x / f.ulp x| * f.ulp x := by
        rw [hscaled, abs_mul, abs_of_pos hulp]
    _ ≤ 1 / 2 * f.ulp x :=
        mul_le_mul_of_nonneg_right (abs_nearestEven_sub_le _) hulp.le
    _ = f.ulp x / 2 := by ring

/-- Up to one in magnitude the last bit is at most that of one. -/
theorem ulp_le_of_abs_le_one (hmin : f.minExponent ≤ 1 - f.precision) {x : ℚ} (hx : |x| ≤ 1) :
    f.ulp x ≤ 2 ^ (1 - (f.precision : ℤ)) := by
  refine zpow_le_zpow_right₀ one_le_two (max_le ?_ hmin)
  have hlog : Int.log 2 |x| ≤ 0 := by
    rcases (abs_nonneg x).eq_or_lt with hzero | hpos
    · rw [← hzero, Int.log_zero_right]
    · exact (Int.log_mono_right hpos hx).trans_eq (Int.log_one_right 2)
  omega

end BinaryFormat

end LeadPipe.Framework
