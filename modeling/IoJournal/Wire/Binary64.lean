import Mathlib.Data.Rat.Floor
import Mathlib.Algebra.Order.Field.Power
import Mathlib.Tactic.Linarith
import Mathlib.Tactic.NormNum

/-!
# Wire.Binary64

The numbers of the binary interchange format with 64 bits.

* `value bits` is the number the fields of a finite pattern stand for: a significand below `2 ^ 53`
  times a power of two.
* `magnitude_gap`: two numbers differ by more than a `2 ^ 53`rd of the smaller.
* `sub_integer_gap`: so does a number from every integer it is not.
-/

namespace Wire
namespace Binary64

def negative (bits : UInt64) : Bool := decide (2 ^ 63 ≤ bits.toNat)

def exponentField (bits : UInt64) : Nat := bits.toNat / 2 ^ 52 % 2 ^ 11

def fractionField (bits : UInt64) : Nat := bits.toNat % 2 ^ 52

/-- The fraction with its leading bit, which the numbers of the least exponent do not have. -/
def significand (bits : UInt64) : Nat :=
  if exponentField bits = 0 then fractionField bits else 2 ^ 52 + fractionField bits

def exponent (bits : UInt64) : Int :=
  if exponentField bits = 0 then -1074 else (exponentField bits : Int) - 1075

def magnitude (bits : UInt64) : ℚ := significand bits * 2 ^ exponent bits

def value (bits : UInt64) : ℚ := if negative bits then -magnitude bits else magnitude bits

theorem significand_lt (bits : UInt64) : significand bits < 2 ^ 53 := by
  have : fractionField bits < 2 ^ 52 := Nat.mod_lt _ (by decide)
  unfold significand
  split <;> omega

theorem exponent_ge (bits : UInt64) : -1074 ≤ exponent bits := by
  unfold exponent
  split <;> omega

theorem significand_ge {bits : UInt64} (h : exponent bits ≠ -1074) : 2 ^ 52 ≤ significand bits := by
  unfold exponent at h
  unfold significand
  split
  · rename_i hzero
    rw [if_pos hzero] at h
    exact absurd rfl h
  · omega

theorem magnitude_nonneg (bits : UInt64) : 0 ≤ magnitude bits := by
  unfold magnitude
  positivity

theorem step_le_sub {q : Int} {a b : Int} (h : (a : ℚ) * 2 ^ q < b * 2 ^ q) :
    (2 : ℚ) ^ q ≤ b * 2 ^ q - a * 2 ^ q := by
  have hpos : (0 : ℚ) < 2 ^ q := by positivity
  have hlt : (a : ℚ) < b := lt_of_mul_lt_mul_right h hpos.le
  have hle : (a : ℚ) + 1 ≤ b := by exact_mod_cast hlt
  nlinarith

theorem magnitude_lt_steps (bits : UInt64) : magnitude bits < 2 ^ 53 * 2 ^ exponent bits := by
  have hpos : (0 : ℚ) < 2 ^ exponent bits := by positivity
  have hlt : (significand bits : ℚ) < 2 ^ 53 := by exact_mod_cast significand_lt bits
  exact mul_lt_mul_of_pos_right hlt hpos

theorem zpow_eq_steps {q r : Int} (h : q ≤ r) : (2 : ℚ) ^ r = ((2 ^ (r - q).toNat : Int) : ℚ) * 2 ^ q := by
  have hr : r = ((r - q).toNat : Int) + q := by omega
  conv_lhs => rw [hr, zpow_add₀ (by norm_num : (2 : ℚ) ≠ 0), zpow_natCast]
  push_cast
  rfl

theorem magnitude_gap {a b : UInt64} (h : magnitude a < magnitude b) :
    magnitude a < 2 ^ 53 * (magnitude b - magnitude a) := by
  have hsteps := magnitude_lt_steps a
  by_cases hq : exponent a ≤ exponent b
  · -- both are multiples of the step of `a`
    have hb : magnitude b = ((significand b * 2 ^ (exponent b - exponent a).toNat : Int) : ℚ) * 2 ^ exponent a := by
      rw [magnitude, zpow_eq_steps hq]
      push_cast
      ring
    have ha : magnitude a = ((significand a : Int) : ℚ) * 2 ^ exponent a := by
      rw [magnitude]
      push_cast
      rfl
    have hgap : (2 : ℚ) ^ exponent a ≤ magnitude b - magnitude a := by
      rw [hb, ha]
      rw [hb, ha] at h
      exact step_le_sub h
    linarith
  · -- the larger exponent has the larger number
    exfalso
    have hfull : (2 ^ 52 : ℚ) ≤ significand a := by
      have hleast := exponent_ge b
      have hne : exponent a ≠ -1074 := by omega
      exact_mod_cast significand_ge hne
    have hlow := magnitude_lt_steps b
    have hpow : (2 : ℚ) ^ (exponent b + 1) ≤ 2 ^ exponent a := zpow_le_zpow_right₀ (by norm_num) (by omega)
    rw [zpow_add_one₀ (by norm_num : (2 : ℚ) ≠ 0)] at hpow
    have hhigh : (2 ^ 52 : ℚ) * 2 ^ exponent a ≤ magnitude a := by
      rw [magnitude]
      exact mul_le_mul_of_nonneg_right hfull (by positivity)
    linarith

theorem magnitude_integer {bits : UInt64} (h : 0 ≤ exponent bits) :
    magnitude bits = ((significand bits * 2 ^ (exponent bits).toNat : Nat) : ℚ) := by
  have hsteps := zpow_eq_steps h
  rw [Int.sub_zero, zpow_zero, mul_one] at hsteps
  rw [magnitude, hsteps]
  push_cast
  rfl

theorem sub_integer_gap {bits : UInt64} (h : exponent bits < 0) {n : Int} (hn : magnitude bits ≠ n) :
    magnitude bits < 2 ^ 53 * |magnitude bits - n| := by
  have hsteps := magnitude_lt_steps bits
  have hint : (n : ℚ) = ((n * 2 ^ (0 - exponent bits).toNat : Int) : ℚ) * 2 ^ exponent bits := by
    have hone := zpow_eq_steps (Int.le_of_lt h)
    rw [zpow_zero] at hone
    calc (n : ℚ) = n * 1 := (mul_one _).symm
      _ = _ := by
        rw [hone]
        push_cast
        ring
  have hx : magnitude bits = ((significand bits : Int) : ℚ) * 2 ^ exponent bits := by
    rw [magnitude]
    push_cast
    rfl
  have hgap : (2 : ℚ) ^ exponent bits ≤ |magnitude bits - n| := by
    rcases lt_or_gt_of_ne hn with hlt | hgt
    · rw [abs_sub_comm, abs_of_pos (by linarith)]
      rw [hx, hint] at hlt ⊢
      exact step_le_sub hlt
    · rw [abs_of_pos (by linarith)]
      rw [hx, hint] at hgt ⊢
      exact step_le_sub hgt
  linarith

end Binary64
end Wire
